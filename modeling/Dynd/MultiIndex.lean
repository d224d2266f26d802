import Dynd.ArrayElements
import Dynd.PointerType
/-!
# Indexing with several ranges

`at_array` applies a list of ranges twice: to the type, and to the arrmeta with
the data pointer. Both go through fixed and `var` dimensions, tuples and
structs, and the leading dimensions that single indices remove move the data
pointer itself. What is left must be the elements that the same indices select
one at a time.
-/
namespace Dynd.MultiIndex
open Lib LinearIndex FixedDim
open PointerType (apply_single_index idx keptNames)

/-! ## Types, arrmeta and memory -/

/-- The types that indexing goes through. A struct is a tuple with names. A
pointer is not indexed by itself here: it is what a single index makes of a
`var` dimension that is not leading. -/
inductive type (B : Type) where
  | builtin (id : B)
  | fixed_dim (dim_size : dim_size_t) (element_tp : type B)
  | var_dim (element_tp : type B)
  | tuple (field_names : Option (List String)) (field_count : ℕ) (field_types : Fin field_count → type B)
  | pointer (target_tp : type B)

/-- The arrmeta of a type, with that of the types it holds. The memory block
references are left out. -/
inductive arrmeta where
  | builtin
  | fixed_dim (md : size_stride_t) (element : arrmeta)
  | var_dim (stride offset : ℤ) (element : arrmeta)
  | tuple (data_offsets : ℕ → ℤ) (fields : ℕ → arrmeta)
  | pointer (offset : ℤ) (target : arrmeta)

inductive exception (B : Type) where
  | index (e : index_error)
  | too_many_indices (tp : type B)
  | runtime_error (message : String)
  /-- the arrmeta is not the type's -/
  | undefined_behaviour

/-- The `var_dim_type_data` at an address: `begin` and `size`. A pointer is the
first of its two words. -/
abbrev memory := ℤ → ℤ × dim_size_t

/-- An array: its type, arrmeta and data pointer. -/
structure array (B : Type) where
  tp : type B
  md : arrmeta
  data : ℤ

variable {B : Type}

def type.is_builtin : type B → Bool
  | .builtin _ => true
  | _ => false

/-- What a dimension is of, or a pointer to. -/
def type.held : type B → type B
  | .fixed_dim _ tp => tp
  | .var_dim tp => tp
  | .pointer tp => tp
  | tp => tp

def type.fields : type B → List (type B)
  | .tuple _ _ tps => List.ofFn tps
  | _ => []

def is_nop (r : irange) : Bool := r.start = intptrMin && r.finish = intptrMax && r.step.val = 1

/-! ## Applying ranges to the type -/

/-- Where an error is said to be is left out. -/
def resolve (r : irange) (n : dim_size_t) : Except (exception B) Resolved :=
  match apply_single_linear_index r n.toIntptr none with
  | .ok o => .ok o
  | .error e => .error (.index e)

def generalSlices : String := "TODO: implement var_dim_type::apply_linear_index for general slices"

/-- `apply_linear_index` of the types. -/
def apply_to_type : type B → List irange → Bool → Except (exception B) (type B)
  | tp, [], _ => .ok tp
  | .builtin id, _ :: _, _ => .error (.too_many_indices (.builtin id))
  | .fixed_dim n element_tp, r :: indices, leading_dimension => do
    let o ← resolve r n
    if o.remove_dimension then apply_to_type element_tp indices leading_dimension
    else .fixed_dim (toSize o.dimension_size) <$> apply_to_type element_tp indices false
  | .var_dim element_tp, r :: indices, leading_dimension =>
    if r.step.val = 0 then
      if leading_dimension then apply_to_type element_tp indices true
      -- TODO: This is incorrect, but is here as a stopgap to be replaced by a sliced<> type
      else .pointer <$> apply_to_type element_tp indices false
    else if is_nop r then .var_dim <$> apply_to_type element_tp indices false
    else .error (.runtime_error generalSlices)
  | .tuple names n tps, r :: indices, leading_dimension => do
    let o ← resolve r (toSize n)
    if o.remove_dimension then
      if h : o.start_index.toNat < n then apply_to_type (tps ⟨o.start_index.toNat, h⟩) indices leading_dimension
      else throw .undefined_behaviour
    -- This is a do-nothing index, keep the same type
    else if indices = [] ∧ o.start_index = 0 ∧ o.index_stride = 1 ∧ o.dimension_size = n then return .tuple names n tps
    else
      let out ← sequenceFin fun i : Fin o.dimension_size.toNat =>
        if h : idx o i < n then apply_to_type (tps ⟨idx o i, h⟩) indices false else throw .undefined_behaviour
      return .tuple (names.map (keptNames o)) o.dimension_size.toNat out
  | .pointer target_tp, r :: indices, leading_dimension =>
    .pointer <$> apply_to_type target_tp (r :: indices) leading_dimension

/-! ## Applying ranges to the arrmeta -/

/-- The arrmeta written, the offset returned, and where `*inout_data` points to
after a leading dimension. -/
structure Applied where
  out : arrmeta
  offset : ℤ
  data : Option ℤ

/-- What the rest of the indices does: to a type, its arrmeta, the type that
results and, when the dimension is leading, to where `*inout_data` points to. -/
abbrev Next (B : Type) := type B → arrmeta → type B → Option ℤ → Except (exception B) Applied

/-- The element or field that a single index leaves, at an offset. In the case
of a leading dimension, first bake the offset into the data pointer. -/
def apply_at (next : Next B) (tp : type B) (md : arrmeta) (result_tp : type B) (offset : ℤ) (inout_data : Option ℤ) :
    Except (exception B) Applied :=
  if tp.is_builtin then .ok ⟨.builtin, offset, inout_data⟩
  else
    match inout_data with
    | some data => next tp md result_tp (some (data + offset))
    | none => do
      let a ← next tp md result_tp none
      return ⟨a.out, offset + a.offset, none⟩

/-- What is kept of an element type: its arrmeta, and the offset it adds. -/
def apply_within (next : Next B) (tp : type B) (md : arrmeta) (result_tp : type B) : Except (exception B) (arrmeta × ℤ) :=
  if tp.is_builtin then .ok (.builtin, 0)
  else do
    let a ← next tp md result_tp none
    return (a.out, a.offset)

/-- The arrmeta that is written field by field. -/
def ofFields {α : Type} {k : ℕ} (d : α) (f : Fin k → α) : ℕ → α := fun i => if h : i < k then f ⟨i, h⟩ else d

/-- `apply_linear_index` of the arrmeta for one range and the rest: the cases of the types. -/
def apply_range (mem : memory) (r : irange) (next : Next B) : Next B
  | .fixed_dim n element_tp, .fixed_dim md element, result_tp, inout_data => do
    let o ← resolve r n
    if o.remove_dimension then apply_at next element_tp element result_tp (md.stride * o.start_index) inout_data
    else
      let (out, offset) ← apply_within next element_tp element result_tp.held
      return ⟨.fixed_dim ⟨o.dimension_size, md.stride * o.index_stride⟩ out, md.stride * o.start_index + offset, inout_data⟩
  | .var_dim element_tp, .var_dim stride offset element, result_tp, inout_data => do
    match inout_data with
    | some data =>
      let d := mem data
      let o ← resolve r d.2
      if o.remove_dimension then
        -- First dereference to point at the actual element
        apply_at next element_tp element result_tp 0 (some (d.1 + offset + o.start_index * stride))
      else if is_nop r then
        let (out, more) ← apply_within next element_tp element result_tp.held
        return ⟨.var_dim stride (offset + more) out, 0, inout_data⟩
      else throw (.runtime_error generalSlices)
    | none =>
      if r.step.val = 0 then
        -- TODO: This is incorrect, but is here as a stopgap to be replaced by a sliced<> type
        let (out, more) ← apply_within next element_tp element result_tp.held
        return ⟨.pointer (r.start.val * stride + more) out, 0, none⟩
      else if is_nop r then
        let (out, more) ← apply_within next element_tp element result_tp.held
        return ⟨.var_dim stride (offset + more) out, 0, none⟩
      else throw (.runtime_error generalSlices)
  | .tuple _ n tps, .tuple data_offsets fields, result_tp, inout_data => do
    let o ← resolve r (toSize n)
    if o.remove_dimension then
      let i := o.start_index.toNat
      if h : i < n then apply_at next (tps ⟨i, h⟩) (fields i) result_tp (data_offsets i) inout_data
      else throw .undefined_behaviour
    else
      let outs ← sequenceFin fun i : Fin o.dimension_size.toNat =>
        match result_tp.fields[i.val]? with
        -- it goes on with the type of the result's field, not with the type of the field
        | some ft => do
          let (out, more) ← apply_within next ft (fields (idx o i)) ft
          return (out, data_offsets (idx o i) + more)
        | none => throw .undefined_behaviour
      return ⟨.tuple (ofFields 0 fun i => (outs i).2) (ofFields .builtin fun i => (outs i).1), 0, inout_data⟩
  | .pointer target_tp, .pointer offset target, result_tp, inout_data => do
    if target_tp.is_builtin then return ⟨.pointer offset .builtin, 0, inout_data⟩
    else
      let a ← apply_range mem r next target_tp target result_tp.held none
      return ⟨.pointer (offset + a.offset) a.out, 0, inout_data⟩
  | .builtin id, _, _, _ => .error (.too_many_indices (.builtin id))
  | _, _, _, _ => .error .undefined_behaviour

/-- `apply_linear_index` of the arrmeta. With no more indices it is copied verbatim. -/
def apply_to_arrmeta (mem : memory) : List irange → Next B
  | [], _, md, _, inout_data => .ok ⟨md, 0, inout_data⟩
  | r :: indices, tp, md, result_tp, inout_data => apply_range mem r (apply_to_arrmeta mem indices) tp md result_tp inout_data

def at_array (mem : memory) (indices : List irange) (collapse_leading : Bool) (a : array B) : Except (exception B) (array B) := do
  if a.tp.is_builtin then
    if indices ≠ [] then throw (.too_many_indices a.tp)
    return a
  else
    let dt ← apply_to_type a.tp indices collapse_leading
    let applied ← apply_to_arrmeta mem indices a.tp a.md dt (if collapse_leading then some a.data else none)
    return ⟨dt, applied.out, applied.data.getD a.data + applied.offset⟩

/-! ## What one range resolves to -/

theorem resolve_ok {r : irange} {n : dim_size_t} {o : Resolved} :
    (resolve r n : Except (exception B) Resolved) = .ok o ↔ resolved r n = some o := by
  unfold resolve resolved
  cases apply_single_linear_index r n.toIntptr none <;> simp [Except.toOption]

theorem apply_single_index_inside {i n : ℤ} (h0 : 0 ≤ i) (hn : i < n) : apply_single_index i n = some i := by
  rw [apply_single_index, if_pos h0, if_pos hn]

theorem apply_single_index_range {i n k : ℤ} (h : apply_single_index i n = some k) : 0 ≤ k ∧ k < n := by
  unfold apply_single_index at h
  split_ifs at h <;> cases h <;> omega

/-- A single index is resolved to the element it is. -/
theorem resolved_single {r : irange} {n : dim_size_t} {o : Resolved} (h0 : r.step.val = 0) :
    resolved r n = some o ↔ ∃ k, apply_single_index r.start.val n.val = some k ∧ o = ⟨true, k, 1, 1⟩ := by
  have hn := n.property.1
  rw [resolved, toOption_ok, apply_zero h0, singleIndex_spec hn, n.toIntptr_val]
  unfold apply_single_index irange.first
  constructor
  · intro h
    split_ifs at h ⊢ <;> first | omega | (cases h; exact ⟨_, rfl, rfl⟩)
  · rintro ⟨k, hk, rfl⟩
    split_ifs at hk ⊢ <;> first | omega | (cases hk; rfl)

theorem resolved_indices {r : irange} {n : dim_size_t} {o : Resolved} (h : resolved r n = some o) :
    o.indices = r.denotes n.val ∧ r.InBounds n.val := by
  obtain ⟨hb, hov⟩ := resolved_isSome.1 ⟨o, h⟩
  obtain ⟨o', ho', hi, -, -⟩ := @in_bounds r n.toIntptr none n.property.1 hb hov
  rw [resolved, ho'] at h
  obtain rfl : o' = o := Option.some.inj h
  exact ⟨hi, hb⟩

/-- The element at an index of what a range leaves. -/
theorem resolved_range {r : irange} {n : dim_size_t} {o : Resolved} (h : resolved r n = some o) {k : ℤ} (h0 : 0 ≤ k)
    (hk : k < o.dimension_size) :
    (r.denotes n.val).getD k.toNat 0 = o.start_index + k * o.index_stride ∧
      o.start_index + k * o.index_stride ∈ r.denotes n.val ∧
      apply_single_index (o.start_index + k * o.index_stride) n.val = some (o.start_index + k * o.index_stride) := by
  obtain ⟨hi, hb⟩ := resolved_indices h
  have hcast : ((k.toNat : ℕ) : ℤ) = k := Int.toNat_of_nonneg h0
  have hlt : k.toNat < o.dimension_size.toNat := by omega
  have hmem : o.start_index + k * o.index_stride ∈ r.denotes n.val := by
    rw [← hi, Resolved.indices, mem_progression]
    exact ⟨k.toNat, hlt, by rw [hcast]⟩
  obtain ⟨hmin, hmax⟩ := @denotes_mem r n.toIntptr n.property.1 hb _ hmem
  refine ⟨?_, hmem, apply_single_index_inside hmin hmax⟩
  rw [← hi, Resolved.indices, getD_progression hlt, hcast]

/-- A range without elements. -/
theorem resolved_empty {r : irange} {n : dim_size_t} {o : Resolved} (h : resolved r n = some o) (hs : r.step.val ≠ 0)
    (hsize : o.dimension_size = 0) : o = ⟨false, 0, 1, 0⟩ := by
  have hn : 0 ≤ n.toIntptr.val := n.property.1
  obtain ⟨hb, -⟩ := resolved_isSome.1 ⟨o, h⟩
  rw [resolved, toOption_ok] at h
  rcases lt_or_gt_of_ne hs with hs | hs
  · rw [apply_neg hs, negativeRange_spec hn hs hb] at h
    split_ifs at h with hspan
    · cases h
      have hneg : 0 < -r.step.val := by omega
      have := (Int.le_ediv_iff_mul_le hneg).2 (show 1 * -r.step.val ≤ r.span n.toIntptr.val + -r.step.val - 1 by omega)
      simp only at hsize
      omega
    · exact (Except.ok.inj h).symm
  · rw [apply_pos hs, positiveRange_spec hn hs hb] at h
    split_ifs at h with hspan
    · cases h
      have := (Int.le_ediv_iff_mul_le hs).2 (show 1 * r.step.val ≤ r.span n.toIntptr.val + r.step.val - 1 by omega)
      simp only at hsize
      omega
    · exact (Except.ok.inj h).symm

/-- A do-nothing index leaves the whole dimension. -/
theorem resolved_nop (h : is_nop r = true) (n : dim_size_t) : resolved r n = some ⟨false, 0, 1, n.val⟩ := by
  simp only [is_nop, Bool.and_eq_true, decide_eq_true_eq] at h
  obtain ⟨⟨hstart, hfinish⟩, hstep⟩ := h
  have hn := n.property
  have hmin : r.start.val = -2 ^ 63 := congrArg Subtype.val hstart
  have hmax : r.finish.val = 2 ^ 63 - 1 := congrArg Subtype.val hfinish
  have hfirst : r.first n.val = 0 := by
    rw [irange.first, if_neg (by omega), if_neg (by omega), if_pos (by omega)]
  have hbound : r.bound n.val = n.val := by
    rw [irange.bound, if_pos (by omega), if_pos (by omega), min_eq_right (by omega)]
  have hspan : r.span n.val = n.val := by
    rw [irange.span, if_pos (by omega), hfirst, hbound, Int.sub_zero]
  have hinbounds : r.InBounds n.val := by
    rw [irange.InBounds, if_neg (by omega), if_pos (by omega)]
    omega
  have hspec := @positiveRange_spec r n.toIntptr none n.property.1 (by omega) hinbounds
  rw [n.toIntptr_val, hspan, hfirst, hstep] at hspec
  rw [resolved, apply_pos (by omega), hspec]
  split_ifs with hpos h1
  · rw [Int.add_sub_cancel, Int.ediv_one]
    rfl
  · exact absurd (.inl rfl) h1
  · rw [show n.val = 0 by omega]
    rfl

/-- The number of fields is a size. -/
theorem toSize_val {n : ℕ} (h : n < 2 ^ 63) : (toSize n).val = n := by
  rw [toSize, dif_pos ⟨Int.natCast_nonneg n, by omega⟩]

/-- So is the number of those that a range keeps. -/
theorem kept_count {r : irange} {n : ℕ} {o : Resolved} (hn : n < 2 ^ 63) (h : resolved r (toSize n) = some o) :
    (toSize o.dimension_size.toNat).val = o.dimension_size := by
  have hsel := resolved_selects h
  have hle := hsel.le
  rw [toSize_val hn] at hle
  rw [toSize_val (by omega), Int.toNat_of_nonneg (by rw [hsel.size]; omega)]

/-! ## What the type becomes -/

theorem fixed_dim_type_ok {n : dim_size_t} {element_tp tp' : type B} {r : irange} {indices : List irange} {leading : Bool} :
    apply_to_type (.fixed_dim n element_tp) (r :: indices) leading = .ok tp' ↔ ∃ o, resolved r n = some o ∧
      if o.remove_dimension then apply_to_type element_tp indices leading = .ok tp'
      else ∃ etp, apply_to_type element_tp indices false = .ok etp ∧ tp' = .fixed_dim (toSize o.dimension_size) etp := by
  refine bind_eq_ok.trans (exists_congr fun o => and_congr resolve_ok ?_)
  split_ifs
  · rfl
  · rw [map_eq_ok]
    exact exists_congr fun etp => and_congr_right fun _ => eq_comm

theorem var_dim_type_ok {element_tp tp' : type B} {r : irange} {indices : List irange} {leading : Bool} :
    apply_to_type (.var_dim element_tp) (r :: indices) leading = .ok tp' ↔
      if r.step.val = 0 then
        if leading then apply_to_type element_tp indices true = .ok tp'
        else ∃ etp, apply_to_type element_tp indices false = .ok etp ∧ tp' = .pointer etp
      else is_nop r = true ∧ ∃ etp, apply_to_type element_tp indices false = .ok etp ∧ tp' = .var_dim etp := by
  change (if r.step.val = 0 then if leading then _ else _ else if is_nop r then _ else _) = _ ↔ _
  split_ifs with h0 hl hn
  · rfl
  · rw [map_eq_ok]
    exact exists_congr fun etp => and_congr_right fun _ => eq_comm
  · rw [map_eq_ok, and_iff_right hn]
    exact exists_congr fun etp => and_congr_right fun _ => eq_comm
  · simp [hn]

/-- The fields that a range keeps, with the rest of the indices applied. -/
theorem tuple_type_ok {names : Option (List String)} {n : ℕ} {tps : Fin n → type B} {tp' : type B} {r : irange}
    {indices : List irange} {leading : Bool} (h : apply_to_type (.tuple names n tps) (r :: indices) leading = .ok tp') :
    ∃ o, resolved r (toSize n) = some o ∧
      if o.remove_dimension then ∃ h : o.start_index.toNat < n, apply_to_type (tps ⟨_, h⟩) indices leading = .ok tp'
      else ∃ (names' : Option (List String)) (k : ℕ) (tps' : Fin k → type B), tp' = .tuple names' k tps' ∧
        k = o.dimension_size.toNat ∧
        ∀ i : Fin k, ∃ h : idx o i < n, apply_to_type (tps ⟨idx o i, h⟩) indices false = .ok (tps' i) := by
  rw [apply_to_type, bind_eq_ok] at h
  obtain ⟨o, ho, h⟩ := h
  refine ⟨o, resolve_ok.1 ho, ?_⟩
  split_ifs at h ⊢ with hr hi hnop
  · exact ⟨hi, h⟩
  · obtain ⟨rfl, hstart, hstride, hsize⟩ := hnop
    cases h
    refine ⟨names, n, tps, rfl, by rw [hsize, Int.toNat_natCast], fun i => ?_⟩
    have hidx : idx o i = i := by
      rw [idx, hstart, hstride]
      omega
    exact ⟨hidx.symm ▸ i.isLt, by simp only [hidx, apply_to_type]⟩
  · obtain ⟨out, hout, h⟩ := bind_eq_ok.1 h
    cases h
    refine ⟨_, _, out, rfl, rfl, fun i => ?_⟩
    have := sequenceFin_eq_ok.1 hout i
    split_ifs at this with hlt
    exact ⟨hlt, this⟩

theorem builtin_type_ok {id : B} {tp' : type B} {indices : List irange} {leading : Bool}
    (h : apply_to_type (.builtin id) indices leading = .ok tp') : indices = [] ∧ tp' = .builtin id := by
  cases indices with
  | nil => exact ⟨rfl, (Except.ok.inj h).symm⟩
  | cons r indices => cases h

/-! ## What the arrmeta becomes -/

section
variable {mem : memory} {r : irange} {indices : List irange} {next : Next B} {inout_data : Option ℤ} {a : Applied}

theorem ok_eq_ok {ε α : Type} {x y : α} : (Except.ok x : Except ε α) = .ok y ↔ y = x := by
  rw [Except.ok.injEq, eq_comm]

theorem fixed_dim_arrmeta_ok {n : dim_size_t} {element_tp result_tp : type B} {md : size_stride_t} {element : arrmeta} :
    apply_range mem r next (.fixed_dim n element_tp) (.fixed_dim md element) result_tp inout_data = .ok a ↔
      ∃ o, resolved r n = some o ∧
        if o.remove_dimension then apply_at next element_tp element result_tp (md.stride * o.start_index) inout_data = .ok a
        else ∃ out more, apply_within next element_tp element result_tp.held = .ok (out, more) ∧
          a = ⟨.fixed_dim ⟨o.dimension_size, md.stride * o.index_stride⟩ out, md.stride * o.start_index + more, inout_data⟩ := by
  refine bind_eq_ok.trans (exists_congr fun o => and_congr resolve_ok ?_)
  split_ifs
  · rfl
  · rw [bind_eq_ok, Prod.exists]
    exact exists_congr fun out => exists_congr fun more => and_congr_right fun _ => ok_eq_ok

/-- A `var` dimension that is not leading. -/
theorem var_dim_arrmeta_ok {element_tp result_tp : type B} {stride offset : ℤ} {element : arrmeta} :
    apply_range mem r next (.var_dim element_tp) (.var_dim stride offset element) result_tp none = .ok a ↔
      ∃ out more, apply_within next element_tp element result_tp.held = .ok (out, more) ∧
        if r.step.val = 0 then a = ⟨.pointer (r.start.val * stride + more) out, 0, none⟩
        else is_nop r = true ∧ a = ⟨.var_dim stride (offset + more) out, 0, none⟩ := by
  change (if r.step.val = 0 then _ else if is_nop r then _ else _) = _ ↔ _
  split_ifs with h0 hn
  · rw [bind_eq_ok, Prod.exists]
    exact exists_congr fun out => exists_congr fun more => and_congr_right fun _ => ok_eq_ok
  · rw [bind_eq_ok, Prod.exists]
    exact exists_congr fun out => exists_congr fun more => and_congr_right fun _ =>
      ok_eq_ok.trans (and_iff_right hn).symm
  · simp [hn]

/-- A leading `var` dimension: its size and elements are those at the data. -/
theorem leading_var_dim_arrmeta_ok {element_tp result_tp : type B} {stride offset data : ℤ} {element : arrmeta} :
    apply_range mem r next (.var_dim element_tp) (.var_dim stride offset element) result_tp (some data) = .ok a ↔
      ∃ o, resolved r (mem data).2 = some o ∧
        if o.remove_dimension then
          apply_at next element_tp element result_tp 0 (some ((mem data).1 + offset + o.start_index * stride)) = .ok a
        else is_nop r = true ∧ ∃ out more, apply_within next element_tp element result_tp.held = .ok (out, more) ∧
          a = ⟨.var_dim stride (offset + more) out, 0, some data⟩ := by
  refine bind_eq_ok.trans (exists_congr fun o => and_congr resolve_ok ?_)
  split_ifs with hr hn
  · rfl
  · rw [bind_eq_ok, Prod.exists, and_iff_right hn]
    exact exists_congr fun out => exists_congr fun more => and_congr_right fun _ => ok_eq_ok
  · simp [hn]

/-- The arrmeta of a field that a range keeps goes on with the type of the result's field. -/
theorem tuple_arrmeta_ok {names : Option (List String)} {n : ℕ} {tps : Fin n → type B} {data_offsets : ℕ → ℤ} {fields : ℕ → arrmeta}
    {result_tp : type B} :
    apply_range mem r next (.tuple names n tps) (.tuple data_offsets fields) result_tp inout_data = .ok a ↔
      ∃ o, resolved r (toSize n) = some o ∧
        if o.remove_dimension then ∃ h : o.start_index.toNat < n,
          apply_at next (tps ⟨_, h⟩) (fields o.start_index.toNat) result_tp (data_offsets o.start_index.toNat) inout_data = .ok a
        else ∃ outs : Fin o.dimension_size.toNat → arrmeta × ℤ,
          (∀ i : Fin o.dimension_size.toNat, ∃ ft, result_tp.fields[i.val]? = some ft ∧
            ∃ more, apply_within next ft (fields (idx o i)) ft = .ok ((outs i).1, more) ∧ (outs i).2 = data_offsets (idx o i) + more) ∧
          a = ⟨.tuple (ofFields 0 fun i => (outs i).2) (ofFields .builtin fun i => (outs i).1), 0, inout_data⟩ := by
  refine bind_eq_ok.trans (exists_congr fun o => and_congr resolve_ok ?_)
  split_ifs with hr
  · by_cases hlt : o.start_index.toNat < n
    · rw [dif_pos hlt]
      exact ⟨fun h => ⟨hlt, h⟩, fun ⟨_, h⟩ => h⟩
    · rw [dif_neg hlt]
      exact ⟨fun h => (nomatch h), fun ⟨h, _⟩ => absurd h hlt⟩
  · rw [bind_eq_ok]
    refine exists_congr fun outs => and_congr (sequenceFin_eq_ok.trans (forall_congr' fun i => ?_)) ?_
    · cases result_tp.fields[i.val]? with
      | none => simp
      | some ft =>
        simp only [Option.some.injEq, exists_eq_left', bind_eq_ok, Prod.exists]
        constructor
        · rintro ⟨out, more, h, heq⟩
          obtain heq := Except.ok.inj heq
          exact ⟨more, by rw [h, ← heq], by rw [← heq]⟩
        · rintro ⟨more, h, heq⟩
          exact ⟨_, more, h, by rw [← heq]; rfl⟩
    · exact ok_eq_ok

end

end Dynd.MultiIndex
