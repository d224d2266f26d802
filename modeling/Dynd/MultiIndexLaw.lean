import Dynd.MultiIndex
/-!
# What several ranges select

One index at a time selects an element or field. The result of `at_array` has
the same elements, where its two recursions agree: `Fits` says where. They do
not after a range of a tuple whose fields the rest of the indices changes, and
not at a `var` dimension that is not leading.
-/
namespace Dynd.MultiIndex
open Lib LinearIndex FixedDim
open PointerType (apply_single_index idx)

variable {B : Type}

/-! ## Element by element -/

/-- The arrmeta is that of the type, and no pointer is in it. -/
def Valid : type B → arrmeta → Prop
  | .builtin _, .builtin => True
  | .fixed_dim _ element_tp, .fixed_dim _ element => Valid element_tp element
  | .var_dim element_tp, .var_dim _ _ element => Valid element_tp element
  | .tuple _ n tps, .tuple _ fields => n < 2 ^ 63 ∧ ∀ i : Fin n, Valid (tps i) (fields i)
  | _, _ => False

theorem Valid.of_fixed_dim {n : dim_size_t} {element_tp : type B} {md : arrmeta} (h : Valid (.fixed_dim n element_tp) md) :
    ∃ m element, md = .fixed_dim m element ∧ Valid element_tp element := by
  cases md <;> first | exact h.elim | exact ⟨_, _, rfl, h⟩

theorem Valid.of_var_dim {element_tp : type B} {md : arrmeta} (h : Valid (.var_dim element_tp) md) :
    ∃ stride offset element, md = .var_dim stride offset element ∧ Valid element_tp element := by
  cases md <;> first | exact h.elim | exact ⟨_, _, _, rfl, h⟩

theorem Valid.of_tuple {names : Option (List String)} {n : ℕ} {tps : Fin n → type B} {md : arrmeta} (h : Valid (.tuple names n tps) md) :
    n < 2 ^ 63 ∧ ∃ data_offsets fields, md = .tuple data_offsets fields ∧ ∀ i : Fin n, Valid (tps i) (fields i) := by
  cases md <;> first | exact h.elim | exact ⟨h.1, _, _, rfl, h.2⟩

section
variable (mem : memory)

/-- The array that a pointer is to. -/
def follow : type B → arrmeta → ℤ → array B
  | .pointer target_tp, .pointer offset target, data => follow target_tp target ((mem data).1 + offset)
  | tp, md, data => ⟨tp, md, data⟩

/-- How many elements or fields an index selects from. -/
def extent : array B → Option dim_size_t
  | ⟨.fixed_dim n _, _, _⟩ => some n
  | ⟨.var_dim _, _, data⟩ => some (mem data).2
  | ⟨.tuple _ n _, _, _⟩ => some (toSize n)
  | _ => none

/-- The element or field at one index, which may count from the back. -/
def step (i : ℤ) (a : array B) : Option (array B) :=
  match follow mem a.tp a.md a.data with
  | ⟨.fixed_dim n tp, .fixed_dim md element, data⟩ => do
    let k ← apply_single_index i n.val
    return ⟨tp, element, data + k * md.stride⟩
  | ⟨.var_dim tp, .var_dim stride offset element, data⟩ => do
    let k ← apply_single_index i (mem data).2.val
    return ⟨tp, element, (mem data).1 + offset + k * stride⟩
  | ⟨.tuple _ n tps, .tuple data_offsets fields, data⟩ => do
    let k ← apply_single_index i n
    if h : k.toNat < n then return ⟨tps ⟨k.toNat, h⟩, fields k.toNat, data + data_offsets k.toNat⟩ else none
  | _ => none

/-- The builtin at an index, and its address. -/
def element : List ℤ → array B → Option (B × ℤ)
  | [], a =>
    match follow mem a.tp a.md a.data with
    | ⟨.builtin id, _, data⟩ => some (id, data)
    | _ => none
  | i :: p, a => (step mem i a).bind (element p)

/-- The builtin that the indices left by the ranges select of the array, an
index at a time. Without a value, one of the ranges is out of bounds where it
is applied. -/
def selected : List irange → List ℤ → array B → Option (Option (B × ℤ))
  | [], p, a => some (element mem p a)
  | r :: indices, p, a =>
    match extent mem a with
    | none => none
    | some n =>
      if r.step.val = 0 then (step mem r.start.val a).bind (selected indices p)
      else if r.InBounds n.val then
        match p with
        | [] => some none
        | j :: p =>
          match apply_single_index j (r.denotes n.val).length with
          | none => some none
          | some k => (step mem ((r.denotes n.val).getD k.toNat 0) a).bind (selected indices p)
      else none

end

/-- Every range is in bounds, wherever the bounds are known from the type. -/
def InRange : List irange → type B → Prop
  | [], _ => True
  | r :: indices, .fixed_dim n element_tp => r.InBounds n.val ∧ InRange indices element_tp
  | _ :: indices, .var_dim element_tp => InRange indices element_tp
  | r :: indices, .tuple _ n tps => r.InBounds n ∧ ∀ i : Fin n, (i.val : ℤ) ∈ r.denotes n → InRange indices (tps i)
  | _, _ => False

/-- What indexing promises: no range is out of bounds, and the result has, for
every index that is left, the element that the same indices select step by step. -/
structure Agrees (mem : memory) (indices : List irange) (a b : array B) : Prop where
  in_range : InRange indices a.tp
  elements : ∀ p, selected mem indices p a = some (element mem p b)

/-! ## Where the code does the same -/

/-- How far the builtin is that single indices select of fixed dimensions, tuples and structs. -/
def picked : List irange → type B → arrmeta → Option ℤ
  | [], .builtin _, _ => some 0
  | r :: indices, .fixed_dim n element_tp, .fixed_dim md element =>
    if r.step.val = 0 then do
      let k ← apply_single_index r.start.val n.val
      let offset ← picked indices element_tp element
      return md.stride * k + offset
    else none
  | r :: indices, .tuple _ n tps, .tuple data_offsets fields =>
    if r.step.val = 0 then do
      let k ← apply_single_index r.start.val n
      if h : k.toNat < n then do
        let offset ← picked indices (tps ⟨k.toNat, h⟩) (fields k.toNat)
        return data_offsets k.toNat + offset
      else none
    else none
  | _, _, _ => none

/-- The range denotes the same indices of what it leaves as of the whole. -/
def Same (r : irange) (n : ℤ) : Prop := r.step.val ≠ 0 ∧ r.denotes (r.denotes n).length = r.denotes n

/-- A range means the same for what is left of a type, if the rest of the indices does. -/
def AlikeRange (r : irange) (rest : type B → arrmeta → Prop) : type B → arrmeta → Prop
  | .fixed_dim n element_tp, .fixed_dim _ element => Same r n.val ∧ rest element_tp element
  | .var_dim element_tp, .var_dim _ _ element => r.step.val ≠ 0 ∧ rest element_tp element
  | .tuple _ n _, .tuple _ _ => Same r n
  | _, _ => False

/-- The indices mean the same for the type that they make of a type as for the type. -/
def Alike : List irange → type B → arrmeta → Prop
  | [], _, _ => True
  | r :: indices, tp, md => picked (r :: indices) tp md = some 0 ∨ AlikeRange r (Alike indices) tp md

/-- A `var` dimension that a single index makes a pointer to the elements: the
offset is lost, and the index neither counts from the back nor is checked. -/
def Pointable (mem : memory) (i : ℤ) : array B → Prop
  | ⟨.var_dim _, .var_dim _ offset _, data⟩ => offset = 0 ∧ 0 ≤ i ∧ i < (mem data).2.val
  | _ => True

/-- What is left of each field that a range keeps reads the rest of the indices as the field does. -/
def FieldFits (indices : List irange) (a field : array B) : Prop :=
  match a.tp with
  | .tuple _ _ _ => Alike indices field.tp field.md
  | _ => True

/-- Where the indices go through the array, with those that come after a range no longer leading. -/
def Fits (mem : memory) : List irange → Bool → array B → Prop
  | [], _, _ => True
  | r :: indices, leading, a =>
    if r.step.val = 0 then
      (leading = false → Pointable mem r.start.val a) ∧ ∀ b ∈ step mem r.start.val a, Fits mem indices leading b
    else ∀ n ∈ extent mem a, ∀ k ∈ r.denotes n.val, ∀ b ∈ step mem k a, FieldFits indices a b ∧ Fits mem indices false b

/-- A range that denotes the same of what it leaves is resolved to the same there. -/
theorem resolved_same {r : irange} {n k : dim_size_t} {o o' : Resolved} (h : resolved r n = some o) (h' : resolved r k = some o')
    (hk : k.val = o.dimension_size) (hsame : Same r n.val) : o' = o := by
  have hsel := resolved_selects h
  have hsel' := resolved_selects h'
  have hdenotes : r.denotes k.val = r.denotes n.val := by rw [hk, hsel.size, hsame.2]
  have hsize : o'.dimension_size = o.dimension_size := by rw [hsel'.size, hsel.size, hdenotes]
  by_cases hzero : o.dimension_size = 0
  · rw [resolved_empty h hsame.1 hzero, resolved_empty h' hsame.1 (hsize.trans hzero)]
  · have hpos : 0 < o.dimension_size := by
      have := hsel.size
      omega
    have hstart := (resolved_range h le_rfl hpos).1
    have hstart' := (resolved_range h' le_rfl (hsize ▸ hpos)).1
    have hremoves : o'.remove_dimension = o.remove_dimension := by
      rw [Bool.eq_iff_iff, hsel.removes, hsel'.removes]
    rw [hdenotes, hstart, Int.zero_mul, Int.zero_mul, Int.add_zero, Int.add_zero] at hstart'
    have hstride := (hsel'.stride (hsize ▸ hzero) hsame.1).trans (hsel.stride hzero hsame.1).symm
    cases o
    cases o'
    simp only at hremoves hstart' hstride hsize
    rw [hremoves, hstart', hstride, hsize]

/-! ## What is out of bounds is rejected -/

/-- A range that the type accepts is in bounds wherever the type knows them. -/
theorem in_range {indices : List irange} : ∀ {tp tp' : type B} {md : arrmeta} {leading : Bool}, Valid tp md →
    apply_to_type tp indices leading = .ok tp' → InRange indices tp := by
  induction indices with
  | nil => exact fun _ _ => trivial
  | cons r indices ih =>
    intro tp tp' md leading hv h
    cases tp with
    | builtin id => exact absurd (builtin_type_ok h).1 (List.cons_ne_nil _ _)
    | fixed_dim n element_tp =>
      obtain ⟨m, element, rfl, hve⟩ := hv.of_fixed_dim
      obtain ⟨o, ho, h⟩ := fixed_dim_type_ok.1 h
      refine ⟨(resolved_indices ho).2, ?_⟩
      split_ifs at h
      · exact ih hve h
      · obtain ⟨etp, h, -⟩ := h
        exact ih hve h
    | var_dim element_tp =>
      obtain ⟨stride, offset, element, rfl, hve⟩ := hv.of_var_dim
      rw [var_dim_type_ok] at h
      split_ifs at h
      · exact ih hve h
      · obtain ⟨etp, h, -⟩ := h
        exact ih hve h
      · obtain ⟨-, etp, h, -⟩ := h
        exact ih hve h
    | tuple names n tps =>
      obtain ⟨hn, data_offsets, fields, rfl, hve⟩ := hv.of_tuple
      obtain ⟨o, ho, h⟩ := tuple_type_ok h
      obtain ⟨hi, hb⟩ := resolved_indices ho
      rw [toSize_val hn] at hi hb
      refine ⟨hb, fun i hmem => ?_⟩
      rw [← hi, Resolved.indices, mem_progression] at hmem
      obtain ⟨k, hk, hik⟩ := hmem
      split_ifs at h with hr
      · obtain ⟨hlt, h⟩ := h
        have hsize := (resolved_selects ho).single hr
        have hi : (⟨o.start_index.toNat, hlt⟩ : Fin n) = i := by
          obtain rfl : k = 0 := by omega
          exact Fin.ext (by simp only; omega)
        exact ih (hve i) (hi ▸ h)
      · obtain ⟨-, m, tps', -, hm, h⟩ := h
        obtain ⟨hlt, h⟩ := h ⟨k, hm ▸ hk⟩
        have hi : (⟨idx o k, hlt⟩ : Fin n) = i := Fin.ext (by simp only [idx]; omega)
        exact ih (hve i) (hi ▸ h)
    | pointer target_tp => exact hv.elim

/-! ## One element or field -/

section
variable {mem : memory} {indices : List irange} {next : Next B}

theorem apply_within_ok {tp result_tp : type B} {md out : arrmeta} {more : ℤ} :
    apply_within next tp md result_tp = .ok (out, more) ↔ apply_at next tp md result_tp 0 none = .ok ⟨out, more, none⟩ := by
  unfold apply_within apply_at
  split_ifs
  · simp
  · simp [bind_eq_ok]

theorem apply_at_data {tp result_tp : type B} {md : arrmeta} {offset : ℤ} {inout_data : Option ℤ} {a : Applied}
    (hnext : ∀ {inout_data a}, next tp md result_tp inout_data = .ok a → a.data.isSome = inout_data.isSome)
    (h : apply_at next tp md result_tp offset inout_data = .ok a) : a.data.isSome = inout_data.isSome := by
  unfold apply_at at h
  split_ifs at h
  · cases h
    rfl
  · cases inout_data with
    | none =>
      obtain ⟨a', -, h⟩ := bind_eq_ok.1 h
      cases h
      rfl
    | some data => exact @hnext (some (data + offset)) _ h

/-- `*inout_data` points somewhere after exactly when it does before. -/
theorem apply_to_arrmeta_data {indices : List irange} : ∀ {tp result_tp : type B} {md : arrmeta} {inout_data : Option ℤ} {a : Applied},
    Valid tp md → apply_to_arrmeta mem indices tp md result_tp inout_data = .ok a → a.data.isSome = inout_data.isSome := by
  induction indices with
  | nil =>
    intro tp result_tp md inout_data a _ h
    cases h
    rfl
  | cons r indices ih =>
    intro tp result_tp md inout_data a hv h
    rw [apply_to_arrmeta] at h
    cases tp with
    | builtin id => cases h
    | fixed_dim n element_tp =>
      obtain ⟨m, element, rfl, hve⟩ := hv.of_fixed_dim
      obtain ⟨o, -, h⟩ := fixed_dim_arrmeta_ok.1 h
      split_ifs at h
      · exact apply_at_data (ih hve) h
      · obtain ⟨out, more, -, rfl⟩ := h
        rfl
    | var_dim element_tp =>
      obtain ⟨stride, offset, element, rfl, hve⟩ := hv.of_var_dim
      cases inout_data with
      | none =>
        obtain ⟨out, more, -, h⟩ := var_dim_arrmeta_ok.1 h
        split_ifs at h
        · rw [h]
        · rw [h.2]
      | some data =>
        obtain ⟨o, -, h⟩ := leading_var_dim_arrmeta_ok.1 h
        split_ifs at h
        · have hdata := apply_at_data (ih hve) h
          exact hdata
        · obtain ⟨-, out, more, -, rfl⟩ := h
          rfl
    | tuple names n tps =>
      obtain ⟨hn, data_offsets, fields, rfl, hve⟩ := hv.of_tuple
      obtain ⟨o, -, h⟩ := tuple_arrmeta_ok.1 h
      split_ifs at h
      · obtain ⟨hlt, h⟩ := h
        exact apply_at_data (ih (hve _)) h
      · obtain ⟨outs, -, rfl⟩ := h
        rfl
    | pointer target_tp => exact hv.elim

/-- A type that is not builtin, and no leading dimension. -/
theorem apply_at_next {tp result_tp : type B} {md out : arrmeta} {offset more : ℤ} (htp : tp.is_builtin = false) :
    apply_at next tp md result_tp offset none = .ok ⟨out, more, none⟩ ↔
      ∃ a, next tp md result_tp none = .ok a ∧ a.out = out ∧ offset + a.offset = more := by
  rw [apply_at, htp, if_neg Bool.false_ne_true, bind_eq_ok]
  simp

/-- What single indices pick of fixed dimensions and tuples is found at its offset. -/
theorem picked_at {indices : List irange} : ∀ {tp result_tp : type B} {md : arrmeta} {offset more : ℤ}, Valid tp md →
    picked indices tp md = some more →
    apply_at (apply_to_arrmeta mem indices) tp md result_tp offset none = .ok ⟨.builtin, offset + more, none⟩ := by
  induction indices with
  | nil =>
    intro tp result_tp md offset more _ h
    cases tp with
    | builtin id =>
      cases h
      rw [Int.add_zero]
      rfl
    | _ => cases h
  | cons r indices ih =>
    intro tp result_tp md offset more hv h
    cases tp with
    | fixed_dim n element_tp =>
      obtain ⟨m, element, rfl, hve⟩ := hv.of_fixed_dim
      rw [picked] at h
      split_ifs at h with h0
      obtain ⟨k, hk, h⟩ := Option.bind_eq_some_iff.1 h
      obtain ⟨rest, hrest, h⟩ := Option.bind_eq_some_iff.1 h
      cases h
      refine (apply_at_next rfl).2 ⟨⟨_, _, none⟩, fixed_dim_arrmeta_ok.2 ⟨_, (resolved_single h0).2 ⟨k, hk, rfl⟩, ?_⟩, rfl, rfl⟩
      exact ih hve hrest
    | tuple names n tps =>
      obtain ⟨hn, data_offsets, fields, rfl, hve⟩ := hv.of_tuple
      rw [picked] at h
      split_ifs at h with h0
      obtain ⟨k, hk, h⟩ := Option.bind_eq_some_iff.1 h
      split_ifs at h with hlt
      obtain ⟨rest, hrest, h⟩ := Option.bind_eq_some_iff.1 h
      cases h
      rw [← toSize_val hn] at hk
      refine (apply_at_next rfl).2 ⟨⟨_, _, none⟩, tuple_arrmeta_ok.2 ⟨_, (resolved_single h0).2 ⟨k, hk, rfl⟩, hlt, ?_⟩, rfl, rfl⟩
      exact ih (hve _) hrest
    | _ => cases h

/-- The type of what single indices pick. -/
theorem picked_type {indices : List irange} : ∀ {tp tp' : type B} {md : arrmeta} {leading : Bool} {more : ℤ}, Valid tp md →
    picked indices tp md = some more → apply_to_type tp indices leading = .ok tp' → ∃ id, tp' = .builtin id := by
  induction indices with
  | nil =>
    intro tp tp' md leading more _ h htp
    cases tp with
    | builtin id => exact ⟨id, (builtin_type_ok htp).2⟩
    | _ => cases h
  | cons r indices ih =>
    intro tp tp' md leading more hv h htp
    cases tp with
    | fixed_dim n element_tp =>
      obtain ⟨m, element, rfl, hve⟩ := hv.of_fixed_dim
      rw [picked] at h
      split_ifs at h with h0
      obtain ⟨k, -, h⟩ := Option.bind_eq_some_iff.1 h
      obtain ⟨rest, hrest, -⟩ := Option.bind_eq_some_iff.1 h
      obtain ⟨o, ho, htp⟩ := fixed_dim_type_ok.1 htp
      rw [if_pos ((resolved_selects ho).removes.2 h0)] at htp
      exact ih hve hrest htp
    | tuple names n tps =>
      obtain ⟨hn, data_offsets, fields, rfl, hve⟩ := hv.of_tuple
      rw [picked] at h
      split_ifs at h with h0
      obtain ⟨k, hk, h⟩ := Option.bind_eq_some_iff.1 h
      split_ifs at h with hlt
      obtain ⟨rest, hrest, -⟩ := Option.bind_eq_some_iff.1 h
      obtain ⟨o, ho, hfield⟩ := tuple_type_ok htp
      rw [← toSize_val hn] at hk
      obtain ⟨k', hk', rfl⟩ := (resolved_single h0).1 ho
      obtain rfl : k' = k := Option.some.inj (hk'.symm.trans hk)
      rw [if_pos rfl] at hfield
      obtain ⟨_, hfield⟩ := hfield
      exact ih (hve _) hrest hfield
    | _ => cases h

/-- The type that a range means the same for, if the rest does, takes the arrmeta's place. -/
theorem alike_range {r : irange} {rest : type B → arrmeta → Prop} {tp tp' result_tp : type B} {md : arrmeta}
    (hrest : ∀ {tp tp' result_tp : type B} {md : arrmeta} {x : arrmeta × ℤ}, Valid tp md → rest tp md →
      apply_to_type tp indices false = .ok tp' → apply_within next tp' md result_tp = .ok x → apply_within next tp md result_tp = .ok x)
    (hv : Valid tp md) (halike : AlikeRange r rest tp md) (htp : apply_to_type tp (r :: indices) false = .ok tp') :
    tp.is_builtin = false ∧ tp'.is_builtin = false ∧
      ∀ a, apply_range mem r next tp' md result_tp none = .ok a → apply_range mem r next tp md result_tp none = .ok a := by
  cases tp with
  | fixed_dim n element_tp =>
    obtain ⟨m, element, rfl, hve⟩ := hv.of_fixed_dim
    obtain ⟨hsame, halike⟩ := halike
    obtain ⟨o, ho, hkept⟩ := fixed_dim_type_ok.1 htp
    have hr : ¬ o.remove_dimension = true := fun hr => hsame.1 ((resolved_selects ho).removes.1 hr)
    rw [if_neg hr] at hkept
    obtain ⟨etp, hetp, rfl⟩ := hkept
    refine ⟨rfl, rfl, fun a ha => ?_⟩
    obtain ⟨o', ho', hleft⟩ := fixed_dim_arrmeta_ok.1 ha
    obtain rfl := resolved_same ho ho' (resolved_selects ho).toSize hsame
    rw [if_neg hr] at hleft
    obtain ⟨out, more, hwithin, rfl⟩ := hleft
    refine fixed_dim_arrmeta_ok.2 ⟨o', ho, ?_⟩
    rw [if_neg hr]
    exact ⟨out, more, hrest hve halike hetp hwithin, rfl⟩
  | var_dim element_tp =>
    obtain ⟨stride, offset, element, rfl, hve⟩ := hv.of_var_dim
    obtain ⟨h0, halike⟩ := halike
    rw [var_dim_type_ok, if_neg h0] at htp
    obtain ⟨-, etp, hetp, rfl⟩ := htp
    refine ⟨rfl, rfl, fun a ha => ?_⟩
    obtain ⟨out, more, hwithin, hout⟩ := var_dim_arrmeta_ok.1 ha
    exact var_dim_arrmeta_ok.2 ⟨out, more, hrest hve halike hetp hwithin, hout⟩
  | tuple names n tps =>
    obtain ⟨hn, data_offsets, fields, rfl, hve⟩ := hv.of_tuple
    rw [AlikeRange, ← toSize_val hn] at halike
    obtain ⟨o, ho, hkept⟩ := tuple_type_ok htp
    have hr : ¬ o.remove_dimension = true := fun hr => halike.1 ((resolved_selects ho).removes.1 hr)
    rw [if_neg hr] at hkept
    obtain ⟨names', k, tps', rfl, hk, -⟩ := hkept
    refine ⟨rfl, rfl, fun a ha => ?_⟩
    obtain ⟨o', ho', hleft⟩ := tuple_arrmeta_ok.1 ha
    obtain rfl := resolved_same ho ho' (hk ▸ kept_count hn ho) halike
    -- with a range, the arrmeta does not depend on the types of the fields, only on those of the result
    rw [if_neg hr] at hleft
    refine tuple_arrmeta_ok.2 ⟨o', ho, ?_⟩
    rw [if_neg hr]
    exact hleft
  | builtin id => exact halike.elim
  | pointer target_tp => exact halike.elim

/-- The arrmeta may go on with the result's type where the indices mean the same for it. -/
theorem alike_within {indices : List irange} : ∀ {tp tp' result_tp : type B} {md : arrmeta} {x : arrmeta × ℤ}, Valid tp md →
    Alike indices tp md → apply_to_type tp indices false = .ok tp' →
    apply_within (apply_to_arrmeta mem indices) tp' md result_tp = .ok x →
    apply_within (apply_to_arrmeta mem indices) tp md result_tp = .ok x := by
  induction indices with
  | nil =>
    intro tp tp' result_tp md x _ _ htp h
    rw [apply_to_type] at htp
    cases htp
    exact h
  | cons r indices ih =>
    intro tp tp' result_tp md x hv halike htp h
    rw [Alike] at halike
    rcases halike with hpicked | halike
    · obtain ⟨id, rfl⟩ := picked_type hv hpicked htp
      cases h
      exact apply_within_ok.2 (picked_at hv hpicked)
    · obtain ⟨hb, hb', hrange⟩ := alike_range ih hv halike htp
      rw [apply_within_ok] at h ⊢
      obtain ⟨a, ha, hout⟩ := (apply_at_next hb').1 h
      exact (apply_at_next hb).2 ⟨a, hrange a ha, hout⟩

end

/-! ## Index by index -/

section
variable {mem : memory} {r : irange} {indices : List irange} {n : dim_size_t} {a b c : array B}

theorem step_fixed_dim (i : ℤ) (tp : type B) (md : size_stride_t) (element : arrmeta) (data : ℤ) :
    step mem i ⟨.fixed_dim n tp, .fixed_dim md element, data⟩ =
      (apply_single_index i n.val).bind fun k => some ⟨tp, element, data + k * md.stride⟩ := rfl

theorem step_var_dim (i : ℤ) (tp : type B) (stride offset : ℤ) (element : arrmeta) (data : ℤ) :
    step mem i ⟨.var_dim tp, .var_dim stride offset element, data⟩ =
      (apply_single_index i (mem data).2.val).bind fun k => some ⟨tp, element, (mem data).1 + offset + k * stride⟩ := rfl

theorem step_tuple (i : ℤ) (names : Option (List String)) (k : ℕ) (tps : Fin k → type B) (data_offsets : ℕ → ℤ) (fields : ℕ → arrmeta)
    (data : ℤ) : step mem i ⟨.tuple names k tps, .tuple data_offsets fields, data⟩ =
      (apply_single_index i k).bind fun j =>
        if h : j.toNat < k then some ⟨tps ⟨j.toNat, h⟩, fields j.toNat, data + data_offsets j.toNat⟩ else none := rfl

theorem step_fixed_dim_of {i k : ℤ} {tp : type B} {md : size_stride_t} {element : arrmeta} {data : ℤ}
    (h : apply_single_index i n.val = some k) :
    step mem i ⟨.fixed_dim n tp, .fixed_dim md element, data⟩ = some ⟨tp, element, data + k * md.stride⟩ := by
  rw [step_fixed_dim, h, Option.bind_some]

theorem step_var_dim_of {i k : ℤ} {tp : type B} {stride offset : ℤ} {element : arrmeta} {data : ℤ}
    (h : apply_single_index i (mem data).2.val = some k) :
    step mem i ⟨.var_dim tp, .var_dim stride offset element, data⟩ = some ⟨tp, element, (mem data).1 + offset + k * stride⟩ := by
  rw [step_var_dim, h, Option.bind_some]

theorem step_tuple_of {i j : ℤ} {names : Option (List String)} {k : ℕ} {tps : Fin k → type B} {data_offsets : ℕ → ℤ}
    {fields : ℕ → arrmeta} {data : ℤ} (h : apply_single_index i k = some j) (hj : j.toNat < k) :
    step mem i ⟨.tuple names k tps, .tuple data_offsets fields, data⟩ =
      some ⟨tps ⟨j.toNat, hj⟩, fields j.toNat, data + data_offsets j.toNat⟩ := by
  rw [step_tuple, h, Option.bind_some, dif_pos hj]

/-- A pointer's elements are those it points to. -/
theorem element_pointer (p : List ℤ) (tp : type B) (offset : ℤ) (target : arrmeta) (data : ℤ) :
    element mem p ⟨.pointer tp, .pointer offset target, data⟩ = element mem p ⟨tp, target, (mem data).1 + offset⟩ := by
  cases p <;> rfl

theorem selected_single (p : List ℤ) (h0 : r.step.val = 0) (hn : extent mem a = some n) (hs : step mem r.start.val a = some b) :
    selected mem (r :: indices) p a = selected mem indices p b := by
  rw [selected, hn]
  simp only [if_pos h0, hs, Option.bind_some]

theorem Fits.single {leading : Bool} (h : Fits mem (r :: indices) leading a) (h0 : r.step.val = 0) :
    (leading = false → Pointable mem r.start.val a) ∧ ∀ b, step mem r.start.val a = some b → Fits mem indices leading b := by
  rw [Fits, if_pos h0] at h
  exact h

theorem Fits.range {leading : Bool} (h : Fits mem (r :: indices) leading a) (h0 : r.step.val ≠ 0) (hn : extent mem a = some n) {i : ℤ}
    (hi : i ∈ r.denotes n.val) (hs : step mem i a = some b) : FieldFits indices a b ∧ Fits mem indices false b := by
  rw [Fits, if_neg h0] at h
  exact h n hn i hi b hs

/-- A range selects right if each element it leaves is found where the rest of the indices selects right. -/
theorem range_right {o : Resolved} (hn : extent mem a = some n) (ho : resolved r n = some o) (h0 : r.step.val ≠ 0)
    (hb : element mem [] b = none) (hnone : ∀ j, apply_single_index j o.dimension_size = none → step mem j b = none)
    (hsome : ∀ j k, apply_single_index j o.dimension_size = some k → ∃ c d, step mem (o.start_index + k * o.index_stride) a = some c ∧
      step mem j b = some d ∧ ∀ p, selected mem indices p c = some (element mem p d)) (p : List ℤ) :
    selected mem (r :: indices) p a = some (element mem p b) := by
  rw [selected, hn]
  simp only [if_neg h0, if_pos (resolved_indices ho).2]
  cases p with
  | nil => rw [hb]
  | cons j p =>
    rw [← (resolved_selects ho).size]
    cases hk : apply_single_index j o.dimension_size with
    | none => simp only [hk, element, hnone j hk, Option.bind_none]
    | some k =>
      obtain ⟨hk0, hklt⟩ := apply_single_index_range hk
      obtain ⟨c, d, hc, hd, h⟩ := hsome j k hk
      simp only [hk, (resolved_range ho hk0 hklt).1, hc, element, hd, Option.bind_some, h]

end

/-! ## The two recursions together -/

/-- Applied to a type and its arrmeta, the indices select right, leading or not. -/
def Right (mem : memory) (indices : List irange) (tp : type B) (md : arrmeta) : Prop :=
  ∀ ⦃tp' : type B⦄ ⦃inout_data : Option ℤ⦄ ⦃a : Applied⦄ ⦃data : ℤ⦄, apply_to_type tp indices inout_data.isSome = .ok tp' →
    apply_to_arrmeta mem indices tp md tp' inout_data = .ok a → (∀ d ∈ inout_data, d = data) →
    Fits mem indices inout_data.isSome ⟨tp, md, data⟩ →
    ∀ p, selected mem indices p ⟨tp, md, data⟩ = some (element mem p ⟨tp', a.out, a.data.getD data + a.offset⟩)

section
variable {mem : memory} {indices : List irange} {tp tp' : type B} {md out : arrmeta} {offset more data : ℤ}
  {inout_data : Option ℤ} {a : Applied}

theorem getD_eq {o : Option ℤ} {data : ℤ} (h : ∀ d ∈ o, d = data) : o.getD data = data := by
  cases o with
  | none => rfl
  | some d => exact h d rfl

/-- The element or field at an offset, once the rest of the indices selects right. -/
theorem Right.at (ih : Right mem indices tp md) (hv : Valid tp md) (htp : apply_to_type tp indices inout_data.isSome = .ok tp')
    (h : apply_at (apply_to_arrmeta mem indices) tp md tp' offset inout_data = .ok a) (hd : ∀ d ∈ inout_data, d = data)
    (hfits : Fits mem indices inout_data.isSome ⟨tp, md, data + offset⟩) (p : List ℤ) :
    selected mem indices p ⟨tp, md, data + offset⟩ = some (element mem p ⟨tp', a.out, a.data.getD data + a.offset⟩) := by
  unfold apply_at at h
  split_ifs at h with hb
  · cases tp with
    | builtin id =>
      cases md <;> try exact hv.elim
      obtain ⟨rfl, rfl⟩ := builtin_type_ok htp
      cases h
      rw [getD_eq hd]
      rfl
    | _ => cases hb
  · cases inout_data with
    | none =>
      obtain ⟨a', ha', h⟩ := bind_eq_ok.1 h
      cases h
      have hnone : a'.data = none := by simpa using apply_to_arrmeta_data hv ha'
      have hrest := ih htp ha' nofun hfits p
      rw [hnone, Option.getD_none, Int.add_assoc] at hrest
      exact hrest
    | some d =>
      obtain rfl := hd d rfl
      obtain ⟨data', hdata⟩ := Option.isSome_iff_exists.1 (apply_to_arrmeta_data hv h)
      have hrest := @ih tp' (some (d + offset)) a _ htp h (fun _ h => (Option.some.inj h).symm) hfits p
      rw [hdata, Option.getD_some] at hrest ⊢
      exact hrest

theorem Right.within (ih : Right mem indices tp md) (hv : Valid tp md) (htp : apply_to_type tp indices false = .ok tp')
    (h : apply_within (apply_to_arrmeta mem indices) tp md tp' = .ok (out, more)) (hfits : Fits mem indices false ⟨tp, md, data⟩)
    (p : List ℤ) : selected mem indices p ⟨tp, md, data⟩ = some (element mem p ⟨tp', out, data + more⟩) := by
  have hat : selected mem indices p ⟨tp, md, data + 0⟩ = some (element mem p ⟨tp', out, data + more⟩) :=
    ih.at hv (show apply_to_type tp indices (none : Option ℤ).isSome = _ from htp) (apply_within_ok.1 h) nofun
      (by rwa [Int.add_zero]) p
  rwa [Int.add_zero] at hat

theorem fixed_dim_right {r : irange} {n : dim_size_t} {m : size_stride_t} {element_tp : type B} {element : arrmeta}
    (hv : Valid element_tp element) (ih : Right mem indices element_tp element) :
    Right mem (r :: indices) (.fixed_dim n element_tp) (.fixed_dim m element) := by
  intro tp' inout_data a data htp h hd hfits p
  obtain ⟨o, ho, htp⟩ := fixed_dim_type_ok.1 htp
  obtain ⟨o', ho', h⟩ := fixed_dim_arrmeta_ok.1 h
  obtain rfl : o' = o := Option.some.inj (ho'.symm.trans ho)
  have hsel := resolved_selects ho
  split_ifs at htp h with hr
  · have h0 := hsel.removes.1 hr
    obtain ⟨k, hk, rfl⟩ := (resolved_single h0).1 ho
    have hstep : step mem r.start.val (⟨.fixed_dim n element_tp, .fixed_dim m element, data⟩ : array B) =
        some ⟨element_tp, element, data + m.stride * k⟩ := by
      rw [step_fixed_dim_of hk, Int.mul_comm]
    rw [selected_single p h0 rfl hstep]
    exact ih.at hv htp h hd ((hfits.single h0).2 _ hstep) p
  · have h0 : r.step.val ≠ 0 := fun h0 => hr (hsel.removes.2 h0)
    obtain ⟨etp, hetp, rfl⟩ := htp
    obtain ⟨out, more, hwithin, rfl⟩ := h
    rw [getD_eq hd]
    refine range_right rfl ho h0 rfl (fun j hj => ?_) (fun j k hk => ?_) p
    · rw [step_fixed_dim, hsel.toSize, hj]
      rfl
    · obtain ⟨hk0, hklt⟩ := apply_single_index_range hk
      obtain ⟨-, hmem, hinside⟩ := resolved_range ho hk0 hklt
      refine ⟨_, _, step_fixed_dim_of hinside, step_fixed_dim_of (hsel.toSize.symm ▸ hk), fun p => ?_⟩
      rw [ih.within hv hetp hwithin (hfits.range h0 rfl hmem (step_fixed_dim_of hinside)).2 p]
      congr 3
      ring

/-- A do-nothing index at a `var` dimension, leading or not. -/
theorem var_dim_nop {r : irange} {stride : ℤ} {element_tp etp : type B} {element_md : arrmeta} {leading : Bool}
    (hv : Valid element_tp element_md) (ih : Right mem indices element_tp element_md) (h0 : r.step.val ≠ 0) (hnop : is_nop r = true)
    (hetp : apply_to_type element_tp indices false = .ok etp)
    (hwithin : apply_within (apply_to_arrmeta mem indices) element_tp element_md etp = .ok (out, more))
    (hfits : Fits mem (r :: indices) leading ⟨.var_dim element_tp, .var_dim stride offset element_md, data⟩) (p : List ℤ) :
    selected mem (r :: indices) p ⟨.var_dim element_tp, .var_dim stride offset element_md, data⟩ =
      some (element mem p ⟨.var_dim etp, .var_dim stride (offset + more) out, data + 0⟩) := by
  have ho := resolved_nop hnop (mem data).2
  rw [Int.add_zero]
  refine range_right rfl ho h0 rfl (fun j hj => ?_) (fun j k hk => ?_) p
  · rw [step_var_dim]
    simp only at hj
    rw [hj]
    rfl
  · obtain ⟨hk0, hklt⟩ := apply_single_index_range hk
    obtain ⟨-, hmem, -⟩ := resolved_range ho hk0 hklt
    simp only [Int.zero_add, Int.mul_one] at hk hklt hmem ⊢
    have hstep := @step_var_dim_of _ mem k k element_tp stride offset element_md data (apply_single_index_inside hk0 hklt)
    refine ⟨_, _, hstep, step_var_dim_of hk, fun p => ?_⟩
    rw [ih.within hv hetp hwithin (hfits.range h0 rfl hmem hstep).2 p]
    congr 3
    ring

theorem var_dim_right {r : irange} {stride : ℤ} {element_tp : type B} {element_md : arrmeta} (hv : Valid element_tp element_md)
    (ih : Right mem indices element_tp element_md) : Right mem (r :: indices) (.var_dim element_tp) (.var_dim stride offset element_md) := by
  intro tp' inout_data a data htp h hd hfits p
  rw [var_dim_type_ok] at htp
  cases inout_data with
  | none =>
    obtain ⟨out, more, hwithin, hout⟩ := var_dim_arrmeta_ok.1 h
    by_cases h0 : r.step.val = 0
    · -- a pointer to the elements
      rw [if_pos h0] at htp hout
      obtain ⟨etp, hetp, rfl⟩ := htp
      obtain ⟨hpointable, hfits⟩ := hfits.single h0
      obtain ⟨rfl, hmin, hmax⟩ := hpointable rfl
      have hstep := @step_var_dim_of _ mem _ _ element_tp stride 0 element_md data (apply_single_index_inside hmin hmax)
      rw [selected_single p h0 rfl hstep, ih.within hv hetp hwithin (hfits _ hstep) p, hout]
      change _ = some (element mem p ⟨.pointer etp, .pointer (r.start.val * stride + more) out, data + 0⟩)
      rw [element_pointer, Int.add_zero data]
      congr 3
      ring
    · rw [if_neg h0] at htp hout
      obtain ⟨hnop, etp, hetp, rfl⟩ := htp
      rw [hout.2]
      exact var_dim_nop hv ih h0 hnop hetp hwithin hfits p
  | some d =>
    obtain rfl := hd d rfl
    obtain ⟨o, ho, hout⟩ := leading_var_dim_arrmeta_ok.1 h
    by_cases h0 : r.step.val = 0
    · obtain ⟨k, hk, rfl⟩ := (resolved_single h0).1 ho
      rw [if_pos h0, Option.isSome_some, if_pos rfl] at htp
      rw [if_pos rfl] at hout
      have hstep : step mem r.start.val (⟨.var_dim element_tp, .var_dim stride offset element_md, d⟩ : array B) =
          some ⟨element_tp, element_md, (mem d).1 + offset + k * stride + 0⟩ := by
        rw [step_var_dim_of hk, Int.add_zero]
      rw [selected_single p h0 rfl hstep]
      obtain ⟨d', hd'⟩ := Option.isSome_iff_exists.1 (apply_at_data (apply_to_arrmeta_data hv) hout)
      have hrest := ih.at hv (show apply_to_type element_tp indices (some ((mem d).1 + offset + k * stride)).isSome = _ from htp) hout (fun _ h => (Option.some.inj h).symm) ((hfits.single h0).2 _ hstep) p
      rw [hd', Option.getD_some] at hrest ⊢
      exact hrest
    · have hr : ¬ o.remove_dimension = true := fun hr => h0 ((resolved_selects ho).removes.1 hr)
      rw [if_neg h0] at htp
      rw [if_neg hr] at hout
      obtain ⟨hnop, etp, hetp, rfl⟩ := htp
      obtain ⟨-, out, more, hwithin, rfl⟩ := hout
      exact var_dim_nop hv ih h0 hnop hetp hwithin hfits p

theorem fields_getElem {names : Option (List String)} {n i : ℕ} {tps : Fin n → type B} {tp : type B} (hi : i < n)
    (h : (type.tuple names n tps).fields[i]? = some tp) : tp = tps ⟨i, hi⟩ := by
  rw [type.fields, List.getElem?_ofFn, dif_pos hi] at h
  exact (Option.some.inj h).symm

theorem tuple_right {r : irange} {names : Option (List String)} {n : ℕ} {tps : Fin n → type B} {data_offsets : ℕ → ℤ}
    {fields : ℕ → arrmeta} (hn : n < 2 ^ 63) (hv : ∀ i : Fin n, Valid (tps i) (fields i))
    (ih : ∀ i : Fin n, Right mem indices (tps i) (fields i)) :
    Right mem (r :: indices) (.tuple names n tps) (.tuple data_offsets fields) := by
  intro tp' inout_data a data htp h hd hfits p
  obtain ⟨o, ho, htp⟩ := tuple_type_ok htp
  obtain ⟨o', ho', hout⟩ := tuple_arrmeta_ok.1 h
  obtain rfl : o' = o := Option.some.inj (ho'.symm.trans ho)
  have hsel := resolved_selects ho
  by_cases h0 : r.step.val = 0
  · obtain ⟨k, hk, rfl⟩ := (resolved_single h0).1 ho
    rw [if_pos rfl] at htp hout
    obtain ⟨hlt, htp⟩ := htp
    obtain ⟨_, hout⟩ := hout
    rw [toSize_val hn] at hk
    have hstep := @step_tuple_of _ mem _ _ names _ tps data_offsets fields data hk hlt
    rw [selected_single p h0 rfl hstep]
    exact (ih _).at (hv _) htp hout hd ((hfits.single h0).2 _ hstep) p
  · have hr : ¬ o'.remove_dimension = true := fun hr => h0 (hsel.removes.1 hr)
    rw [if_neg hr] at htp hout
    obtain ⟨names', m, tps', rfl, rfl, htp⟩ := htp
    obtain ⟨outs, houts, rfl⟩ := hout
    have hcast : ((o'.dimension_size.toNat : ℕ) : ℤ) = o'.dimension_size := Int.toNat_of_nonneg (by rw [hsel.size]; omega)
    rw [getD_eq hd, Int.add_zero]
    refine range_right rfl ho h0 rfl (fun j hj => ?_) (fun j k hk => ?_) p
    · rw [step_tuple, hcast, hj]
      rfl
    · obtain ⟨hk0, hklt⟩ := apply_single_index_range hk
      obtain ⟨-, hmem, hinside⟩ := resolved_range ho hk0 hklt
      have hkn : k.toNat < o'.dimension_size.toNat := by omega
      obtain ⟨ft, hft, more, hwithin, hoffset⟩ := houts ⟨k.toNat, hkn⟩
      obtain ⟨hlt, hfield⟩ : ∃ h : idx o' k.toNat < n, apply_to_type (tps ⟨idx o' k.toNat, h⟩) indices false = .ok (tps' ⟨k.toNat, hkn⟩) :=
        htp ⟨k.toNat, hkn⟩
      have hidx : ((idx o' k.toNat : ℕ) : ℤ) = o'.start_index + k * o'.index_stride := by
        have := (apply_single_index_range hinside).1
        rw [idx, Int.toNat_of_nonneg hk0, Int.toNat_of_nonneg this]
      have hstep : step mem (o'.start_index + k * o'.index_stride) (⟨.tuple names n tps, .tuple data_offsets fields, data⟩ : array B) =
          some ⟨tps ⟨idx o' k.toNat, hlt⟩, fields (idx o' k.toNat), data + data_offsets (idx o' k.toNat)⟩ := by
        have hin : apply_single_index ((idx o' k.toNat : ℕ) : ℤ) n = some ((idx o' k.toNat : ℕ) : ℤ) :=
          apply_single_index_inside (by omega) (by omega)
        rw [← hidx]
        exact step_tuple_of hin hlt
      have hkept : step mem j (⟨.tuple names' o'.dimension_size.toNat tps', .tuple (ofFields 0 fun i => (outs i).2)
          (ofFields .builtin fun i => (outs i).1), data⟩ : array B) =
          some ⟨tps' ⟨k.toNat, hkn⟩, (outs ⟨k.toNat, hkn⟩).1, data + (outs ⟨k.toNat, hkn⟩).2⟩ := by
        rw [step_tuple_of (hcast.symm ▸ hk) hkn, ofFields, dif_pos hkn, ofFields, dif_pos hkn]
      refine ⟨_, _, hstep, hkept, fun p => ?_⟩
      obtain ⟨halike, hfits⟩ := hfits.range h0 rfl hmem hstep
      obtain rfl := fields_getElem hkn hft
      rw [(ih _).within (hv _) hfield (alike_within (hv _) halike hfield hwithin) hfits p, hoffset, Int.add_assoc]

theorem right : ∀ {indices : List irange} {tp : type B} {md : arrmeta}, Valid tp md → Right mem indices tp md := by
  intro indices
  induction indices with
  | nil =>
    intro tp md hv tp' inout_data a data htp h hd hfits p
    rw [apply_to_type] at htp
    cases htp
    cases h
    rw [getD_eq hd, Int.add_zero]
    rfl
  | cons r indices ih =>
    intro tp md hv
    cases tp with
    | builtin id =>
      intro tp' inout_data a data htp
      exact absurd (builtin_type_ok htp).1 (List.cons_ne_nil _ _)
    | fixed_dim n element_tp =>
      obtain ⟨m, element, rfl, hve⟩ := hv.of_fixed_dim
      exact fixed_dim_right hve (ih hve)
    | var_dim element_tp =>
      obtain ⟨stride, offset, element, rfl, hve⟩ := hv.of_var_dim
      exact var_dim_right hve (ih hve)
    | tuple names n tps =>
      obtain ⟨hn, data_offsets, fields, rfl, hve⟩ := hv.of_tuple
      exact tuple_right hn hve fun i => ih (hve i)
    | pointer target_tp => exact hv.elim

end

theorem intptrRange_back : IntptrRange (-1) := by decide

theorem intptrRange_zero : IntptrRange 0 := by decide

theorem intptrRange_one : IntptrRange 1 := by decide

theorem three_size : (0 : ℤ) ≤ 3 ∧ (3 : ℤ) < 2 ^ 63 := by decide

def every : irange := ⟨intptrMin, intptrMax, ⟨1, intptrRange_one⟩⟩

def reversed : irange := ⟨intptrMin, intptrMax, ⟨-1, intptrRange_back⟩⟩

def second : irange := ⟨⟨1, intptrRange_one⟩, ⟨0, intptrRange_zero⟩, ⟨0, intptrRange_zero⟩⟩

def three : dim_size_t := ⟨3, three_size⟩

/-- `(3 * int32,)` at address 16. -/
def row : array String :=
  ⟨.tuple none 1 fun _ => .fixed_dim three (.builtin "int32"), .tuple (fun _ => 0) fun _ => .fixed_dim ⟨3, 4⟩ .builtin, 16⟩

theorem row_valid : Valid row.tp row.md := ⟨by decide, fun _ => trivial⟩

end Dynd.MultiIndex
