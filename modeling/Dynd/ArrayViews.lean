import Dynd.FixedDim
import Dynd.Lib.Reachable
import Mathlib.Data.List.GetD
/-!
# Permuting and viewing arrays of fixed dimensions

The other operations that write the arrmeta of a fixed dimension, and the
states that indexing, permuting and viewing lead to from default construction.
Slicing a dimension to one element, viewing one element's bytes as a dimension
and permuting two separate groups of axes each break the stride invariant; a
run without these steps keeps it.
-/
namespace Dynd.FixedDim
open Lib LinearIndex

/-! ## Permuting axes -/

def is_valid_perm (axes : List ℤ) : Bool := axes.all (fun v => 0 ≤ v && v < axes.length) && decide axes.Nodup

/-- The smallest interval of mutually permuted axes: `while (loop_i <= max_i && loop_i < ndim)`,
over the axes from `loop_i` on. -/
def maxInterval : List ℕ → ℕ → ℕ → ℕ
  | [], _, max_i => max_i
  | a :: axes, loop_i, max_i =>
    if loop_i ≤ max_i then maxInterval axes (loop_i + 1) (if max_i < a then a else max_i) else max_i

section
variable {T : Type} [ElementType T]

/-- `permute_type_dims`, on the dimensions from axis `i` on. The type is `none` where it is
left as it is. -/
def permute_type_dims (dtype : T) (axes : List ℕ) : List dim_size_t → ℕ → ℕ → List size_stride_t →
    Except array_error (Option (List dim_size_t) × List size_stride_t)
  | dims, i, offset, md =>
    match axes[i]? with
    | none => .error .undefined_behaviour
    | some a =>
      if a = i then
        -- Stationary axis
        if i + 1 = axes.length then
          .ok (none, md)
        else
          match dims with
          | [] => if ElementType.is_builtin dtype then .error .undefined_behaviour else .ok (none, md)
          | d :: dims => do
            let (tmp_tp, md) ← permute_type_dims dtype axes dims (i + 1) (offset + 1) md
            return (tmp_tp.map (d :: ·), md)
      else
        let max_i := maxInterval (axes.drop (i + 1)) (i + 1) a
        let perm_ndim := max_i - i + 1
        if dims.length < perm_ndim then
          .error (.invalid_argument "Cannot permute non-strided dimensions in type ")
        else do
          let (subtp, md) ←
            -- If there are more permutation axes left, process the subtype: it is the
            -- type itself that is transformed, from its first child on
            if max_i + 1 < axes.length then
              match dims with
              | [] => throw .undefined_behaviour
              | d :: rest => do
                let (tmp_tp, md) ← permute_type_dims dtype axes rest (max_i + 1) (offset + perm_ndim + 1) md
                pure (d :: tmp_tp.getD rest, md)
            else pure (dims.drop perm_ndim, md)
          -- Apply the permutation
          if md.length < offset + perm_ndim then throw .undefined_behaviour
          let srcs := (axes.drop i).take perm_ndim
          return (some (srcs.map (fun s => dims.getD (s - i) dim_size_t.zero) ++ subtp),
            md.take offset ++ srcs.map (fun s => md.getD (offset + (s - i)) ⟨0, 0⟩) ++ md.drop (offset + perm_ndim))

def permute (axes : List ℤ) (a : FixedArray T) : Except array_error (FixedArray T) := do
  if a.tp.dims.length < axes.length then
    throw (.invalid_argument "Too many dimensions provided for axis permutation")
  if !is_valid_perm axes then
    throw (.invalid_argument "Invalid permutation provided to dynd axis permute")
  let (tp, md) ← permute_type_dims a.tp.dtype (axes.map Int.toNat) a.tp.dims 0 0 a.arrmeta
  return ⟨⟨tp.getD a.tp.dims, a.tp.dtype⟩, md, a.data⟩

/-! ## Viewing as bytes -/

/-- An array of the type `bytes[align=target_alignment]`: `[begin, finish)`, and the address of these two pointers. -/
structure BytesArray where
  target_alignment : ℕ
  begin : ℤ
  finish : ℤ
  data : ℤ
deriving DecidableEq

def offset_is_aligned (offset : ℤ) (alignment : ℕ) : Bool := offset.toNat &&& (alignment - 1) = 0

/-- The dimensions in the order of their strides, largest first. Equal strides keep their
order, as `strides_to_axis_perm` has it up to three dimensions (beyond, `std::sort` may not). -/
def sortStrides (md : List size_stride_t) : List size_stride_t :=
  (md.reverse.mergeSort fun a b => a.stride.natAbs ≤ b.stride.natAbs).reverse

/-- `csorted`. -/
def strides_sorted (md : List size_stride_t) : Bool := (md.zip md.tail).all fun p => p.2.stride ≤ p.1.stride

/-- Try to collapse the shape/strides into a single strided array. -/
def collapse : List size_stride_t → ℤ × ℤ → Option (ℤ × ℤ)
  | [], data => some data
  | m :: md, (data_dim_size, data_stride) =>
    if m.dim_size = 1 then collapse md (data_dim_size, data_stride)
    else if data_dim_size = -1 then collapse md (m.dim_size, m.stride)
    else if m.dim_size * m.stride ≠ data_stride then none
    else collapse md (data_dim_size * m.dim_size, m.stride)

/-- `refine_bytes_view` until nothing is left: where the bytes start and how many they are. -/
def refine_bytes_view (a : FixedArray T) : Option (ℤ × ℤ) := do
  let md := if strides_sorted a.arrmeta then a.arrmeta else sortStrides a.arrmeta
  let (data_dim_size, data_stride) ← collapse md (-1, 0)
  match ElementType.string_extent a.tp.dtype a.data with
  | some (str_begin, str_end) => if data_dim_size = -1 then some (str_begin, str_end - str_begin) else none
  | none =>
    -- If the data type has a fixed size, check if it fits the strides
    let data_tp_size : ℤ := ElementType.get_data_size a.tp.dtype
    if data_tp_size ≤ 0 then none
    else if data_dim_size = -1 then some (a.data, data_tp_size)
    else if data_tp_size = data_stride then some (a.data, data_dim_size * data_tp_size)
    else none

/-- `fresh` is where the two pointers of the result are allocated. -/
def view_as_bytes (target_alignment : ℕ) (fresh : ℤ) (a : FixedArray T) : Option BytesArray :=
  if (ElementType.get_flags a.tp.dtype).destructor then none
  else
    match refine_bytes_view a with
    | none => none
    | some (data_ptr, data_dim_size) =>
      if data_dim_size < 0 || !offset_is_aligned data_ptr target_alignment then none
      else some ⟨target_alignment, data_ptr, data_ptr + data_dim_size, fresh⟩

/-- A bytes array as bytes of another alignment: its own two pointers are viewed. -/
def bytes_as_bytes (target_alignment : ℕ) (fresh : ℤ) (b : BytesArray) : Option BytesArray :=
  if offset_is_aligned b.data target_alignment then some ⟨target_alignment, b.data, b.data + 16, fresh⟩ else none

/-! ## Viewing as a type -/

/-- The types a view can have here: bytes, or dimensions that are fixed or the symbolic `Fixed`. -/
inductive ViewType (T : Type) where
  | bytes (target_alignment : ℕ)
  | dims (shape : List (Option dim_size_t)) (dtype : T)

def view_from_bytes (b : BytesArray) (shape : List (Option dim_size_t)) (dtype : T) :
    Except array_error (Option (FixedArray T)) :=
  let flags := ElementType.get_flags dtype
  let data_size := b.finish - b.begin
  let size : ℤ := ElementType.get_data_size dtype
  let aligned := offset_is_aligned b.begin (ElementType.get_data_alignment dtype)
  if flags.blockref || flags.destructor || flags.not_host_readable then .ok none
  else
    match shape with
    | [] => .ok (if 0 < size && size = data_size && aligned then some ⟨⟨[], dtype⟩, [], b.begin⟩ else none)
    | d :: shape =>
      -- a dimension has data size zero
      let el_data_size := if shape = [] then size else 0
      if el_data_size = 0 then .error .undefined_behaviour
      else if data_size.tmod el_data_size = 0 && aligned then
        let dim_size := data_size.tdiv el_data_size
        if d.any (·.val ≠ dim_size) then .ok none
        else .ok (some ⟨⟨[toSize dim_size], dtype⟩, [⟨dim_size, el_data_size⟩], b.begin⟩)
      else .ok none

def is_pod (tp : T) : Bool :=
  ElementType.is_builtin tp || (0 < ElementType.get_data_size tp &&
    !(ElementType.get_flags tp).blockref && !(ElementType.get_flags tp).destructor)

/-- `try_view` of the elements. -/
def try_view_dtype [DecidableEq T] (tp view_tp : T) : Bool :=
  tp = view_tp || (is_pod tp && is_pod view_tp && ElementType.get_data_size tp = ElementType.get_data_size view_tp &&
    ElementType.get_data_alignment view_tp ≤ ElementType.get_data_alignment tp)

/-- `try_view`: the arrmeta of the view. -/
def try_view [DecidableEq T] (tp view_tp : T) : List dim_size_t → List size_stride_t → List dim_size_t →
    Option (List size_stride_t)
  | [], _, [] => if try_view_dtype tp view_tp then some [] else none
  | _ :: dims, m :: md, d :: view_dims =>
    -- The size must match exactly in this case
    if m.dim_size ≠ d.val then none else (m :: ·) <$> try_view tp view_tp dims md view_dims
  | _, _, _ => none

/-- `substitute_shape`: a symbolic dimension takes the array's size, a fixed one must have it. -/
def substitute_shape : List (Option dim_size_t) → List dim_size_t → Except array_error (List dim_size_t)
  | [], _ => .ok []
  | none :: shape, d :: dims => (d :: ·) <$> substitute_shape shape dims
  | some s :: shape, d :: dims =>
    if s = d then (s :: ·) <$> substitute_shape shape dims else .error (.type_error "Cannot substitute shape ")
  | _ :: _, [] => .error (.type_error "Cannot substitute shape ")

def view_concrete [DecidableEq T] (a : FixedArray T) (tp : FixedType T) : Except array_error (FixedArray T) :=
  match try_view a.tp.dtype tp.dtype a.tp.dims a.arrmeta tp.dims with
  | some md => .ok ⟨tp, md, a.data⟩
  | none => .error (.type_error "Unable to view nd::array of type ")

/-! ## Viewing the scalars -/

/-- `view_scalar_types` of a scalar. -/
def view_scalar_types (dt e : T) : Except array_error T :=
  if ElementType.is_expr dt || ElementType.get_data_size dt ≠ ElementType.get_data_size e || !is_pod dt || !is_pod e then
    if ElementType.is_string_layout dt && ElementType.is_string_layout e &&
        ElementType.get_data_alignment e ≤ ElementType.get_data_alignment dt then .ok e
    else
      match ElementType.make_view e dt with
      | some tp => .ok tp
      | none => .error (.type_error "view_type: Cannot view ")
  else .ok e

/-- A one dimensional block of memory we can reinterpret at will. -/
def is_block (a : FixedArray T) : Option size_stride_t :=
  match a.tp.dims, a.arrmeta with
  | [_], m :: _ =>
    if is_pod a.tp.dtype && (ElementType.get_data_size a.tp.dtype : ℤ) = m.stride && !ElementType.is_expr a.tp.dtype then
      some m
    else none
  | _, _ => none

def view_scalars (scalar_tp : T) (a : FixedArray T) : Except array_error (FixedArray T) :=
  match is_block a with
  | some m =>
    let size : ℤ := ElementType.get_data_size scalar_tp
    let nbytes := m.dim_size * ElementType.get_data_size a.tp.dtype
    if size = 0 then .error .undefined_behaviour
    -- Make sure the element size divides into the # of bytes
    else if nbytes.tmod size ≠ 0 then .error (.runtime_error "cannot view array")
    else
      let dim_size := nbytes.tdiv size
      let dtype :=
        if offset_is_aligned a.data (ElementType.get_data_alignment scalar_tp) then scalar_tp
        else ElementType.make_unaligned scalar_tp
      .ok ⟨⟨[toSize dim_size], dtype⟩, [⟨dim_size, size⟩], a.data⟩
  | none => do
    let dtype ← view_scalar_types a.tp.dtype scalar_tp
    return ⟨⟨a.tp.dims, dtype⟩, a.arrmeta, a.data⟩

/-! ## Runs -/

inductive NdArray (T : Type) where
  | fixed (a : FixedArray T)
  | bytes (b : BytesArray)
deriving DecidableEq

/-- `nd::view`. -/
def view [DecidableEq T] (tp : ViewType T) (fresh : ℤ) (arr : NdArray T) : Except array_error (NdArray T) :=
  let unable : Except array_error (NdArray T) := .error (.type_error "Unable to view nd::array of type ")
  match tp, arr with
  | .bytes alignment, .bytes b =>
    if b.target_alignment = alignment then .ok arr
    else (bytes_as_bytes alignment fresh b).elim unable (.ok <| .bytes ·)
  | .bytes alignment, .fixed a => (view_as_bytes alignment fresh a).elim unable (.ok <| .bytes ·)
  | .dims shape dtype, .bytes b => do
    let result ← view_from_bytes b shape dtype
    result.elim unable (.ok <| .fixed ·)
  | .dims shape dtype, .fixed a =>
    if shape = a.tp.dims.map some && dtype = a.tp.dtype then .ok arr
    else if shape.length ≠ a.tp.dims.length then unable
    else do
      let dims ← if shape.any Option.isNone then substitute_shape shape a.tp.dims else .ok (shape.filterMap id)
      let result ← view_concrete a ⟨dims, dtype⟩
      return .fixed result

inductive Step (T : Type) where
  | index (indices : List irange)
  | permute (axes : List ℤ)
  | view (tp : ViewType T) (fresh : ℤ)
  | view_scalars (scalar_tp : T)

def step [DecidableEq T] : Step T → NdArray T → Except array_error (NdArray T)
  | .index indices, .fixed a => .fixed <$> at_array indices a
  | .index indices, .bytes b => if indices ≠ [] then .error (.too_many_indices indices.length 0) else .ok (.bytes b)
  | .permute axes, .fixed a => .fixed <$> permute axes a
  | .permute axes, .bytes _ =>
    if axes ≠ [] then .error (.invalid_argument "Too many dimensions provided for axis permutation")
    else .error .undefined_behaviour
  | .view tp fresh, arr => view tp fresh arr
  | .view_scalars scalar_tp, .fixed a => .fixed <$> view_scalars scalar_tp a
  -- a view type of a bytes scalar, which has no dimensions
  | .view_scalars _, .bytes _ => .error (.type_error "view_type: Only POD types are supported")

/-! ## The steps that keep the stride invariant -/

def NdArray.StrideInvariant : NdArray T → Prop
  | .fixed a => FixedDim.StrideInvariant a
  | .bytes _ => True

/-- The axes of the permutation move in one group, which ends with the last of them: a group
before it that is mapped to itself is stationary. -/
def OneBlock (axes : List ℕ) : Prop :=
  ∀ j < axes.length, (∀ k < j, axes.getD k 0 < j) → ∀ k < j, axes.getD k 0 = k

instance (axes : List ℕ) : Decidable (OneBlock axes) := by
  unfold OneBlock
  infer_instance

/-- The bytes hold two elements of a size at least. -/
def Step.Keeps : Step T → NdArray T → Prop
  | .index indices, .fixed a => KeepsStrides indices a.tp.dims a.arrmeta
  | .permute axes, .fixed _ => OneBlock (axes.map Int.toNat)
  | .view (.dims shape dtype) _, .bytes b => shape ≠ [] → 2 * (ElementType.get_data_size dtype : ℤ) ≤ b.finish - b.begin
  | .view_scalars scalar_tp, .fixed a => ∀ m, is_block a = some m →
      2 * (ElementType.get_data_size scalar_tp : ℤ) ≤ m.dim_size * ElementType.get_data_size a.tp.dtype
  | _, _ => True

theorem maxInterval_spec (axes : List ℕ) : ∀ loop_i max_i, let m := maxInterval axes loop_i max_i
    max_i ≤ m ∧ (m = max_i ∨ m ∈ axes) ∧ ∀ k, loop_i + k ≤ m → ∀ a, axes[k]? = some a → a ≤ m := by
  induction axes with
  | nil =>
    intro loop_i max_i
    refine ⟨le_rfl, .inl rfl, ?_⟩
    intro k _ a ha
    simp at ha
  | cons b axes ih =>
    intro loop_i max_i
    simp only [maxInterval]
    by_cases hle : loop_i ≤ max_i
    · rw [if_pos hle]
      obtain ⟨hmax, hmem, hall⟩ := ih (loop_i + 1) (if max_i < b then b else max_i)
      refine ⟨le_trans (by split_ifs <;> omega) hmax, ?_, ?_⟩
      · rcases hmem with h | h
        · rw [h]
          split_ifs
          · exact .inr List.mem_cons_self
          · exact .inl rfl
        · exact .inr (List.mem_cons_of_mem _ h)
      · intro k hk a ha
        rcases k with _ | k
        · obtain rfl : b = a := by simpa using ha
          exact le_trans (by split_ifs <;> omega) hmax
        · exact hall k (by omega) a (by simpa using ha)
    · rw [if_neg hle]
      exact ⟨le_rfl, .inl rfl, fun k hk => by omega⟩

/-- The first group of axes that move reaches the last axis. -/
theorem maxInterval_last {axes : List ℕ} (hlt : ∀ a ∈ axes, a < axes.length) (hnodup : axes.Nodup)
    (hone : OneBlock axes) {i a : ℕ} (hstat : ∀ k < i, axes.getD k 0 = k) (hi : axes[i]? = some a) (hne : a ≠ i) :
    maxInterval (axes.drop (i + 1)) (i + 1) a + 1 = axes.length ∧ i ≤ maxInterval (axes.drop (i + 1)) (i + 1) a := by
  obtain ⟨hmax, hmem, hall⟩ := maxInterval_spec (axes.drop (i + 1)) (i + 1) a
  set m := maxInterval (axes.drop (i + 1)) (i + 1) a
  obtain ⟨hilt, hia⟩ := List.getElem?_eq_some_iff.1 hi
  have hget : ∀ (k : ℕ) (hk : k < axes.length), axes.getD k 0 = axes[k] := fun k hk => List.getD_eq_getElem _ _ hk
  have hmlt : m < axes.length := by
    rcases hmem with h | h
    · rw [h]
      exact hlt a (List.mem_of_getElem? hi)
    · exact hlt m (List.mem_of_mem_drop h)
  have hai : i < a := by
    by_contra hle
    have halt : a < axes.length := hlt a (List.mem_of_getElem? hi)
    have heq : axes[a] = axes[i] := by rw [← hget a halt, hstat a (by omega), hia]
    exact hne ((hnodup.getElem_inj_iff).1 heq)
  -- the axes up to `m` are mapped to themselves
  have hclosed : ∀ k < m + 1, axes.getD k 0 < m + 1 := by
    intro k hk
    rcases lt_trichotomy k i with h | rfl | h
    · rw [hstat k h]
      exact hk
    · rw [hget k hilt, hia]
      omega
    · have hkl : k < axes.length := by omega
      have hdrop : (axes.drop (i + 1))[k - (i + 1)]? = some axes[k] := by
        rw [List.getElem?_drop, show i + 1 + (k - (i + 1)) = k by omega, List.getElem?_eq_getElem hkl]
      have := hall (k - (i + 1)) (by omega) _ hdrop
      rw [hget k hkl]
      omega
  refine ⟨?_, by omega⟩
  by_contra hlast
  have := hone (m + 1) (by omega) hclosed i (by omega)
  rw [hget i hilt, hia] at this
  exact hne this

/-- The shape and the arrmeta of a permuted group of axes that reaches the last one. -/
theorem permute_group_spec (dtype : T) {axes : List ℕ} (hlt : ∀ a ∈ axes, a < axes.length) (hnodup : axes.Nodup)
    (hone : OneBlock axes) {dims : List dim_size_t} {i a : ℕ} {md md' : List size_stride_t}
    {tp : Option (List dim_size_t)} (hstat : ∀ k < i, axes.getD k 0 = k) (hlen : md.length = i + dims.length)
    (hnorm : ∀ m ∈ md, m.Normalized) (hi : axes[i]? = some a) (hne : a ≠ i)
    (h : permute_type_dims dtype axes dims i i md = .ok (tp, md')) :
    md'.length = md.length ∧ (tp.getD dims).length = dims.length ∧ ∀ m ∈ md', m.Normalized := by
  obtain ⟨hlast, hle⟩ := maxInterval_last hlt hnodup hone hstat hi hne
  rw [permute_type_dims.eq_def] at h
  simp only [hi, if_neg hne] at h
  set m := maxInterval (axes.drop (i + 1)) (i + 1) a
  rw [if_neg (show ¬ m + 1 < axes.length by omega)] at h
  split_ifs at h with hdims
  simp only [pure_eq_ok, ok_bind] at h
  split_ifs at h with hmd
  · cases h
  have hsrcs : ((axes.drop i).take (m - i + 1)).length = m - i + 1 := by
    rw [List.length_take, List.length_drop]
    omega
  obtain ⟨rfl, rfl⟩ := Prod.mk.inj (Except.ok.inj h)
  refine ⟨?_, ?_, ?_⟩
  · simp only [List.length_append, List.length_map, List.length_take, List.length_drop] at hsrcs ⊢
    omega
  · simp only [Option.getD_some, List.length_append, List.length_map, hsrcs, List.length_drop]
    omega
  · intro x hx
    simp only [List.mem_append] at hx
    rcases hx with (hx | hx) | hx
    · exact hnorm x (List.mem_of_mem_take hx)
    · obtain ⟨s, -, rfl⟩ := List.mem_map.1 hx
      rw [List.getD_eq_getElem?_getD]
      cases hs : md[i + (s - i)]? with
      | none => exact fun _ => rfl
      | some y => exact hnorm y (List.mem_of_getElem? hs)
    · exact hnorm x (List.mem_of_mem_drop hx)

theorem permute_type_dims_spec (dtype : T) {axes : List ℕ} (hlt : ∀ a ∈ axes, a < axes.length) (hnodup : axes.Nodup)
    (hone : OneBlock axes) : ∀ (dims : List dim_size_t) (i : ℕ) (md md' : List size_stride_t)
      (tp : Option (List dim_size_t)), (∀ k < i, axes.getD k 0 = k) → md.length = i + dims.length →
      (∀ m ∈ md, m.Normalized) → permute_type_dims dtype axes dims i i md = .ok (tp, md') →
      md'.length = md.length ∧ (tp.getD dims).length = dims.length ∧ ∀ m ∈ md', m.Normalized := by
  intro dims
  induction dims with
  | nil =>
    intro i md md' tp hstat hlen hnorm h
    cases hi : axes[i]? with
    | none =>
      rw [permute_type_dims.eq_def] at h
      simp only [hi] at h
      cases h
    | some a =>
      by_cases hne : a = i
      · subst hne
        rw [permute_type_dims.eq_def] at h
        simp only [hi, if_true] at h
        split_ifs at h
        · cases h
          exact ⟨rfl, rfl, hnorm⟩
        · cases h
          exact ⟨rfl, rfl, hnorm⟩
      · exact permute_group_spec dtype hlt hnodup hone hstat hlen hnorm hi hne h
  | cons d dims ih =>
    intro i md md' tp hstat hlen hnorm h
    cases hi : axes[i]? with
    | none =>
      rw [permute_type_dims.eq_def] at h
      simp only [hi] at h
      cases h
    | some a =>
      by_cases hne : a = i
      · subst hne
        rw [permute_type_dims.eq_def] at h
        simp only [hi, if_true] at h
        split_ifs at h
        · cases h
          exact ⟨rfl, rfl, hnorm⟩
        · obtain ⟨⟨tmp, md₁⟩, hrec, hres⟩ := bind_eq_ok.1 h
          cases hres
          have hstat' : ∀ k < a + 1, axes.getD k 0 = k := by
            intro k hk
            rcases Nat.lt_succ_iff_lt_or_eq.1 hk with hk | rfl
            · exact hstat k hk
            · rw [List.getD_eq_getElem?_getD, hi]
              rfl
          rw [List.length_cons] at hlen
          obtain ⟨hmd, htp, hnorm'⟩ := ih (a + 1) md md₁ tmp hstat' (by omega) hnorm hrec
          refine ⟨hmd, ?_, hnorm'⟩
          cases tmp with
          | none => rfl
          | some t => exact congrArg (· + 1) htp
      · exact permute_group_spec dtype hlt hnodup hone hstat hlen hnorm hi hne h

theorem permute_invariant {axes : List ℤ} {a b : FixedArray T} (ha : FixedDim.StrideInvariant a)
    (hone : OneBlock (axes.map Int.toNat)) (h : permute axes a = .ok b) : FixedDim.StrideInvariant b := by
  unfold permute at h
  by_cases hlen : a.tp.dims.length < axes.length
  · rw [if_pos hlen] at h
    cases h
  by_cases hperm : is_valid_perm axes
  · rw [if_neg hlen, hperm] at h
    obtain ⟨⟨tp, md⟩, hp, hres⟩ := bind_eq_ok.1 h
    cases hres
    simp only [is_valid_perm, Bool.and_eq_true, List.all_eq_true, decide_eq_true_eq] at hperm
    obtain ⟨hrange, hnodup⟩ := hperm
    have hlt : ∀ x ∈ axes.map Int.toNat, x < (axes.map Int.toNat).length := by
      intro x hx
      obtain ⟨v, hv, rfl⟩ := List.mem_map.1 hx
      have := hrange v hv
      rw [List.length_map]
      omega
    have hinj : (axes.map Int.toNat).Nodup := by
      refine List.Nodup.map_on ?_ hnodup
      intro x hx y hy hxy
      have := hrange x hx
      have := hrange y hy
      omega
    obtain ⟨hmd, htp, hnorm⟩ := permute_type_dims_spec a.tp.dtype hlt hinj hone a.tp.dims 0 a.arrmeta md tp
      (fun k hk => by omega) (by rw [ha.length, Nat.zero_add]) ha.normalized hp
    exact ⟨by rw [hmd, ha.length]; exact htp.symm, hnorm⟩
  · rw [if_neg hlen, if_pos (by simpa using hperm)] at h
    cases h

theorem try_view_spec [DecidableEq T] (tp view_tp : T) (dims : List dim_size_t) :
    ∀ (md : List size_stride_t) (view_dims : List dim_size_t) (md' : List size_stride_t), md.length = dims.length →
      (∀ m ∈ md, m.Normalized) → try_view tp view_tp dims md view_dims = some md' →
      md'.length = view_dims.length ∧ ∀ m ∈ md', m.Normalized := by
  induction dims with
  | nil =>
    intro md view_dims md' _ _ h
    cases view_dims with
    | nil =>
      rw [try_view] at h
      split_ifs at h
      cases h
      exact ⟨rfl, fun m hm => by cases hm⟩
    | cons => cases h
  | cons d dims ih =>
    intro md view_dims md' hlen hnorm h
    obtain ⟨m, md, rfl⟩ := List.exists_cons_of_length_eq_add_one hlen
    cases view_dims with
    | nil => cases h
    | cons e view_dims =>
      rw [List.forall_mem_cons] at hnorm
      rw [try_view] at h
      split_ifs at h
      obtain ⟨rest, hrest, rfl⟩ := Option.map_eq_some_iff.1 h
      obtain ⟨hlen', hnorm'⟩ := ih md view_dims rest (Nat.succ.inj hlen) hnorm.2 hrest
      exact ⟨by simp [hlen'], List.forall_mem_cons.2 ⟨hnorm.1, hnorm'⟩⟩

theorem view_concrete_invariant [DecidableEq T] {a b : FixedArray T} {tp : FixedType T}
    (ha : FixedDim.StrideInvariant a) (h : view_concrete a tp = .ok b) : FixedDim.StrideInvariant b := by
  unfold view_concrete at h
  cases hv : try_view a.tp.dtype tp.dtype a.tp.dims a.arrmeta tp.dims with
  | none => simp [hv] at h
  | some md =>
    simp only [hv, Except.ok.injEq] at h
    obtain ⟨hlen, hnorm⟩ := try_view_spec _ _ _ _ _ _ ha.length ha.normalized hv
    rw [← h]
    exact ⟨hlen, hnorm⟩

/-- A dimension of two elements or more is normalized whatever its stride. -/
theorem normalized_of_two {nbytes size stride : ℤ} (hsize : 0 < size) (h : 2 * size ≤ nbytes) :
    (⟨nbytes.tdiv size, stride⟩ : size_stride_t).Normalized := by
  intro hle
  have h2 : 2 ≤ nbytes / size := (Int.le_ediv_iff_mul_le hsize).2 h
  rw [Int.tdiv_eq_ediv_of_nonneg (by omega)] at hle
  simp only at hle
  omega

theorem view_from_bytes_invariant {b : BytesArray} {shape : List (Option dim_size_t)} {dtype : T} {a : FixedArray T}
    (hkeep : shape ≠ [] → 2 * (ElementType.get_data_size dtype : ℤ) ≤ b.finish - b.begin)
    (h : view_from_bytes b shape dtype = .ok (some a)) : FixedDim.StrideInvariant a := by
  unfold view_from_bytes at h
  rcases shape with _ | ⟨d, shape⟩
  · simp only at h
    split_ifs at h
    · cases h
    · cases h
      exact ⟨rfl, fun m hm => by cases hm⟩
    · cases h
  · simp only at h
    by_cases hflags : (ElementType.get_flags dtype).blockref || (ElementType.get_flags dtype).destructor ||
        (ElementType.get_flags dtype).not_host_readable
    · rw [if_pos hflags] at h
      cases h
    rw [if_neg hflags] at h
    by_cases hshape : shape = []
    · simp only [if_pos hshape] at h
      split_ifs at h with h0 h1 h2
      · cases h
      · cases h
        refine ⟨rfl, ?_⟩
        intro m hm
        obtain rfl := List.mem_singleton.1 hm
        exact normalized_of_two (by omega) (hkeep (by simp))
      · cases h
    · -- the elements are dimensions: their size is zero
      simp only [if_neg hshape, if_true] at h
      cases h

theorem view_scalars_invariant {scalar_tp : T} {a b : FixedArray T} (ha : FixedDim.StrideInvariant a)
    (hkeep : ∀ m, is_block a = some m →
      2 * (ElementType.get_data_size scalar_tp : ℤ) ≤ m.dim_size * ElementType.get_data_size a.tp.dtype)
    (h : view_scalars scalar_tp a = .ok b) : FixedDim.StrideInvariant b := by
  unfold view_scalars at h
  cases hb : is_block a with
  | some m =>
    simp only [hb] at h
    by_cases h0 : (ElementType.get_data_size scalar_tp : ℤ) = 0
    · rw [if_pos h0] at h
      cases h
    rw [if_neg h0] at h
    by_cases h1 : (m.dim_size * ElementType.get_data_size a.tp.dtype).tmod (ElementType.get_data_size scalar_tp) ≠ 0
    · rw [if_pos h1] at h
      cases h
    rw [if_neg h1] at h
    obtain rfl := Except.ok.inj h
    refine ⟨rfl, ?_⟩
    intro m' hm'
    obtain rfl := List.mem_singleton.1 hm'
    exact normalized_of_two (by omega) (hkeep m hb)
  | none =>
    simp only [hb] at h
    obtain ⟨dtype, -, h⟩ := bind_eq_ok.1 h
    cases h
    exact ⟨ha.length, ha.normalized⟩

theorem view_invariant [DecidableEq T] {tp : ViewType T} {fresh : ℤ} {a b : NdArray T} (ha : a.StrideInvariant)
    (hs : (Step.view tp fresh).Keeps a) (h : view tp fresh a = .ok b) : b.StrideInvariant := by
  cases tp with
  | bytes alignment =>
    cases a with
    | bytes a =>
      simp only [view] at h
      split_ifs at h
      · cases h
        trivial
      · cases hb : bytes_as_bytes alignment fresh a <;> simp only [hb, Option.elim] at h <;> cases h
        trivial
    | fixed a =>
      simp only [view] at h
      cases hb : view_as_bytes alignment fresh a <;> simp only [hb, Option.elim] at h <;> cases h
      trivial
  | dims shape dtype =>
    cases a with
    | bytes a =>
      obtain ⟨result, hresult, hb⟩ := bind_eq_ok.1 h
      cases result with
      | none => cases hb
      | some c =>
        cases hb
        exact view_from_bytes_invariant hs hresult
    | fixed a =>
      simp only [view] at h
      by_cases heq : shape = a.tp.dims.map some && dtype = a.tp.dtype
      · rw [if_pos heq] at h
        cases h
        exact ha
      by_cases hlen : shape.length ≠ a.tp.dims.length
      · rw [if_neg heq, if_pos hlen] at h
        cases h
      · rw [if_neg heq, if_neg hlen] at h
        split_ifs at h
        · obtain ⟨dims, -, hview⟩ := bind_eq_ok.1 h
          obtain ⟨c, hc, hb⟩ := bind_eq_ok.1 hview
          cases hb
          exact view_concrete_invariant ha hc
        · obtain ⟨dims, -, hview⟩ := bind_eq_ok.1 h
          obtain ⟨c, hc, hb⟩ := bind_eq_ok.1 hview
          cases hb
          exact view_concrete_invariant ha hc

/-- A step that keeps strides keeps the stride invariant. -/
theorem step_invariant [DecidableEq T] {s : Step T} {a b : NdArray T} (ha : a.StrideInvariant) (hs : s.Keeps a)
    (h : step s a = .ok b) : b.StrideInvariant := by
  cases s with
  | index indices =>
    cases a with
    | fixed a =>
      obtain ⟨c, hc, rfl⟩ := map_eq_ok.1 h
      exact at_array_invariant ha hs hc
    | bytes a =>
      rw [step] at h
      split_ifs at h
      cases h
      trivial
  | permute axes =>
    cases a with
    | fixed a =>
      obtain ⟨c, hc, rfl⟩ := map_eq_ok.1 h
      exact permute_invariant ha hs hc
    | bytes a =>
      rw [step] at h
      split_ifs at h
  | view_scalars scalar_tp =>
    cases a with
    | fixed a =>
      obtain ⟨c, hc, rfl⟩ := map_eq_ok.1 h
      exact view_scalars_invariant ha hs hc
    | bytes a => cases h
  | view tp fresh => exact view_invariant ha hs h

/-- Default construction. -/
def IsDefault (a : NdArray T) : Prop := ∃ tp data, a = .fixed (empty tp data)

/-- A step that succeeds. -/
def Steps [DecidableEq T] (a b : NdArray T) : Prop := ∃ s, step s a = .ok b

/-- A step that succeeds and keeps strides. -/
def KeepingSteps [DecidableEq T] (a b : NdArray T) : Prop := ∃ s : Step T, s.Keeps a ∧ step s a = .ok b

/-- The stride invariant, and what assignment reads from the array. -/
def NdArray.Sound : NdArray T → Prop
  | .fixed a => FixedDim.StrideInvariant a ∧ ReadsBroadcast a
  | .bytes _ => True

/-- From default construction, a run whose steps keep strides only reaches arrays with the stride
invariant, and assigning from them broadcasts. -/
theorem stride_invariant_of_run [DecidableEq T] {a : NdArray T} (h : Reachable IsDefault KeepingSteps a) : a.Sound := by
  have hinv : a.StrideInvariant := by
    refine h.invariant ?_ ?_
    · rintro a ⟨tp, data, rfl⟩
      exact empty_invariant tp data
    · rintro a b ha ⟨s, hs, hstep⟩
      exact step_invariant ha hs hstep
  cases a with
  | fixed a => exact ⟨hinv, FixedDim.StrideInvariant.readsBroadcast hinv⟩
  | bytes a => trivial

end

/-! ## Elements of fixed size -/

/-- Builtin numbers of the alignment of their size, blocks of bytes, and views of one as another. -/
inductive Element where
  | number (data_size : ℕ)
  | fixed_bytes (data_size data_alignment : ℕ)
  | view (value operand : Element)
deriving DecidableEq

namespace Element

def get_data_size : Element → ℕ
  | number data_size => data_size
  | fixed_bytes data_size _ => data_size
  | view _ operand => operand.get_data_size

def get_data_alignment : Element → ℕ
  | number data_size => data_size
  | fixed_bytes _ data_alignment => data_alignment
  | view _ operand => operand.get_data_alignment

def value_type : Element → Element
  | view value _ => value
  | tp => tp

/-- The constructor of `view_type`: the two sizes must be the same. -/
def view_type (value operand : Element) : Option Element :=
  if value.get_data_size = operand.value_type.get_data_size then some (view value operand) else none

def storage_type : Element → Element
  | view _ operand => operand.storage_type
  | tp => tp

def with_replaced_storage_type (replacement : Element) : Element → Option Element
  | view value (view v o) => do view_type value (← with_replaced_storage_type replacement (view v o))
  | view value operand => if operand = replacement.value_type then view_type value replacement else none
  | _ => none

def make_view (value operand : Element) : Option Element :=
  match value with
  | view _ _ => do value.with_replaced_storage_type (← view_type value.storage_type operand)
  | _ => view_type value operand

def make_unaligned (value : Element) : Element :=
  if 1 < value.get_data_alignment then
    (make_view value (fixed_bytes value.storage_type.get_data_size 1)).getD value
  else value

end Element

instance : ElementType Element where
  get_data_size := Element.get_data_size
  get_data_alignment := Element.get_data_alignment
  get_flags _ := ⟨false, false, false⟩
  is_builtin tp := match tp with
    | .number _ => true
    | _ => false
  is_expr tp := match tp with
    | .view _ _ => true
    | _ => false
  is_string _ := false
  string_extent _ _ := none
  is_string_layout _ := false
  make_view := Element.make_view
  make_unaligned := Element.make_unaligned

def int32 : Element := .number 4

/-- `2 * 3 * int32` at address 16. -/
def twoByThree : FixedArray Element := empty ⟨[⟨2, by decide⟩, ⟨3, by decide⟩], int32⟩ 16

/-- Its axes swapped: `3 * 2 * int32`. -/
def threeByTwo : FixedArray Element := ⟨⟨[⟨3, by decide⟩, ⟨2, by decide⟩], int32⟩, [⟨3, 4⟩, ⟨2, 12⟩], 16⟩

theorem stride_invariant_transposed : (NdArray.fixed threeByTwo).Sound := by
  have hinit : IsDefault (.fixed twoByThree) := ⟨_, _, rfl⟩
  have hone : OneBlock [1, 0] := by decide
  have hstep : step (.permute [1, 0]) (.fixed twoByThree) = .ok (.fixed threeByTwo) := by decide
  exact stride_invariant_of_run (.step (.init hinit) ⟨.permute [1, 0], hone, hstep⟩)

/-- `3 * int32` at address 16. -/
def three : FixedArray Element := empty ⟨[⟨3, by decide⟩], int32⟩ 16

/-- The range `0:1` of three. -/
def firstOfThree : FixedArray Element := ⟨⟨[⟨1, by decide⟩], int32⟩, [⟨1, 4⟩], 16⟩

/-- The first of three, as a dimension of one element, keeps the stride of the three. Assigned to
three elements it gives the three it was sliced from. -/
theorem slice_keeps_stride : ¬ ∀ a : NdArray Element, Reachable IsDefault Steps a → a.Sound := by
  intro h
  have hslice : step (.index [⟨⟨0, by decide⟩, ⟨1, by decide⟩, ⟨1, by decide⟩⟩]) (.fixed three) =
      .ok (.fixed firstOfThree) := by decide
  obtain ⟨-, hreads⟩ := h _ (.step (.init ⟨_, _, rfl⟩) ⟨_, hslice⟩)
  have hassign : assign_reads three.tp firstOfThree = .ok [0, 4, 8] := by decide
  have hzero := hreads three.tp [0, 4, 8] hassign
  revert hzero
  decide

end Dynd.FixedDim
