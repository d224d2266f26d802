import Dynd.FixedDim
/-!
# The elements of an indexed array

Indexing resolves one range for each leading dimension. Everything else it does
follows from these results: the dimensions that stay, their arrmeta, the offset
of the first element, and which element of the array each element of the view is.
-/
namespace Dynd.FixedDim
open Lib LinearIndex

/-! ## Where the elements are -/

/-- How far the element at an index is from the first one. -/
def strideOffset : List size_stride_t → List ℕ → ℤ
  | [], _ => 0
  | m :: md, idx => idx.headI * m.stride + strideOffset md idx.tail

/-- Dimensions of a shape with these strides. -/
def withStrides (shape strides : List ℤ) : List size_stride_t := List.zipWith size_stride_t.mk shape strides

@[simp] theorem withStrides_cons (d stride : ℤ) (shape strides : List ℤ) :
    withStrides (d :: shape) (stride :: strides) = ⟨d, stride⟩ :: withStrides shape strides := rfl

/-- The sizes of the dimensions. -/
def sizes (dims : List dim_size_t) : List ℤ := dims.map (·.val)

@[simp] theorem sizes_nil : sizes [] = [] := rfl

@[simp] theorem sizes_cons (d : dim_size_t) (dims : List dim_size_t) : sizes (d :: dims) = d.val :: sizes dims := rfl

theorem mem_multiIndices_cons {d : ℤ} {dims : List ℤ} {idx : List ℕ} :
    idx ∈ multiIndices (d :: dims) ↔ ∃ (i : ℕ) (rest : List ℕ), idx = i :: rest ∧ (i : ℤ) < d ∧ rest ∈ multiIndices dims := by
  rw [multiIndices_cons, List.mem_flatMap]
  constructor
  · rintro ⟨i, hi, h⟩
    obtain ⟨rest, hrest, rfl⟩ := List.mem_map.1 h
    have := List.mem_range.1 hi
    exact ⟨i, rest, rfl, by omega, hrest⟩
  · rintro ⟨i, rest, rfl, hi, hrest⟩
    exact ⟨i, List.mem_range.2 (by omega), List.mem_map_of_mem hrest⟩

theorem length_of_mem_multiIndices {dims : List ℤ} : ∀ {idx : List ℕ}, idx ∈ multiIndices dims → idx.length = dims.length := by
  induction dims with
  | nil =>
    intro idx h
    rw [List.mem_singleton.1 h]
    rfl
  | cons d dims ih =>
    intro idx h
    obtain ⟨i, rest, rfl, -, hrest⟩ := mem_multiIndices_cons.1 h
    rw [List.length_cons, List.length_cons, ih hrest]

theorem exists_mem_multiIndices {shape : List ℤ} (h : ∀ d ∈ shape, 0 < d) : ∃ idx, idx ∈ multiIndices shape := by
  induction shape with
  | nil => exact ⟨[], List.mem_singleton_self _⟩
  | cons d shape ih =>
    obtain ⟨hd, h⟩ := List.forall_mem_cons.1 h
    obtain ⟨idx, hidx⟩ := ih h
    exact ⟨0 :: idx, mem_multiIndices_cons.2 ⟨0, idx, rfl, by simpa using hd, hidx⟩⟩

/-- Sizes of which one has no index have none. -/
theorem multiIndices_eq_nil {shape : List ℤ} {d : ℤ} (hmem : d ∈ shape) (hd : d ≤ 0) : multiIndices shape = [] := by
  induction shape with
  | nil => cases hmem
  | cons d' shape ih =>
    rw [multiIndices_cons]
    rcases List.mem_cons.1 hmem with rfl | hmem
    · rw [Int.toNat_of_nonpos hd]
      rfl
    · simp [ih hmem]

/-! ## What one range resolves to -/

/-- What a range gives for a dimension, when it does not throw. -/
def resolved (r : irange) (d : dim_size_t) : Option Resolved := (apply_single_linear_index r d.toIntptr none).toOption

/-- Where the error is said to be does not matter to the result. -/
theorem apply_toOption {r : irange} {n : intptr_t} (hn : 0 ≤ n.val) (tp tp' : Option ErrorType) :
    (apply_single_linear_index r n tp).toOption = (apply_single_linear_index r n tp').toOption := by
  by_cases hb : r.InBounds n.val
  · rcases lt_trichotomy r.step.val 0 with hs | h0 | hs
    · rw [apply_neg hs, apply_neg hs, negativeRange_spec hn hs hb, negativeRange_spec hn hs hb]
    · have hb' := hb
      rw [irange.InBounds, if_pos h0] at hb'
      rw [apply_zero h0, apply_zero h0, singleIndex_spec hn, singleIndex_spec hn, if_pos hb', if_pos hb']
    · rw [apply_pos hs, apply_pos hs, positiveRange_spec hn hs hb, positiveRange_spec hn hs hb]
  · obtain ⟨e, he, -⟩ := @out_of_bounds r n tp hn hb
    obtain ⟨e', he', -⟩ := @out_of_bounds r n tp' hn hb
    rw [he, he']
    rfl

theorem resolve_toOption (r : irange) (d : dim_size_t) (i : ℕ) (root : List dim_size_t) :
    (resolve r d i root).toOption = resolved r d := by
  have happly := @apply_toOption r d.toIntptr d.property.1 (some ⟨i, root.map (·.toIntptr)⟩) none
  unfold resolve resolved
  rw [← happly]
  cases apply_single_linear_index r d.toIntptr (some ⟨i, root.map (·.toIntptr)⟩) <;> rfl

/-- A range is resolved exactly when it is in bounds and its count can be rounded up. -/
theorem resolved_isSome {r : irange} {d : dim_size_t} :
    (∃ o, resolved r d = some o) ↔ r.InBounds d.val ∧ r.NoOverflow d.val := by
  have hn : 0 ≤ d.toIntptr.val := d.property.1
  unfold resolved
  by_cases hb : r.InBounds d.val
  · by_cases hov : r.NoOverflow d.val
    · obtain ⟨o, ho, -⟩ := @in_bounds r d.toIntptr none hn hb hov
      rw [ho]
      exact ⟨fun _ => ⟨hb, hov⟩, fun _ => ⟨o, rfl⟩⟩
    · rw [@overflows r d.toIntptr none hn hb hov]
      constructor
      · rintro ⟨o, h⟩
        cases h
      · exact fun h => absurd h.2 hov
  · obtain ⟨e, he, -⟩ := @out_of_bounds r d.toIntptr none hn hb
    rw [he]
    constructor
    · rintro ⟨o, h⟩
      cases h
    · exact fun h => absurd h.1 hb

/-- What a resolved range is: as many indices as the range denotes, all in the dimension. -/
structure Selects (r : irange) (d : dim_size_t) (o : Resolved) : Prop where
  removes : o.remove_dimension = true ↔ r.step.val = 0
  size : o.dimension_size = (r.denotes d.val).length
  le : o.dimension_size ≤ d.val
  toSize : (toSize o.dimension_size).val = o.dimension_size
  inside : ∀ i : ℕ, (i : ℤ) < o.dimension_size → 0 ≤ o.start_index + i * o.index_stride ∧
    o.start_index + i * o.index_stride < d.val
  start : o.dimension_size ≠ 0 → o.start_index = r.first d.val
  stride : o.dimension_size ≠ 0 → r.step.val ≠ 0 → o.index_stride = r.step.val

/-- A range that leaves elements starts at its first index and goes on by its step. -/
theorem apply_start {r : irange} {n : intptr_t} {tp : Option ErrorType} {o : Resolved} (hn : 0 ≤ n.val)
    (h : apply_single_linear_index r n tp = .ok o) (hsize : o.dimension_size ≠ 0) :
    o.start_index = r.first n.val ∧ (r.step.val ≠ 0 → o.index_stride = r.step.val) := by
  have hb : r.InBounds n.val := by
    by_contra hb
    obtain ⟨e, he, -⟩ := @out_of_bounds r n tp hn hb
    rw [he] at h
    cases h
  rcases lt_trichotomy r.step.val 0 with hs | h0 | hs
  · rw [apply_neg hs, negativeRange_spec hn hs hb] at h
    split_ifs at h
    · cases h
      exact ⟨rfl, fun _ => rfl⟩
    · cases h
      exact absurd rfl hsize
  · rw [apply_zero h0, singleIndex_spec hn] at h
    split_ifs at h
    cases h
    exact ⟨rfl, fun hne => absurd h0 hne⟩
  · rw [apply_pos hs, positiveRange_spec hn hs hb] at h
    split_ifs at h
    · cases h
      exact ⟨rfl, fun _ => rfl⟩
    · cases h
      exact absurd rfl hsize

theorem resolved_selects {r : irange} {d : dim_size_t} {o : Resolved} (h : resolved r d = some o) : Selects r d o := by
  have hn : 0 ≤ d.toIntptr.val := d.property.1
  obtain ⟨hb, hov⟩ := resolved_isSome.1 ⟨o, h⟩
  obtain ⟨o', ho', hi, hremoves, hpos⟩ := @in_bounds r d.toIntptr none hn hb hov
  rw [resolved, ho'] at h
  obtain rfl : o' = o := Option.some.inj h
  obtain ⟨-, -, hsize, hle⟩ := resolved_spec hn ho'
  refine ⟨hremoves, hsize, hle, ?_, ?_, fun hne => (apply_start hn ho' hne).1, fun hne => (apply_start hn ho' hne).2⟩
  · have := d.property
    rw [d.toIntptr_val] at hle
    rw [FixedDim.toSize, dif_pos ⟨hpos, by omega⟩]
  · intro i hlt
    refine denotes_mem hn hb _ (hi ▸ ?_)
    exact mem_progression.2 ⟨i, by omega, rfl⟩

/-- A single index leaves one element. -/
theorem Selects.single {r : irange} {d : dim_size_t} {o : Resolved} (h : Selects r d o) (hr : o.remove_dimension = true) :
    o.dimension_size = 1 := by
  rw [h.size, irange.denotes, if_pos (h.removes.1 hr)]
  rfl

theorem Selects.size_ne {r : irange} {d : dim_size_t} {o : Resolved} (h : Selects r d o) :
    o.dimension_size ≠ 0 ↔ r.denotes d.val ≠ [] := by
  rw [h.size, ne_eq, Int.natCast_eq_zero, List.length_eq_zero_iff]

/-- The one element of a dimension of size one is its element 0. -/
theorem Selects.start_of_one {r : irange} {d : dim_size_t} {o : Resolved} (h : Selects r d o) (hd : d.val = 1)
    (hsize : o.dimension_size ≠ 0) : o.dimension_size = 1 ∧ o.start_index = 0 := by
  have hle := h.le
  have hpos : 0 ≤ o.dimension_size := by
    rw [h.size]
    exact Int.natCast_nonneg _
  have hin := h.inside 0 (by rw [Nat.cast_zero]; omega)
  constructor <;> omega

/-! ## What all of them resolve to -/

/-- One range for each leading dimension. -/
def resolveAll : List irange → List dim_size_t → Option (List Resolved)
  | [], _ => some []
  | _ :: _, [] => none
  | r :: indices, d :: dims => do
    let o ← resolved r d
    let os ← resolveAll indices dims
    return o :: os

/-- The dimensions that stay. -/
def newDims : List Resolved → List dim_size_t → List dim_size_t
  | o :: os, _ :: dims => if o.remove_dimension then newDims os dims else toSize o.dimension_size :: newDims os dims
  | _, dims => dims

def newArrmeta : List Resolved → List size_stride_t → List size_stride_t
  | o :: os, m :: md =>
    if o.remove_dimension then newArrmeta os md else ⟨o.dimension_size, m.stride * o.index_stride⟩ :: newArrmeta os md
  | _, md => md

/-- Where the first element of the view is. -/
def startOffset : List Resolved → List size_stride_t → ℤ
  | o :: os, m :: md => m.stride * o.start_index + startOffset os md
  | _, _ => 0

/-- Which element of the array the element of the view is. -/
def select : List Resolved → List ℕ → List ℕ
  | [], idx => idx
  | o :: os, idx =>
    if o.remove_dimension then o.start_index.toNat :: select os idx
    else (o.start_index + idx.headI * o.index_stride).toNat :: select os idx.tail

@[simp] theorem newDims_nil (dims : List dim_size_t) : newDims [] dims = dims := by cases dims <;> rfl

@[simp] theorem newArrmeta_nil (md : List size_stride_t) : newArrmeta [] md = md := by cases md <;> rfl

@[simp] theorem startOffset_nil (md : List size_stride_t) : startOffset [] md = 0 := by cases md <;> rfl

theorem resolveAll_cons {r : irange} {indices : List irange} {d : dim_size_t} {dims : List dim_size_t} {os : List Resolved} :
    resolveAll (r :: indices) (d :: dims) = some os ↔
      ∃ o os', resolved r d = some o ∧ resolveAll indices dims = some os' ∧ os = o :: os' := by
  rw [resolveAll]
  cases resolved r d with
  | none => simp
  | some o =>
    cases resolveAll indices dims with
    | none => simp
    | some os' => simp [eq_comm]

theorem resolve_ok {r : irange} {d : dim_size_t} {i : ℕ} {root : List dim_size_t} {o : Resolved} :
    resolve r d i root = .ok o ↔ resolved r d = some o := by
  rw [← toOption_ok, resolve_toOption]

/-- The type of the view. -/
theorem applyToType_ok {root : List dim_size_t} {indices : List irange} : ∀ {i : ℕ} {dims dims' : List dim_size_t},
    applyToType root i indices dims = .ok dims' ↔ ∃ os, resolveAll indices dims = some os ∧ dims' = newDims os dims := by
  induction indices with
  | nil =>
    intro i dims dims'
    simp [applyToType, resolveAll, eq_comm]
  | cons r indices ih =>
    intro i dims dims'
    cases dims with
    | nil => simp [applyToType, resolveAll]
    | cons d dims =>
      rw [applyToType, bind_eq_ok]
      constructor
      · rintro ⟨o, ho, h⟩
        obtain ⟨rest, hrest, h⟩ := bind_eq_ok.1 h
        obtain ⟨os, hos, rfl⟩ := ih.1 hrest
        cases h
        exact ⟨o :: os, resolveAll_cons.2 ⟨o, os, resolve_ok.1 ho, hos, rfl⟩, rfl⟩
      · rintro ⟨os, hos, rfl⟩
        obtain ⟨o, os', ho, hos', rfl⟩ := resolveAll_cons.1 hos
        exact ⟨o, resolve_ok.2 ho, bind_eq_ok.2 ⟨_, ih.2 ⟨os', hos', rfl⟩, rfl⟩⟩

/-- The arrmeta of the view, and where it starts. -/
theorem applyToArrmeta_ok {root : List dim_size_t} {indices : List irange} :
    ∀ {i : ℕ} {dims : List dim_size_t} {md : List size_stride_t} {os : List Resolved}, md.length = dims.length →
      resolveAll indices dims = some os →
      applyToArrmeta root i indices dims md = .ok (newArrmeta os md, startOffset os md) := by
  induction indices with
  | nil =>
    intro i dims md os hlen hos
    obtain rfl : [] = os := Option.some.inj hos
    rw [applyToArrmeta, if_pos hlen.ge, ← hlen, List.take_length, newArrmeta_nil, startOffset_nil]
  | cons r indices ih =>
    intro i dims md os hlen hos
    rcases dims with _ | ⟨d, dims⟩
    · cases hos
    obtain ⟨m, md, rfl⟩ := List.exists_cons_of_length_eq_add_one hlen
    obtain ⟨o, os', ho, hos', rfl⟩ := resolveAll_cons.1 hos
    rw [applyToArrmeta, resolve_ok.2 ho, ok_bind, ih (Nat.succ.inj hlen) hos', ok_bind]
    rfl

/-- The ranges are resolved when none is left over and each one is resolved. -/
def Indexable (indices : List irange) (dims : List dim_size_t) : Prop := indices.length ≤ dims.length ∧
  ∀ (k : ℕ) (r : irange) (d : dim_size_t), indices[k]? = some r → dims[k]? = some d → r.InBounds d.val ∧ r.NoOverflow d.val

theorem resolveAll_isSome {indices : List irange} : ∀ {dims : List dim_size_t},
    (∃ os, resolveAll indices dims = some os) ↔ Indexable indices dims := by
  induction indices with
  | nil =>
    intro dims
    refine ⟨fun _ => ⟨Nat.zero_le _, ?_⟩, fun _ => ⟨[], rfl⟩⟩
    intro k r d hr
    cases hr
  | cons r indices ih =>
    intro dims
    rcases dims with _ | ⟨d, dims⟩
    · constructor
      · rintro ⟨os, hos⟩
        cases hos
      · rintro ⟨hlen, -⟩
        exact absurd hlen (Nat.not_succ_le_zero _)
    · constructor
      · rintro ⟨os, hos⟩
        obtain ⟨o, os', ho, hos', -⟩ := resolveAll_cons.1 hos
        obtain ⟨hlen, hall⟩ := ih.1 ⟨os', hos'⟩
        refine ⟨Nat.succ_le_succ hlen, ?_⟩
        intro k r' d' hr hd
        cases k with
        | zero =>
          cases hr
          cases hd
          exact resolved_isSome.1 ⟨o, ho⟩
        | succ k => exact hall k r' d' hr hd
      · rintro ⟨hlen, hall⟩
        obtain ⟨o, ho⟩ := resolved_isSome.2 (hall 0 r d rfl rfl)
        obtain ⟨os, hos⟩ := ih.2 ⟨Nat.le_of_succ_le_succ hlen, fun k => hall (k + 1)⟩
        exact ⟨o :: os, resolveAll_cons.2 ⟨o, os, ho, hos, rfl⟩⟩

/-- A single index for every dimension. -/
def SingleElement (indices : List irange) (dims : List dim_size_t) : Prop :=
  indices.length = dims.length ∧ ∀ r ∈ indices, r.step.val = 0

theorem newDims_eq_nil {indices : List irange} : ∀ {dims : List dim_size_t} {os : List Resolved},
    resolveAll indices dims = some os → (newDims os dims = [] ↔ SingleElement indices dims) := by
  induction indices with
  | nil =>
    intro dims os hos
    obtain rfl : [] = os := Option.some.inj hos
    rw [newDims_nil, SingleElement, List.length_nil, eq_comm (a := 0), List.length_eq_zero_iff]
    exact ⟨fun h => ⟨h, by simp⟩, fun h => h.1⟩
  | cons r indices ih =>
    intro dims os hos
    rcases dims with _ | ⟨d, dims⟩
    · cases hos
    obtain ⟨o, os', ho, hos', rfl⟩ := resolveAll_cons.1 hos
    have hremoves := (resolved_selects ho).removes
    rw [newDims, SingleElement, List.length_cons, List.length_cons, Nat.add_right_cancel_iff, List.forall_mem_cons,
      ← hremoves]
    split_ifs with hr
    · rw [ih hos', SingleElement]
      tauto
    · constructor
      · intro h
        cases h
      · exact fun h => absurd h.2.1 hr

/-- The view of an array: all it takes is that every range is resolved. -/
theorem at_array_ok {T : Type} {indices : List irange} {a b : FixedArray T} (hlen : a.arrmeta.length = a.tp.dims.length) :
    at_array indices a = .ok b ↔ ∃ os, resolveAll indices a.tp.dims = some os ∧
      b = ⟨⟨newDims os a.tp.dims, a.tp.dtype⟩, newArrmeta os a.arrmeta, a.data + startOffset os a.arrmeta⟩ := by
  obtain ⟨⟨dims, dtype⟩, md, data⟩ := a
  unfold at_array
  cases dims with
  | nil =>
    cases indices with
    | nil =>
      obtain rfl := List.length_eq_zero_iff.1 hlen
      simp [resolveAll, eq_comm]
    | cons r indices => simp [resolveAll]
  | cons d dims =>
    simp only [List.cons_ne_nil, if_false]
    constructor
    · intro h
      obtain ⟨dims', htp, h⟩ := bind_eq_ok.1 h
      obtain ⟨os, hos, rfl⟩ := applyToType_ok.1 htp
      rw [applyToArrmeta_ok hlen hos, ok_bind] at h
      exact ⟨os, hos, (Except.ok.inj h).symm⟩
    · rintro ⟨os, hos, rfl⟩
      rw [applyToType_ok.2 ⟨os, hos, rfl⟩, ok_bind, applyToArrmeta_ok hlen hos, ok_bind]
      rfl

/-- The last dimensions of an indexed array are its last dimensions, indexed by the last ranges. -/
theorem drop_view {indices : List irange} : ∀ {k : ℕ} {dims : List dim_size_t} {os : List Resolved}, k ≤ dims.length →
    resolveAll indices dims = some os → resolveAll (indices.drop k) (dims.drop k) = some (os.drop k) ∧
      ∃ k', k' + (newDims (os.drop k) (dims.drop k)).length = (newDims os dims).length ∧
        (newDims os dims).drop k' = newDims (os.drop k) (dims.drop k) ∧
        ∀ idx, (select os idx).drop k = select (os.drop k) (idx.drop k') := by
  induction indices with
  | nil =>
    intro k dims os hk hos
    obtain rfl : [] = os := Option.some.inj hos
    simp only [List.drop_nil, newDims_nil]
    exact ⟨rfl, k, by rw [List.length_drop]; omega, rfl, fun idx => rfl⟩
  | cons r indices ih =>
    intro k dims os hk hos
    cases k with
    | zero => exact ⟨hos, 0, zero_add _, rfl, fun idx => rfl⟩
    | succ k =>
      rcases dims with _ | ⟨d, dims⟩
      · cases hos
      obtain ⟨o, os', ho, hos', rfl⟩ := resolveAll_cons.1 hos
      obtain ⟨hres, k', hlen, hdrop, hsel⟩ := ih (Nat.le_of_succ_le_succ hk) hos'
      refine ⟨hres, ?_⟩
      simp only [List.drop_succ_cons, newDims, select]
      by_cases hr : o.remove_dimension = true
      · simp only [if_pos hr, List.drop_succ_cons]
        exact ⟨k', hlen, hdrop, hsel⟩
      · simp only [if_neg hr, List.drop_succ_cons]
        refine ⟨k' + 1, ?_, hdrop, ?_⟩
        · rw [List.length_cons, ← hlen]
          omega
        · intro idx
          rw [hsel, List.drop_tail]

theorem drop_mem_multiIndices {dims : List ℤ} : ∀ {k : ℕ} {idx : List ℕ}, idx ∈ multiIndices dims →
    idx.drop k ∈ multiIndices (dims.drop k) := by
  induction dims with
  | nil =>
    intro k idx h
    rw [List.mem_singleton.1 h, List.drop_nil, List.drop_nil]
    exact List.mem_singleton_self _
  | cons d dims ih =>
    intro k idx h
    cases k with
    | zero => exact h
    | succ k =>
      obtain ⟨i, rest, rfl, -, hrest⟩ := mem_multiIndices_cons.1 h
      exact ih hrest

/-- An element of the view is in the array. -/
theorem select_mem {indices : List irange} : ∀ {dims : List dim_size_t} {os : List Resolved} {idx : List ℕ},
    resolveAll indices dims = some os → idx ∈ multiIndices (sizes (newDims os dims)) →
    select os idx ∈ multiIndices (sizes dims) := by
  induction indices with
  | nil =>
    intro dims os idx hos hidx
    obtain rfl : [] = os := Option.some.inj hos
    rwa [newDims_nil] at hidx
  | cons r indices ih =>
    intro dims os idx hos hidx
    rcases dims with _ | ⟨d, dims⟩
    · cases hos
    obtain ⟨o, os', ho, hos', rfl⟩ := resolveAll_cons.1 hos
    have hsel := resolved_selects ho
    rw [sizes_cons, mem_multiIndices_cons, select]
    by_cases hr : o.remove_dimension = true
    · rw [newDims, if_pos hr] at hidx
      have hin := hsel.inside 0 (by rw [hsel.single hr]; decide)
      rw [if_pos hr]
      exact ⟨_, _, rfl, by omega, ih hos' hidx⟩
    · rw [newDims, if_neg hr, sizes_cons, hsel.toSize] at hidx
      obtain ⟨i, rest, rfl, hi, hrest⟩ := mem_multiIndices_cons.1 hidx
      have hin := hsel.inside i hi
      rw [if_neg hr]
      refine ⟨_, _, rfl, ?_, ih hos' hrest⟩
      rw [List.headI_cons]
      omega

/-- The address of an element of the view is the one it has in the array. -/
theorem strideOffset_select {indices : List irange} : ∀ {dims : List dim_size_t} {os : List Resolved}
    {md : List size_stride_t} {idx : List ℕ}, md.length = dims.length → resolveAll indices dims = some os →
    idx ∈ multiIndices (sizes (newDims os dims)) →
    strideOffset md (select os idx) = startOffset os md + strideOffset (newArrmeta os md) idx := by
  induction indices with
  | nil =>
    intro dims os md idx _ hos _
    obtain rfl : [] = os := Option.some.inj hos
    rw [newArrmeta_nil, startOffset_nil, zero_add]
    rfl
  | cons r indices ih =>
    intro dims os md idx hlen hos hidx
    rcases dims with _ | ⟨d, dims⟩
    · cases hos
    obtain ⟨m, md, rfl⟩ := List.exists_cons_of_length_eq_add_one hlen
    obtain ⟨o, os', ho, hos', rfl⟩ := resolveAll_cons.1 hos
    have hsel := resolved_selects ho
    rw [select, newArrmeta, startOffset]
    by_cases hr : o.remove_dimension = true
    · rw [newDims, if_pos hr] at hidx
      have hin := hsel.inside 0 (by rw [hsel.single hr]; decide)
      rw [if_pos hr, if_pos hr, strideOffset, List.headI_cons, List.tail_cons,
        ih (Nat.succ.inj hlen) hos' hidx, Int.toNat_of_nonneg (by omega)]
      ring
    · rw [newDims, if_neg hr, sizes_cons, hsel.toSize] at hidx
      obtain ⟨i, rest, rfl, hi, hrest⟩ := mem_multiIndices_cons.1 hidx
      have hin := hsel.inside i hi
      rw [if_neg hr, if_neg hr, strideOffset, strideOffset, List.headI_cons, List.tail_cons, List.headI_cons,
        List.tail_cons, ih (Nat.succ.inj hlen) hos' hrest, Int.toNat_of_nonneg hin.1]
      ring

/-! ## Default strides -/

variable {T : Type} [ElementType T]

/-- Every element of a default constructed array is inside its data. -/
theorem default_inside (dtype : T) : ∀ {dims : List dim_size_t} {idx : List ℕ}, idx ∈ multiIndices (sizes dims) →
    0 ≤ strideOffset (arrmeta_default_construct dtype dims) idx ∧
      strideOffset (arrmeta_default_construct dtype dims) idx + ElementType.get_data_size dtype ≤
        get_default_data_size dtype dims := by
  intro dims
  induction dims with
  | nil =>
    intro idx _
    rw [arrmeta_default_construct, strideOffset, get_default_data_size]
    omega
  | cons d dims ih =>
    intro idx hidx
    rw [sizes_cons, mem_multiIndices_cons] at hidx
    obtain ⟨i, rest, rfl, hi, hrest⟩ := hidx
    obtain ⟨h0, hle⟩ := ih hrest
    have hsize : (0 : ℤ) ≤ get_default_data_size dtype dims := by omega
    simp only [arrmeta_default_construct, strideOffset, get_default_data_size, List.headI_cons, List.tail_cons]
    split_ifs with hd
    · have hstep : (i : ℤ) * get_default_data_size dtype dims + get_default_data_size dtype dims ≤
          d.val * get_default_data_size dtype dims := by
        calc (i : ℤ) * get_default_data_size dtype dims + get_default_data_size dtype dims
            = (i + 1) * get_default_data_size dtype dims := by ring
          _ ≤ d.val * get_default_data_size dtype dims := mul_le_mul_of_nonneg_right (by omega) hsize
      have hnonneg : (0 : ℤ) ≤ i * get_default_data_size dtype dims := mul_nonneg (Int.natCast_nonneg i) hsize
      constructor <;> omega
    · have hd1 : d.val = 1 := by omega
      rw [hd1, one_mul, mul_zero, zero_add]
      exact ⟨h0, hle⟩

/-- Two elements of a default constructed array have two addresses. -/
theorem default_injective (dtype : T) (hpos : 0 < ElementType.get_data_size dtype) :
    ∀ {dims : List dim_size_t} {idx idx' : List ℕ}, idx ∈ multiIndices (sizes dims) → idx' ∈ multiIndices (sizes dims) →
      strideOffset (arrmeta_default_construct dtype dims) idx = strideOffset (arrmeta_default_construct dtype dims) idx' →
      idx = idx' := by
  intro dims
  induction dims with
  | nil =>
    intro idx idx' h h' _
    rw [List.mem_singleton.1 h, List.mem_singleton.1 h']
  | cons d dims ih =>
    intro idx idx' hidx hidx' heq
    rw [sizes_cons, mem_multiIndices_cons] at hidx
    obtain ⟨i, rest, rfl, hi, hrest⟩ := hidx
    rw [sizes_cons, mem_multiIndices_cons] at hidx'
    obtain ⟨i', rest', rfl, hi', hrest'⟩ := hidx'
    obtain ⟨h0, hle⟩ := default_inside dtype hrest
    obtain ⟨h0', hle'⟩ := default_inside dtype hrest'
    simp only [arrmeta_default_construct, strideOffset, List.headI_cons, List.tail_cons] at heq
    have hii : i = i' := by
      by_cases hd : 1 < d.val
      · rw [if_pos hd] at heq
        -- the inner offsets are less than one step apart
        have hdiff : ((i : ℤ) - i') * get_default_data_size dtype dims =
            strideOffset (arrmeta_default_construct dtype dims) rest' -
              strideOffset (arrmeta_default_construct dtype dims) rest := by linarith
        rcases lt_trichotomy i i' with hlt | heq' | hgt
        · have : ((i : ℤ) - i') * get_default_data_size dtype dims ≤ -1 * get_default_data_size dtype dims :=
            mul_le_mul_of_nonneg_right (by omega) (by omega)
          omega
        · exact heq'
        · have : 1 * get_default_data_size dtype dims ≤ ((i : ℤ) - i') * get_default_data_size dtype dims :=
            mul_le_mul_of_nonneg_right (by omega) (by omega)
          omega
      · omega
    rw [hii] at heq ⊢
    rw [ih hrest hrest' (add_left_cancel heq)]

end Dynd.FixedDim
