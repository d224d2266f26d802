import Dynd.ArrayElements
import Dynd.Lib.Except
import Dynd.MultiIndex
import Mathlib.Data.List.GetD
/-!
# Taking by pointer

The kernel of `take_by_pointer` reads one index for each dimension of the
source, and goes from one to the next by the inner stride of the index array.
Nothing compares the dimensions of the index array with those of the source.

`take_by_pointer_iff`: it points where the indices say when the index array has
a row for each element of the destination, as long as the source has
dimensions.
-/
namespace Dynd.TakeByPointer
open Lib FixedDim
open PointerType (apply_single_index)
open MultiIndex (apply_single_index_range)

/-! ## Operands -/

/-- The leading dimensions that are strided, of `ndim` in all. -/
structure array where
  tp : String
  dims : List size_stride_t
  ndim : ℕ
  data : ℤ
  le : dims.length ≤ ndim
  sizes : ∀ m ∈ dims, 0 ≤ m.dim_size

/-- The source, with the type of its elements. -/
structure source extends array where
  dtype : String
  is_builtin : Bool

/-- `memory` has what an element holds at its address. -/
structure index_array extends array where
  is_intptr : Bool
  memory : ℤ → Option ℤ
  readable : ∀ a, (memory a).isSome ↔
    is_intptr = true ∧ ∃ idx ∈ multiIndices (dims.map (·.dim_size)), a = data + strideOffset dims idx

/-- `undefined_behavior` is a read of what is no element of an array, or of arrmeta that a type does not have. -/
inductive fault where
  | type_error (what : String)
  | runtime_error (what : String)
  | index_out_of_bounds (i dimension_size : ℤ)
  | undefined_behavior

/-! ## The kernels -/

structure take_by_pointer_ck where
  src0_size : ℤ
  src0_stride : ℤ
  src1_inner_stride : ℤ

/-- A chain of them ends in a kernel that stores the address of its source. -/
def take_by_pointer_ck.single (memory : ℤ → Option ℤ) : List take_by_pointer_ck → ℤ → ℤ → Except fault ℤ
  | [], src0, _ => .ok src0
  | ck :: cks, src0, src1 =>
    match memory src1 with
    | none => .error .undefined_behavior
    | some v =>
      match apply_single_index v ck.src0_size with
      | none => .error (.index_out_of_bounds v ck.src0_size)
      | some i => single memory cks (src0 + i * ck.src0_stride) (src1 + ck.src1_inner_stride)

structure take_by_pointer_outer_ck where
  dst_size : ℤ
  dst_stride : ℤ
  src1_stride : ℤ
  child : List take_by_pointer_ck

/-- The loop, with so many elements left; the result is what is stored where. -/
def take_by_pointer_outer_ck.loop (self : take_by_pointer_outer_ck) (memory : ℤ → Option ℤ) (src0 : ℤ) :
    ℕ → ℤ → ℤ → Except fault (List (ℤ × ℤ))
  | 0, _, _ => .ok []
  | n + 1, dst, src1 => do
    let p ← take_by_pointer_ck.single memory self.child src0 src1
    let stored ← self.loop memory src0 n (dst + self.dst_stride) (src1 + self.src1_stride)
    return (dst, p) :: stored

def could_not_process (tp : String) : fault :=
  .type_error ("take_by_pointer arrfunc: could not process type " ++ tp ++ " as a strided dimension")

/-- An element of the arrmeta of an index array. -/
def size_stride (index : index_array) (i : ℕ) : Except fault size_stride_t :=
  match index.dims[i]? with
  | none => .error .undefined_behavior
  | some m => .ok m

/-- The elements of the destination are pointers to elements of the source. -/
def instantiate (dst : array) (src : source) (index : index_array) : Except fault take_by_pointer_outer_ck :=
  match dst.dims with
  | [] => .error (could_not_process dst.tp)
  | d :: _ =>
    if src.dims.length < src.ndim then .error (could_not_process src.tp)
    else if index.dims.length < index.ndim then .error (could_not_process index.tp)
    else do
      let outer ← size_stride index 0
      let child ← src.dims.mapM fun m => do
        let inner ← size_stride index 1
        return ⟨m.dim_size, m.stride, inner.stride⟩
      if src.is_builtin then return ⟨d.dim_size, d.stride, outer.stride, child⟩
      else throw (.runtime_error ("make_value_to_pointer_assignment_kernel: unrecognized type " ++ src.dtype))

def take_by_pointer (dst : array) (src : source) (index : index_array) : Except fault (List (ℤ × ℤ)) := do
  let ck ← instantiate dst src index
  ck.loop index.memory src.data ck.dst_size.toNat dst.data index.data

/-! ## What is asked of it -/

/-- The size and the stride of the destination. -/
def array.first (dst : array) : size_stride_t := dst.dims.headD ⟨0, 0⟩

/-- The index in row `i` and column `k`, of an array that has rows of indices. -/
def index_array.element (index : index_array) (i k : ℕ) : Option ℤ :=
  match index.dims with
  | [rows, columns] =>
    if i < rows.dim_size ∧ k < columns.dim_size then index.memory (index.data + i * rows.stride + k * columns.stride) else none
  | _ => none

/-- The element of the source that row `i` is the index of. -/
def Selects (src : source) (index : index_array) (i : ℕ) (idx : List ℕ) : Prop :=
  idx ∈ multiIndices (src.dims.map (·.dim_size)) ∧
    ∀ (k : ℕ) (m : size_stride_t), src.dims[k]? = some m → ∃ (v : ℤ) (x : ℕ), index.element i k = some v ∧
      apply_single_index v m.dim_size = some (x : ℤ) ∧ idx[k]? = some x

/-- It throws, or every element of the destination gets the pointer to the element that its row selects. -/
def Takes (dst : array) (src : source) (index : index_array) : Prop :=
  match take_by_pointer dst src index with
  | .error .undefined_behavior => False
  | .error _ => True
  | .ok stored => stored.length = dst.first.dim_size.toNat ∧ ∀ i < stored.length, ∃ idx, Selects src index i idx ∧
      stored[i]? = some (dst.data + i * dst.first.stride, src.data + strideOffset src.dims idx)

/-! ## A row of indices -/

section
variable (memory : ℤ → Option ℤ) (inner : ℤ) (dims : List size_stride_t) (row : ℤ) (k : ℕ)

/-- The entry in column `k` of a row is an index of its dimension. -/
def Valid : Prop :=
  ∀ m, dims[k]? = some m → ∃ (v : ℤ) (x : ℤ), memory (row + k * inner) = some v ∧ apply_single_index v m.dim_size = some x

/-- It is no index of its dimension. -/
def Refused : Prop :=
  ∃ m, dims[k]? = some m ∧ ∃ v, memory (row + k * inner) = some v ∧ apply_single_index v m.dim_size = none

/-- There is no entry. -/
def Missing : Prop := ∃ m, dims[k]? = some m ∧ memory (row + k * inner) = none

/-- The entries are those of an index, of an element that is so far behind the first one. -/
def Picks (idx : List ℕ) : Prop :=
  idx ∈ multiIndices (dims.map (·.dim_size)) ∧ ∀ (k : ℕ) (m : size_stride_t), dims[k]? = some m → ∃ (v : ℤ) (x : ℕ),
    memory (row + k * inner) = some v ∧ apply_single_index v m.dim_size = some (x : ℤ) ∧ idx[k]? = some x

/-- The kernels of the dimensions. -/
def chain : List take_by_pointer_ck := dims.map fun m => ⟨m.dim_size, m.stride, inner⟩

end

variable {memory : ℤ → Option ℤ} {inner : ℤ} {dims : List size_stride_t} {row : ℤ} {k : ℕ}

theorem Valid.not_refused (h : Valid memory inner dims row k) : ¬ Refused memory inner dims row k := by
  rintro ⟨m, hm, v, hv, hnone⟩
  obtain ⟨v', x, hv', hx⟩ := h m hm
  obtain rfl := Option.some.inj (hv.symm.trans hv')
  cases hnone.symm.trans hx

theorem Valid.not_missing (h : Valid memory inner dims row k) : ¬ Missing memory inner dims row k := by
  rintro ⟨m, hm, hnone⟩
  obtain ⟨v, x, hv, -⟩ := h m hm
  cases hnone.symm.trans hv

theorem Refused.not_missing (h : Refused memory inner dims row k) : ¬ Missing memory inner dims row k := by
  obtain ⟨m, hm, v, hv, -⟩ := h
  rintro ⟨m', -, hnone⟩
  cases hnone.symm.trans hv

theorem Picks.valid {idx : List ℕ} (h : Picks memory inner dims row idx) (k : ℕ) : Valid memory inner dims row k := by
  intro m hm
  obtain ⟨v, x, hv, hx, -⟩ := h.2 k m hm
  exact ⟨v, x, hv, hx⟩

section
variable {m : size_stride_t} {v x : ℤ}

/-- The columns behind the first one. -/
theorem next_column (inner row : ℤ) (k : ℕ) : row + inner + k * inner = row + ((k + 1 : ℕ) : ℤ) * inner := by
  push_cast
  ring

theorem valid_zero (hv : memory row = some v) (hx : apply_single_index v m.dim_size = some x) :
    Valid memory inner (m :: dims) row 0 := by
  intro m' hm'
  obtain rfl := Option.some.inj hm'
  refine ⟨v, x, ?_, hx⟩
  rwa [Nat.cast_zero, zero_mul, add_zero]

theorem valid_succ : Valid memory inner (m :: dims) row (k + 1) ↔ Valid memory inner dims (row + inner) k := by
  unfold Valid
  rw [List.getElem?_cons_succ, next_column]

theorem refused_succ : Refused memory inner (m :: dims) row (k + 1) ↔ Refused memory inner dims (row + inner) k := by
  unfold Refused
  rw [List.getElem?_cons_succ, next_column]

theorem missing_succ : Missing memory inner (m :: dims) row (k + 1) ↔ Missing memory inner dims (row + inner) k := by
  unfold Missing
  rw [List.getElem?_cons_succ, next_column]

/-- All columns before one are valid if the first is, and all others before it. -/
theorem valid_before (hzero : Valid memory inner (m :: dims) row 0) (h : ∀ k' < k, Valid memory inner dims (row + inner) k') :
    ∀ k' < k + 1, Valid memory inner (m :: dims) row k' := by
  intro k' hk'
  cases k' with
  | zero => exact hzero
  | succ k' => exact valid_succ.mpr (h k' (Nat.lt_of_succ_lt_succ hk'))

theorem Picks.cons {i : ℕ} {idx : List ℕ} (hv : memory row = some v) (hi : apply_single_index v m.dim_size = some (i : ℤ))
    (hlt : (i : ℤ) < m.dim_size) (h : Picks memory inner dims (row + inner) idx) :
    Picks memory inner (m :: dims) row (i :: idx) := by
  refine ⟨mem_multiIndices_cons.mpr ⟨i, idx, rfl, hlt, h.1⟩, fun k m' hm' => ?_⟩
  cases k with
  | zero =>
    obtain rfl := Option.some.inj hm'
    refine ⟨v, i, ?_, hi, rfl⟩
    rwa [Nat.cast_zero, zero_mul, add_zero]
  | succ k =>
    obtain ⟨v, x, hv, hx, hidx⟩ := h.2 k m' hm'
    rw [next_column] at hv
    exact ⟨v, x, hv, hx, hidx⟩

end

/-- The chain picks an element of the source, or stops at the first entry that is no index. By induction on the
dimensions of the source. -/
theorem single_cases (memory : ℤ → Option ℤ) (inner : ℤ) (dims : List size_stride_t) (src0 row : ℤ) :
    (∃ idx, Picks memory inner dims row idx ∧
        take_by_pointer_ck.single memory (chain inner dims) src0 row = .ok (src0 + strideOffset dims idx)) ∨
      (∃ k, (∀ k' < k, Valid memory inner dims row k') ∧ Refused memory inner dims row k ∧
        ∃ v size, take_by_pointer_ck.single memory (chain inner dims) src0 row = .error (.index_out_of_bounds v size)) ∨
      ∃ k, (∀ k' < k, Valid memory inner dims row k') ∧ Missing memory inner dims row k ∧
        take_by_pointer_ck.single memory (chain inner dims) src0 row = .error .undefined_behavior := by
  induction dims generalizing src0 row with
  | nil =>
    refine Or.inl ⟨[], ⟨List.mem_singleton.mpr rfl, fun k m hm => ?_⟩, ?_⟩
    · cases hm
    · rw [strideOffset, add_zero]
      rfl
  | cons m dims ih =>
    have hzero : row + ((0 : ℕ) : ℤ) * inner = row := by rw [Nat.cast_zero, zero_mul, add_zero]
    unfold chain
    rw [List.map_cons, take_by_pointer_ck.single]
    cases hv : memory row with
    | none => exact Or.inr (Or.inr ⟨0, fun k' hk' => absurd hk' (Nat.not_lt_zero k'), ⟨m, rfl, by rw [hzero, hv]⟩, rfl⟩)
    | some v =>
      dsimp only
      cases hx : apply_single_index v m.dim_size with
      | none =>
        exact Or.inr (Or.inl ⟨0, fun k' hk' => absurd hk' (Nat.not_lt_zero k'), ⟨m, rfl, v, by rw [hzero, hv], hx⟩, v, _, rfl⟩)
      | some x =>
        have hvalid : Valid memory inner (m :: dims) row 0 := valid_zero hv hx
        rcases ih (src0 + x * m.stride) (row + inner) with ⟨idx, hpicks, hrun⟩ | ⟨k, hbefore, hk, v', size, hrun⟩ |
          ⟨k, hbefore, hk, hrun⟩
        · obtain ⟨hnonneg, hlt⟩ := apply_single_index_range hx
          obtain ⟨i, rfl⟩ := Int.eq_ofNat_of_zero_le hnonneg
          refine Or.inl ⟨i :: idx, hpicks.cons hv hx hlt, ?_⟩
          rw [strideOffset, List.headI_cons, List.tail_cons, ← add_assoc]
          exact hrun
        · exact Or.inr (Or.inl ⟨k + 1, valid_before hvalid hbefore, refused_succ.mpr hk, v', size, hrun⟩)
        · exact Or.inr (Or.inr ⟨k + 1, valid_before hvalid hbefore, missing_succ.mpr hk, hrun⟩)

/-! ## All rows -/

/-- The loop stores a pointer for every row, or stops at the first row that throws. By induction on the elements left. -/
theorem loop_cases (ck : take_by_pointer_outer_ck) (memory : ℤ → Option ℤ) (src0 : ℤ) (n : ℕ) (dst src1 : ℤ) :
    (∃ stored, ck.loop memory src0 n dst src1 = .ok stored ∧ stored.length = n ∧ ∀ i < n, ∃ p,
        take_by_pointer_ck.single memory ck.child src0 (src1 + i * ck.src1_stride) = .ok p ∧
          stored[i]? = some (dst + i * ck.dst_stride, p)) ∨
      ∃ i < n, ∃ e, (∀ i' : ℕ, i' < i → ∃ p,
          take_by_pointer_ck.single memory ck.child src0 (src1 + i' * ck.src1_stride) = .ok p) ∧
        take_by_pointer_ck.single memory ck.child src0 (src1 + i * ck.src1_stride) = .error e ∧
          ck.loop memory src0 n dst src1 = .error e := by
  induction n generalizing dst src1 with
  | zero => exact Or.inl ⟨[], rfl, rfl, fun i hi => absurd hi (Nat.not_lt_zero i)⟩
  | succ n ih =>
    have hzero (a s : ℤ) : a + ((0 : ℕ) : ℤ) * s = a := by rw [Nat.cast_zero, zero_mul, add_zero]
    rw [take_by_pointer_outer_ck.loop]
    cases hp : take_by_pointer_ck.single memory ck.child src0 src1 with
    | error e =>
      exact Or.inr ⟨0, Nat.succ_pos n, e, fun i' hi' => absurd hi' (Nat.not_lt_zero i'), by rw [hzero, hp], rfl⟩
    | ok p =>
      rcases ih (dst + ck.dst_stride) (src1 + ck.src1_stride) with ⟨stored, hrun, hlen, hall⟩ | ⟨i, hi, e, hbefore, he, hrun⟩
      · left
        rw [ok_bind, hrun]
        refine ⟨(dst, p) :: stored, rfl, congrArg Nat.succ hlen, fun i hi => ?_⟩
        cases i with
        | zero => exact ⟨p, by rw [hzero, hp], by rw [hzero]; rfl⟩
        | succ i =>
          obtain ⟨p, hp, hget⟩ := hall i (Nat.lt_of_succ_lt_succ hi)
          rw [next_column] at hp hget
          exact ⟨p, hp, hget⟩
      · right
        rw [ok_bind, hrun]
        rw [next_column] at he
        refine ⟨i + 1, Nat.succ_lt_succ hi, e, fun i' hi' => ?_, he, rfl⟩
        cases i' with
        | zero => exact ⟨p, by rw [hzero, hp]⟩
        | succ i' =>
          obtain ⟨p, hp⟩ := hbefore i' (Nat.lt_of_succ_lt_succ hi')
          rw [next_column] at hp
          exact ⟨p, hp⟩

/-! ## The condition -/

def array.stride (a : array) (k : ℕ) : ℤ := (a.dims.getD k ⟨0, 0⟩).stride

/-- Where the kernel looks for the first index of an element. -/
def rowAddress (index : index_array) (i : ℕ) : ℤ := index.data + i * index.stride 0

/-- Some entry that is an intptr of the array is no index of its dimension, and all entries before it are. -/
def Stops (dst : array) (src : source) (index : index_array) : Prop :=
  ∃ i < dst.first.dim_size.toNat, ∃ k, (∀ i' < i, ∀ k', Valid index.memory (index.stride 1) src.dims (rowAddress index i') k') ∧
    (∀ k' < k, Valid index.memory (index.stride 1) src.dims (rowAddress index i) k') ∧
      Refused index.memory (index.stride 1) src.dims (rowAddress index i) k

/-- The index array has a row for each element of the destination, with a column for each dimension of the source. -/
def Rows (dst : array) (src : source) (index : index_array) : Prop :=
  ∀ i < dst.first.dim_size.toNat, ∀ k < src.dims.length, (index.element i k).isSome

/-- The arrmeta of the index array has the strides that are read. -/
def HasStrides (src : source) (index : index_array) : Prop :=
  index.dims ≠ [] ∧ (src.dims ≠ [] → 2 ≤ index.dims.length)

/-- Some operand is not strided. -/
def NotStrided (dst : array) (src : source) (index : index_array) : Prop :=
  dst.dims = [] ∨ src.dims.length < src.ndim ∨ index.dims.length < index.ndim

variable {dst : array} {src : source} {index : index_array}

theorem instantiate_throws (h : NotStrided dst src index) : ∃ what, instantiate dst src index = .error (.type_error what) := by
  unfold instantiate
  cases hdst : dst.dims with
  | nil => exact ⟨_, rfl⟩
  | cons d dims =>
    dsimp only
    by_cases hsrc : src.dims.length < src.ndim
    · rw [if_pos hsrc]
      exact ⟨_, rfl⟩
    · have hindex : index.dims.length < index.ndim := by
        rcases h with h | h | h
        · cases hdst.symm.trans h
        · exact absurd h hsrc
        · exact h
      rw [if_neg hsrc, if_pos hindex]
      exact ⟨_, rfl⟩

theorem instantiate_undefined (h : ¬ NotStrided dst src index) (hstrides : ¬ HasStrides src index) :
    instantiate dst src index = .error .undefined_behavior := by
  obtain ⟨hdst, hsrc, hindex⟩ : dst.dims ≠ [] ∧ ¬ src.dims.length < src.ndim ∧ ¬ index.dims.length < index.ndim := by
    unfold NotStrided at h
    push Not at h
    exact ⟨h.1, not_lt.mpr h.2.1, not_lt.mpr h.2.2⟩
  obtain ⟨d, dims, hd⟩ := List.exists_cons_of_ne_nil hdst
  unfold instantiate
  rw [hd]
  dsimp only
  rw [if_neg hsrc, if_neg hindex]
  unfold size_stride
  rcases hdims : index.dims with _ | ⟨rows, _ | ⟨columns, rest⟩⟩
  · rfl
  · -- no inner stride, and it is asked for
    have hne : src.dims ≠ [] := by
      rintro hnil
      exact hstrides ⟨by rw [hdims]; exact List.cons_ne_nil _ _, fun hne => absurd hnil hne⟩
    obtain ⟨m, ms, hm⟩ := List.exists_cons_of_ne_nil hne
    rw [hm]
    rfl
  · refine absurd ⟨by rw [hdims]; exact List.cons_ne_nil _ _, fun _ => ?_⟩ hstrides
    rw [hdims, List.length_cons, List.length_cons]
    omega

theorem instantiate_ok (h : ¬ NotStrided dst src index) (hstrides : HasStrides src index) : instantiate dst src index =
    if src.is_builtin then
      .ok ⟨dst.first.dim_size, dst.first.stride, index.stride 0, chain (index.stride 1) src.dims⟩
    else .error (.runtime_error ("make_value_to_pointer_assignment_kernel: unrecognized type " ++ src.dtype)) := by
  obtain ⟨hdst, hsrc, hindex⟩ : dst.dims ≠ [] ∧ ¬ src.dims.length < src.ndim ∧ ¬ index.dims.length < index.ndim := by
    unfold NotStrided at h
    push Not at h
    exact ⟨h.1, not_lt.mpr h.2.1, not_lt.mpr h.2.2⟩
  obtain ⟨d, dims, hd⟩ := List.exists_cons_of_ne_nil hdst
  have hfirst : dst.first = d := by
    unfold array.first
    rw [hd]
    rfl
  have houter : size_stride index 0 = .ok (index.dims.getD 0 ⟨0, 0⟩) := by
    unfold size_stride
    have hlen := List.length_pos_iff.mpr hstrides.1
    rw [List.getElem?_eq_getElem hlen, List.getD_eq_getElem _ _ hlen]
  have hchild : src.dims.mapM (fun m => do
      let inner ← size_stride index 1
      return (⟨m.dim_size, m.stride, inner.stride⟩ : take_by_pointer_ck)) = .ok (chain (index.stride 1) src.dims) := by
    apply mapM_eq_map
    intro m hm
    have hlen : 1 < index.dims.length := hstrides.2 (List.ne_nil_of_mem hm)
    unfold size_stride array.stride
    rw [List.getElem?_eq_getElem hlen, List.getD_eq_getElem _ _ hlen]
    rfl
  unfold instantiate
  rw [hd]
  dsimp only
  rw [if_neg hsrc, if_neg hindex, houter, ok_bind, hchild, ok_bind, hfirst]
  rfl

/-- An index of the array is what the kernel reads there. -/
theorem entry_of_element {i k : ℕ} {v : ℤ} (h : index.element i k = some v) :
    index.memory (rowAddress index i + k * index.stride 1) = some v := by
  unfold index_array.element at h
  split at h
  · rename_i rows columns hdims
    have h0 : index.stride 0 = rows.stride := by
      unfold array.stride
      rw [hdims]
      rfl
    have h1 : index.stride 1 = columns.stride := by
      unfold array.stride
      rw [hdims]
      rfl
    unfold rowAddress
    rw [h0, h1]
    exact (Option.ite_none_right_eq_some.mp h).2
  · cases h

theorem Selects.isSome {i : ℕ} {idx : List ℕ} (h : Selects src index i idx) : ∀ k < src.dims.length, (index.element i k).isSome := by
  intro k hk
  obtain ⟨v, x, hv, -⟩ := h.2 k _ (List.getElem?_eq_getElem hk)
  rw [hv]
  rfl

/-- A row of the array selects what its entries pick. -/
theorem Picks.selects {i : ℕ} {idx : List ℕ} (hpicks : Picks index.memory (index.stride 1) src.dims (rowAddress index i) idx)
    (h : ∀ k < src.dims.length, (index.element i k).isSome) : Selects src index i idx := by
  refine ⟨hpicks.1, fun k m hm => ?_⟩
  obtain ⟨v, x, hv, hx, hidx⟩ := hpicks.2 k m hm
  obtain ⟨v', hv'⟩ := Option.isSome_iff_exists.mp (h k (List.getElem?_eq_some_iff.mp hm).1)
  obtain rfl := Option.some.inj (hv.symm.trans (entry_of_element hv'))
  exact ⟨v, x, hv', hx, hidx⟩

/-! ## The run -/

/-- The row that throws, if its entry is an intptr, is the first that is no index. -/
theorem not_stops_of_missing {i k : ℕ}
    (hrows : ∀ i' < i, ∀ k', Valid index.memory (index.stride 1) src.dims (rowAddress index i') k')
    (hbefore : ∀ k' < k, Valid index.memory (index.stride 1) src.dims (rowAddress index i) k')
    (hmissing : Missing index.memory (index.stride 1) src.dims (rowAddress index i) k) : ¬ Stops dst src index := by
  rintro ⟨i', -, k', hrows', hbefore', hrefused⟩
  rcases lt_trichotomy i' i with hi | rfl | hi
  · exact (hrows i' hi k').not_refused hrefused
  · rcases lt_trichotomy k' k with hk | rfl | hk
    · exact (hbefore k' hk).not_refused hrefused
    · exact hrefused.not_missing hmissing
    · exact (hbefore' k hk).not_missing hmissing
  · exact (hrows' i hi k).not_missing hmissing

/-- A row that gives a pointer has only indices. -/
theorem picks_of_ok {i : ℕ} {p : ℤ}
    (h : take_by_pointer_ck.single index.memory (chain (index.stride 1) src.dims) src.data (index.data + i * index.stride 0) = .ok p) :
    ∃ idx, Picks index.memory (index.stride 1) src.dims (rowAddress index i) idx ∧ p = src.data + strideOffset src.dims idx := by
  rcases single_cases index.memory (index.stride 1) src.dims src.data (rowAddress index i) with ⟨idx, hpicks, hrun⟩ |
    ⟨k, -, -, v, size, hrun⟩ | ⟨k, -, -, hrun⟩
  · exact ⟨idx, hpicks, Except.ok.inj (h.symm.trans hrun)⟩
  · cases h.symm.trans hrun
  · cases h.symm.trans hrun

/-- Once the kernels are made for elements that have pointers. -/
theorem run_iff (hrun : take_by_pointer dst src index =
    take_by_pointer_outer_ck.loop ⟨dst.first.dim_size, dst.first.stride, index.stride 0, chain (index.stride 1) src.dims⟩
      index.memory src.data dst.first.dim_size.toNat dst.data index.data) :
    Takes dst src index ↔ Stops dst src index ∨ Rows dst src index := by
  unfold Takes
  rw [hrun]
  rcases loop_cases ⟨dst.first.dim_size, dst.first.stride, index.stride 0, chain (index.stride 1) src.dims⟩ index.memory src.data
    dst.first.dim_size.toNat dst.data index.data with ⟨stored, hloop, hlen, hall⟩ | ⟨i, hi, e, hbefore, he, hloop⟩
  · rw [hloop]
    have hstops : ¬ Stops dst src index := by
      rintro ⟨i, hi, k, -, -, hrefused⟩
      obtain ⟨p, hp, -⟩ := hall i hi
      obtain ⟨idx, hpicks, -⟩ := picks_of_ok hp
      exact (hpicks.valid k).not_refused hrefused
    rw [or_iff_right hstops]
    constructor
    · rintro ⟨-, hselects⟩ i hi
      obtain ⟨idx, hidx, -⟩ := hselects i (hi.trans_eq hlen.symm)
      exact hidx.isSome
    · intro hrows
      refine ⟨hlen, fun i hi => ?_⟩
      rw [hlen] at hi
      obtain ⟨p, hp, hget⟩ := hall i hi
      obtain ⟨idx, hpicks, rfl⟩ := picks_of_ok hp
      exact ⟨idx, hpicks.selects (hrows i hi), hget⟩
  · rw [hloop]
    have hrows : ∀ i' < i, ∀ k', Valid index.memory (index.stride 1) src.dims (rowAddress index i') k' := by
      intro i' hi' k'
      obtain ⟨p, hp⟩ := hbefore i' hi'
      obtain ⟨idx, hpicks, -⟩ := picks_of_ok hp
      exact hpicks.valid k'
    rcases single_cases index.memory (index.stride 1) src.dims src.data (rowAddress index i) with ⟨idx, -, hsingle⟩ |
      ⟨k, hvalid, hrefused, v, size, hsingle⟩ | ⟨k, hvalid, hmissing, hsingle⟩
    · cases he.symm.trans hsingle
    · obtain rfl := Except.error.inj (he.symm.trans hsingle)
      exact iff_of_true True.intro (Or.inl ⟨i, hi, k, hrows, hvalid, hrefused⟩)
    · obtain rfl := Except.error.inj (he.symm.trans hsingle)
      refine iff_of_false id (not_or.mpr ⟨not_stops_of_missing hrows hvalid hmissing, fun hall => ?_⟩)
      obtain ⟨m, hm, hnone⟩ := hmissing
      obtain ⟨v, hv⟩ := Option.isSome_iff_exists.mp (hall i hi k (List.getElem?_eq_some_iff.mp hm).1)
      cases hnone.symm.trans (entry_of_element hv)

/-- It throws or points where the indices say where an operand is not strided, or the index array has the strides that are
read and the kernels are not made, stop in time, or have a row of indices for every element; and nowhere else. -/
theorem take_by_pointer_iff (dst : array) (src : source) (index : index_array) : Takes dst src index ↔
    NotStrided dst src index ∨ HasStrides src index ∧ (src.is_builtin = false ∨ Stops dst src index ∨ Rows dst src index) := by
  by_cases hstrided : NotStrided dst src index
  · obtain ⟨what, hthrows⟩ := instantiate_throws hstrided
    refine iff_of_true ?_ (Or.inl hstrided)
    unfold Takes take_by_pointer
    rw [hthrows]
    trivial
  · rw [or_iff_right hstrided]
    by_cases hstrides : HasStrides src index
    · rw [and_iff_right hstrides]
      have hmade := instantiate_ok hstrided hstrides
      by_cases hbuiltin : src.is_builtin = true
      · rw [if_pos hbuiltin] at hmade
        rw [or_iff_right (by rw [hbuiltin]; decide)]
        apply run_iff
        unfold take_by_pointer
        rw [hmade]
        rfl
      · rw [if_neg hbuiltin] at hmade
        refine iff_of_true ?_ (Or.inl (Bool.eq_false_of_not_eq_true hbuiltin))
        unfold Takes take_by_pointer
        rw [hmade]
        trivial
    · have hundefined := instantiate_undefined hstrided hstrides
      refine iff_of_false ?_ fun h => hstrides h.1
      unfold Takes take_by_pointer
      rw [hundefined]
      exact id

/-! ## Fewer columns than dimensions -/

def one_pointer : array where
  tp := "1 * pointer[int32]"
  dims := [⟨1, 0⟩]
  ndim := 1
  data := 0
  le := by decide
  sizes := by simp

def two_by_two : source where
  tp := "2 * 2 * int32"
  dims := [⟨2, 8⟩, ⟨2, 4⟩]
  ndim := 2
  data := 64
  le := by decide
  sizes := by simp
  dtype := "int32"
  is_builtin := true

def one_by_one : index_array where
  tp := "1 * 1 * int64"
  dims := [⟨1, 0⟩, ⟨1, 0⟩]
  ndim := 2
  data := 128
  le := by decide
  sizes := by simp
  is_intptr := true
  memory a := if a = 128 then some 1 else none
  readable a := by
    have hindices : multiIndices [1, 1] = [[0, 0]] := rfl
    constructor
    · intro h
      have ha : a = 128 := by
        by_contra hne
        rw [if_neg hne] at h
        cases h
      exact ⟨rfl, [0, 0], hindices ▸ List.mem_singleton.mpr rfl, ha⟩
    · rintro ⟨-, idx, hidx, rfl⟩
      cases List.mem_singleton.mp (hindices ▸ hidx)
      rfl

/-- One index is used for both dimensions. -/
theorem one_column : ¬ ∀ (dst : array) (src : source) (index : index_array), Takes dst src index := by
  intro h
  have htakes := h one_pointer two_by_two one_by_one
  obtain ⟨idx, hselects, -⟩ := htakes.2 0 Nat.one_pos
  have hcolumn := hselects.isSome 1 (by decide)
  cases hcolumn

end Dynd.TakeByPointer
