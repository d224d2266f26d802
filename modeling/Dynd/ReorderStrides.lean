import Mathlib.Data.List.GetD
import Dynd.ArrayViews
import Dynd.Lib.DenseLayout
/-!
# Reordering default strides

A fresh destination has the strides of C order. If the source's strides grow
somewhere, `reorder_default_constructed_strides` gives the destination the
axis order of the source's absolute strides. Two cases go wrong: strides that
only shrink when their signs are kept, and a loop that looks for a stride and
does not move. Sizes and strides are exact: the data of an array fits in
memory.
-/
namespace Dynd.FixedDim
open Lib

/-! ## The axis order of strides -/

/-- `std::sort`, which promises no order of equal elements. -/
structure std_sort where
  sort : (ℕ → ℕ → Bool) → List ℕ → List ℕ
  perm : ∀ lt l, (sort lt l).Perm l
  sorted : ∀ (key : ℕ → ℤ) l, (sort (fun i j => key i < key j) l).Pairwise fun i j => key i ≤ key j

theorem mergeSort_sorted (key : ℕ → ℤ) (l : List ℕ) :
    (l.mergeSort fun i j => !decide (key j < key i)).Pairwise fun i j => key i ≤ key j := by
  have hsorted := @List.pairwise_mergeSort _ (fun i j => !decide (key j < key i)) (by simp; omega) (by simp; omega) l
  simpa using hsorted

instance : Inhabited std_sort :=
  ⟨⟨fun lt l => l.mergeSort fun i j => !lt j i, fun _ l => List.mergeSort_perm l _, mergeSort_sorted⟩⟩

/-- `strides_to_axis_perm`: the axes from the smallest absolute stride on. -/
def strides_to_axis_perm (std : std_sort) : List ℤ → List ℕ
  | [] => []
  | [_] => [0]
  | [s0, s1] => if |s0| ≥ |s1| then [1, 0] else [0, 1]
  | [s0, s1, s2] =>
    if |s0| ≥ |s1| then
      if |s1| ≥ |s2| then [2, 1, 0]
      else if |s0| ≥ |s2| then [1, 2, 0]
      else [1, 0, 2]
    else if |s1| ≥ |s2| then
      if |s0| ≥ |s2| then [2, 0, 1]
      else [0, 2, 1]
    else [0, 1, 2]
  | strides =>
    -- Initialize to a reversal perm (i.e. so C-order is a no-op)
    std.sort (fun i j => |strides.getD i 0| < |strides.getD j 0|) (List.range strides.length).reverse

inductive axis_order_classification_t where
  | axis_order_none
  | axis_order_neither
  | axis_order_f
  | axis_order_c
deriving DecidableEq, Repr

/-- `classify_strided_axis_order` of dimensions that are all strided. -/
def classify_strided_axis_order (current_stride : ℤ) : List size_stride_t → axis_order_classification_t
  | [] => .axis_order_none
  | m :: md =>
    let aoc := classify_strided_axis_order current_stride md
    if |m.stride| ≠ 0 then
      if current_stride > |m.stride| then
        if aoc = .axis_order_none || aoc = .axis_order_c then .axis_order_c else .axis_order_neither
      else if aoc = .axis_order_none || aoc = .axis_order_f then .axis_order_f
      else .axis_order_neither
    else aoc

/-- `fixed_dim_type::classify_axis_order`. -/
def classify_axis_order : List size_stride_t → axis_order_classification_t
  | [] => .axis_order_none
  | m :: md => if m.stride ≠ 0 then classify_strided_axis_order |m.stride| md else classify_axis_order md

/-! ## The function -/

def arrmetaAt (md : List size_stride_t) (i : ℕ) : size_stride_t := md.getD i ⟨0, 0⟩

/-- The loop over the source: representative strides until there is none, whether they are in C order
so far, and what is left of the source. Where it stops a stride is left `unset`. -/
def representativeStrides (unset : ℤ) : ℕ → List size_stride_t → ℤ → Bool → List ℤ × Bool × List size_stride_t
  | 0, src, _, c_order => ([], c_order, src)
  | _ + 1, [], _, c_order => ([unset], c_order, [])
  | n + 1, m :: src, previous_stride, c_order =>
    if m.stride ≠ 0 then
      if m.stride = 2 ^ 63 - 1 then ([unset], c_order, src)
      else
        let c_order := if previous_stride ≠ 0 && previous_stride < m.stride then false else c_order
        let (strides, c_order, src) := representativeStrides unset n src m.stride c_order
        (m.stride :: strides, c_order, src)
    else
      let (strides, c_order, src) := representativeStrides unset n src previous_stride c_order
      (m.stride :: strides, c_order, src)

/-- `do { stride = md[i].stride; } while (stride == 0 && i >= i_end);`, for at most `fuel` rounds. -/
def lookFurther (md : List size_stride_t) (i i_end : ℕ) : ℕ → Option ℤ
  | 0 => none
  | fuel + 1 =>
    let stride := (arrmetaAt md i).stride
    if stride = 0 && i_end ≤ i then lookFurther md i i_end fuel else some stride

/-- The stride of dimension `n - 1`, or of the one before it where that is zero. -/
def firstStride (md : List size_stride_t) (n i_end fuel : ℕ) : Option ℤ :=
  let stride := (arrmetaAt md (n - 1)).stride
  if stride = 0 then lookFurther md (n - 2) i_end fuel else some stride

/-- The loop that gives the axes their strides in this order. -/
def setStrides : List ℕ → ℤ → List size_stride_t → List size_stride_t
  | [], _, md => md
  | i :: axes, stride, md =>
    let dim_size := (arrmetaAt md i).dim_size
    setStrides axes (stride * dim_size) (md.set i ⟨dim_size, if 1 < dim_size then stride else 0⟩)

/-- The whole chain of fixed dimensions at once. -/
def reorderChain (std : std_sort) (unset : ℤ) (fuel : ℕ) (md src : List size_stride_t) : Option (List size_stride_t) := do
  let ndim := md.length
  let (strides, c_order, last_src) := representativeStrides unset ndim src 0 true
  let ndim_partial := strides.length
  -- If it wasn't all C-order, reorder the axes
  let md ←
    if !c_order then do
      let stride ← firstStride md ndim_partial 0 fuel
      pure (setStrides (strides_to_axis_perm std strides) stride md)
    else pure md
  -- If that didn't cover all the dimensions, handle the rest
  if ndim_partial < ndim && classify_axis_order last_src = .axis_order_f then do
    let stride ← firstStride md ndim ndim_partial fuel
    pure (setStrides (List.range' ndim_partial (ndim - ndim_partial)) stride md)
  else pure md

/-- `reorder_default_constructed_strides`: `md` is the arrmeta of the leading fixed dimensions of the
destination, whose elements have `inner` dimensions more, and `src` is the source's. There is no result
where a loop takes more than `fuel` rounds. -/
def reorder_default_constructed_strides (std : std_sort) (unset : ℤ) (fuel inner : ℕ) :
    List size_stride_t → List size_stride_t → Option (List size_stride_t)
  | m :: m' :: md, src =>
    -- If the destination has more dimensions than the source, do the reordering starting from where they match
    if (m :: m' :: md).length + inner > src.length then
      (m :: ·) <$> reorder_default_constructed_strides std unset fuel inner (m' :: md) src
    else reorderChain std unset fuel (m :: m' :: md) src
  -- Nothing to do if there's just one reorderable dimension
  | md, _ => some md

/-! ## What it is for -/

/-- The strides are dense along the axes in some order. -/
def DenseLayout (unit : ℤ) (md : List size_stride_t) : Prop := ∃ axes : List ℕ, axes.Perm (List.range md.length) ∧
  DenseAlong (fun i => (arrmetaAt md i).dim_size) (fun i => (arrmetaAt md i).stride) unit axes

/-- Axis `i` of the source is axis `offset + i` of the destination. A stride of zero, of either, says
nothing of the order. -/
def SameAxisOrder (offset : ℕ) (src md : List size_stride_t) : Prop := ∀ i j,
  (arrmetaAt src i).stride ≠ 0 → (arrmetaAt src j).stride ≠ 0 →
  (arrmetaAt md (offset + i)).stride ≠ 0 → (arrmetaAt md (offset + j)).stride ≠ 0 →
  |(arrmetaAt src i).stride| < |(arrmetaAt src j).stride| →
  |(arrmetaAt md (offset + i)).stride| < |(arrmetaAt md (offset + j)).stride|

/-- No stride grows from one axis to a later one, zeros apart. -/
def NeverGrows (strides : List ℤ) : Prop := (strides.filter (· ≠ 0)).Pairwise (· ≥ ·)

/-! ## The source's strides -/

/-- Whether the strides after `previous` are in C order. -/
def inCOrder : ℤ → List ℤ → Bool
  | _, [] => true
  | previous, s :: strides =>
    if s ≠ 0 then !(previous ≠ 0 && previous < s) && inCOrder s strides else inCOrder previous strides

theorem neverGrows_short {strides : List ℤ} (h : strides.length ≤ 1) : NeverGrows strides := by
  match strides with
  | [] => exact List.Pairwise.nil
  | [s] =>
    rw [NeverGrows, List.filter_cons]
    split_ifs
    · exact List.pairwise_singleton _ _
    · exact List.Pairwise.nil

theorem representativeStrides_eq (unset : ℤ) (n : ℕ) {src : List size_stride_t} (hlen : n ≤ src.length)
    (hsrc : ∀ m ∈ src, |m.stride| < 2 ^ 63 - 1) (previous : ℤ) (c_order : Bool) :
    representativeStrides unset n src previous c_order =
      ((src.take n).map (·.stride), c_order && inCOrder previous ((src.take n).map (·.stride)), src.drop n) := by
  induction n generalizing src previous c_order with
  | zero => simp [representativeStrides, inCOrder]
  | succ n ih =>
    cases src with
    | nil => cases hlen
    | cons m src =>
      obtain ⟨hm, hrest⟩ := List.forall_mem_cons.1 hsrc
      have hmax : ¬ m.stride = 2 ^ 63 - 1 := by
        have := le_abs_self m.stride
        omega
      have ih := fun p c => ih (Nat.le_of_succ_le_succ hlen) hrest p c
      rw [representativeStrides, List.take_succ_cons, List.map_cons, List.drop_succ_cons, inCOrder]
      by_cases hzero : m.stride = 0
      · rw [if_neg (not_not.2 hzero), if_neg (not_not.2 hzero), ih]
      · rw [if_pos hzero, if_pos hzero, if_neg hmax]
        dsimp only
        rw [ih]
        dsimp only
        split_ifs with hgrow
        · rw [hgrow]
          simp
        · rw [Bool.not_eq_true] at hgrow
          rw [hgrow]
          simp

theorem inCOrder_iff (previous : ℤ) (strides : List ℤ) : inCOrder previous strides = true ↔ NeverGrows (previous :: strides) := by
  induction strides generalizing previous with
  | nil => exact iff_of_true rfl (neverGrows_short (le_refl 1))
  | cons s strides ih =>
    rw [inCOrder]
    by_cases hs : s = 0
    · rw [if_neg (not_not.2 hs), ih, NeverGrows, NeverGrows, List.filter_cons, List.filter_cons, hs, List.filter_cons_of_neg (by simp)]
    · rw [if_pos hs, Bool.and_eq_true, ih]
      have hfilter : (s :: strides).filter (· ≠ 0) = s :: strides.filter (· ≠ 0) := List.filter_cons_of_pos (by simpa using hs)
      by_cases hp : previous = 0
      · simp [NeverGrows, hp]
      · have hpfilter : (previous :: s :: strides).filter (· ≠ 0) = previous :: s :: strides.filter (· ≠ 0) := by
          rw [List.filter_cons_of_pos (by simpa using hp), hfilter]
        rw [NeverGrows, NeverGrows, hfilter, hpfilter, List.pairwise_cons (a := previous)]
        refine and_congr_left fun hsorted => ?_
        have hlater := (List.pairwise_cons.1 hsorted).1
        simp only [Bool.not_eq_true', Bool.and_eq_false_iff, decide_eq_false_iff_not, not_not, hp, false_or, not_lt]
        constructor
        · intro hge b hb
          rcases List.mem_cons.1 hb with rfl | hb
          · exact hge
          · exact (hlater b hb).trans hge
        · exact fun h => h s List.mem_cons_self

/-! ## The order of the axes -/

theorem strides_to_axis_perm_spec (std : std_sort) (strides : List ℤ) :
    (strides_to_axis_perm std strides).Perm (List.range strides.length) ∧
      (strides_to_axis_perm std strides).Pairwise fun i j => |strides.getD i 0| ≤ |strides.getD j 0| := by
  match strides with
  | [] => exact ⟨List.Perm.refl _, List.Pairwise.nil⟩
  | [s] => exact ⟨List.Perm.refl _, List.pairwise_singleton _ _⟩
  | [s0, s1] =>
    rw [strides_to_axis_perm]
    have hrange : List.range [s0, s1].length = [0, 1] := rfl
    rw [hrange]
    split_ifs with h
    · exact ⟨by decide, by simpa using h⟩
    · exact ⟨by decide, by simpa using (not_le.1 h).le⟩
  | [s0, s1, s2] =>
    rw [strides_to_axis_perm]
    have hrange : List.range [s0, s1, s2].length = [0, 1, 2] := rfl
    rw [hrange]
    split_ifs <;> exact ⟨by decide, by simp; omega⟩
  | s0 :: s1 :: s2 :: s3 :: strides =>
    refine ⟨?_, std.sorted (fun i => |(s0 :: s1 :: s2 :: s3 :: strides).getD i 0|) _⟩
    exact (std.perm _ _).trans (List.reverse_perm _)

/-! ## Setting the strides -/

theorem arrmetaAt_dim_size (md : List size_stride_t) (i : ℕ) :
    (md.map (·.dim_size)).getD i 0 = (arrmetaAt md i).dim_size := List.getD_map md ⟨0, 0⟩ (·.dim_size)

theorem arrmetaAt_stride (md : List size_stride_t) (i : ℕ) :
    (md.map (·.stride)).getD i 0 = (arrmetaAt md i).stride := List.getD_map md ⟨0, 0⟩ (·.stride)

theorem arrmetaAt_set_self {md : List size_stride_t} {i : ℕ} (h : i < md.length) (m : size_stride_t) :
    arrmetaAt (md.set i m) i = m := by
  rw [arrmetaAt, List.getD_eq_getElem _ _ (by simpa using h), List.getElem_set_self]

theorem arrmetaAt_set_ne {i j : ℕ} (h : i ≠ j) (md : List size_stride_t) (m : size_stride_t) :
    arrmetaAt (md.set i m) j = arrmetaAt md j := by
  rw [arrmetaAt, arrmetaAt, List.getD_eq_getElem?_getD, List.getD_eq_getElem?_getD, List.getElem?_set_ne h]

/-- The sizes stay, an axis that is not in the list keeps its stride, and the layout is dense along the list. -/
theorem setStrides_spec {axes : List ℕ} (hnodup : axes.Nodup) (unit : ℤ) {md : List size_stride_t}
    (hrange : ∀ a ∈ axes, a < md.length) : (setStrides axes unit md).map (·.dim_size) = md.map (·.dim_size) ∧
      (∀ i, i ∉ axes → arrmetaAt (setStrides axes unit md) i = arrmetaAt md i) ∧
      DenseAlong (fun i => (arrmetaAt md i).dim_size) (fun i => (arrmetaAt (setStrides axes unit md) i).stride) unit axes := by
  induction axes generalizing unit md with
  | nil => exact ⟨rfl, fun _ _ => rfl, trivial⟩
  | cons a axes ih =>
    obtain ⟨hnotin, hnodup⟩ := List.nodup_cons.1 hnodup
    have ha := hrange a List.mem_cons_self
    rw [setStrides]
    generalize hm : (⟨(arrmetaAt md a).dim_size, if 1 < (arrmetaAt md a).dim_size then unit else 0⟩ : size_stride_t) = m
    have hother : ∀ i, i ≠ a → arrmetaAt (md.set a m) i = arrmetaAt md i := fun i hi => arrmetaAt_set_ne (Ne.symm hi) md m
    have hrange' : ∀ b ∈ axes, b < (md.set a m).length := by
      intro b hb
      rw [List.length_set]
      exact hrange b (List.mem_cons_of_mem a hb)
    obtain ⟨hsizes, hkeep, hdense⟩ := ih hnodup (unit * (arrmetaAt md a).dim_size) hrange'
    refine ⟨?_, ?_, ?_, ?_⟩
    · have ha' : a < (md.map (·.dim_size)).length := by rwa [List.length_map]
      have hsame : m.dim_size = (md.map (·.dim_size))[a] := by
        rw [← hm, arrmetaAt, List.getD_eq_getElem _ _ ha, List.getElem_map]
      rw [hsizes, List.map_set, hsame, List.set_getElem_self]
    · intro i hi
      obtain ⟨hia, hi⟩ := not_or.1 (List.mem_cons.not.1 hi)
      rw [hkeep i hi, hother i hia]
    · dsimp only
      rw [hkeep a hnotin, arrmetaAt_set_self ha, ← hm]
    · refine hdense.congr fun b hb => ⟨?_, rfl⟩
      have hba : b ≠ a := fun h => hnotin (h ▸ hb)
      rw [hother b hba]

/-! ## The default layout -/

section
variable {T : Type} [ElementType T] (dtype : T)

/-- The default strides are those of C order: dense from the last axis outward. -/
theorem default_dense (dims : List dim_size_t) :
    DenseAlong (fun i => (arrmetaAt (arrmeta_default_construct dtype dims) i).dim_size)
        (fun i => (arrmetaAt (arrmeta_default_construct dtype dims) i).stride) (ElementType.get_data_size dtype)
        (List.range dims.length).reverse ∧
      get_default_data_size dtype dims = ElementType.get_data_size dtype *
        ((List.range dims.length).reverse.map fun i => (arrmetaAt (arrmeta_default_construct dtype dims) i).dim_size).prod := by
  induction dims with
  | nil => exact ⟨trivial, by simp [get_default_data_size]⟩
  | cons d dims ih =>
    obtain ⟨hdense, hsize⟩ := ih
    have htail : ((List.range dims.length).reverse.map Nat.succ).map
        (fun i => (arrmetaAt (arrmeta_default_construct dtype (d :: dims)) i).dim_size) = (List.range dims.length).reverse.map
          fun i => (arrmetaAt (arrmeta_default_construct dtype dims) i).dim_size := List.map_map
    rw [List.length_cons, List.range_succ_eq_map, List.reverse_cons, ← List.map_reverse]
    constructor
    · rw [denseAlong_append, denseAlong_map, htail, ← hsize]
      exact ⟨hdense, rfl, trivial⟩
    · rw [get_default_data_size, hsize, List.map_append, htail, List.prod_append, List.map_singleton, List.prod_singleton,
        mul_comm, mul_assoc]
      rfl

theorem default_size_nonneg (dims : List dim_size_t) (i : ℕ) : 0 ≤ (arrmetaAt (arrmeta_default_construct dtype dims) i).dim_size := by
  induction dims generalizing i with
  | nil => exact le_refl _
  | cons d dims ih =>
    cases i with
    | zero => exact d.property.1
    | succ i => exact ih i

theorem default_drop (n : ℕ) (dims : List dim_size_t) :
    (arrmeta_default_construct dtype dims).drop n = arrmeta_default_construct dtype (dims.drop n) := by
  induction n generalizing dims with
  | zero => rfl
  | succ n ih =>
    cases dims with
    | nil => rfl
    | cons d dims => exact ih dims

end

/-! ## The loop that looks for a stride -/

/-- The loop does not move: on a stride of zero it never ends. -/
theorem lookFurther_stuck {md : List size_stride_t} {i : ℕ} (h : (arrmetaAt md i).stride = 0) (fuel : ℕ) :
    lookFurther md i 0 fuel = none := by
  induction fuel with
  | zero => rfl
  | succ fuel ih =>
    rw [lookFurther, h, ih]
    rfl

theorem lookFurther_found {md : List size_stride_t} {i : ℕ} (h : (arrmetaAt md i).stride ≠ 0) (fuel : ℕ) :
    lookFurther md i 0 (fuel + 1) = some (arrmetaAt md i).stride := by
  rw [lookFurther, if_neg]
  simp [h]

section
variable {T : Type} [ElementType T] {dtype : T} {dims : List dim_size_t} (hlen : 2 ≤ dims.length)
include hlen

/-- The default strides of the last two axes. -/
theorem default_last : ((arrmetaAt (arrmeta_default_construct dtype dims) (dims.length - 1)).stride ≠ 0 →
      (arrmetaAt (arrmeta_default_construct dtype dims) (dims.length - 1)).stride = ElementType.get_data_size dtype) ∧
    ((arrmetaAt (arrmeta_default_construct dtype dims) (dims.length - 1)).stride = 0 →
      (arrmetaAt (arrmeta_default_construct dtype dims) (dims.length - 2)).stride ≠ 0 →
      (arrmetaAt (arrmeta_default_construct dtype dims) (dims.length - 2)).stride = ElementType.get_data_size dtype) := by
  obtain ⟨n, hn⟩ : ∃ n, dims.length = n + 2 := ⟨dims.length - 2, by omega⟩
  have hdense := (default_dense dtype dims).1
  have hnonneg := default_size_nonneg dtype dims (n + 1)
  rw [hn, List.range_succ, List.range_succ, List.reverse_append, List.reverse_append, List.reverse_singleton,
    List.reverse_singleton, List.singleton_append, List.singleton_append] at hdense
  obtain ⟨hlast, hnext, -⟩ := hdense
  rw [hn, show n + 2 - 1 = n + 1 from rfl, show n + 2 - 2 = n from rfl]
  dsimp only at hlast hnext
  constructor
  · intro hne
    split_ifs at hlast with hlong
    · exact hlast
    · exact absurd hlast hne
  · intro hzero hne
    split_ifs at hnext with hlong'
    · -- the last axis has one element
      rw [hnext] at hne ⊢
      split_ifs at hlast with hlong
      · rw [← hlast, hzero, zero_mul] at hne
        exact absurd rfl hne
      · have hone : (arrmetaAt (arrmeta_default_construct dtype dims) (n + 1)).dim_size = 1 := by
          have := right_ne_zero_of_mul hne
          omega
        rw [hone, mul_one]
    · exact absurd hnext hne

/-- The stride that is found is the size of an element. -/
theorem firstStride_default {fuel : ℕ} {stride : ℤ}
    (h : firstStride (arrmeta_default_construct dtype dims) dims.length 0 fuel = some stride) :
    stride = ElementType.get_data_size dtype := by
  obtain ⟨hlast, hnext⟩ := @default_last _ _ dtype _ hlen
  rw [firstStride] at h
  split_ifs at h with hzero
  · by_cases hzero' : (arrmetaAt (arrmeta_default_construct dtype dims) (dims.length - 2)).stride = 0
    · rw [lookFurther_stuck hzero'] at h
      cases h
    · cases fuel with
      | zero => cases h
      | succ fuel =>
        rw [lookFurther_found hzero'] at h
        rw [← Option.some.inj h]
        exact hnext hzero hzero'
  · rw [← Option.some.inj h]
    exact hlast hzero

omit hlen in
/-- The loop ends unless the last two strides are zero. -/
theorem firstStride_ends {md : List size_stride_t} {n : ℕ} : (∃ fuel stride, firstStride md n 0 fuel = some stride) ↔
    ¬ ((arrmetaAt md (n - 1)).stride = 0 ∧ (arrmetaAt md (n - 2)).stride = 0) := by
  simp only [firstStride]
  by_cases hzero : (arrmetaAt md (n - 1)).stride = 0
  · by_cases hzero' : (arrmetaAt md (n - 2)).stride = 0
    · simp [hzero, hzero', lookFurther_stuck hzero']
    · simp only [hzero, hzero', and_false, not_false_eq_true, iff_true]
      exact ⟨1, _, lookFurther_found hzero' 0⟩
  · simp only [hzero, false_and, not_false_eq_true, iff_true]
    exact ⟨0, _, rfl⟩

end

/-! ## The chain -/

/-- A source dimension: no two of its elements are `numeric_limits<intptr_t>::max()` apart. -/
abbrev strided_dim := {m : size_stride_t // |m.stride| < 2 ^ 63 - 1}

def sourceArrmeta (src : List strided_dim) : List size_stride_t := src.map (·.val)

instance (strides : List ℤ) : Decidable (NeverGrows strides) := inferInstanceAs (Decidable (List.Pairwise _ _))

theorem reorderChain_eq (std : std_sort) (unset : ℤ) (fuel : ℕ) {md : List size_stride_t} {src : List strided_dim}
    (hlen : md.length ≤ src.length) : reorderChain std unset fuel md (sourceArrmeta src) =
      if NeverGrows (((sourceArrmeta src).take md.length).map (·.stride)) then some md
      else (firstStride md md.length 0 fuel).map fun stride =>
        setStrides (strides_to_axis_perm std (((sourceArrmeta src).take md.length).map (·.stride))) stride md := by
  have hsrc : ∀ m ∈ sourceArrmeta src, |m.stride| < 2 ^ 63 - 1 := by
    intro m hm
    obtain ⟨m, -, rfl⟩ := List.mem_map.1 hm
    exact m.property
  have hlen' : md.length ≤ (sourceArrmeta src).length := by rwa [sourceArrmeta, List.length_map]
  have hrep := representativeStrides_eq unset md.length hlen' hsrc 0 true
  rw [Bool.true_and] at hrep
  have hcovered : (((sourceArrmeta src).take md.length).map (·.stride)).length = md.length := by
    rw [List.length_map, List.length_take, min_eq_left hlen']
  have horder : inCOrder 0 (((sourceArrmeta src).take md.length).map (·.stride)) = true ↔
      NeverGrows (((sourceArrmeta src).take md.length).map (·.stride)) := by
    rw [inCOrder_iff, NeverGrows, NeverGrows, List.filter_cons_of_neg (by simp)]
  rw [reorderChain, hrep]
  generalize ((sourceArrmeta src).take md.length).map (·.stride) = strides at hcovered horder
  dsimp only
  rw [hcovered]
  have hall : (decide (md.length < md.length) && decide (classify_axis_order ((sourceArrmeta src).drop md.length) =
      .axis_order_f)) = false := by simp
  rw [hall]
  by_cases hgrow : NeverGrows strides
  · rw [if_pos hgrow, horder.2 hgrow]
    rfl
  · have hfalse : inCOrder 0 strides = false := Bool.eq_false_iff.2 (horder.not.2 hgrow)
    rw [if_neg hgrow, hfalse]
    cases firstStride md md.length 0 fuel <;> rfl

/-- The outer dimensions that the source does not have keep their strides. -/
theorem reorder_eq (std : std_sort) (unset : ℤ) (fuel inner : ℕ) (md src : List size_stride_t) :
    reorder_default_constructed_strides std unset fuel inner md src =
      (md.take (md.length + inner - src.length) ++ ·) <$>
        if 2 ≤ (md.drop (md.length + inner - src.length)).length then
          reorderChain std unset fuel (md.drop (md.length + inner - src.length)) src
        else some (md.drop (md.length + inner - src.length)) := by
  induction md with
  | nil => simp [reorder_default_constructed_strides]
  | cons m md ih =>
    rw [reorder_default_constructed_strides.eq_def]
    cases md with
    | nil =>
      have hshort : ¬ 2 ≤ ([m].drop ([m].length + inner - src.length)).length := by
        rw [List.length_drop, List.length_singleton]
        omega
      rw [if_neg hshort, Option.map_eq_map, Option.map_some, List.take_append_drop]
    | cons m' md =>
      dsimp only
      by_cases hmore : (m :: m' :: md).length + inner > src.length
      · have hoffset : (m :: m' :: md).length + inner - src.length = (m' :: md).length + inner - src.length + 1 := by
          simp only [List.length_cons] at hmore ⊢
          omega
        rw [if_pos hmore, ih, hoffset, List.take_succ_cons, List.drop_succ_cons, Option.map_eq_map, Option.map_eq_map,
          Option.map_eq_map, Option.map_map]
        rfl
      · have hoffset : (m :: m' :: md).length + inner - src.length = 0 := by omega
        rw [if_neg hmore, hoffset, List.take_zero, List.drop_zero, if_pos (by simp)]
        simp

/-! ## What is left behind -/

section
variable {T : Type} [ElementType T] (dtype : T) (inner : ℕ) (dims : List dim_size_t) (src : List strided_dim)

/-- The first of the destination's axes that the source has. -/
def offset : ℕ := dims.length + inner - src.length

/-- The sizes are those of the type, the layout is dense, and its axes are in the order of the source's. -/
structure Reordered (out : List size_stride_t) : Prop where
  sizes : out.map (·.dim_size) = dims.map (·.val)
  dense : DenseLayout (ElementType.get_data_size dtype) out
  order : SameAxisOrder (offset inner dims src) (sourceArrmeta src) out

/-- The axes that are reordered, as they are before it. -/
def matchedArrmeta : List size_stride_t := arrmeta_default_construct dtype (dims.drop (offset inner dims src))

/-- The strides of the source for these axes. -/
def matchedStrides : List ℤ := ((sourceArrmeta src).take (matchedArrmeta dtype inner dims src).length).map (·.stride)

/-- Where no stride of the source grows, none grows in absolute value either; and where one does, one of the last
two default strides is not zero. -/
structure Reorderable : Prop where
  c_order : NeverGrows (matchedStrides dtype inner dims src) → ∀ i j, i < j →
    (arrmetaAt (matchedArrmeta dtype inner dims src) i).stride ≠ 0 →
    (arrmetaAt (matchedArrmeta dtype inner dims src) j).stride ≠ 0 →
    (arrmetaAt (sourceArrmeta src) i).stride ≠ 0 →
    |(arrmetaAt (sourceArrmeta src) j).stride| ≤ |(arrmetaAt (sourceArrmeta src) i).stride|
  ends : ¬ NeverGrows (matchedStrides dtype inner dims src) →
    ¬ ((arrmetaAt (matchedArrmeta dtype inner dims src) ((matchedArrmeta dtype inner dims src).length - 1)).stride = 0 ∧
      (arrmetaAt (matchedArrmeta dtype inner dims src) ((matchedArrmeta dtype inner dims src).length - 2)).stride = 0)

variable {dtype inner dims src}

theorem matchedArrmeta_eq : matchedArrmeta dtype inner dims src =
    (arrmeta_default_construct dtype dims).drop (offset inner dims src) := (default_drop _ _ _).symm

end

/-! ## The outer dimensions -/

theorem map_arrmetaAt (md : List size_stride_t) :
    (List.range md.length).map (fun i => (arrmetaAt md i).dim_size) = md.map (·.dim_size) := by
  apply List.ext_getElem
  · simp
  · intro i h1 h2
    rw [List.getElem_map, List.getElem_map, List.getElem_range, arrmetaAt, List.getD_eq_getElem]

/-- One more dimension around a dense layout. -/
theorem DenseLayout.cons {unit : ℤ} {m : size_stride_t} {md : List size_stride_t} (h : DenseLayout unit md)
    (hm : m.stride = if 1 < m.dim_size then unit * (md.map (·.dim_size)).prod else 0) : DenseLayout unit (m :: md) := by
  obtain ⟨axes, hperm, hdense⟩ := h
  have htail : (axes.map Nat.succ).map (fun i => (arrmetaAt (m :: md) i).dim_size) =
      axes.map fun i => (arrmetaAt md i).dim_size := List.map_map
  have hprod : (axes.map fun i => (arrmetaAt md i).dim_size).prod = (md.map (·.dim_size)).prod := by
    rw [← map_arrmetaAt]
    exact (hperm.map _).prod_eq
  refine ⟨axes.map Nat.succ ++ [0], ?_, ?_⟩
  · rw [List.length_cons, List.range_succ_eq_map]
    exact (List.perm_append_singleton _ _).trans ((hperm.map _).cons 0)
  · rw [denseAlong_append, denseAlong_map, htail, hprod]
    exact ⟨hdense, hm, trivial⟩

section
variable {T : Type} [ElementType T] {dtype : T}

theorem get_default_data_size_eq (dims : List dim_size_t) :
    get_default_data_size dtype dims = ElementType.get_data_size dtype * (dims.map (·.val)).prod := by
  induction dims with
  | nil => simp [get_default_data_size]
  | cons d dims ih =>
    rw [get_default_data_size, ih, List.map_cons, List.prod_cons]
    ring

/-- The outer dimensions go around whatever dense layout the inner ones have. -/
theorem DenseLayout.outer (n : ℕ) {dims : List dim_size_t} {md : List size_stride_t}
    (hsizes : md.map (·.dim_size) = (dims.drop n).map (·.val)) (h : DenseLayout (ElementType.get_data_size dtype) md) :
    DenseLayout (ElementType.get_data_size dtype) ((arrmeta_default_construct dtype dims).take n ++ md) := by
  induction n generalizing dims with
  | zero => exact h
  | succ n ih =>
    cases dims with
    | nil => exact h
    | cons d dims =>
      refine (ih hsizes).cons ?_
      have hall : ((arrmeta_default_construct dtype dims).take n ++ md).map (·.dim_size) = dims.map (·.val) := by
        rw [List.map_append, List.map_take, default_sizes, hsizes, List.drop_succ_cons, List.map_drop, List.take_append_drop]
      rw [hall, ← get_default_data_size_eq]

theorem arrmetaAt_outer (n : ℕ) {dims : List dim_size_t} {md : List size_stride_t}
    (hsizes : md.map (·.dim_size) = (dims.drop n).map (·.val)) (i : ℕ) :
    arrmetaAt ((arrmeta_default_construct dtype dims).take n ++ md) (n + i) = arrmetaAt md i := by
  have hlen : md.length = dims.length - n := by
    have := congrArg List.length hsizes
    simpa using this
  have htake : ((arrmeta_default_construct dtype dims).take n).length = min n dims.length := by
    rw [List.length_take, default_length]
  rw [arrmetaAt, arrmetaAt, List.getD_eq_getElem?_getD, List.getD_eq_getElem?_getD,
    List.getElem?_append_right (by omega), htake]
  rcases le_total n dims.length with hn | hn
  · rw [min_eq_left hn, Nat.add_sub_cancel_left]
  · have hnil : md = [] := List.eq_nil_of_length_eq_zero (by omega)
    rw [hnil]
    simp

omit [ElementType T] in
theorem lt_length_of_stride {md : List size_stride_t} {i : ℕ} (h : (arrmetaAt md i).stride ≠ 0) : i < md.length := by
  by_contra hi
  rw [arrmetaAt, List.getD_eq_default _ _ (not_lt.1 hi)] at h
  exact h rfl

theorem unit_nonneg : (0 : ℤ) ≤ ElementType.get_data_size dtype := Int.natCast_nonneg _

/-- A later axis has a smaller default stride. -/
theorem default_decreasing {dims : List dim_size_t} {i j : ℕ} (hij : i < j)
    (hi : (arrmetaAt (arrmeta_default_construct dtype dims) i).stride ≠ 0)
    (hj : (arrmetaAt (arrmeta_default_construct dtype dims) j).stride ≠ 0) :
    |(arrmetaAt (arrmeta_default_construct dtype dims) j).stride| < |(arrmetaAt (arrmeta_default_construct dtype dims) i).stride| := by
  have hsize := default_size_nonneg dtype dims
  have hdense := (default_dense dtype dims).1
  have hlt : j < dims.length := by
    rw [← default_length dtype dims]
    exact lt_length_of_stride hj
  have hgrow := List.pairwise_reverse.1 (hdense.increasing hsize unit_nonneg)
  have hrange := List.pairwise_iff_getElem.1 hgrow i j (by rw [List.length_range]; omega) (by rw [List.length_range]; omega) hij
  rw [List.getElem_range, List.getElem_range] at hrange
  have hpos := hdense.unit_le hsize unit_nonneg (List.mem_reverse.2 (List.mem_range.2 hlt)) hj
  have h0 : 0 ≤ (arrmetaAt (arrmeta_default_construct dtype dims) j).stride := unit_nonneg.trans hpos
  rw [abs_of_nonneg h0, abs_of_nonneg (h0.trans (hrange hj hi).le)]
  exact hrange hj hi

end

/-! ## The main result -/

section
variable {T : Type} [ElementType T] {dtype : T} {inner : ℕ} {dims : List dim_size_t} {src : List strided_dim}

/-- The result is as it should be when what becomes of the matched axes is. -/
theorem reordered_iff {md : List size_stride_t}
    (hsizes : md.map (·.dim_size) = (dims.drop (offset inner dims src)).map (·.val))
    (hdense : DenseLayout (ElementType.get_data_size dtype) md) :
    Reordered dtype inner dims src ((arrmeta_default_construct dtype dims).take (offset inner dims src) ++ md) ↔
      SameAxisOrder 0 (sourceArrmeta src) md := by
  have horder : SameAxisOrder (offset inner dims src) (sourceArrmeta src)
      ((arrmeta_default_construct dtype dims).take (offset inner dims src) ++ md) ↔ SameAxisOrder 0 (sourceArrmeta src) md := by
    simp only [SameAxisOrder, arrmetaAt_outer _ hsizes, zero_add]
  constructor
  · exact fun h => horder.1 h.order
  · intro h
    refine ⟨?_, hdense.outer _ hsizes, horder.2 h⟩
    rw [List.map_append, List.map_take, default_sizes, hsizes, List.map_drop, List.take_append_drop]

theorem default_denseLayout (dims : List dim_size_t) :
    DenseLayout (ElementType.get_data_size dtype) (arrmeta_default_construct dtype dims) := by
  refine ⟨(List.range dims.length).reverse, ?_, (default_dense dtype dims).1⟩
  rw [default_length]
  exact List.reverse_perm _

/-- The default strides are in the order of the source's exactly when the source's do not grow. -/
theorem default_order_iff (dims : List dim_size_t) (src : List size_stride_t) :
    SameAxisOrder 0 src (arrmeta_default_construct dtype dims) ↔ ∀ i j, i < j →
      (arrmetaAt (arrmeta_default_construct dtype dims) i).stride ≠ 0 →
      (arrmetaAt (arrmeta_default_construct dtype dims) j).stride ≠ 0 →
      (arrmetaAt src i).stride ≠ 0 → |(arrmetaAt src j).stride| ≤ |(arrmetaAt src i).stride| := by
  rw [SameAxisOrder]
  simp only [zero_add]
  constructor
  · intro h i j hij hi hj hsi
    by_contra hgrow
    have hsj : (arrmetaAt src j).stride ≠ 0 := by
      intro hzero
      rw [hzero, abs_zero, not_le] at hgrow
      exact absurd hgrow (abs_nonneg _).not_gt
    exact (h i j hsi hsj hi hj (not_le.1 hgrow)).not_gt (default_decreasing hij hi hj)
  · intro h i j hsi hsj hi hj hlt
    rcases lt_trichotomy i j with hij | rfl | hij
    · exact absurd hlt (h i j hij hi hj hsi).not_gt
    · exact absurd hlt (lt_irrefl _)
    · exact default_decreasing hij hj hi

/-- Strides set along the axis order of the source. -/
theorem setStrides_order (std : std_sort) {strides : List ℤ} {src md : List size_stride_t} {unit : ℤ} (hunit : 0 ≤ unit)
    (hsize : ∀ i, 0 ≤ (arrmetaAt md i).dim_size) (hlen : strides.length = md.length)
    (hstrides : ∀ i, i < md.length → strides.getD i 0 = (arrmetaAt src i).stride) :
    (setStrides (strides_to_axis_perm std strides) unit md).map (·.dim_size) = md.map (·.dim_size) ∧
      DenseLayout unit (setStrides (strides_to_axis_perm std strides) unit md) ∧
      SameAxisOrder 0 src (setStrides (strides_to_axis_perm std strides) unit md) := by
  obtain ⟨hperm, hsorted⟩ := strides_to_axis_perm_spec std strides
  generalize strides_to_axis_perm std strides = axes at hperm hsorted
  rw [hlen] at hperm
  have hmem : ∀ a, a ∈ axes ↔ a < md.length := fun a => hperm.mem_iff.trans List.mem_range
  obtain ⟨hsizes, -, hdense⟩ := setStrides_spec (hperm.nodup_iff.2 List.nodup_range) unit fun a ha => (hmem a).1 ha
  have hlength : (setStrides axes unit md).length = md.length := by
    have := congrArg List.length hsizes
    rwa [List.length_map, List.length_map] at this
  have hdim : ∀ i, (arrmetaAt (setStrides axes unit md) i).dim_size = (arrmetaAt md i).dim_size := by
    intro i
    rw [← arrmetaAt_dim_size, hsizes, arrmetaAt_dim_size]
  refine ⟨hsizes, ⟨axes, by rwa [hlength], hdense.congr fun a _ => ⟨hdim a, rfl⟩⟩, ?_⟩
  intro i j _ _ hi hj hlt
  rw [zero_add] at hi hj
  have hi' : i < md.length := hlength ▸ lt_length_of_stride hi
  have hj' : j < md.length := hlength ▸ lt_length_of_stride hj
  have hpos : ∀ a, a < md.length → (arrmetaAt (setStrides axes unit md) a).stride ≠ 0 →
      0 ≤ (arrmetaAt (setStrides axes unit md) a).stride := fun a ha hne =>
    hunit.trans (hdense.unit_le hsize hunit ((hmem a).2 ha) hne)
  rw [zero_add, zero_add, abs_of_nonneg (hpos i hi' hi), abs_of_nonneg (hpos j hj' hj)]
  -- one of the two axes comes first, and it is not `j`
  have hboth := hsorted.and (hdense.increasing hsize hunit)
  have hne : i ≠ j := by
    rintro rfl
    exact absurd hlt (lt_irrefl _)
  rcases pairwise_either hboth ((hmem i).2 hi') ((hmem j).2 hj') hne with ⟨-, hgrow⟩ | ⟨hle, -⟩
  · exact hgrow hi hj
  · rw [hstrides i hi', hstrides j hj'] at hle
    exact absurd hlt hle.not_gt

section
variable {std : std_sort} {unset : ℤ} (h2 : 2 ≤ dims.length) (hlen : dims.length ≤ src.length)
include h2 hlen

/-- What the chain leaves, if it ends. -/
theorem reorderChain_result {fuel : ℕ} {md : List size_stride_t}
    (h : reorderChain std unset fuel (arrmeta_default_construct dtype dims) (sourceArrmeta src) = some md) :
    md.map (·.dim_size) = dims.map (·.val) ∧ DenseLayout (ElementType.get_data_size dtype) md ∧
      if NeverGrows (((sourceArrmeta src).take dims.length).map (·.stride)) then md = arrmeta_default_construct dtype dims
      else SameAxisOrder 0 (sourceArrmeta src) md := by
  have hsource : (sourceArrmeta src).length = src.length := List.length_map _
  rw [reorderChain_eq std unset fuel (by rwa [default_length]), default_length] at h
  split_ifs at h ⊢ with hgrow
  · obtain rfl := Option.some.inj h
    exact ⟨default_sizes dtype dims, default_denseLayout dims, rfl⟩
  · obtain ⟨stride, hstride, rfl⟩ := Option.map_eq_some_iff.1 h
    obtain rfl := firstStride_default h2 hstride
    have hstrides : (((sourceArrmeta src).take dims.length).map (·.stride)).length =
        (arrmeta_default_construct dtype dims).length := by
      rw [List.length_map, List.length_take, hsource, min_eq_left hlen, default_length]
    have hunit : (0 : ℤ) ≤ ElementType.get_data_size dtype := unit_nonneg
    obtain ⟨hsizes, hdense, horder⟩ := @setStrides_order std _ (sourceArrmeta src) _ _ hunit
      (default_size_nonneg dtype dims) hstrides (by
        intro i hi
        rw [default_length] at hi
        rw [arrmetaAt_stride, arrmetaAt, arrmetaAt, List.getD_eq_getElem?_getD, List.getD_eq_getElem?_getD,
          List.getElem?_take_of_lt hi])
    exact ⟨hsizes.trans (default_sizes dtype dims), hdense, horder⟩

omit h2 in
theorem reorderChain_ends : (∃ fuel md, reorderChain std unset fuel (arrmeta_default_construct dtype dims) (sourceArrmeta src) =
      some md) ↔ (¬ NeverGrows (((sourceArrmeta src).take dims.length).map (·.stride)) →
        ¬ ((arrmetaAt (arrmeta_default_construct dtype dims) (dims.length - 1)).stride = 0 ∧
          (arrmetaAt (arrmeta_default_construct dtype dims) (dims.length - 2)).stride = 0)) := by
  have hchain := fun fuel => @reorderChain_eq std unset fuel (arrmeta_default_construct dtype dims) src (by rwa [default_length])
  simp only [default_length] at hchain
  rw [← firstStride_ends]
  by_cases hgrow : NeverGrows (((sourceArrmeta src).take dims.length).map (·.stride))
  · refine ⟨fun _ h => absurd hgrow h, fun _ => ⟨0, arrmeta_default_construct dtype dims, ?_⟩⟩
    rw [hchain, if_pos hgrow]
  · constructor
    · rintro ⟨fuel, md, h⟩ -
      rw [hchain, if_neg hgrow] at h
      obtain ⟨stride, h, -⟩ := Option.map_eq_some_iff.1 h
      exact ⟨fuel, stride, h⟩
    · intro h
      obtain ⟨fuel, stride, h⟩ := h hgrow
      simp only [hchain, if_neg hgrow]
      exact ⟨fuel, _, by rw [h, Option.map_some]⟩

end

/-- The function ends and leaves the destination as it should be exactly on these. -/
theorem reorder_default_constructed_strides_iff (std : std_sort) (unset : ℤ) (dtype : T) (inner : ℕ)
    (dims : List dim_size_t) (src : List strided_dim) :
    (∃ fuel out, reorder_default_constructed_strides std unset fuel inner (arrmeta_default_construct dtype dims)
      (sourceArrmeta src) = some out ∧ Reordered dtype inner dims src out) ↔ Reorderable dtype inner dims src := by
  have hoffset : (arrmeta_default_construct dtype dims).length + inner - (sourceArrmeta src).length = offset inner dims src := by
    rw [default_length, sourceArrmeta, List.length_map, offset]
  have hmatched : (matchedArrmeta dtype inner dims src).length = (dims.drop (offset inner dims src)).length := default_length _ _
  have hlen : (dims.drop (offset inner dims src)).length ≤ src.length := by
    rw [List.length_drop, offset]
    omega
  have horder := @default_order_iff _ _ dtype (dims.drop (offset inner dims src)) (sourceArrmeta src)
  simp only [reorder_eq, hoffset, ← matchedArrmeta_eq]
  by_cases h2 : 2 ≤ (matchedArrmeta dtype inner dims src).length
  · simp only [if_pos h2]
    have h2' : 2 ≤ (dims.drop (offset inner dims src)).length := hmatched ▸ h2
    constructor
    · rintro ⟨fuel, out, h, hout⟩
      obtain ⟨md, hmd, rfl⟩ := Option.map_eq_some_iff.1 h
      obtain ⟨hsizes, hdense, hmode⟩ := reorderChain_result h2' hlen hmd
      refine ⟨fun hgrow => ?_, ?_⟩
      · rw [matchedStrides, hmatched] at hgrow
        rw [if_pos hgrow] at hmode
        subst hmode
        exact horder.1 ((reordered_iff hsizes hdense).1 hout)
      · rw [matchedStrides, hmatched]
        exact (reorderChain_ends hlen).1 ⟨fuel, md, hmd⟩
    · rintro ⟨hc, hends⟩
      rw [matchedStrides, hmatched] at hc hends
      obtain ⟨fuel, md, hmd⟩ := (@reorderChain_ends _ _ _ _ _ std unset hlen).2 hends
      obtain ⟨hsizes, hdense, hmode⟩ := reorderChain_result h2' hlen hmd
      refine ⟨fuel, _, Option.map_eq_some_iff.2 ⟨md, hmd, rfl⟩, (reordered_iff hsizes hdense).2 ?_⟩
      split_ifs at hmode with hgrow
      · rw [hmode]
        exact horder.2 (hc hgrow)
      · exact hmode
  · simp only [if_neg h2]
    have hreordered := @reordered_iff _ _ _ inner _ src _ (default_sizes dtype (dims.drop (offset inner dims src)))
      (default_denseLayout _)
    have hgrow : NeverGrows (matchedStrides dtype inner dims src) := by
      refine neverGrows_short ?_
      rw [matchedStrides, List.length_map, List.length_take]
      omega
    constructor
    · rintro ⟨fuel, out, h, hout⟩
      obtain rfl := Option.some.inj h
      exact ⟨fun _ => horder.1 (hreordered.1 hout), fun hn => absurd hgrow hn⟩
    · rintro ⟨hc, -⟩
      exact ⟨0, _, rfl, hreordered.2 (horder.2 (hc hgrow))⟩

end

/-- An array of F-order that ends in two dimensions of size one: `2 * 3 * 1 * 1 * int32` with strides 4, 8, 0 and 0. -/
theorem f_order_never_ends : ¬ ∃ std unset fuel out, reorder_default_constructed_strides std unset fuel 0
    (arrmeta_default_construct int32 [⟨2, by decide⟩, ⟨3, by decide⟩, ⟨1, by decide⟩, ⟨1, by decide⟩])
    [⟨2, 4⟩, ⟨3, 8⟩, ⟨1, 0⟩, ⟨1, 0⟩] = some out := by
  rintro ⟨std, unset, fuel, out, h⟩
  have hmd : arrmeta_default_construct int32 [⟨2, by decide⟩, ⟨3, by decide⟩, ⟨1, by decide⟩, ⟨1, by decide⟩] =
      [⟨2, 12⟩, ⟨3, 4⟩, ⟨1, 0⟩, ⟨1, 0⟩] := by decide
  have hstrides : representativeStrides unset 4 [⟨2, 4⟩, ⟨3, 8⟩, ⟨1, 0⟩, ⟨1, 0⟩] 0 true = ([4, 8, 0, 0], false, []) := rfl
  have hfirst : firstStride [⟨2, 12⟩, ⟨3, 4⟩, ⟨1, 0⟩, ⟨1, 0⟩] 4 0 fuel = none := lookFurther_stuck rfl fuel
  rw [hmd, reorder_default_constructed_strides, if_neg (by decide), reorderChain] at h
  simp [hstrides, hfirst] at h

end Dynd.FixedDim
