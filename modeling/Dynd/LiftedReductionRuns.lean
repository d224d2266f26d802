import Dynd.LiftedReduction
/-!
# What the kernels of a lifted reduction do

A chain of kernels belongs to the flags of the dimensions, the axes of the source
and the axes of the destination. Its followup calls accumulate the elements of the
source in row-major order. When every axis of the destination has elements, its
first call does at each of them what its group of source elements says, and
nothing else.
-/
namespace Dynd.LiftedReduction
open Lib FixedDim

/-! ## The chain of kernels and the axes -/

/-- The axis of the destination where a dimension is reduced. -/
def kept (keep_dims : Bool) : List size_stride_t := if keep_dims then [⟨1, 0⟩] else []

/-- The kernels of dimensions, for an operation with or without an identity. -/
inductive Lifted (with_ident keep_dims : Bool) : List Bool → List size_stride_t → List size_stride_t → reduction_ckernel → Prop
  | inner_reduction {kernreq m} (hident : m.dim_size = 0 → with_ident = true) :
      Lifted with_ident keep_dims [true] [m] (kept keep_dims) (.strided_inner_reduction kernreq m.dim_size m.stride with_ident)
  | inner_broadcast {kernreq m dst_stride} :
      Lifted with_ident keep_dims [false] [m] [⟨m.dim_size, dst_stride⟩]
        (.strided_inner_broadcast kernreq m.dim_size dst_stride m.stride with_ident)
  | initial_reduction {kernreq m flags src dst child} (hident : m.dim_size = 0 → with_ident = true)
      (hchild : Lifted with_ident keep_dims flags src dst child) :
      Lifted with_ident keep_dims (true :: flags) (m :: src) (kept keep_dims ++ dst)
        (.strided_initial_reduction kernreq m.dim_size m.stride child)
  | initial_broadcast {kernreq m dst_stride flags src dst child} (hchild : Lifted with_ident keep_dims flags src dst child) :
      Lifted with_ident keep_dims (false :: flags) (m :: src) (⟨m.dim_size, dst_stride⟩ :: dst)
        (.strided_initial_broadcast kernreq m.dim_size dst_stride m.stride child)

variable {with_ident keep_dims : Bool} {flags : List Bool} {src dst : List size_stride_t} {kernel : reduction_ckernel}

theorem Lifted.ne_nil (h : Lifted with_ident keep_dims flags src dst kernel) : flags ≠ [] ∧ src ≠ [] := by
  cases h <;> exact ⟨List.cons_ne_nil _ _, List.cons_ne_nil _ _⟩

theorem getLast?_cons {α : Type} (a : α) {l : List α} (hl : l ≠ []) : (a :: l).getLast? = l.getLast? := by
  obtain ⟨b, l, rfl⟩ := List.exists_cons_of_ne_nil hl
  exact List.getLast?_cons_cons

/-! ## The cells of the axes -/

@[simp] theorem cells_nil (keep_dims : Bool) : cells keep_dims [] [] = [([], 0)] := rfl

theorem cells_reduced (keep_dims : Bool) (flags : List Bool) (m : size_stride_t) (src : List size_stride_t) :
    cells keep_dims (true :: flags) (m :: src) = (List.range m.dim_size.toNat).flatMap fun (i : ℕ) =>
      (cells keep_dims flags src).map fun c => (if keep_dims then 0 :: c.1 else c.1, i * m.stride + c.2) := by
  simp only [cells, List.map_cons, multiIndices_cons, List.map_flatMap, List.map_map]
  rfl

theorem cells_broadcast (keep_dims : Bool) (flags : List Bool) (m : size_stride_t) (src : List size_stride_t) :
    cells keep_dims (false :: flags) (m :: src) = (List.range m.dim_size.toNat).flatMap fun (i : ℕ) =>
      (cells keep_dims flags src).map fun c => (i :: c.1, i * m.stride + c.2) := by
  simp only [cells, List.map_cons, multiIndices_cons, List.map_flatMap, List.map_map]
  rfl

theorem mem_kept_append {keep_dims : Bool} {dst : List size_stride_t} {j : List ℕ} :
    j ∈ multiIndices ((kept keep_dims ++ dst).map (·.dim_size)) ↔
      ∃ rest ∈ multiIndices (dst.map (·.dim_size)), j = if keep_dims then 0 :: rest else rest := by
  cases keep_dims with
  | false => simp [kept]
  | true =>
    simp only [kept, if_true, List.singleton_append, List.map_cons, mem_multiIndices_cons]
    constructor
    · rintro ⟨i, rest, rfl, hi, hrest⟩
      obtain rfl : i = 0 := by omega
      exact ⟨rest, hrest, rfl⟩
    · rintro ⟨rest, hrest, rfl⟩
      exact ⟨0, rest, rfl, by norm_num, hrest⟩

theorem strideOffset_kept (keep_dims : Bool) (dst : List size_stride_t) (rest : List ℕ) :
    strideOffset (kept keep_dims ++ dst) (if keep_dims then 0 :: rest else rest) = strideOffset dst rest := by
  cases keep_dims with
  | false => rfl
  | true => simp [kept, strideOffset]

theorem cells_eq_nil (h : ∃ e ∈ src, e.dim_size = 0) : cells keep_dims flags src = [] := by
  obtain ⟨e, he, h0⟩ := h
  rw [cells, multiIndices_eq_nil (List.mem_map_of_mem he) h0.le, List.map_nil]

/-- Each cell goes to an element of the destination. -/
theorem Lifted.cells_inside (h : Lifted with_ident keep_dims flags src dst kernel) :
    ∀ c ∈ cells keep_dims flags src, c.1 ∈ multiIndices (dst.map (·.dim_size)) := by
  induction h with
  | inner_reduction =>
    intro c hc
    simp only [cells_reduced, List.mem_flatMap, List.mem_map, cells_nil, List.mem_singleton] at hc
    obtain ⟨i, -, c', rfl, rfl⟩ := hc
    rw [← List.append_nil (kept _), mem_kept_append]
    exact ⟨[], List.mem_singleton.2 rfl, rfl⟩
  | inner_broadcast =>
    intro c hc
    simp only [cells_broadcast, List.mem_flatMap, List.mem_map, cells_nil, List.mem_singleton] at hc
    obtain ⟨i, hi, c', rfl, rfl⟩ := hc
    have := List.mem_range.1 hi
    exact mem_multiIndices_cons.2 ⟨i, [], rfl, by simpa using (by omega), List.mem_singleton.2 rfl⟩
  | initial_reduction _ _ ih =>
    intro c hc
    simp only [cells_reduced, List.mem_flatMap, List.mem_map] at hc
    obtain ⟨i, -, c', hc', rfl⟩ := hc
    exact mem_kept_append.2 ⟨c'.1, ih c' hc', rfl⟩
  | initial_broadcast _ ih =>
    intro c hc
    simp only [cells_broadcast, List.mem_flatMap, List.mem_map] at hc
    obtain ⟨i, hi, c', hc', rfl⟩ := hc
    have := List.mem_range.1 hi
    exact mem_multiIndices_cons.2 ⟨i, c'.1, rfl, by simpa using (by omega), ih c' hc'⟩

/-- When no axis of the source is empty, each element of the destination has a cell. -/
theorem Lifted.cells_cover (h : Lifted with_ident keep_dims flags src dst kernel) (hpos : ∀ m ∈ src, 0 < m.dim_size) :
    ∀ j ∈ multiIndices (dst.map (·.dim_size)), ∃ c ∈ cells keep_dims flags src, c.1 = j := by
  induction h with
  | @inner_reduction kernreq m _ =>
    intro j hj
    have hm := hpos m List.mem_cons_self
    rw [← List.append_nil (kept _), mem_kept_append] at hj
    obtain ⟨rest, hrest, rfl⟩ := hj
    obtain rfl := List.mem_singleton.1 hrest
    simp only [cells_reduced, List.mem_flatMap, List.mem_map, cells_nil, List.mem_singleton]
    exact ⟨_, ⟨0, List.mem_range.2 (by omega), _, rfl, rfl⟩, rfl⟩
  | @inner_broadcast kernreq m stride =>
    intro j hj
    obtain ⟨i, rest, rfl, hi, hrest⟩ := mem_multiIndices_cons.1 hj
    obtain rfl := List.mem_singleton.1 hrest
    simp only [cells_broadcast, List.mem_flatMap, List.mem_map, cells_nil, List.mem_singleton]
    exact ⟨_, ⟨i, List.mem_range.2 (by simp only at hi; omega), _, rfl, rfl⟩, rfl⟩
  | @initial_reduction kernreq m _ _ _ _ _ _ ih =>
    intro j hj
    have hm := hpos m List.mem_cons_self
    obtain ⟨rest, hrest, rfl⟩ := mem_kept_append.1 hj
    obtain ⟨c, hc, rfl⟩ := ih (fun m hm => hpos m (List.mem_cons_of_mem _ hm)) rest hrest
    simp only [cells_reduced, List.mem_flatMap, List.mem_map]
    exact ⟨_, ⟨0, List.mem_range.2 (by omega), c, hc, rfl⟩, rfl⟩
  | @initial_broadcast kernreq m stride _ _ _ _ _ ih =>
    intro j hj
    obtain ⟨i, rest, rfl, hi, hrest⟩ := mem_multiIndices_cons.1 hj
    obtain ⟨c, hc, rfl⟩ := ih (fun m hm => hpos m (List.mem_cons_of_mem _ hm)) rest hrest
    simp only [cells_broadcast, List.mem_flatMap, List.mem_map]
    exact ⟨_, ⟨i, List.mem_range.2 (by simp only at hi; omega), c, hc, rfl⟩, rfl⟩

/-! ## The followup calls -/

/-- Cells accumulated one after the other. -/
def followed (dst : List size_stride_t) (cells : List (List ℕ × ℤ)) (d s : ℤ) : List Access :=
  cells.map fun c => .reduce (d + strideOffset dst c.1) (s + c.2)

theorem followed_reduced (m : size_stride_t) (d s : ℤ) :
    followed (kept keep_dims ++ dst) (cells keep_dims (true :: flags) (m :: src)) d s =
      (List.range m.dim_size.toNat).flatMap fun (i : ℕ) => followed dst (cells keep_dims flags src) d (s + i * m.stride) := by
  simp only [followed, cells_reduced, List.map_flatMap, List.map_map, Function.comp_def, strideOffset_kept, add_assoc]

theorem followed_broadcast (m : size_stride_t) (n t d s : ℤ) :
    followed (⟨n, t⟩ :: dst) (cells keep_dims (false :: flags) (m :: src)) d s =
      (List.range m.dim_size.toNat).flatMap fun (i : ℕ) =>
        followed dst (cells keep_dims flags src) (d + i * t) (s + i * m.stride) := by
  simp only [followed, cells_broadcast, List.map_flatMap, List.map_map, Function.comp_def, strideOffset, List.headI_cons,
    List.tail_cons, add_assoc]

/-- Each followup call accumulates all the cells. -/
theorem Lifted.strided_followup_eq (h : Lifted with_ident keep_dims flags src dst kernel) (d t s ss : ℤ) (n : ℕ) :
    kernel.strided_followup d t s ss n =
      (List.range n).flatMap fun (i : ℕ) => followed dst (cells keep_dims flags src) (d + i * t) (s + i * ss) := by
  induction h generalizing d t s ss n with
  | inner_reduction =>
    rw [reduction_ckernel.strided_followup, strided_inner_reduction.strided_followup]
    congr 1
    funext i
    rw [← List.append_nil (kept _), followed_reduced]
    simp [reduce_strided, followed, strideOffset, ← List.map_eq_flatMap]
  | inner_broadcast =>
    rw [reduction_ckernel.strided_followup, strided_inner_broadcast.strided_followup]
    congr 1
    funext i
    rw [followed_broadcast]
    simp [reduce_strided, followed, strideOffset, ← List.map_eq_flatMap]
  | initial_reduction _ _ ih =>
    rw [reduction_ckernel.strided_followup]
    congr 1
    funext i
    rw [ih, followed_reduced]
    simp only [mul_zero, add_zero]
  | initial_broadcast _ ih =>
    rw [reduction_ckernel.strided_followup]
    congr 1
    funext i
    rw [ih, followed_broadcast]

/-! ## Groups -/

theorem group_reduced (m : size_stride_t) (s : ℤ) (j : List ℕ) :
    group (cells keep_dims (true :: flags) (m :: src)) s (if keep_dims then 0 :: j else j) =
      (List.range m.dim_size.toNat).flatMap fun (i : ℕ) => group (cells keep_dims flags src) (s + i * m.stride) j := by
  simp only [group, cells_reduced, List.filter_flatMap, List.map_flatMap, List.filter_map, List.map_map]
  congr 1
  funext i
  cases keep_dims <;> simp [Function.comp_def, add_assoc]

theorem group_broadcast {m : size_stride_t} {i : ℕ} (hi : i < m.dim_size.toNat) (s : ℤ) (j : List ℕ) :
    group (cells keep_dims (false :: flags) (m :: src)) s (i :: j) = group (cells keep_dims flags src) (s + i * m.stride) j := by
  have hother : ∀ k < m.dim_size.toNat, k ≠ i → ∀ x ∈ (cells keep_dims flags src).map fun c => (k :: c.1, k * m.stride + c.2),
      x.1 ≠ i :: j := by
    intro k _ hne x hx
    obtain ⟨c, -, rfl⟩ := List.mem_map.1 hx
    exact fun h => hne (List.cons.inj h).1
  rw [group, cells_broadcast, filter_flatMap_range Prod.fst hi _ hother, List.filter_map, List.map_map]
  simp [group, Function.comp_def, add_assoc]

/-- The elements of the destination have addresses of their own. -/
def Distinct (dst : List size_stride_t) : Prop := ∀ i ∈ multiIndices (dst.map (·.dim_size)),
  ∀ j ∈ multiIndices (dst.map (·.dim_size)), strideOffset dst i = strideOffset dst j → i = j

/-- What the followup calls do to one element of the destination is to accumulate its group. -/
theorem followed_at {cells : List (List ℕ × ℤ)} (hinside : ∀ c ∈ cells, c.1 ∈ multiIndices (dst.map (·.dim_size)))
    (hdistinct : Distinct dst) (d s : ℤ) {j : List ℕ} (hj : j ∈ multiIndices (dst.map (·.dim_size))) :
    (followed dst cells d s).filter (fun x => x.dst = d + strideOffset dst j) =
      (group cells s j).map (.reduce (d + strideOffset dst j)) := by
  have hat : ∀ c ∈ cells, (Access.reduce (d + strideOffset dst c.1) (s + c.2)).dst = d + strideOffset dst j ↔ c.1 = j := by
    intro c hc
    rw [Access.dst, add_right_inj]
    exact ⟨hdistinct _ (hinside c hc) j hj, fun h => by rw [h]⟩
  rw [followed, List.filter_map, group, List.map_map]
  have hfilter : cells.filter ((fun x : Access => decide (x.dst = d + strideOffset dst j)) ∘
      fun c => .reduce (d + strideOffset dst c.1) (s + c.2)) = cells.filter (·.1 = j) := by
    refine List.filter_congr fun c hc => ?_
    exact decide_eq_decide.2 (hat c hc)
  rw [hfilter]
  refine List.map_congr_left fun c hc => ?_
  rw [(of_decide_eq_true (List.mem_filter.1 hc).2 : c.1 = j)]
  rfl

/-! ## The axes at which a first call works -/

/-- Every axis of the destination has elements, and if the source has none its last axis is empty. -/
structure Regular (src dst : List size_stride_t) : Prop where
  dst_pos : ∀ m ∈ dst, 0 < m.dim_size
  distinct : Distinct dst
  src_nonneg : ∀ m ∈ src, 0 ≤ m.dim_size
  empty_last : ∀ m ∈ src, m.dim_size = 0 → ∃ e ∈ src.getLast?, e.dim_size = 0

theorem exists_index {dst : List size_stride_t} (hpos : ∀ m ∈ dst, 0 < m.dim_size) :
    ∃ j, j ∈ multiIndices (dst.map (·.dim_size)) := by
  induction dst with
  | nil => exact ⟨[], List.mem_singleton.2 rfl⟩
  | cons m dst ih =>
    obtain ⟨j, hj⟩ := ih fun m hm => hpos m (List.mem_cons_of_mem _ hm)
    exact ⟨0 :: j, mem_multiIndices_cons.2 ⟨0, j, rfl, hpos m List.mem_cons_self, hj⟩⟩

theorem Regular.of_cons {m : size_stride_t} (hdst : ∀ m ∈ dst, 0 < m.dim_size) (hdistinct : Distinct dst) (hsrc : src ≠ [])
    {dst' : List size_stride_t} (h : Regular (m :: src) dst') : Regular src dst := by
  refine ⟨hdst, hdistinct, fun m hm => h.src_nonneg m (List.mem_cons_of_mem _ hm), ?_⟩
  intro m' hm' h0
  rw [← getLast?_cons m hsrc]
  exact h.empty_last m' (List.mem_cons_of_mem _ hm') h0

theorem Regular.of_reduced {m : size_stride_t} (hsrc : src ≠ []) (h : Regular (m :: src) (kept keep_dims ++ dst)) :
    Regular src dst := by
  refine h.of_cons (fun m hm => h.dst_pos m (List.mem_append_right _ hm)) ?_ hsrc
  intro i hi j hj hij
  have heq := h.distinct _ (mem_kept_append.2 ⟨i, hi, rfl⟩) _ (mem_kept_append.2 ⟨j, hj, rfl⟩)
  rw [strideOffset_kept, strideOffset_kept] at heq
  have := heq hij
  split_ifs at this
  · exact (List.cons.inj this).2
  · exact this

theorem Regular.of_broadcast {m : size_stride_t} {n t : ℤ} (hsrc : src ≠ []) (h : Regular (m :: src) (⟨n, t⟩ :: dst)) :
    Regular src dst := by
  have hn : 0 < n := h.dst_pos _ List.mem_cons_self
  refine h.of_cons (fun m hm => h.dst_pos m (List.mem_cons_of_mem _ hm)) ?_ hsrc
  intro i hi j hj hij
  have hmem : ∀ k ∈ multiIndices (dst.map (·.dim_size)), 0 :: k ∈ multiIndices ((⟨n, t⟩ :: dst : List size_stride_t).map (·.dim_size)) :=
    fun k hk => mem_multiIndices_cons.2 ⟨0, k, rfl, hn, hk⟩
  have heq := h.distinct _ (hmem i hi) _ (hmem j hj)
  simp only [strideOffset, List.headI_cons, List.tail_cons, add_right_inj] at heq
  exact (List.cons.inj (heq hij)).2

/-- A stride of zero is left to axes of size one. -/
theorem Regular.stride_ne {n t : ℤ} (h : Regular src (⟨n, t⟩ :: dst)) : t ≠ 0 ∨ n.toNat = 1 := by
  by_contra! hne
  have hn : 0 < n := h.dst_pos _ List.mem_cons_self
  obtain ⟨j, hj⟩ := exists_index fun m hm => h.dst_pos m (List.mem_cons_of_mem _ hm)
  have hmem : ∀ k : ℕ, (k : ℤ) < n → k :: j ∈ multiIndices ((⟨n, t⟩ :: dst : List size_stride_t).map (·.dim_size)) :=
    fun k hk => mem_multiIndices_cons.2 ⟨k, j, rfl, hk, hj⟩
  have heq := h.distinct _ (hmem 0 (by omega)) _ (hmem 1 (by omega))
  simp only [strideOffset, List.headI_cons, List.tail_cons, hne.1, mul_zero] at heq
  exact absurd (List.cons.inj (heq trivial)).1 Nat.zero_ne_one

/-- Without an identity the source of a kernel has elements. -/
theorem Lifted.src_pos (h : Lifted with_ident keep_dims flags src dst kernel) (hw : with_ident = false)
    (hdst : ∀ m ∈ dst, 0 < m.dim_size) (hsrc : ∀ m ∈ src, 0 ≤ m.dim_size) : ∀ m ∈ src, 0 < m.dim_size := by
  have hreduced : ∀ m : size_stride_t, (m.dim_size = 0 → with_ident = true) → 0 ≤ m.dim_size → 0 < m.dim_size := by
    intro m hident h0
    have hne : m.dim_size ≠ 0 := fun h => Bool.false_ne_true (hw.symm.trans (hident h))
    omega
  induction h with
  | inner_reduction hident =>
    intro m hm
    obtain rfl := List.mem_singleton.1 hm
    exact hreduced m hident (hsrc m hm)
  | @inner_broadcast kernreq m t =>
    intro m' hm
    obtain rfl := List.mem_singleton.1 hm
    have hm : 0 < (size_stride_t.mk m'.dim_size t).dim_size := hdst _ List.mem_cons_self
    exact hm
  | initial_reduction hident _ ih =>
    refine List.forall_mem_cons.2 ⟨hreduced _ hident (hsrc _ List.mem_cons_self), ?_⟩
    exact ih (fun m hm => hdst m (List.mem_append_right _ hm)) fun m hm => hsrc m (List.mem_cons_of_mem _ hm)
  | @initial_broadcast kernreq m t _ _ _ _ _ ih =>
    have hm : 0 < (size_stride_t.mk m.dim_size t).dim_size := hdst _ List.mem_cons_self
    refine List.forall_mem_cons.2 ⟨hm, ?_⟩
    exact ih (fun m hm => hdst m (List.mem_cons_of_mem _ hm)) fun m hm => hsrc m (List.mem_cons_of_mem _ hm)

/-- A group is started from the identity or from its first element. -/
theorem Lifted.group_startable (h : Lifted with_ident keep_dims flags src dst kernel) (hr : Regular src dst) (s : ℤ) {j : List ℕ}
    (hj : j ∈ multiIndices (dst.map (·.dim_size))) : with_ident = true ∨ group (cells keep_dims flags src) s j ≠ [] := by
  rcases Bool.eq_false_or_eq_true with_ident with hw | hw
  · exact Or.inl hw
  · obtain ⟨c, hc, hcj⟩ := h.cells_cover (h.src_pos hw hr.dst_pos hr.src_nonneg) j hj
    refine Or.inr (List.ne_nil_of_mem (List.mem_map.2 ⟨c, List.mem_filter.2 ⟨hc, ?_⟩, rfl⟩))
    exact decide_eq_true hcj

/-! ## The first calls -/

namespace reduction_ckernel

/-- A strided call is one call an element, where no two elements of its destination are one. -/
theorem strided_first_eq (kernel : reduction_ckernel) (d s ss : ℤ) {t : ℤ} {n : ℕ} (ht : t ≠ 0 ∨ n = 1) :
    kernel.strided_first d t s ss n = (List.range n).flatMap fun (i : ℕ) => kernel.single_first (d + i * t) (s + i * ss) := by
  by_cases h0 : t = 0
  · obtain rfl : n = 1 := ht.resolve_left (not_not_intro h0)
    subst h0
    cases kernel with
    | strided_initial_reduction _ size _ child => simp [strided_first, single_first]
    | strided_initial_broadcast _ size _ _ child => simp [strided_first, single_first]
    | strided_inner_reduction _ size _ with_ident =>
      cases with_ident <;> simp [strided_first, single_first, strided_inner_reduction.strided_first,
        strided_inner_reduction.strided_first_with_ident, strided_inner_reduction.single_first_with_ident]
    | strided_inner_broadcast _ size _ _ with_ident =>
      cases with_ident <;> simp [strided_first, single_first, strided_inner_broadcast.strided_first,
        strided_inner_broadcast.strided_first_with_ident, strided_inner_broadcast.single_first_with_ident]
  · cases kernel with
    | strided_initial_reduction _ size _ child => simp only [strided_first, single_first, if_neg h0]
    | strided_initial_broadcast _ size _ _ child => simp only [strided_first, single_first, if_neg h0]
    | strided_inner_reduction _ size _ with_ident =>
      cases with_ident <;> simp [strided_first, single_first, strided_inner_reduction.strided_first,
        strided_inner_reduction.strided_first_with_ident, h0]
    | strided_inner_broadcast _ size _ _ with_ident =>
      cases with_ident <;> simp [strided_first, single_first, strided_inner_broadcast.strided_first,
        strided_inner_broadcast.strided_first_with_ident, h0]

end reduction_ckernel

/-- A dimension that is reduced: the child's first call, and its followup calls for the other elements. -/
theorem Lifted.initial_reduction_eq (h : Lifted with_ident keep_dims flags src dst kernel) (n st d s : ℤ) (kernreq : kernel_request) :
    (reduction_ckernel.strided_initial_reduction kernreq n st kernel).single_first d s = kernel.single_first d s ++
      (List.range (n - 1).toNat).flatMap fun (i : ℕ) => followed dst (cells keep_dims flags src) d (s + (i + 1) * st) := by
  rw [reduction_ckernel.single_first]
  split_ifs with hn
  · rw [h.strided_followup_eq]
    congr 2
    funext i
    rw [mul_zero, add_zero, add_assoc, add_mul, one_mul, add_comm st]
  · rw [show (n - 1).toNat = 0 by omega]
    rfl

theorem reduce_strided_dst {d s ss : ℤ} {n : ℕ} {x : Access} (hx : x ∈ reduce_strided d 0 s ss n) : x.dst = d := by
  obtain ⟨i, -, rfl⟩ := List.mem_map.1 hx
  rw [Access.dst, mul_zero, add_zero]

/-- One call writes to elements of the destination only. -/
theorem Lifted.writes_inside (h : Lifted with_ident keep_dims flags src dst kernel) (hr : Regular src dst) (d s : ℤ) :
    ∀ x ∈ kernel.single_first d s, ∃ j ∈ multiIndices (dst.map (·.dim_size)), x.dst = d + strideOffset dst j := by
  induction h generalizing d s with
  | @inner_reduction kernreq m _ =>
    intro x hx
    have hd : x.dst = d := by
      cases with_ident with
      | false =>
        rw [reduction_ckernel.single_first, if_neg Bool.false_ne_true, strided_inner_reduction.single_first, List.mem_cons] at hx
        rcases hx with rfl | hx
        · rfl
        · split_ifs at hx
          · exact reduce_strided_dst hx
          · cases hx
      | true =>
        rw [reduction_ckernel.single_first, if_pos rfl, strided_inner_reduction.single_first_with_ident, List.mem_cons] at hx
        rcases hx with rfl | hx
        · rfl
        · exact reduce_strided_dst hx
    have hmem := @mem_kept_append keep_dims [] (if keep_dims then [0] else [])
    rw [List.append_nil] at hmem
    refine ⟨_, hmem.2 ⟨[], List.mem_singleton.2 rfl, rfl⟩, ?_⟩
    have hoff := strideOffset_kept keep_dims [] []
    rw [List.append_nil] at hoff
    rw [hd, hoff, strideOffset, add_zero]
  | @inner_broadcast kernreq m t =>
    intro x hx
    have hd : ∃ i : ℕ, i < m.dim_size.toNat ∧ x.dst = d + i * t := by
      cases with_ident with
      | false =>
        simp [reduction_ckernel.single_first, strided_inner_broadcast.single_first, dst_init_strided] at hx
        obtain ⟨i, hi, rfl⟩ := hx
        exact ⟨i, by omega, rfl⟩
      | true =>
        simp [reduction_ckernel.single_first, strided_inner_broadcast.single_first_with_ident, ident_strided, reduce_strided] at hx
        rcases hx with ⟨i, hi, rfl⟩ | ⟨i, hi, rfl⟩ <;> exact ⟨i, by omega, rfl⟩
    obtain ⟨i, hi, hd⟩ := hd
    refine ⟨[i], mem_multiIndices_cons.2 ⟨i, [], rfl, by simp only; omega, List.mem_singleton.2 rfl⟩, ?_⟩
    rw [hd]
    simp [strideOffset]
  | @initial_reduction _ m _ _ dst _ _ hchild ih =>
    intro x hx
    rw [hchild.initial_reduction_eq, List.mem_append] at hx
    have hchild_writes : ∃ j ∈ multiIndices (dst.map (·.dim_size)), x.dst = d + strideOffset dst j := by
      rcases hx with hx | hx
      · exact ih (hr.of_reduced hchild.ne_nil.2) d s x hx
      · obtain ⟨i, -, hx⟩ := List.mem_flatMap.1 hx
        obtain ⟨c, hc, rfl⟩ := List.mem_map.1 hx
        exact ⟨c.1, hchild.cells_inside c hc, rfl⟩
    obtain ⟨j, hj, hd⟩ := hchild_writes
    exact ⟨_, mem_kept_append.2 ⟨j, hj, rfl⟩, by rw [strideOffset_kept, hd]⟩
  | @initial_broadcast kernreq m t _ _ _ child hchild ih =>
    intro x hx
    rw [reduction_ckernel.single_first, child.strided_first_eq d s m.stride hr.stride_ne] at hx
    obtain ⟨i, hi, hx⟩ := List.mem_flatMap.1 hx
    have hi := List.mem_range.1 hi
    obtain ⟨j, hj, hd⟩ := ih (hr.of_broadcast hchild.ne_nil.2) _ _ x hx
    refine ⟨i :: j, mem_multiIndices_cons.2 ⟨i, j, rfl, by simp only; omega, hj⟩, ?_⟩
    rw [hd, strideOffset, List.headI_cons, List.tail_cons, add_assoc]

/-- One element of the destination initialised and the others of its group accumulated. -/
def started (with_ident : Bool) (address : ℤ) (xs : List ℤ) : List Access :=
  match with_ident, xs with
  | true, xs => .ident address :: xs.map (.reduce address)
  | false, x :: xs => .dst_init address x :: xs.map (.reduce address)
  | false, [] => []

theorem started_append {address : ℤ} {xs : List ℤ} (hxs : with_ident = true ∨ xs ≠ []) (ys : List ℤ) :
    started with_ident address xs ++ ys.map (.reduce address) = started with_ident address (xs ++ ys) := by
  cases with_ident with
  | true => simp [started]
  | false =>
    obtain ⟨x, xs, rfl⟩ := List.exists_cons_of_ne_nil (hxs.resolve_left Bool.false_ne_true)
    simp [started]

theorem group_singleton (m : size_stride_t) (s : ℤ) :
    group (cells keep_dims [true] [m]) s (if keep_dims then [0] else []) =
      (List.range m.dim_size.toNat).map fun (i : ℕ) => s + i * m.stride := by
  rw [group_reduced]
  simp [group, ← List.map_eq_flatMap]

theorem filter_reduce_strided (d s ss : ℤ) (n : ℕ) :
    (reduce_strided d 0 s ss n).filter (fun x => x.dst = d) = ((List.range n).map fun (i : ℕ) => s + i * ss).map (.reduce d) := by
  rw [List.filter_eq_self.2 fun x hx => decide_eq_true (reduce_strided_dst hx), reduce_strided, List.map_map]
  simp [Function.comp_def]

/-- The inner dimension, reduced: its one destination is started from its elements. -/
theorem inner_reduction_at {m : size_stride_t} (hm : m.dim_size = 0 → with_ident = true) (h0 : 0 ≤ m.dim_size) (d s : ℤ)
    (kernreq : kernel_request) :
    ((reduction_ckernel.strided_inner_reduction kernreq m.dim_size m.stride with_ident).single_first d s).filter (fun x => x.dst = d) =
      started with_ident d ((List.range m.dim_size.toNat).map fun (i : ℕ) => s + i * m.stride) := by
  cases with_ident with
  | true =>
    rw [reduction_ckernel.single_first, if_pos rfl, strided_inner_reduction.single_first_with_ident,
      List.filter_cons_of_pos (by simp [Access.dst]), filter_reduce_strided, started]
  | false =>
    rw [reduction_ckernel.single_first, if_neg Bool.false_ne_true, strided_inner_reduction.single_first,
      List.filter_cons_of_pos (by simp [Access.dst])]
    obtain ⟨n, hn⟩ : ∃ n : ℕ, m.dim_size = n + 1 := ⟨(m.dim_size - 1).toNat, by simp only [Bool.false_eq_true, imp_false] at hm; omega⟩
    have hrest : (if 1 < m.dim_size then reduce_strided d 0 (s + m.stride) m.stride (m.dim_size - 1).toNat else []) =
        reduce_strided d 0 (s + m.stride) m.stride n := by
      split_ifs with h1
      · rw [show (m.dim_size - 1).toNat = n by omega]
      · rw [show n = 0 by omega]
        rfl
    rw [hrest, filter_reduce_strided, show m.dim_size.toNat = n + 1 by omega, List.range_succ_eq_map]
    simp [started, Function.comp_def, add_mul, add_assoc, add_comm]

/-- The inner dimension, broadcast: each destination is started from the one element of its index. -/
theorem inner_broadcast_at {m : size_stride_t} {t : ℤ} {i : ℕ} (hi : i < m.dim_size.toNat) (ht : t ≠ 0 ∨ m.dim_size.toNat = 1)
    (d s : ℤ) (kernreq : kernel_request) :
    ((reduction_ckernel.strided_inner_broadcast kernreq m.dim_size t m.stride with_ident).single_first d s).filter
      (fun x => x.dst = d + i * t) = started with_ident (d + i * t) [s + i * m.stride] := by
  have hother : ∀ (f : ℕ → Access), (∀ k, (f k).dst = d + k * t) →
      ((List.range m.dim_size.toNat).map f).filter (fun x => x.dst = d + i * t) = [f i] := by
    intro f hf
    have hround := filter_flatMap_range Access.dst (l := d + i * t) hi (fun k => [f k]) ?_
    · rw [List.map_eq_flatMap, hround, List.filter_cons_of_pos (by simp [hf]), List.filter_nil]
    · intro k hk hne x hx
      rw [List.mem_singleton.1 hx, hf]
      intro heq
      have hmul : ((k : ℤ) - i) * t = 0 := by linarith
      rcases mul_eq_zero.1 hmul with h | h <;> omega
  cases with_ident with
  | true =>
    rw [reduction_ckernel.single_first, if_pos rfl, strided_inner_broadcast.single_first_with_ident, List.filter_append,
      ident_strided, reduce_strided, hother _ fun _ => rfl, hother _ fun _ => rfl]
    rfl
  | false =>
    rw [reduction_ckernel.single_first, if_neg Bool.false_ne_true, strided_inner_broadcast.single_first, dst_init_strided,
      hother _ fun _ => rfl]
    rfl

/-- What a call does to one element of the destination is to start its group. -/
theorem Lifted.single_first_at (h : Lifted with_ident keep_dims flags src dst kernel) (hr : Regular src dst) (d s : ℤ) :
    ∀ j ∈ multiIndices (dst.map (·.dim_size)), (kernel.single_first d s).filter (fun x => x.dst = d + strideOffset dst j) =
      started with_ident (d + strideOffset dst j) (group (cells keep_dims flags src) s j) := by
  induction h generalizing d s with
  | @inner_reduction kernreq m hm =>
    intro j hj
    rw [← List.append_nil (kept _)] at hj ⊢
    obtain ⟨rest, hrest, rfl⟩ := mem_kept_append.1 hj
    obtain rfl := List.mem_singleton.1 hrest
    rw [strideOffset_kept, strideOffset, add_zero, group_singleton]
    exact inner_reduction_at hm (hr.src_nonneg m List.mem_cons_self) d s kernreq
  | @inner_broadcast kernreq m t =>
    intro j hj
    obtain ⟨i, rest, rfl, hi, hrest⟩ := mem_multiIndices_cons.1 hj
    obtain rfl := List.mem_singleton.1 hrest
    have hlt : i < m.dim_size.toNat := by
      simp only at hi
      omega
    have hgroup : group (cells keep_dims [false] [m]) s [i] = [s + i * m.stride] := by
      rw [group_broadcast hlt]
      simp [group]
    rw [hgroup, strideOffset, List.headI_cons, List.tail_cons, strideOffset, add_zero]
    exact inner_broadcast_at hlt hr.stride_ne d s kernreq
  | @initial_reduction kernreq m flags src dst child hm hchild ih =>
    intro j hj
    obtain ⟨rest, hrest, rfl⟩ := mem_kept_append.1 hj
    have hsub := hr.of_reduced hchild.ne_nil.2
    rw [strideOffset_kept, hchild.initial_reduction_eq, List.filter_append, ih hsub d s rest hrest, group_reduced,
      List.filter_flatMap]
    simp only [followed_at hchild.cells_inside hsub.distinct d _ hrest]
    rw [← List.map_flatMap, started_append (hchild.group_startable hsub s hrest)]
    congr 1
    rcases Nat.eq_zero_or_pos m.dim_size.toNat with h0 | hpos
    · -- the axis is empty, and so is the last one: the child has no cells to start from
      have hm0 := hr.src_nonneg m List.mem_cons_self
      obtain ⟨e, he, he0⟩ := hr.empty_last m List.mem_cons_self (by omega)
      rw [getLast?_cons m hchild.ne_nil.2] at he
      have hnil : cells keep_dims flags src = [] := cells_eq_nil ⟨e, List.mem_of_mem_getLast? he, he0⟩
      rw [hnil, h0, show (m.dim_size - 1).toNat = 0 by omega]
      rfl
    · obtain ⟨n, hn⟩ := Nat.exists_eq_add_one.2 hpos
      rw [hn, List.range_succ_eq_map, List.flatMap_cons, List.flatMap_map, show (m.dim_size - 1).toNat = n by omega]
      simp
  | @initial_broadcast kernreq m t flags src dst child hchild ih =>
    intro j hj
    obtain ⟨i, rest, rfl, hi, hrest⟩ := mem_multiIndices_cons.1 hj
    have hlt : i < m.dim_size.toNat := by
      simp only at hi
      omega
    have hsub := hr.of_broadcast hchild.ne_nil.2
    rw [reduction_ckernel.single_first, child.strided_first_eq d s m.stride hr.stride_ne, strideOffset, List.headI_cons,
      List.tail_cons, ← add_assoc, group_broadcast hlt]
    have hother : ∀ k < m.dim_size.toNat, k ≠ i → ∀ x ∈ child.single_first (d + k * t) (s + k * m.stride),
        x.dst ≠ d + i * t + strideOffset dst rest := by
      intro k hk hne x hx heq
      obtain ⟨rest', hrest', hd⟩ := hchild.writes_inside hsub _ _ x hx
      have hmem : k :: rest' ∈ multiIndices ((⟨m.dim_size, t⟩ :: dst : List size_stride_t).map (·.dim_size)) :=
        mem_multiIndices_cons.2 ⟨k, rest', rfl, by simp only; omega, hrest'⟩
      have hoff : strideOffset (⟨m.dim_size, t⟩ :: dst) (k :: rest') = strideOffset (⟨m.dim_size, t⟩ :: dst) (i :: rest) := by
        simp only [strideOffset, List.headI_cons, List.tail_cons]
        linarith
      exact hne (List.cons.inj (hr.distinct _ hmem _ hj hoff)).1
    rw [filter_flatMap_range Access.dst hlt _ hother]
    exact ih hsub _ _ rest hrest

end Dynd.LiftedReduction
