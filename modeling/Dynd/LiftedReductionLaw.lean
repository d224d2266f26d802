import Dynd.ArrayViews
import Dynd.LiftedReductionRuns
import Mathlib.Data.Bool.Count
/-!
# When a lifted reduction leaves the folds

Without empty axes a lifted reduction is right. At an empty axis it depends: the
first call of an initial dimension is made once even if the dimension is empty,
and so is the one of a broadcast dimension whose destination has stride zero.
-/
namespace Dynd.LiftedReduction
open Lib FixedDim

variable {with_ident keep_dims : Bool} {flags : List Bool} {src dst : List size_stride_t} {kernel : reduction_ckernel}

/-! ## First calls at empty axes -/

namespace reduction_ckernel

/-- A strided call of elements does what the call of the first of them does. -/
theorem single_first_subset (kernel : reduction_ckernel) (d t s ss : ℤ) {n : ℕ} (hn : 0 < n) :
    ∀ x ∈ kernel.single_first d s, x ∈ kernel.strided_first d t s ss n := by
  intro x hx
  by_cases h0 : t = 0
  · subst h0
    cases kernel with
    | strided_initial_reduction _ size _ child =>
      rw [strided_first, if_pos rfl]
      exact List.mem_append_left _ hx
    | strided_initial_broadcast _ size _ _ child =>
      rw [strided_first, if_pos rfl]
      exact List.mem_append_left _ hx
    | strided_inner_reduction _ size _ with_ident =>
      cases with_ident with
      | false => exact List.mem_append_left _ hx
      | true =>
        rcases List.mem_cons.1 hx with rfl | hx
        · exact List.mem_cons_self
        · refine List.mem_cons_of_mem _ (List.mem_flatMap.2 ⟨0, List.mem_range.2 hn, ?_⟩)
          simpa using hx
    | strided_inner_broadcast _ size _ _ with_ident =>
      cases with_ident with
      | false => exact List.mem_append_left _ hx
      | true =>
        rcases List.mem_append.1 hx with hx | hx
        · exact List.mem_append_left _ hx
        · refine List.mem_append_right _ (List.mem_flatMap.2 ⟨0, List.mem_range.2 hn, ?_⟩)
          simpa using hx
  · rw [strided_first_eq _ _ _ _ (Or.inl h0)]
    refine List.mem_flatMap.2 ⟨0, List.mem_range.2 hn, ?_⟩
    simpa using hx

/-- A call of one array does something. -/
def Acts : reduction_ckernel → Prop
  | strided_initial_reduction _ _ _ child => child.Acts
  | strided_initial_broadcast _ size dst_stride _ child => (dst_stride = 0 ∨ 0 < size) ∧ child.Acts
  | strided_inner_reduction .. => True
  | strided_inner_broadcast _ size _ _ _ => 0 < size

theorem single_first_ne_nil (kernel : reduction_ckernel) (d s : ℤ) (h : kernel.Acts) : kernel.single_first d s ≠ [] := by
  induction kernel generalizing d s with
  | strided_initial_reduction _ size _ child ih =>
    rw [single_first]
    exact List.append_ne_nil_of_left_ne_nil (ih d s h) _
  | strided_initial_broadcast _ size t ss child ih =>
    obtain ⟨ht, hchild⟩ := h
    obtain ⟨x, hx⟩ := List.exists_mem_of_ne_nil _ (ih d s hchild)
    rw [single_first]
    rcases Nat.eq_zero_or_pos size.toNat with h0 | hpos
    · -- an empty dimension: the stride is zero, and the child is called once
      obtain rfl : t = 0 := ht.resolve_right (by omega)
      rw [h0]
      cases child with
      | strided_initial_reduction => exact List.append_ne_nil_of_left_ne_nil (List.ne_nil_of_mem hx) _
      | strided_initial_broadcast => exact List.append_ne_nil_of_left_ne_nil (List.ne_nil_of_mem hx) _
      | strided_inner_reduction _ _ _ with_ident => cases with_ident <;> exact List.cons_ne_nil _ _
      | strided_inner_broadcast _ _ _ _ with_ident =>
        cases with_ident with
        | false => exact List.append_ne_nil_of_left_ne_nil (List.ne_nil_of_mem hx) _
        | true =>
          refine List.append_ne_nil_of_left_ne_nil (List.ne_nil_of_length_pos ?_) _
          rw [ident_strided, List.length_map, List.length_range]
          exact Int.pos_iff_toNat_pos.1 hchild
    · exact List.ne_nil_of_mem (single_first_subset child d t s ss hpos x hx)
  | strided_inner_reduction _ size _ with_ident => cases with_ident <;> exact List.cons_ne_nil _ _
  | strided_inner_broadcast _ size t _ with_ident =>
    have hpos : 0 < size.toNat := Int.pos_iff_toNat_pos.1 h
    cases with_ident with
    | false =>
      refine List.ne_nil_of_length_pos ?_
      rw [single_first, if_neg Bool.false_ne_true, strided_inner_broadcast.single_first, dst_init_strided, List.length_map,
        List.length_range]
      exact hpos
    | true =>
      refine List.append_ne_nil_of_left_ne_nil (List.ne_nil_of_length_pos ?_) _
      rw [ident_strided, List.length_map, List.length_range]
      exact hpos

theorem strided_followup_eq_nil (kernel : reduction_ckernel) (d t s ss : ℤ) (n : ℕ) (h : ¬ kernel.Acts ∨ n = 0) :
    kernel.strided_followup d t s ss n = [] := by
  induction kernel generalizing d t s ss n with
  | strided_initial_reduction _ size _ child ih =>
    rw [strided_followup, List.flatMap_eq_nil_iff]
    intro i hi
    have hi := List.mem_range.1 hi
    exact ih _ _ _ _ _ (Or.inl (h.resolve_right (by omega)))
  | strided_initial_broadcast _ size u _ child ih =>
    rw [strided_followup, List.flatMap_eq_nil_iff]
    intro i hi
    have hi := List.mem_range.1 hi
    have hne := h.resolve_right (by omega)
    refine ih _ _ _ _ _ ?_
    by_cases hchild : child.Acts
    · have hsize : ¬ 0 < size := fun hpos => hne ⟨Or.inr hpos, hchild⟩
      exact Or.inr (by omega)
    · exact Or.inl hchild
  | strided_inner_reduction _ size _ with_ident =>
    rw [strided_followup, strided_inner_reduction.strided_followup, List.flatMap_eq_nil_iff]
    intro i hi
    have hi := List.mem_range.1 hi
    exact absurd trivial (h.resolve_right (by omega))
  | strided_inner_broadcast _ size _ _ with_ident =>
    rw [strided_followup, strided_inner_broadcast.strided_followup, List.flatMap_eq_nil_iff]
    intro i hi
    have hi := List.mem_range.1 hi
    have hsize : ¬ 0 < size := h.resolve_right (by omega)
    rw [reduce_strided, show size.toNat = 0 by omega]
    rfl

theorem first_eq_nil (kernel : reduction_ckernel) (h : ¬ kernel.Acts) :
    (∀ d s, kernel.single_first d s = []) ∧ ∀ d t s ss n, kernel.strided_first d t s ss n = [] := by
  have hnone : ∀ n, (List.range n).flatMap (fun _ => ([] : List Access)) = [] := fun n =>
    List.flatMap_eq_nil_iff.2 fun _ _ => rfl
  induction kernel with
  | strided_initial_reduction _ size st child ih =>
    obtain ⟨hsingle, -⟩ := ih h
    have hfollow := fun d t s ss n => strided_followup_eq_nil child d t s ss n (Or.inl h)
    constructor
    · intro d s
      simp [single_first, hsingle, hfollow]
    · intro d t s ss n
      simp [strided_first, hsingle, hfollow, hnone]
  | strided_initial_broadcast _ size u st child ih =>
    have hchild : (∀ d s, child.strided_first d u s st size.toNat = []) ∧
        ∀ d s, child.strided_followup d u s st size.toNat = [] := by
      by_cases hacts : child.Acts
      · -- the child acts, but an empty dimension of non-zero stride never calls it
        have hu : u ≠ 0 := fun hu => h ⟨Or.inl hu, hacts⟩
        have hsize : size.toNat = 0 := by
          have : ¬ 0 < size := fun hpos => h ⟨Or.inr hpos, hacts⟩
          omega
        rw [hsize]
        exact ⟨fun d s => strided_first_eq _ _ _ _ (Or.inl hu), fun d s => strided_followup_eq_nil child _ _ _ _ _ (Or.inr rfl)⟩
      · exact ⟨fun d s => (ih hacts).2 _ _ _ _ _, fun d s => strided_followup_eq_nil child _ _ _ _ _ (Or.inl hacts)⟩
    constructor
    · intro d s
      rw [single_first, hchild.1]
    · intro d t s ss n
      simp [strided_first, hchild.1, hchild.2, hnone]
  | strided_inner_reduction => exact absurd trivial h
  | strided_inner_broadcast _ size _ _ with_ident =>
    have hsize : size.toNat = 0 := Int.toNat_of_nonpos (not_lt.1 h)
    constructor
    · intro d s
      cases with_ident <;> simp [single_first, strided_inner_broadcast.single_first, strided_inner_broadcast.single_first_with_ident,
        dst_init_strided, ident_strided, reduce_strided, hsize]
    · intro d t s ss n
      cases with_ident <;> simp [strided_first, strided_inner_broadcast.strided_first, strided_inner_broadcast.strided_first_with_ident,
        strided_inner_broadcast.single_first, strided_inner_broadcast.single_first_with_ident, dst_init_strided, ident_strided,
        reduce_strided, hsize, hnone]

end reduction_ckernel

/-- The axis of a destination is kept, or it is one of the source. -/
theorem Lifted.mem_dst (h : Lifted with_ident keep_dims flags src dst kernel) :
    ∀ m ∈ dst, m.dim_size = 1 ∨ ∃ m' ∈ src, m.dim_size = m'.dim_size := by
  have hkept : ∀ m ∈ kept keep_dims, m.dim_size = 1 := by
    intro m hm
    unfold kept at hm
    split_ifs at hm
    · rw [List.mem_singleton.1 hm]
    · cases hm
  induction h with
  | inner_reduction => exact fun m hm => Or.inl (hkept m hm)
  | @inner_broadcast _ m' _ =>
    intro m hm
    rw [List.mem_singleton.1 hm]
    exact Or.inr ⟨m', List.mem_cons_self, rfl⟩
  | initial_reduction _ _ ih =>
    intro m hm
    rcases List.mem_append.1 hm with hm | hm
    · exact Or.inl (hkept m hm)
    · exact (ih m hm).imp_right fun ⟨m', hm', heq⟩ => ⟨m', List.mem_cons_of_mem _ hm', heq⟩
  | @initial_broadcast _ m' _ _ _ _ _ _ ih =>
    intro m hm
    rcases List.mem_cons.1 hm with rfl | hm
    · exact Or.inr ⟨m', List.mem_cons_self, rfl⟩
    · exact (ih m hm).imp_right fun ⟨m', hm', heq⟩ => ⟨m', List.mem_cons_of_mem _ hm', heq⟩

/-- A broadcast dimension that is empty stops the calls, if it is the inner one or its stride is not zero. -/
def Stopped (flags : List Bool) (src dst : List size_stride_t) : Prop :=
  (∃ m ∈ dst, m.dim_size = 0 ∧ m.stride ≠ 0) ∨ flags.getLast? = some false ∧ ∃ e ∈ src.getLast?, e.dim_size = 0

theorem Lifted.acts_iff (h : Lifted with_ident keep_dims flags src dst kernel) (hsrc : ∀ m ∈ src, 0 ≤ m.dim_size) :
    kernel.Acts ↔ ¬ Stopped flags src dst := by
  have hkept : ∀ dst : List size_stride_t, (∃ m ∈ kept keep_dims ++ dst, m.dim_size = 0 ∧ m.stride ≠ 0) ↔
      ∃ m ∈ dst, m.dim_size = 0 ∧ m.stride ≠ 0 := by
    intro dst
    cases keep_dims <;> simp [kept]
  induction h with
  | @inner_reduction _ m _ =>
    have hnone := hkept []
    rw [List.append_nil] at hnone
    simp [reduction_ckernel.Acts, Stopped, hnone]
  | @inner_broadcast _ m t =>
    have h0 := hsrc m List.mem_cons_self
    simp only [reduction_ckernel.Acts, Stopped, List.mem_singleton, exists_eq_left, List.getLast?_singleton, Option.mem_some_iff,
      exists_eq_left', true_and]
    omega
  | @initial_reduction _ m _ _ _ _ _ hchild ih =>
    have hchild_acts := ih fun m hm => hsrc m (List.mem_cons_of_mem _ hm)
    rw [reduction_ckernel.Acts]
    refine hchild_acts.trans ?_
    rw [Stopped, Stopped, hkept, getLast?_cons _ hchild.ne_nil.1, getLast?_cons _ hchild.ne_nil.2]
  | @initial_broadcast _ m t _ _ _ _ hchild ih =>
    have h0 := hsrc m List.mem_cons_self
    have hchild_acts := ih fun m hm => hsrc m (List.mem_cons_of_mem _ hm)
    rw [reduction_ckernel.Acts]
    refine (and_congr_right' hchild_acts).trans ?_
    rw [Stopped, Stopped, getLast?_cons _ hchild.ne_nil.1, getLast?_cons _ hchild.ne_nil.2]
    simp only [List.mem_cons, exists_eq_or_imp]
    have hsize : (t = 0 ∨ 0 < m.dim_size) ↔ ¬ (m.dim_size = 0 ∧ t ≠ 0) := by
      constructor
      · rintro (rfl | hpos) ⟨hm, ht⟩
        · exact ht rfl
        · omega
      · intro hne
        by_cases ht : t = 0
        · exact Or.inl ht
        · exact Or.inr (lt_of_le_of_ne h0 fun h => hne ⟨h.symm, ht⟩)
    rw [hsize, ← not_or, or_assoc]

/-- A kernel whose last axis is not empty reads, when its destination has elements. -/
theorem Lifted.reads (h : Lifted with_ident keep_dims flags src dst kernel) (hdst : ∀ m ∈ dst, 0 < m.dim_size)
    (hlast : ∀ e ∈ src.getLast?, 0 < e.dim_size) (d s : ℤ) : ∃ x ∈ kernel.single_first d s, ∃ s', x.src = some s' := by
  have hreduce : ∀ (d t s ss : ℤ) {n : ℕ}, 0 < n → Access.reduce d s ∈ reduce_strided d t s ss n := by
    intro d t s ss n hn
    refine List.mem_map.2 ⟨0, List.mem_range.2 hn, ?_⟩
    rw [Nat.cast_zero, zero_mul, zero_mul, add_zero, add_zero]
  induction h generalizing d s with
  | @inner_reduction _ m _ =>
    have hm : 0 < m.dim_size := hlast m rfl
    cases with_ident with
    | true => exact ⟨_, List.mem_cons_of_mem _ (hreduce d 0 s m.stride (Int.pos_iff_toNat_pos.1 hm)), s, rfl⟩
    | false => exact ⟨_, List.mem_cons_self, s, rfl⟩
  | @inner_broadcast _ m t =>
    have hm : 0 < m.dim_size := hlast m rfl
    cases with_ident with
    | true => exact ⟨_, List.mem_append_right _ (hreduce d t s m.stride (Int.pos_iff_toNat_pos.1 hm)), s, rfl⟩
    | false => exact ⟨_, List.mem_map.2 ⟨0, List.mem_range.2 (Int.pos_iff_toNat_pos.1 hm), rfl⟩, _, rfl⟩
  | initial_reduction _ hchild ih =>
    rw [getLast?_cons _ hchild.ne_nil.2] at hlast
    obtain ⟨x, hx, hread⟩ := ih (fun m hm => hdst m (List.mem_append_right _ hm)) hlast d s
    exact ⟨x, List.mem_append_left _ hx, hread⟩
  | @initial_broadcast _ m t _ _ _ child hchild ih =>
    have hm : 0 < (size_stride_t.mk m.dim_size t).dim_size := hdst _ List.mem_cons_self
    rw [getLast?_cons _ hchild.ne_nil.2] at hlast
    obtain ⟨x, hx, hread⟩ := ih (fun m hm => hdst m (List.mem_cons_of_mem _ hm)) hlast d s
    exact ⟨x, child.single_first_subset d t s m.stride (Int.pos_iff_toNat_pos.1 hm) x hx, hread⟩

/-! ## When a call is right -/

/-- The axes at which a call is right. -/
def Handled (flags : List Bool) (src dst : List size_stride_t) : Prop :=
  (∀ m ∈ src, 0 < m.dim_size) ∨ (∃ m ∈ dst, m.dim_size = 0 ∧ m.stride ≠ 0) ∨
    ∃ e ∈ src.getLast?, e.dim_size = 0 ∧ (flags.getLast? = some true → ∀ m ∈ dst, m.dim_size ≠ 0)

section
variable {T V : Type} (a : Args T V)

namespace Args

/-- The destination starts from the identity. -/
def starts_from_identity : Bool := a.dst_initialization.isNone && a.reduction_identity.isSome

/-- For a commutative operation it does not matter which of its operands is the source. -/
theorem accumulate_eq (hcomm : ∀ x y, a.elwise_reduction.op x y = a.elwise_reduction.op y x) (x y : V) :
    a.accumulate x y = a.elwise_reduction.op x y := by
  unfold accumulate
  split_ifs
  · exact hcomm y x
  · rfl

/-- What a started group leaves is its fold. -/
theorem foldl_started (hcomm : ∀ x y, a.elwise_reduction.op x y = a.elwise_reduction.op y x) (src_mem : ℤ → V) (address : ℤ) (v : V)
    {xs : List ℤ} (hxs : a.starts_from_identity = true ∨ xs ≠ []) :
    a.folded (xs.map src_mem) = some ((started a.starts_from_identity address xs).foldl (fun v x => a.act src_mem x v) v) := by
  have hrest : ∀ (xs : List ℤ) (v : V), (xs.map (Access.reduce address)).foldl (fun v x => a.act src_mem x v) v =
      (xs.map src_mem).foldl a.elwise_reduction.op v := by
    intro xs v
    simp only [List.foldl_map, act, a.accumulate_eq hcomm]
  cases hw : a.starts_from_identity with
  | true =>
    obtain ⟨hinit, hident⟩ := Bool.and_eq_true_iff.1 hw
    obtain ⟨identity, hidentity⟩ := Option.isSome_iff_exists.1 hident
    rw [started, List.foldl_cons, hrest]
    simp only [folded, Option.isNone_iff_eq_none.1 hinit, hidentity, act, Option.map_some, Option.getD_some]
  | false =>
    obtain ⟨x, xs, rfl⟩ := List.exists_cons_of_ne_nil (hxs.resolve_left (by simp [hw]))
    rw [started, List.foldl_cons, hrest, act, List.map_cons]
    unfold starts_from_identity at hw
    unfold folded
    cases hinit : a.dst_initialization <;> cases hident : a.reduction_identity <;> simp_all

end Args

variable {a}

/-- At regular axes a call leaves the fold of each group. -/
theorem Lifted.right_of_regular (h : Lifted a.starts_from_identity keep_dims flags src dst kernel) (hr : Regular src dst)
    (hcomm : ∀ x y, a.elwise_reduction.op x y = a.elwise_reduction.op y x) (d s : ℤ) :
    a.Right (cells keep_dims flags src) dst d s (kernel.single_first d s) where
  reads := by
    intro x hx s' hs'
    obtain ⟨j, hj, hd⟩ := h.writes_inside hr d s x hx
    have hmem : x ∈ started a.starts_from_identity (d + strideOffset dst j) (group (cells keep_dims flags src) s j) := by
      rw [← h.single_first_at hr d s j hj]
      exact List.mem_filter.2 ⟨hx, decide_eq_true hd⟩
    have hsource : s' ∈ group (cells keep_dims flags src) s j := by
      unfold started at hmem
      split at hmem
      · rcases List.mem_cons.1 hmem with rfl | hmem
        · cases hs'
        · obtain ⟨y, hy, rfl⟩ := List.mem_map.1 hmem
          cases hs'
          exact hy
      · rename_i y ys heq
        rw [heq]
        rcases List.mem_cons.1 hmem with rfl | hmem
        · cases hs'
          exact List.mem_cons_self
        · obtain ⟨z, hz, rfl⟩ := List.mem_map.1 hmem
          cases hs'
          exact List.mem_cons_of_mem _ hz
      · cases hmem
    obtain ⟨c, hc, rfl⟩ := List.mem_map.1 hsource
    exact ⟨c, List.mem_of_mem_filter hc, rfl⟩
  writes := h.writes_inside hr d s
  elements := by
    intro src_mem dst_mem j hj
    rw [Args.memory, runUpdates_at, h.single_first_at hr d s j hj]
    exact a.foldl_started hcomm src_mem _ _ (h.group_startable hr s hj)

/-- A call is right exactly at the axes that are handled. -/
theorem Lifted.right_iff (h : Lifted a.starts_from_identity keep_dims flags src dst kernel) (hsrc : ∀ m ∈ src, 0 ≤ m.dim_size)
    (hdistinct : Distinct dst) (hcomm : ∀ x y, a.elwise_reduction.op x y = a.elwise_reduction.op y x) (d s : ℤ) :
    a.Right (cells keep_dims flags src) dst d s (kernel.single_first d s) ↔ Handled flags src dst := by
  have hdst : ∀ m ∈ dst, 0 ≤ m.dim_size := by
    intro m hm
    rcases h.mem_dst m hm with h1 | ⟨m', hm', heq⟩
    · rw [h1]
      exact Int.one_nonneg
    · rw [heq]
      exact hsrc m' hm'
  by_cases hempty : ∃ m ∈ dst, m.dim_size = 0
  · -- there is no destination: right is to do nothing
    obtain ⟨m, hm, hm0⟩ := hempty
    have hnone : multiIndices (dst.map (·.dim_size)) = [] := multiIndices_eq_nil (List.mem_map_of_mem hm) hm0.le
    have hright : a.Right (cells keep_dims flags src) dst d s (kernel.single_first d s) ↔ kernel.single_first d s = [] := by
      constructor
      · intro hright
        refine List.eq_nil_iff_forall_not_mem.2 fun x hx => ?_
        obtain ⟨j, hj, -⟩ := hright.writes x hx
        rw [hnone] at hj
        exact List.not_mem_nil hj
      · intro hnil
        rw [hnil]
        refine ⟨fun x hx => absurd hx List.not_mem_nil, fun x hx => absurd hx List.not_mem_nil, ?_⟩
        rw [hnone]
        exact fun _ _ j hj => absurd hj List.not_mem_nil
    have hacts : kernel.single_first d s = [] ↔ ¬ kernel.Acts :=
      ⟨fun hnil hacts => kernel.single_first_ne_nil d s hacts hnil, fun hacts => (kernel.first_eq_nil hacts).1 d s⟩
    rw [hright, hacts, h.acts_iff hsrc, not_not, Stopped, Handled]
    have hsrc_empty : ¬ ∀ m ∈ src, 0 < m.dim_size := by
      intro hpos
      rcases h.mem_dst m hm with h1 | ⟨m', hm', heq⟩
      · omega
      · have := hpos m' hm'
        omega
    rw [or_iff_right hsrc_empty]
    refine or_congr_right ?_
    constructor
    · rintro ⟨hflag, e, he, he0⟩
      refine ⟨e, he, he0, fun htrue => ?_⟩
      rw [hflag] at htrue
      cases htrue
    · rintro ⟨e, he, he0, himp⟩
      refine ⟨?_, e, he, he0⟩
      rw [List.getLast?_eq_some_getLast h.ne_nil.1] at himp ⊢
      cases hflag : flags.getLast h.ne_nil.1 with
      | false => rfl
      | true => exact absurd hm0 (himp (by rw [hflag]) m hm)
  · have hpos : ∀ m ∈ dst, 0 < m.dim_size := fun m hm => lt_of_le_of_ne (hdst m hm) fun h0 => hempty ⟨m, hm, h0.symm⟩
    constructor
    · intro hright
      by_contra hne
      rw [Handled, not_or, not_or] at hne
      obtain ⟨hsrc_empty, -, hlast⟩ := hne
      push Not at hsrc_empty
      obtain ⟨m, hm, hm0⟩ := hsrc_empty
      -- the last axis is not empty: something is read, from a source without elements
      have hread := h.reads hpos (fun e he => lt_of_le_of_ne (hsrc e (List.mem_of_mem_getLast? he)) fun h0 =>
        hlast ⟨e, he, h0.symm, fun _ m hm => (hpos m hm).ne'⟩) d s
      obtain ⟨x, hx, s', hs'⟩ := hread
      obtain ⟨c, hc, -⟩ := hright.reads x hx s' hs'
      rw [cells_eq_nil ⟨m, hm, le_antisymm hm0 (hsrc m hm)⟩] at hc
      exact List.not_mem_nil hc
    · intro hhandled
      refine h.right_of_regular ⟨hpos, hdistinct, hsrc, ?_⟩ hcomm d s
      intro m hm hm0
      rcases hhandled with hall | ⟨m', hm', h0, -⟩ | ⟨e, he, he0, -⟩
      · exact absurd hm0 (hall m hm).ne'
      · exact absurd h0 (hpos m' hm').ne'
      · exact ⟨e, he, he0⟩

/-! ## The calls -/

/-- A strided call is one of an array with another dimension. -/
def Call.chain : Call → reduction_ckernel → reduction_ckernel
  | single _ _, chain => chain
  | strided _ dst_stride _ src_stride count, chain => .strided_initial_broadcast .strided count dst_stride src_stride chain

theorem Call.lifted (call : Call) (h : Lifted with_ident keep_dims flags src dst kernel) :
    Lifted with_ident keep_dims (call.flag ++ flags) (call.src_axis ++ src) (call.dst_axis ++ dst) (call.chain kernel) := by
  cases call with
  | single => exact h
  | strided => exact .initial_broadcast h

theorem Call.run_reduction (call : Call) (chain : reduction_ckernel) :
    (lifted_ckernel.reduction chain).run call = (call.chain chain).single_first call.dst call.src := by
  cases call with
  | single => rfl
  | strided d t s ss n => rw [lifted_ckernel.run, Call.chain, reduction_ckernel.single_first, Int.toNat_natCast]; rfl

/-- A scalar is an array of one element that is reduced. -/
theorem Call.cells_scalar (call : Call) (keep_dims : Bool) :
    cells keep_dims (call.flag ++ []) (call.src_axis ++ []) = cells false (call.flag ++ [true]) (call.src_axis ++ [⟨1, 0⟩]) := by
  have hscalar : cells false [true] [⟨1, 0⟩] = [([], 0)] := by
    rw [cells_reduced]
    simp
  cases call with
  | single =>
    rw [Call.flag, Call.src_axis, List.nil_append, List.nil_append, cells_nil]
    exact hscalar.symm
  | strided => simp only [Call.flag, Call.src_axis, List.singleton_append, cells_broadcast, cells_nil, hscalar]

/-- Without dimensions to reduce an element is initialised alone, and a strided run of them as a
broadcast dimension. -/
theorem Call.right_iff_dst_init (call : Call) (hstart : a.starts_from_identity = false) (hdistinct : Distinct call.dst_axis)
    (hcomm : ∀ x y, a.elwise_reduction.op x y = a.elwise_reduction.op y x) (keep_dims : Bool) (kernreq : kernel_request) :
    a.Right (cells keep_dims call.flag call.src_axis) call.dst_axis call.dst call.src ((lifted_ckernel.dst_init kernreq).run call) ↔
      Handled call.flag call.src_axis call.dst_axis := by
  cases call with
  | single d s =>
    have hlifted : Lifted a.starts_from_identity false [true] [⟨1, 0⟩] [] (.strided_inner_reduction kernreq 1 0 false) := by
      rw [hstart]
      exact @Lifted.inner_reduction false false kernreq ⟨1, 0⟩ fun h => absurd h one_ne_zero
    have hright := hlifted.right_iff (by simp) hdistinct hcomm d s
    have hcells := (Call.single d s).cells_scalar keep_dims
    simp only [Call.flag, Call.src_axis, List.append_nil, List.nil_append] at hcells
    rw [← hcells] at hright
    have hone : Handled [true] [⟨1, 0⟩] [] := Or.inl (by simp)
    have hzero : Handled [] [] [] := Or.inl (by simp)
    exact ⟨fun _ => hzero, fun _ => hright.2 hone⟩
  | strided d t s ss n =>
    have hlifted : Lifted a.starts_from_identity keep_dims [false] [⟨n, ss⟩] [⟨n, t⟩]
        (.strided_inner_broadcast kernreq n t ss false) := by
      rw [hstart]
      exact @Lifted.inner_broadcast false keep_dims kernreq ⟨n, ss⟩ t
    exact hlifted.right_iff (by simp) hdistinct hcomm d s

end

/-! ## The kernel that is made -/

variable {T V : Type}

theorem get_as_strided_some {tp tp' : FixedType T} {md md' : List size_stride_t} {m : size_stride_t}
    (h : get_as_strided tp md = some (m, tp', md')) : md = m :: md' := by
  unfold get_as_strided at h
  split at h
  · cases h
    rfl
  · cases h

/-- How many axes the destination has for the dimensions. -/
def kept_ndim (keep_dims : Bool) (flags : List Bool) : ℕ := if keep_dims then flags.length else flags.count false

theorem kept_ndim_nil (keep_dims : Bool) : kept_ndim keep_dims [] = 0 := by
  cases keep_dims <;> rfl

theorem take_kept_ndim_true (m : size_stride_t) (md : List size_stride_t) (flags : List Bool) :
    (m :: md).take (kept_ndim true (true :: flags)) = m :: md.take (kept_ndim true flags) := rfl

theorem take_kept_ndim_false (m : size_stride_t) (md : List size_stride_t) (keep_dims : Bool) (flags : List Bool) :
    (m :: md).take (kept_ndim keep_dims (false :: flags)) = m :: md.take (kept_ndim keep_dims flags) := by
  cases keep_dims <;> simp [kept_ndim]

/-- Where a dimension is reduced the destination keeps an axis of size one, or none. -/
theorem reduced_dst_ok {dst_tp dst_tp' : FixedType T} {dst_md dst_md' : List size_stride_t} (flags : List Bool)
    (h : reduced_dst keep_dims dst_tp dst_md = .ok (dst_tp', dst_md')) :
    dst_md.take (kept_ndim keep_dims (true :: flags)) = kept keep_dims ++ dst_md'.take (kept_ndim keep_dims flags) := by
  unfold reduced_dst at h
  cases keep_dims with
  | true =>
    rw [if_pos rfl] at h
    split at h
    · rename_i m tp md hm
      split_ifs at h with hone
      cases h
      rw [not_or, not_not, not_not] at hone
      obtain ⟨size, stride⟩ := m
      obtain ⟨rfl, rfl⟩ := hone
      rw [get_as_strided_some hm, take_kept_ndim_true, kept, if_pos rfl, List.singleton_append]
    · cases h
  | false =>
    rw [if_neg Bool.false_ne_true] at h
    cases h
    simp [kept_ndim, kept]

variable [DecidableEq T] {a : Args T V}

/-- Two ways to start the destination are refused. -/
theorem check_inner_ok {kernreq : kernel_request} {dst_tp src_tp : FixedType T} {u : Unit}
    (h : check_inner a kernreq dst_tp src_tp = .ok u) : a.starts_from_identity = a.reduction_identity.isSome := by
  unfold check_inner at h
  by_cases hboth : a.dst_initialization.isSome ∧ a.reduction_identity.isSome
  · rw [if_pos hboth] at h
    cases h
  · unfold Args.starts_from_identity
    cases hident : a.reduction_identity with
    | none => simp
    | some identity =>
      cases hinit : a.dst_initialization with
      | none => rfl
      | some init => exact absurd ⟨by rw [hinit]; rfl, by rw [hident]; rfl⟩ hboth

/-- The loop makes the kernel of its dimensions. -/
theorem make_dimensions_ok : ∀ {flags : List Bool} {i : ℕ} {kernreq : kernel_request} {src_tp dst_tp : FixedType T}
    {src_md dst_md : List size_stride_t} {kernel : reduction_ckernel},
    make_dimensions a keep_dims i kernreq flags src_tp src_md dst_tp dst_md = .ok kernel →
      a.starts_from_identity = a.reduction_identity.isSome ∧
        Lifted a.starts_from_identity keep_dims flags (src_md.take flags.length) (dst_md.take (kept_ndim keep_dims flags)) kernel := by
  intro flags
  induction flags with
  | nil =>
    intro i kernreq src_tp dst_tp src_md dst_md kernel h
    cases h
  | cons flag flags ih =>
    intro i kernreq src_tp dst_tp src_md dst_md kernel h
    cases flag with
    | true =>
      rw [make_dimensions] at h
      split at h
      · cases h
      rename_i src src_tp' src_md' hsrc
      obtain rfl := get_as_strided_some hsrc
      by_cases hzero : src.dim_size = 0 ∧ a.reduction_identity.isNone
      · rw [if_pos hzero] at h
        cases h
      rw [if_neg hzero] at h
      obtain ⟨⟨dst_tp', dst_md'⟩, hdst, hrest⟩ := bind_eq_ok.1 h
      rw [reduced_dst_ok flags hdst, List.length_cons, List.take_succ_cons]
      have hident : a.starts_from_identity = a.reduction_identity.isSome → src.dim_size = 0 → a.starts_from_identity = true := by
        intro heq h0
        rw [heq, ← Option.not_isNone, Bool.not_eq_true', Bool.eq_false_iff]
        exact fun hnone => hzero ⟨h0, hnone⟩
      by_cases hflags : flags ≠ []
      · simp only [if_pos hflags] at hrest
        obtain ⟨-, -, hrest⟩ := bind_eq_ok.1 hrest
        obtain ⟨child, hchild, hrest⟩ := bind_eq_ok.1 hrest
        cases hrest
        obtain ⟨heq, hlifted⟩ := ih hchild
        exact ⟨heq, .initial_reduction (hident heq) hlifted⟩
      · simp only [if_neg hflags] at hrest
        obtain rfl := not_not.1 hflags
        rw [make_strided_inner_reduction_dimension_kernel] at hrest
        obtain ⟨u, hcheck, hrest⟩ := bind_eq_ok.1 hrest
        cases hrest
        have heq := check_inner_ok hcheck
        refine ⟨heq, ?_⟩
        rw [kept_ndim_nil, List.length_nil, List.take_zero, List.take_zero, List.append_nil, ← heq]
        exact .inner_reduction (hident heq)
    | false =>
      rw [make_dimensions] at h
      split at h
      · cases h
      rename_i src src_tp' src_md' hsrc
      obtain rfl := get_as_strided_some hsrc
      split at h
      · cases h
      rename_i dst dst_tp' dst_md' hdst
      obtain rfl := get_as_strided_some hdst
      rw [take_kept_ndim_false, List.length_cons, List.take_succ_cons]
      by_cases hsize : dst.dim_size ≠ src.dim_size
      · rw [if_pos hsize] at h
        cases h
      rw [if_neg hsize] at h
      obtain ⟨size, stride⟩ := dst
      obtain rfl : size = src.dim_size := not_not.1 hsize
      by_cases hflags : flags ≠ []
      · simp only [if_pos hflags] at h
        obtain ⟨-, -, h⟩ := bind_eq_ok.1 h
        obtain ⟨child, hchild, h⟩ := bind_eq_ok.1 h
        cases h
        obtain ⟨heq, hlifted⟩ := ih hchild
        exact ⟨heq, .initial_broadcast hlifted⟩
      · simp only [if_neg hflags] at h
        obtain rfl := not_not.1 hflags
        rw [make_strided_inner_broadcast_dimension_kernel] at h
        obtain ⟨u, hcheck, h⟩ := bind_eq_ok.1 h
        cases h
        have heq := check_inner_ok hcheck
        refine ⟨heq, ?_⟩
        rw [kept_ndim_nil, List.length_nil, List.take_zero, List.take_zero, ← heq]
        exact .inner_broadcast

theorem make_lifted_reduction_ckernel_ok {kernel : lifted_ckernel} (h : make_lifted_reduction_ckernel a = .ok kernel) :
    a.reduction_dimflags = [] ∧ (a.starts_from_identity = false ∧ kernel = .dst_init a.kernreq ∨
        a.starts_from_identity = true ∧ kernel = .reduction (.strided_inner_reduction a.kernreq 1 0 true)) ∨
      a.reduction_dimflags ≠ [] ∧ ∃ chain, kernel = .reduction chain ∧ Lifted a.starts_from_identity a.keep_dims a.reduction_dimflags
        (a.src_arrmeta.take a.reduction_dimflags.length) (a.dst_arrmeta.take a.dst_ndim) chain := by
  unfold make_lifted_reduction_ckernel at h
  by_cases hcount : a.reducedim_count = 0
  · rw [if_pos hcount] at h
    by_cases hndim : a.reduction_dimflags.length = 0
    · simp only [if_pos hndim] at h
      refine Or.inl ⟨List.length_eq_zero_iff.1 hndim, ?_⟩
      by_cases hinit : a.dst_initialization.isSome ∨ a.reduction_identity.isNone
      · rw [if_pos hinit] at h
        cases h
        refine Or.inl ⟨?_, rfl⟩
        rcases hinit with hinit | hident
        · rw [Args.starts_from_identity, ← Option.not_isSome, hinit, Bool.not_true, Bool.false_and]
        · rw [Args.starts_from_identity, ← Option.not_isNone, hident, Bool.not_true, Bool.and_false]
      · rw [if_neg hinit] at h
        obtain ⟨chain, hchain, h⟩ := bind_eq_ok.1 h
        cases h
        rw [make_strided_inner_reduction_dimension_kernel] at hchain
        obtain ⟨u, hcheck, hchain⟩ := bind_eq_ok.1 hchain
        cases hchain
        have hident : a.reduction_identity.isSome = true := by
          rw [← Option.not_isNone, Bool.not_eq_true', Bool.eq_false_iff]
          exact fun hnone => hinit (Or.inr hnone)
        rw [check_inner_ok hcheck, hident]
        exact Or.inr ⟨rfl, rfl⟩
    · simp only [if_neg hndim] at h
      cases h
  · rw [if_neg hcount] at h
    have hflags : a.reduction_dimflags ≠ [] := by
      intro hnil
      rw [Args.reducedim_count, hnil] at hcount
      exact hcount rfl
    refine Or.inr ⟨hflags, ?_⟩
    have hdst_ndim : a.dst_ndim = kept_ndim a.keep_dims a.reduction_dimflags := by
      have := List.count_false_add_count_true a.reduction_dimflags
      unfold Args.dst_ndim kept_ndim Args.reducedim_count
      split_ifs <;> omega
    by_cases hmany : ¬ (a.reducedim_count = 1 ∨ a.associative = true ∧ a.commutative = true)
    · simp only [if_pos hmany] at h
      cases h
    simp only [if_neg hmany] at h
    by_cases hright : a.right_associative = true
    · simp only [if_pos hright] at h
      cases h
    simp only [if_neg hright] at h
    by_cases hsrc : (a.reduction_dimflags.length : ℤ) ≠ lifted_ndim a.src_tp a.elwise_reduction.pos_type
    · simp only [if_pos hsrc] at h
      cases h
    simp only [if_neg hsrc] at h
    have hloop : ∃ chain, make_dimensions a a.keep_dims 0 a.kernreq a.reduction_dimflags a.src_tp a.src_arrmeta a.dst_tp
        a.dst_arrmeta = .ok chain ∧ kernel = .reduction chain := by
      split_ifs at h with h1 h2
      · rw [pure_eq_ok, ok_bind] at h
        obtain ⟨chain, hchain, h⟩ := bind_eq_ok.1 h
        rw [Args.keep_dims, decide_eq_true h1]
        exact ⟨chain, hchain, (Except.ok.inj h).symm⟩
      · rw [pure_eq_ok, ok_bind] at h
        obtain ⟨chain, hchain, h⟩ := bind_eq_ok.1 h
        rw [Args.keep_dims, decide_eq_false h1]
        exact ⟨chain, hchain, (Except.ok.inj h).symm⟩
      · cases h
    obtain ⟨chain, hchain, rfl⟩ := hloop
    rw [hdst_ndim]
    exact ⟨chain, rfl, (make_dimensions_ok hchain).2⟩

namespace Args

/-- The dimensions that a call goes over: to start from the identity a scalar is an array of one
element that is reduced. -/
def call_flags (a : Args T V) (call : Call) : List Bool :=
  call.flag ++ if a.reduction_dimflags = [] ∧ a.starts_from_identity then [true] else a.reduction_dimflags

def call_axes (a : Args T V) (call : Call) : List size_stride_t :=
  call.src_axis ++ if a.reduction_dimflags = [] ∧ a.starts_from_identity then [⟨1, 0⟩]
    else a.src_arrmeta.take a.reduction_dimflags.length

end Args

/-- A lifted reduction throws or leaves in each element of the destination the fold over its group,
touching nothing else, exactly when it throws or its axes are handled. -/
theorem lifted_reduction_iff (a : Args T V) (call : Call) (hcall : call.request = a.kernreq)
    (hsrc : a.src_arrmeta.map (·.dim_size) = sizes a.src_tp.dims) (hdistinct : Distinct (a.dst_axes call))
    (hcomm : ∀ x y, a.elwise_reduction.op x y = a.elwise_reduction.op y x) :
    a.Reduces call ↔ (∃ error, make_lifted_reduction_ckernel a = .error error) ∨
      Handled (a.call_flags call) (a.call_axes call) (a.dst_axes call) := by
  cases hmake : make_lifted_reduction_ckernel a with
  | error error =>
    refine ⟨fun _ => Or.inl ⟨error, rfl⟩, fun _ kernel hkernel => ?_⟩
    rw [hmake] at hkernel
    cases hkernel
  | ok kernel =>
    have hreduces : a.Reduces call ↔ a.Right (a.src_cells call) (a.dst_axes call) call.dst call.src (kernel.run call) := by
      refine ⟨fun h => h kernel hmake hcall, fun h kernel' hkernel _ => ?_⟩
      rw [hmake] at hkernel
      cases hkernel
      exact h
    rw [hreduces, or_iff_right (by simp)]
    have hpos : ∀ m ∈ a.src_arrmeta, 0 ≤ m.dim_size := by
      intro m hm
      have hmem : m.dim_size ∈ sizes a.src_tp.dims := hsrc ▸ List.mem_map_of_mem hm
      obtain ⟨d, -, hd⟩ := List.mem_map.1 hmem
      rw [← hd]
      exact d.property.1
    have haxis : ∀ m ∈ call.src_axis, 0 ≤ m.dim_size := by
      intro m hm
      cases call with
      | single => cases hm
      | strided =>
        rw [List.mem_singleton.1 hm]
        exact Int.natCast_nonneg _
    have hscalar : ∀ m ∈ ([⟨1, 0⟩] : List size_stride_t), 0 ≤ m.dim_size := by simp
    unfold Args.src_cells Args.call_flags Args.call_axes
    unfold Args.dst_axes at hdistinct ⊢
    rcases make_lifted_reduction_ckernel_ok hmake with ⟨hflags, ⟨hstart, rfl⟩ | ⟨hstart, rfl⟩⟩ | ⟨hflags, chain, rfl, hchain⟩
    · have hndim : a.dst_ndim = 0 := by simp [Args.dst_ndim, hflags]
      have hif : ¬ (([] : List Bool) = [] ∧ a.starts_from_identity = true) := by simp [hstart]
      rw [hflags, hndim, if_neg hif, if_neg hif, List.length_nil, List.take_zero, List.take_zero, List.append_nil,
        List.append_nil, List.append_nil]
      rw [hndim, List.take_zero, List.append_nil] at hdistinct
      exact call.right_iff_dst_init hstart hdistinct hcomm _ _
    · have hndim : a.dst_ndim = 0 := by simp [Args.dst_ndim, hflags]
      have hif : ([] : List Bool) = [] ∧ a.starts_from_identity = true := ⟨rfl, hstart⟩
      rw [hflags, hndim, if_pos hif, if_pos hif, List.length_nil, List.take_zero, List.take_zero]
      rw [hndim, List.take_zero] at hdistinct
      have hlifted : Lifted a.starts_from_identity false [true] [⟨1, 0⟩] [] (.strided_inner_reduction a.kernreq 1 0 true) := by
        have hinner := @Lifted.inner_reduction true false a.kernreq ⟨1, 0⟩ fun _ => rfl
        rw [hstart]
        exact hinner
      rw [call.cells_scalar, call.run_reduction]
      exact (call.lifted hlifted).right_iff (List.forall_mem_append.2 ⟨haxis, hscalar⟩) hdistinct hcomm _ _
    · have hif : ¬ (a.reduction_dimflags = [] ∧ a.starts_from_identity = true) := fun h => hflags h.1
      rw [if_neg hif, if_neg hif, call.run_reduction]
      refine (call.lifted hchain).right_iff (List.forall_mem_append.2 ⟨haxis, fun m hm => hpos m ?_⟩) hdistinct hcomm _ _
      exact List.mem_of_mem_take hm

/-- The sum of a default array of numbers over flagged dimensions, from zero, to a default array. -/
def sum (flags : List Bool) (src_dims dst_dims : List dim_size_t) : Args Element ℤ where
  elwise_reduction := ⟨2, ⟨[], .number 4⟩, ⟨[], .number 4⟩, (· + ·)⟩
  dst_initialization := none
  assign x := x
  dst_tp := ⟨dst_dims, .number 4⟩
  dst_arrmeta := arrmeta_default_construct (Element.number 4) dst_dims
  src_tp := ⟨src_dims, .number 4⟩
  src_arrmeta := arrmeta_default_construct (Element.number 4) src_dims
  reduction_dimflags := flags
  associative := true
  commutative := true
  right_associative := false
  reduction_identity := some ⟨⟨[], .number 4⟩, 0⟩
  kernreq := .single

/-- `2 * 3 * int32` summed over its first dimension. -/
theorem lifted_reduction_iff_sum : (sum [true, false] [⟨2, by decide⟩, ⟨3, by decide⟩] [⟨3, by decide⟩]).Reduces (.single 0 0) :=
  (lifted_reduction_iff _ _ rfl (by decide) (by unfold Distinct; decide) fun x y => add_comm x y).2 (Or.inr (Or.inl (by decide)))

/-- `0 * 3 * int32` summed over its first dimension: the first call reads elements that are not there. -/
theorem reads_empty_source : ¬ (sum [true, false] [⟨0, by decide⟩, ⟨3, by decide⟩] [⟨3, by decide⟩]).Reduces (.single 0 0) := by
  intro h
  have hright := h (.reduction (.strided_initial_reduction .single 0 0 (.strided_inner_broadcast .single 3 4 4 true))) rfl rfl
  obtain ⟨c, hc, -⟩ := hright.reads (.reduce 0 0) (by decide) 0 rfl
  exact List.not_mem_nil hc

end Dynd.LiftedReduction
