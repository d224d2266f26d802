import Dynd.ReorderStrides
/-!
# Classifying the order of the axes

`classify_axis_order` compares every stride with the outermost one that is not
zero, where its comments speak of the next dimension onward.
`classify_axis_order_iff` says when that gives the order of the strides.
-/
namespace Dynd.FixedDim

/-! ## The order of the strides -/

/-- The absolute strides from outer to inner, but those that are zero. -/
def nonzeroStrides (md : List size_stride_t) : List ℤ := (md.map fun m => |m.stride|).filter (· ≠ 0)

/-- The strides shrink from outer to inner in C order and grow in F order. One stride alone has no order. -/
structure ClassifiedByOrder (md : List size_stride_t) : Prop where
  c_order : classify_axis_order md = .axis_order_c ↔ 2 ≤ (nonzeroStrides md).length ∧ (nonzeroStrides md).Pairwise (· > ·)
  f_order : classify_axis_order md = .axis_order_f ↔ 2 ≤ (nonzeroStrides md).length ∧ (nonzeroStrides md).Pairwise (· < ·)
  neither : classify_axis_order md = .axis_order_neither ↔ 2 ≤ (nonzeroStrides md).length ∧
    ¬ (nonzeroStrides md).Pairwise (· > ·) ∧ ¬ (nonzeroStrides md).Pairwise (· < ·)

/-- Some stride is smaller than the outermost one, and some is not. -/
def Mixed : List ℤ → Prop
  | [] => False
  | outermost :: strides => (∃ s ∈ strides, s < outermost) ∧ ∃ s ∈ strides, outermost ≤ s

/-! ## What the function computes -/

/-- The outermost stride compared with each of the others. -/
def comparedToOutermost (outermost : ℤ) (strides : List ℤ) : axis_order_classification_t :=
  if strides = [] then .axis_order_none
  else if ∀ s ∈ strides, s < outermost then .axis_order_c
  else if ∀ s ∈ strides, outermost ≤ s then .axis_order_f
  else .axis_order_neither

theorem nonzeroStrides_cons (m : size_stride_t) (md : List size_stride_t) :
    nonzeroStrides (m :: md) = if m.stride = 0 then nonzeroStrides md else |m.stride| :: nonzeroStrides md := by
  rw [nonzeroStrides, List.map_cons, List.filter_cons]
  by_cases h : m.stride = 0
  · simp [h, nonzeroStrides]
  · simp [h, nonzeroStrides]

theorem classify_strided_axis_order_eq (current_stride : ℤ) (md : List size_stride_t) :
    classify_strided_axis_order current_stride md = comparedToOutermost current_stride (nonzeroStrides md) := by
  induction md with
  | nil => rfl
  | cons m md ih =>
    rw [classify_strided_axis_order, ih, nonzeroStrides_cons]
    by_cases h0 : m.stride = 0
    · simp [h0]
    · rw [if_pos (by simpa using h0), if_neg h0]
      generalize nonzeroStrides md = strides
      have hcons : |m.stride| :: strides ≠ [] := List.cons_ne_nil _ _
      by_cases hlt : |m.stride| < current_stride
      · rw [if_pos hlt]
        by_cases hnil : strides = []
        · simp [comparedToOutermost, hnil, hlt]
        · by_cases hall : ∀ s ∈ strides, s < current_stride
          · have hall' : ∀ s ∈ |m.stride| :: strides, s < current_stride := List.forall_mem_cons.2 ⟨hlt, hall⟩
            rw [comparedToOutermost, if_neg hnil, if_pos hall, comparedToOutermost, if_neg hcons, if_pos hall']
            rfl
          · -- an inner stride grows
            have hall' : ¬ ∀ s ∈ |m.stride| :: strides, s < current_stride := fun h => hall (List.forall_mem_cons.1 h).2
            have hge : ¬ ∀ s ∈ |m.stride| :: strides, current_stride ≤ s :=
              fun h => absurd (List.forall_mem_cons.1 h).1 (not_le.2 hlt)
            rw [comparedToOutermost, if_neg hnil, if_neg hall, comparedToOutermost, if_neg hcons, if_neg hall', if_neg hge]
            split_ifs <;> simp_all
      · rw [if_neg hlt]
        have hall' : ¬ ∀ s ∈ |m.stride| :: strides, s < current_stride := fun h => hlt (List.forall_mem_cons.1 h).1
        rw [comparedToOutermost.eq_def current_stride (|m.stride| :: strides), if_neg hcons, if_neg hall']
        by_cases hnil : strides = []
        · simp [comparedToOutermost, hnil, not_lt.1 hlt]
        · obtain ⟨s, hs⟩ := List.exists_mem_of_ne_nil strides hnil
          by_cases hge : ∀ s ∈ strides, current_stride ≤ s
          · have hge' : ∀ s ∈ |m.stride| :: strides, current_stride ≤ s := List.forall_mem_cons.2 ⟨not_lt.1 hlt, hge⟩
            have hall : ¬ ∀ s ∈ strides, s < current_stride := fun h => absurd (h s hs) (not_lt.2 (hge s hs))
            rw [comparedToOutermost, if_neg hnil, if_neg hall, if_pos hge, if_pos hge']
            rfl
          · -- an inner stride shrinks
            have hge' : ¬ ∀ s ∈ |m.stride| :: strides, current_stride ≤ s := fun h => hge (List.forall_mem_cons.1 h).2
            rw [comparedToOutermost, if_neg hnil, if_neg hge, if_neg hge']
            split_ifs <;> simp_all

theorem classify_axis_order_eq (md : List size_stride_t) : classify_axis_order md = match nonzeroStrides md with
    | [] => .axis_order_none
    | outermost :: strides => comparedToOutermost outermost strides := by
  induction md with
  | nil => rfl
  | cons m md ih =>
    rw [classify_axis_order, nonzeroStrides_cons]
    by_cases h0 : m.stride = 0
    · rw [if_neg (not_not.2 h0), if_pos h0, ih]
    · rw [if_pos h0, if_neg h0, classify_strided_axis_order_eq]

/-! ## When it is the order of the strides -/

theorem comparedToOutermost_c {outermost : ℤ} {strides : List ℤ} :
    comparedToOutermost outermost strides = .axis_order_c ↔ strides ≠ [] ∧ ∀ s ∈ strides, s < outermost := by
  rw [comparedToOutermost]
  split_ifs with hnil hlt hge
  · simp [hnil]
  · simpa [hnil] using hlt
  · simp [hlt]
  · simp [hlt]

theorem comparedToOutermost_f {outermost : ℤ} {strides : List ℤ} :
    comparedToOutermost outermost strides = .axis_order_f ↔ strides ≠ [] ∧ ∀ s ∈ strides, outermost ≤ s := by
  rw [comparedToOutermost]
  split_ifs with hnil hlt hge
  · simp [hnil]
  · obtain ⟨s, hs⟩ := List.exists_mem_of_ne_nil strides hnil
    have : ¬ ∀ s ∈ strides, outermost ≤ s := fun h => absurd (hlt s hs) (not_lt.2 (h s hs))
    simp [this]
  · simpa [hnil] using hge
  · simp [hge]

theorem comparedToOutermost_neither {outermost : ℤ} {strides : List ℤ} :
    comparedToOutermost outermost strides = .axis_order_neither ↔
      (∃ s ∈ strides, s < outermost) ∧ ∃ s ∈ strides, outermost ≤ s := by
  rw [comparedToOutermost]
  split_ifs with hnil hlt hge
  · simp [hnil]
  · have : ¬ ∃ s ∈ strides, outermost ≤ s := fun ⟨s, hs, hle⟩ => absurd (hlt s hs) (not_lt.2 hle)
    simp [this]
  · have : ¬ ∃ s ∈ strides, s < outermost := fun ⟨s, hs, hlt⟩ => absurd hlt (not_lt.2 (hge s hs))
    simp [this]
  · push Not at hlt hge
    simp [hlt, hge]

section
variable {outermost : ℤ} {inner : List ℤ}

theorem shrinks_below (h : (outermost :: inner).Pairwise (· > ·)) : ∀ x ∈ inner, x < outermost := (List.pairwise_cons.1 h).1

theorem grows_above (h : (outermost :: inner).Pairwise (· < ·)) : ∀ x ∈ inner, outermost ≤ x :=
  fun x hx => ((List.pairwise_cons.1 h).1 x hx).le

variable (hne : inner ≠ [])
  (hcond : (outermost :: inner).Pairwise (· > ·) ∨ (outermost :: inner).Pairwise (· < ·) ∨ Mixed (outermost :: inner))
include hne hcond

/-- Where the strides are in order or mixed, comparing them with the outermost one finds the order. -/
theorem compared_shrinks : comparedToOutermost outermost inner = .axis_order_c ↔ (outermost :: inner).Pairwise (· > ·) := by
  obtain ⟨x, hx⟩ := List.exists_mem_of_ne_nil inner hne
  rw [comparedToOutermost_c]
  refine ⟨fun ⟨_, hlt⟩ => ?_, fun h => ⟨hne, shrinks_below h⟩⟩
  rcases hcond with h | h | ⟨-, y, hy, hle⟩
  · exact h
  · exact absurd (hlt x hx) (not_lt.2 (grows_above h x hx))
  · exact absurd (hlt y hy) (not_lt.2 hle)

theorem compared_grows : comparedToOutermost outermost inner = .axis_order_f ↔ (outermost :: inner).Pairwise (· < ·) := by
  obtain ⟨x, hx⟩ := List.exists_mem_of_ne_nil inner hne
  rw [comparedToOutermost_f]
  refine ⟨fun ⟨_, hge⟩ => ?_, fun h => ⟨hne, grows_above h⟩⟩
  rcases hcond with h | h | ⟨⟨y, hy, hlt⟩, -⟩
  · exact absurd (shrinks_below h x hx) (not_lt.2 (hge x hx))
  · exact h
  · exact absurd hlt (not_lt.2 (hge y hy))

omit hne in
theorem compared_neither : comparedToOutermost outermost inner = .axis_order_neither ↔
    ¬ (outermost :: inner).Pairwise (· > ·) ∧ ¬ (outermost :: inner).Pairwise (· < ·) := by
  rw [comparedToOutermost_neither]
  constructor
  · rintro ⟨⟨y, hy, hlt⟩, z, hz, hle⟩
    exact ⟨fun h => absurd (shrinks_below h z hz) (not_lt.2 hle), fun h => absurd hlt (not_lt.2 (grows_above h y hy))⟩
  · rintro ⟨hnc, hnf⟩
    rcases hcond with h | h | h
    · exact absurd h hnc
    · exact absurd h hnf
    · exact h

end

/-- A chain of strided dimensions is classified by the order of its strides exactly when they shrink from outer to
inner, or grow, or some are smaller than the outermost and some are not. -/
theorem classify_axis_order_iff (md : List size_stride_t) : ClassifiedByOrder md ↔
    (nonzeroStrides md).Pairwise (· > ·) ∨ (nonzeroStrides md).Pairwise (· < ·) ∨ Mixed (nonzeroStrides md) := by
  have heq := classify_axis_order_eq md
  match hstrides : nonzeroStrides md with
  | [] =>
    rw [hstrides] at heq
    refine iff_of_true ?_ (.inl List.Pairwise.nil)
    constructor <;> simp [heq, hstrides]
  | [s] =>
    rw [hstrides] at heq
    refine iff_of_true ?_ (.inl (List.pairwise_singleton _ _))
    constructor <;> simp [heq, hstrides, comparedToOutermost]
  | outermost :: s :: strides =>
    rw [hstrides] at heq
    have hlen : 2 ≤ (outermost :: s :: strides).length := by simp
    have hne : s :: strides ≠ [] := List.cons_ne_nil _ _
    generalize hinner : s :: strides = inner at heq hlen hne
    rw [hinner] at hstrides
    constructor
    · rintro ⟨hc, hf, -⟩
      rw [heq, hstrides, comparedToOutermost_c] at hc
      rw [heq, hstrides, comparedToOutermost_f] at hf
      by_cases hlt : ∀ x ∈ inner, x < outermost
      · exact .inl (hc.1 ⟨hne, hlt⟩).2
      · by_cases hge : ∀ x ∈ inner, outermost ≤ x
        · exact .inr (.inl (hf.1 ⟨hne, hge⟩).2)
        · push Not at hlt hge
          exact .inr (.inr ⟨hge, hlt⟩)
    · intro hcond
      refine ⟨?_, ?_, ?_⟩
      · rw [heq, hstrides, and_iff_right hlen]
        exact compared_shrinks hne hcond
      · rw [heq, hstrides, and_iff_right hlen]
        exact compared_grows hne hcond
      · rw [heq, hstrides, and_iff_right hlen]
        exact compared_neither hcond

/-- Of the strides 32, 4 and 16 the inner two grow, but both are smaller than the first. -/
theorem inner_strides_grow : ¬ ClassifiedByOrder [⟨3, 32⟩, ⟨4, 4⟩, ⟨2, 16⟩] := by
  intro h
  have hc := h.c_order.1 (by decide)
  revert hc
  decide

end Dynd.FixedDim
