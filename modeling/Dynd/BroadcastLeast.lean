import Dynd.Broadcast
import Dynd.BroadcastToShape
/-!
# The shape that operands broadcast to

`broadcast_input_shapes` makes one shape of the operands' shapes, and
`shape_can_broadcast` says whether an operand fits a shape. `least_common_shape`:
without variable sizes the first returns the least of all shapes that every
operand fits, by the second, and throws when there is none.
-/
namespace Dynd.BroadcastToShape
open Broadcast

/-! ## One axis at a time -/

theorem canBroadcastLoop_iff : ∀ {dst_shape src_shape : List ℤ}, src_shape.length = dst_shape.length →
    (canBroadcastLoop dst_shape src_shape = true ↔ ∀ (k : ℕ) (s : ℤ), src_shape[k]? = some s → s = 1 ∨ dst_shape[k]? = some s)
  | [], [], _ => by simp [canBroadcastLoop]
  | d :: dst_shape, s :: src_shape, hlen => by
    rw [canBroadcastLoop]
    constructor
    · intro h k x hx
      split_ifs at h with hs
      cases k with
      | zero =>
        rw [List.getElem?_cons_zero, Option.some.injEq] at hx
        subst hx
        rw [List.getElem?_cons_zero, Option.some.injEq]
        by_cases hone : s = 1
        · exact .inl hone
        · refine .inr (by_contra fun hne => hs ?_)
          simp [hone, Ne.symm hne]
      | succ k =>
        rw [List.getElem?_cons_succ] at hx ⊢
        exact (canBroadcastLoop_iff (Nat.succ.inj hlen)).mp h k x hx
    · intro h
      have hrest := (canBroadcastLoop_iff (Nat.succ.inj hlen)).mpr fun k x hx => h (k + 1) x hx
      have hfirst := h 0 s rfl
      rw [List.getElem?_cons_zero, Option.some.injEq] at hfirst
      rw [if_neg ?_]
      · exact hrest
      · rcases hfirst with hone | heq
        · simp [hone]
        · simp [heq]

theorem lt_of_axis {shape : List ℤ} {j : ℕ} {s : ℤ} (h : shape.reverse[j]? = some s) : j < shape.length := by
  rw [← List.length_reverse]
  exact (List.getElem?_eq_some_iff.mp h).1

/-- The axes are aligned at the last ones. -/
theorem can_broadcast_iff {dst_shape src_shape : List ℤ} : shape_can_broadcast dst_shape src_shape = true ↔
    src_shape.length ≤ dst_shape.length ∧
      ∀ (j : ℕ) (s : ℤ), src_shape.reverse[j]? = some s → s = 1 ∨ dst_shape.reverse[j]? = some s := by
  rw [shape_can_broadcast]
  by_cases hlen : src_shape.length ≤ dst_shape.length
  · have hdrop : src_shape.length = (dst_shape.drop (dst_shape.length - src_shape.length)).length := by
      rw [List.length_drop]
      omega
    rw [if_pos hlen, canBroadcastLoop_iff hdrop, and_iff_right hlen]
    constructor
    · intro h j s hs
      have hj := lt_of_axis hs
      rw [List.getElem?_reverse hj] at hs
      have hk := h (src_shape.length - 1 - j) s hs
      rw [List.getElem?_drop] at hk
      rw [List.getElem?_reverse (by omega)]
      rwa [show dst_shape.length - src_shape.length + (src_shape.length - 1 - j) = dst_shape.length - 1 - j by omega] at hk
    · intro h k s hs
      have hk : k < src_shape.length := (List.getElem?_eq_some_iff.mp hs).1
      have hj := h (src_shape.length - 1 - k) s (by
        rw [List.getElem?_reverse (by omega), show src_shape.length - 1 - (src_shape.length - 1 - k) = k by omega]
        exact hs)
      rw [List.getElem?_reverse (by omega)] at hj
      rw [List.getElem?_drop]
      rwa [show dst_shape.length - 1 - (src_shape.length - 1 - k) = dst_shape.length - src_shape.length + k by omega] at hj
  · rw [if_neg hlen]
    exact iff_of_false Bool.false_ne_true fun h => hlen h.1

/-! ## Sizes that are no variable ones -/

/-- No operand has a variable size. -/
def FixedSizes (inputs : List (List ℤ)) : Prop := ∀ op ∈ inputs, ∀ s ∈ op, 0 ≤ s

variable {inputs : List (List ℤ)}

theorem FixedSizes.valid (h : FixedSizes inputs) : ValidSizes inputs := by
  intro op hop s hs
  have := h op hop s hs
  omega

theorem mem_lastAxis {j : ℕ} {s : ℤ} : s ∈ lastAxis j inputs ↔ ∃ op ∈ inputs, op.reverse[j]? = some s :=
  List.mem_filterMap

theorem FixedSizes.not_variable (h : FixedSizes inputs) (j : ℕ) : -1 ∉ lastAxis j inputs := by
  intro hmem
  obtain ⟨op, hop, hget⟩ := mem_lastAxis.mp hmem
  have := h op hop (-1) (List.mem_reverse.mp (List.mem_of_getElem? hget))
  omega

/-- Two operands that clash fit no shape both. -/
theorem not_common_of_clash {j : ℕ} (hclash : Clash (lastAxis j inputs)) (shape : List ℤ) :
    ∃ op ∈ inputs, shape_can_broadcast shape op = false := by
  obtain ⟨before, y, after, hc, hy, -, x, hx, hx1, -, hne, -⟩ := hclash
  have hxmem : x ∈ lastAxis j inputs := by
    rw [hc]
    exact List.mem_append_left _ hx
  have hymem : y ∈ lastAxis j inputs := by
    rw [hc]
    exact List.mem_append_right _ List.mem_cons_self
  obtain ⟨op, hop, hget⟩ := mem_lastAxis.mp hxmem
  obtain ⟨op', hop', hget'⟩ := mem_lastAxis.mp hymem
  by_contra hall
  push Not at hall
  have hfits : ∀ op ∈ inputs, shape_can_broadcast shape op = true := fun op hop => Bool.eq_true_of_not_eq_false (hall op hop)
  have hshape := ((can_broadcast_iff.mp (hfits op hop)).2 j x hget).resolve_left hx1
  have hshape' := ((can_broadcast_iff.mp (hfits op' hop')).2 j y hget').resolve_left hy
  rw [hshape, Option.some.injEq] at hshape'
  exact hne hshape'

/-- Every axis of the shape returned has the one size besides 1 that operands have there, or 1. -/
theorem returned_axis (hfixed : FixedSizes inputs) {shape : List ℤ} (hlen : shape.length = broadcastUndim inputs)
    (hcolumn : ∀ k < broadcastUndim inputs,
      broadcastColumn (lastAxis (broadcastUndim inputs - 1 - k) inputs) = some (shape.getD k 1))
    {j : ℕ} (hj : j < broadcastUndim inputs) : ∃ s, shape.reverse[j]? = some s ∧
      (∀ x ∈ lastAxis j inputs, x = 1 ∨ x = s) ∧ (s = 1 ∨ s ∈ lastAxis j inputs) := by
  have hfold := hcolumn (broadcastUndim inputs - 1 - j) (by omega)
  rw [show broadcastUndim inputs - 1 - (broadcastUndim inputs - 1 - j) = j by omega] at hfold
  refine ⟨shape.getD (broadcastUndim inputs - 1 - j) 1, ?_, ?_⟩
  · rw [List.getElem?_reverse (by omega), List.getD_eq_getElem _ _ (by omega), List.getElem?_eq_getElem (by omega)]
    simp only [hlen]
  · rcases broadcastColumn_spec _ (hfixed.valid.lastAxis j) with ⟨hnone, -⟩ | ⟨-, s, hs, hknows⟩
    · rw [hnone] at hfold
      cases hfold
    · rw [hs, Option.some.injEq] at hfold
      rw [← hfold]
      exact (hknows.fixed (hfixed.not_variable j)).2

/-- The shape returned is the least that every operand fits, and without such a
shape the call throws. -/
theorem least_common_shape (inputs : List (List ℤ)) (hfixed : FixedSizes inputs) :
    match broadcast_input_shapes inputs with
    | .ok r => (∀ op ∈ inputs, shape_can_broadcast r.out_shape op = true) ∧
        ∀ shape, (∀ op ∈ inputs, shape_can_broadcast shape op = true) → shape_can_broadcast shape r.out_shape = true
    | .error _ => ∀ shape, ∃ op ∈ inputs, shape_can_broadcast shape op = false := by
  rcases broadcast_input_shapes_spec hfixed.valid with ⟨⟨j, hclash⟩, herror⟩ | ⟨-, shape, hlen, hcolumn, hok⟩
  · rw [herror]
    exact not_common_of_clash hclash
  · rw [hok]
    have hlength := (undim_le_iff _ inputs).mp le_rfl
    constructor
    · intro op hop
      refine can_broadcast_iff.mpr ⟨hlen.symm ▸ hlength op hop, fun j s hs => ?_⟩
      obtain ⟨t, ht, hall, -⟩ := returned_axis hfixed hlen hcolumn ((lt_of_axis hs).trans_le (hlength op hop))
      rcases hall s (mem_lastAxis.mpr ⟨op, hop, hs⟩) with hone | rfl
      · exact .inl hone
      · exact .inr ht
    · intro other hother
      refine can_broadcast_iff.mpr ⟨?_, fun j s hs => ?_⟩
      · rw [hlen, undim_le_iff]
        exact fun op hop => (can_broadcast_iff.mp (hother op hop)).1
      · obtain ⟨t, ht, -, hfrom⟩ := returned_axis hfixed hlen hcolumn (hlen ▸ lt_of_axis hs)
        rw [hs, Option.some.injEq] at ht
        subst ht
        rcases hfrom with hone | hmem
        · exact .inl hone
        · obtain ⟨op, hop, hget⟩ := mem_lastAxis.mp hmem
          exact (can_broadcast_iff.mp (hother op hop)).2 j s hget

theorem least_common_shape_column_row :
    (∀ op ∈ [[3, 1], [4]], shape_can_broadcast [3, 4] op = true) ∧
      ∀ shape, (∀ op ∈ [[3, 1], [4]], shape_can_broadcast shape op = true) → shape_can_broadcast shape [3, 4] = true :=
  least_common_shape [[3, 1], [4]] (by unfold FixedSizes; decide)

end Dynd.BroadcastToShape
