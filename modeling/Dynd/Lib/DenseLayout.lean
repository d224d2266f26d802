import Mathlib.Tactic
/-!
# Dense layouts

A layout gives each axis a stride. It is dense along a list of the axes, the
innermost first, when each stride is what the axes before it take up. An axis
of at most one element has stride zero.
-/
namespace Dynd.Lib

section
variable {α : Type*} (size stride : α → ℤ)

/-- `unit` is what one step of the innermost axis takes up. -/
def DenseAlong : ℤ → List α → Prop
  | _, [] => True
  | unit, a :: axes => stride a = (if 1 < size a then unit else 0) ∧ DenseAlong (unit * size a) axes

variable {size stride}

theorem denseAlong_append {unit : ℤ} {axes axes' : List α} : DenseAlong size stride unit (axes ++ axes') ↔
    DenseAlong size stride unit axes ∧ DenseAlong size stride (unit * (axes.map size).prod) axes' := by
  induction axes generalizing unit with
  | nil => simp [DenseAlong]
  | cons a axes ih => rw [List.cons_append, DenseAlong, DenseAlong, ih, List.map_cons, List.prod_cons, mul_assoc, and_assoc]

theorem DenseAlong.congr {size' stride' : α → ℤ} {unit : ℤ} {axes : List α}
    (h : ∀ a ∈ axes, size' a = size a ∧ stride' a = stride a) (hd : DenseAlong size stride unit axes) :
    DenseAlong size' stride' unit axes := by
  induction axes generalizing unit with
  | nil => trivial
  | cons a axes ih =>
    obtain ⟨hsize, hstride⟩ := h a List.mem_cons_self
    rw [DenseAlong, hsize, hstride]
    exact ⟨hd.1, ih (fun b hb => h b (List.mem_cons_of_mem a hb)) hd.2⟩

theorem denseAlong_map {β : Type*} {f : β → α} {unit : ℤ} {axes : List β} :
    DenseAlong size stride unit (axes.map f) ↔ DenseAlong (size ∘ f) (stride ∘ f) unit axes := by
  induction axes generalizing unit with
  | nil => exact Iff.rfl
  | cons a axes ih => exact and_congr_right fun _ => ih

theorem DenseAlong.eq_zero {axes : List α} (hd : DenseAlong size stride 0 axes) {a : α} (ha : a ∈ axes) : stride a = 0 := by
  induction axes with
  | nil => cases ha
  | cons b axes ih =>
    obtain ⟨hb, hrest⟩ := hd
    rw [zero_mul] at hrest
    rcases List.mem_cons.1 ha with rfl | ha
    · rwa [ite_self] at hb
    · exact ih hrest ha

section
variable {unit : ℤ} {axes : List α} (hsize : ∀ a, 0 ≤ size a)
include hsize

theorem DenseAlong.unit_le (hu : 0 ≤ unit) (hd : DenseAlong size stride unit axes) {a : α} (ha : a ∈ axes)
    (hne : stride a ≠ 0) : unit ≤ stride a := by
  induction axes generalizing unit with
  | nil => cases ha
  | cons b axes ih =>
    obtain ⟨hb, hrest⟩ := hd
    rcases List.mem_cons.1 ha with rfl | ha
    · split_ifs at hb with hlong
      · exact hb.ge
      · exact absurd hb hne
    · have hle := ih (mul_nonneg hu (hsize b)) hrest ha
      rcases (hsize b).eq_or_lt with h0 | hpos
      · -- an axis without elements leaves nothing for the axes around it
        rw [← h0, mul_zero] at hrest
        exact absurd (hrest.eq_zero ha) hne
      · exact (le_mul_of_one_le_right hu hpos).trans hle

/-- The strides grow along the axes, those that are zero apart. -/
theorem DenseAlong.increasing (hu : 0 ≤ unit) (hd : DenseAlong size stride unit axes) :
    axes.Pairwise fun a b => stride a ≠ 0 → stride b ≠ 0 → stride a < stride b := by
  induction axes generalizing unit with
  | nil => exact List.Pairwise.nil
  | cons a axes ih =>
    obtain ⟨ha, hrest⟩ := hd
    have hunit := mul_nonneg hu (hsize a)
    refine List.pairwise_cons.2 ⟨fun b hb hane hbne => ?_, ih hunit hrest⟩
    have hle := hrest.unit_le hsize hunit hb hbne
    split_ifs at ha with hlong
    · have hpos : 0 < unit := lt_of_le_of_ne hu (ha ▸ hane.symm)
      have := lt_mul_of_one_lt_right hpos hlong
      omega
    · exact absurd ha hane

end
end

/-- Of two members of a list one comes first. -/
theorem pairwise_either {α : Type*} {R : α → α → Prop} {l : List α} (h : l.Pairwise R) {a b : α} (ha : a ∈ l) (hb : b ∈ l)
    (hne : a ≠ b) : R a b ∨ R b a := by
  have : Std.Symm fun a b => R a b ∨ R b a := ⟨fun _ _ => Or.symm⟩
  have hor : l.Pairwise fun a b => R a b ∨ R b a := h.imp Or.inl
  exact hor.forall ha hb hne

end Dynd.Lib
