import Mathlib.Tactic
/-!
# The proleptic Gregorian calendar

Leap years, lengths of years and months, and the number of a day, for all
integer years. The day numbers are sums of lengths; the closed form and the
order of dates are derived from the sums.
-/
namespace Dynd.Lib.Gregorian

def IsLeap (y : ℤ) : Prop := y % 4 = 0 ∧ (y % 100 ≠ 0 ∨ y % 400 = 0)

instance (y : ℤ) : Decidable (IsLeap y) := inferInstanceAs (Decidable (_ ∧ _))

def yearLength (y : ℤ) : ℤ := if IsLeap y then 366 else 365

def monthLength (y m : ℤ) : ℤ :=
  if m = 2 then if IsLeap y then 29 else 28
  else if m = 4 ∨ m = 6 ∨ m = 9 ∨ m = 11 then 30
  else 31

structure Valid (y m d : ℤ) : Prop where
  month : 1 ≤ m ∧ m ≤ 12
  day : 1 ≤ d ∧ d ≤ monthLength y m

/-- From the first day of year `a` to the first day of year `b`. -/
noncomputable def daysBetween (a b : ℤ) : ℤ := ∑ k ∈ Finset.Ico a b, yearLength k - ∑ k ∈ Finset.Ico b a, yearLength k

noncomputable def daysBeforeMonth (y m : ℤ) : ℤ := ∑ k ∈ Finset.Ico 1 m, monthLength y k

/-- The number of a day, where the first day of the year `epoch` is day 0. -/
noncomputable def dayNumber (epoch y m d : ℤ) : ℤ := daysBetween epoch y + daysBeforeMonth y m + (d - 1)

/-! ## Years -/

/-- The days before year `y`, counted from the first day of year 1. -/
def yearStart (y : ℤ) : ℤ := 365 * (y - 1) + (y - 1) / 4 - (y - 1) / 100 + (y - 1) / 400

theorem yearStart_succ (y : ℤ) : yearStart (y + 1) = yearStart y + yearLength y := by
  simp only [yearStart, yearLength, IsLeap]
  split_ifs with h <;> omega

theorem daysBetween_self (a : ℤ) : daysBetween a a = 0 := by
  rw [daysBetween, sub_self]

theorem daysBetween_up {a b : ℤ} (h : a ≤ b) : daysBetween a (b + 1) = daysBetween a b + yearLength b := by
  have hsum : ∑ k ∈ Finset.Ico a (b + 1), yearLength k = ∑ k ∈ Finset.Ico a b, yearLength k + yearLength b := by
    rw [← Finset.insert_Ico_right_eq_Ico_add_one h, Finset.sum_insert (by simp), add_comm]
  rw [daysBetween, daysBetween, hsum, Finset.Ico_eq_empty_of_le h, Finset.Ico_eq_empty_of_le (h.trans (Int.lt_add_one_iff.2 le_rfl).le)]
  simp

theorem daysBetween_down {a b : ℤ} (h : b ≤ a) : daysBetween a (b - 1) = daysBetween a b - yearLength (b - 1) := by
  have hsum : ∑ k ∈ Finset.Ico (b - 1) a, yearLength k = ∑ k ∈ Finset.Ico b a, yearLength k + yearLength (b - 1) := by
    have hinsert := Finset.insert_Ico_add_one_left_eq_Ico (a := b - 1) (b := a) (by omega)
    rw [← hinsert, Finset.sum_insert (by simp), add_comm, sub_add_cancel]
  have hlow : b - 1 ≤ a := by omega
  rw [daysBetween, daysBetween, hsum, Finset.Ico_eq_empty_of_le h, Finset.Ico_eq_empty_of_le hlow]
  simp only [Finset.sum_empty]
  ring

theorem daysBetween_eq (a b : ℤ) : daysBetween a b = yearStart b - yearStart a := by
  induction b using Int.inductionOn' (b := a) with
  | zero => rw [daysBetween_self, sub_self]
  | succ k hk ih =>
    rw [daysBetween_up hk, ih, yearStart_succ]
    ring
  | pred k hk ih =>
    have h := yearStart_succ (k - 1)
    rw [sub_add_cancel] at h
    rw [daysBetween_down hk, ih, h]
    ring

theorem yearStart_mono {a b : ℤ} (h : a ≤ b) : yearStart a ≤ yearStart b := by
  simp only [yearStart]
  omega

/-! ## Months -/

theorem monthLength_le (y m : ℤ) : monthLength y m ≤ 31 := by
  rw [monthLength]
  split_ifs <;> omega

theorem monthLength_pos (y m : ℤ) : 0 < monthLength y m := by
  rw [monthLength]
  split_ifs <;> omega

theorem daysBeforeMonth_succ (y : ℤ) {m : ℤ} (h : 1 ≤ m) :
    daysBeforeMonth y (m + 1) = daysBeforeMonth y m + monthLength y m := by
  rw [daysBeforeMonth, daysBeforeMonth, ← Finset.insert_Ico_right_eq_Ico_add_one h, Finset.sum_insert (by simp), add_comm]

theorem daysBeforeMonth_mono (y : ℤ) {m m' : ℤ} (h : m ≤ m') : daysBeforeMonth y m ≤ daysBeforeMonth y m' := by
  apply Finset.sum_le_sum_of_subset_of_nonneg (Finset.Ico_subset_Ico_right h)
  intro k _ _
  exact (monthLength_pos y k).le

/-- The months make up the year. -/
theorem daysBeforeMonth_year (y : ℤ) : daysBeforeMonth y 13 = yearLength y := by
  have hmonths : Finset.Ico (1 : ℤ) 13 = {1, 2, 3, 4, 5, 6, 7, 8, 9, 10, 11, 12} := by decide
  rw [daysBeforeMonth, hmonths]
  by_cases h : IsLeap y <;> simp [monthLength, yearLength, h]

/-! ## Dates -/

theorem Valid.day_nonneg {y m d : ℤ} (h : Valid y m d) : daysBeforeMonth y m ≤ daysBeforeMonth y m + (d - 1) := by
  have := h.day.1
  omega

/-- A date is before the first day of the next month. -/
theorem Valid.day_lt {y m d : ℤ} (h : Valid y m d) : daysBeforeMonth y m + (d - 1) < daysBeforeMonth y (m + 1) := by
  rw [daysBeforeMonth_succ y h.month.1]
  have := h.day.2
  omega

/-- A date is in its year. -/
theorem Valid.in_year {y m d : ℤ} (h : Valid y m d) :
    0 ≤ daysBeforeMonth y m + (d - 1) ∧ daysBeforeMonth y m + (d - 1) < yearLength y := by
  have h0 : daysBeforeMonth y 1 = 0 := by rw [daysBeforeMonth, Finset.Ico_self, Finset.sum_empty]
  have h1 := daysBeforeMonth_mono y h.month.1
  have h2 := @daysBeforeMonth_mono y (m + 1) 13 (by have := h.month.2; omega)
  have h3 := h.day_nonneg
  have h4 := h.day_lt
  rw [daysBeforeMonth_year] at h2
  omega

/-- Dates in their lexicographic order. -/
def Before (y m d y' m' d' : ℤ) : Prop := y < y' ∨ y = y' ∧ (m < m' ∨ m = m' ∧ d < d')

/-- A later date has a greater number. -/
theorem dayNumber_lt (epoch : ℤ) {y m d y' m' d' : ℤ} (h : Valid y m d) (h' : Valid y' m' d')
    (hlt : Before y m d y' m' d') : dayNumber epoch y m d < dayNumber epoch y' m' d' := by
  rw [dayNumber, dayNumber, daysBetween_eq, daysBetween_eq]
  rcases hlt with hy | ⟨rfl, hm | ⟨rfl, hd⟩⟩
  · have hnext := yearStart_mono (a := y + 1) (b := y') hy
    rw [yearStart_succ] at hnext
    have := h.in_year
    have := h'.in_year
    omega
  · have hnext := @daysBeforeMonth_mono y (m + 1) m' hm
    have := h.day_lt
    have := h'.day_nonneg
    omega
  · omega

/-- A number is the number of one date only. -/
theorem dayNumber_inj (epoch : ℤ) {y m d y' m' d' : ℤ} (h : Valid y m d) (h' : Valid y' m' d')
    (heq : dayNumber epoch y m d = dayNumber epoch y' m' d') : y = y' ∧ m = m' ∧ d = d' := by
  have hnot : ¬ Before y m d y' m' d' := fun hlt => (dayNumber_lt epoch h h' hlt).ne heq
  have hnot' : ¬ Before y' m' d' y m d := fun hlt => (dayNumber_lt epoch h' h hlt).ne' heq
  simp only [Before] at hnot hnot'
  omega

end Dynd.Lib.Gregorian
