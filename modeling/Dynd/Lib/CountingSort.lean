import Mathlib.Data.List.Basic
import Mathlib.Tactic
/-!
# Counting sort

The items `0 .. n - 1` have codes. The items of one code come behind the items
of all smaller codes, in their original order: what stands where is known from
the counts alone.
-/
namespace Dynd.Lib

variable {code : ℕ → ℕ} {n m g h i j k : ℕ}

/-- How many of the first `n` items have a code below `g`. -/
def below (code : ℕ → ℕ) (n g : ℕ) : ℕ := (List.range n).countP fun i => code i < g

/-- How many of the first `n` items have the code `g`. -/
def same (code : ℕ → ℕ) (n g : ℕ) : ℕ := (List.range n).countP fun i => code i = g

/-- The items of code `g`, in order. -/
def positions (code : ℕ → ℕ) (n g : ℕ) : List ℕ := (List.range n).filter fun i => code i = g

/-- Where the item `i` of `n` goes. -/
def slot (code : ℕ → ℕ) (n i : ℕ) : ℕ := below code n (code i) + same code i (code i)

@[simp] theorem same_zero : same code 0 g = 0 := rfl

theorem same_succ : same code (n + 1) g = same code n g + if code n = g then 1 else 0 := by
  simp only [same, List.range_succ, List.countP_append, List.countP_cons, List.countP_nil, decide_eq_true_eq, zero_add]

theorem same_succ_self : same code (n + 1) (code n) = same code n (code n) + 1 := by
  rw [same_succ, if_pos rfl]

theorem same_mono (hle : m ≤ n) : same code m g ≤ same code n g :=
  List.Sublist.countP_le (List.range_sublist.mpr hle)

@[simp] theorem below_zero : below code n 0 = 0 := by
  simp [below]

theorem below_succ (n g : ℕ) : below code n (g + 1) = below code n g + same code n g := by
  induction n with
  | zero => rfl
  | succ n ih =>
    simp only [below, same, List.range_succ, List.countP_append, List.countP_cons, List.countP_nil, decide_eq_true_eq,
      zero_add] at ih ⊢
    rw [ih]
    rcases lt_trichotomy (code n) g with hlt | heq | hgt
    · rw [if_pos (by omega), if_pos hlt, if_neg (by omega)]
      omega
    · rw [if_pos (by omega), if_neg (by omega), if_pos heq]
      omega
    · rw [if_neg (by omega), if_neg (by omega), if_neg (by omega)]
      rfl

theorem below_mono (hle : g ≤ h) : below code n g ≤ below code n h := by
  induction h, hle using Nat.le_induction with
  | base => exact le_rfl
  | succ h _ ih =>
    rw [below_succ]
    omega

theorem length_positions : (positions code n g).length = same code n g := List.countP_eq_length_filter.symm

theorem positions_succ : positions code (n + 1) g = positions code n g ++ if code n = g then [n] else [] := by
  rw [positions, positions, List.range_succ, List.filter_append, List.filter_singleton]
  by_cases hg : code n = g
  · rw [if_pos hg, decide_eq_true hg]
    rfl
  · rw [if_neg hg, decide_eq_false hg]
    rfl

theorem mem_positions : i ∈ positions code n g ↔ i < n ∧ code i = g := by
  rw [positions, List.mem_filter, List.mem_range, decide_eq_true_eq]

/-- An item is found where the items of its code before it end. -/
theorem positions_same (hi : i < n) : (positions code n (code i))[same code i (code i)]? = some i := by
  induction n with
  | zero => exact absurd hi (Nat.not_lt_zero i)
  | succ n ih =>
    rw [positions_succ]
    rcases Nat.lt_succ_iff_lt_or_eq.mp hi with hlt | rfl
    · have hfound := ih hlt
      have hbound := (List.getElem?_eq_some_iff.mp hfound).1
      rw [List.getElem?_append_left hbound, hfound]
    · rw [if_pos rfl, List.getElem?_append_right (by rw [length_positions]), length_positions, Nat.sub_self]
      rfl

/-- Every item is in one place of one code. -/
theorem position_unique (hi : i < n) : (positions code n g)[k]? = some i ↔ g = code i ∧ k = same code i (code i) := by
  constructor
  · intro h
    obtain ⟨hk, hget⟩ := List.getElem?_eq_some_iff.mp h
    have hmem : i ∈ positions code n g := hget ▸ List.getElem_mem hk
    obtain ⟨-, rfl⟩ := mem_positions.mp hmem
    have hnodup : (positions code n (code i)).Nodup := List.Nodup.filter _ List.nodup_range
    exact ⟨rfl, hnodup.getElem_inj_iff.mp (Option.some.inj (by
      rw [← List.getElem?_eq_getElem hk, ← List.getElem?_eq_getElem (List.getElem?_eq_some_iff.mp (positions_same hi)).1, h,
        positions_same hi]))⟩
  · rintro ⟨rfl, rfl⟩
    exact positions_same hi

/-- An item stands behind those before it that have its code. -/
theorem same_lt (hi : i < n) : same code i (code i) < same code n (code i) := by
  have hle : same code (i + 1) (code i) ≤ same code n (code i) := same_mono hi
  rw [same_succ_self] at hle
  omega

theorem slot_lt_of_code_lt (hi : i < n) (hlt : code i < code j) : slot code n i < slot code n j := by
  have hnext : below code n (code i + 1) ≤ below code n (code j) := below_mono hlt
  have hin : same code i (code i) < same code n (code i) := same_lt hi
  rw [below_succ] at hnext
  unfold slot
  omega

theorem slot_lt_of_same (hlt : i < j) (heq : code i = code j) : slot code n i < slot code n j := by
  have hbefore : same code i (code i) < same code j (code i) := same_lt hlt
  unfold slot
  rw [← heq]
  omega

/-- Different items go to different places. -/
theorem slot_ne (hi : i < n) (hj : j < n) (hne : i ≠ j) : slot code n i ≠ slot code n j := by
  rcases lt_trichotomy (code i) (code j) with hlt | heq | hgt
  · exact (slot_lt_of_code_lt hi hlt).ne
  · rcases lt_or_gt_of_ne hne with hlt | hgt
    · exact (slot_lt_of_same hlt heq).ne
    · exact (slot_lt_of_same hgt heq.symm).ne'
  · exact (slot_lt_of_code_lt hj hgt).ne'

end Dynd.Lib
