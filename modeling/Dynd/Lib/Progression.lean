import Mathlib.Data.List.Sort
import Mathlib.Tactic
/-!
# Arithmetic progressions of indices

The terms `a, a + d, a + 2d, …` as a list, and the indices of `[0, n)` that
lie between two bounds and have the remainder of `a` modulo `d`. In the
direction of `d` the two are the same list, with as many terms as the ceiling
of the distance over `|d|`.
-/
namespace Dynd.Lib

/-- The `k` terms from `a` on with difference `d`. -/
def progression (a d : ℤ) (k : ℕ) : List ℤ := (List.range k).map fun i : ℕ => a + i * d

/-- The integers `0, …, n - 1`. -/
def indices (n : ℕ) : List ℤ := (List.range n).map fun i : ℕ => (i : ℤ)

@[simp] theorem length_progression (a d : ℤ) (k : ℕ) : (progression a d k).length = k := by
  rw [progression, List.length_map, List.length_range]

@[simp] theorem length_indices (n : ℕ) : (indices n).length = n := by
  rw [indices, List.length_map, List.length_range]

theorem mem_progression {a d x : ℤ} {k : ℕ} : x ∈ progression a d k ↔ ∃ i : ℕ, i < k ∧ x = a + i * d := by
  simp only [progression, List.mem_map, List.mem_range]
  constructor
  · rintro ⟨i, hi, rfl⟩
    exact ⟨i, hi, rfl⟩
  · rintro ⟨i, hi, rfl⟩
    exact ⟨i, hi, rfl⟩

theorem getD_progression {a d : ℤ} {k i : ℕ} (hi : i < k) : (progression a d k).getD i 0 = a + i * d := by
  rw [progression, List.getD_eq_getElem?_getD, List.getElem?_map, List.getElem?_range hi]
  rfl

theorem mem_indices {x : ℤ} {n : ℕ} : x ∈ indices n ↔ 0 ≤ x ∧ x < n := by
  simp only [indices, List.mem_map, List.mem_range]
  constructor
  · rintro ⟨i, hi, rfl⟩
    omega
  · rintro ⟨h0, hn⟩
    exact ⟨x.toNat, by omega, by omega⟩

theorem pairwise_indices (n : ℕ) : (indices n).Pairwise (· < ·) := by
  refine List.Pairwise.map _ (fun i j hij => ?_) List.pairwise_lt_range
  exact_mod_cast hij

theorem progression_increasing {a d : ℤ} (hd : 0 < d) (k : ℕ) : (progression a d k).Pairwise (· < ·) := by
  refine List.Pairwise.map _ (fun i j hij => ?_) List.pairwise_lt_range
  have hij' : (i : ℤ) < j := by exact_mod_cast hij
  have := mul_lt_mul_of_pos_right hij' hd
  omega

theorem progression_decreasing {a d : ℤ} (hd : d < 0) (k : ℕ) : (progression a d k).Pairwise (· > ·) := by
  refine List.Pairwise.map _ (fun i j hij => ?_) List.pairwise_lt_range
  have hij' : (i : ℤ) < j := by exact_mod_cast hij
  have := mul_lt_mul_of_neg_right hij' hd
  omega

/-- How many steps of `d` fit below `s`: its ceiling over `d`. -/
theorem lt_ceil_iff {s d : ℤ} (hd : 0 < d) (i : ℕ) : i < ((s + d - 1) / d).toNat ↔ i * d < s := by
  have h1 : (i : ℤ) + 1 ≤ (s + d - 1) / d ↔ ((i : ℤ) + 1) * d ≤ s + d - 1 := Int.le_ediv_iff_mul_le hd
  have h2 : ((i : ℤ) + 1) * d = i * d + d := by ring
  omega

/-- The indices from `a` up to `b` in steps of `d`. -/
theorem increasing_eq_progression {a b d : ℤ} {n : ℕ} (hd : 0 < d) (ha : 0 ≤ a) (hb : b ≤ n) :
    (indices n).filter (fun x => a ≤ x ∧ x < b ∧ d ∣ x - a) = progression a d ((b - a + d - 1) / d).toNat := by
  refine ((pairwise_indices n).filter _).eq_of_mem_iff (progression_increasing hd _) fun x => ?_
  simp only [List.mem_filter, mem_indices, mem_progression, lt_ceil_iff hd, decide_eq_true_eq]
  constructor
  · rintro ⟨-, hax, hxb, c, hc⟩
    have hc0 : 0 ≤ c := by
      by_contra hneg
      have : d * c < 0 := mul_neg_of_pos_of_neg hd (by omega)
      omega
    have hcast : ((c.toNat : ℕ) : ℤ) = c := Int.toNat_of_nonneg hc0
    refine ⟨c.toNat, ?_, ?_⟩ <;> rw [hcast, mul_comm] <;> omega
  · rintro ⟨i, hi, rfl⟩
    have h0 : 0 ≤ (i : ℤ) * d := mul_nonneg (by omega) hd.le
    exact ⟨⟨by omega, by omega⟩, by omega, by omega, Dvd.intro_left (i : ℤ) (by ring)⟩

/-- The indices from `a` down to `b` in steps of `d`. -/
theorem decreasing_eq_progression {a b d : ℤ} {n : ℕ} (hd : d < 0) (ha : a < n) (hb : -1 ≤ b) :
    ((indices n).filter (fun x => b < x ∧ x ≤ a ∧ d ∣ x - a)).reverse =
      progression a d ((a - b + -d - 1) / -d).toNat := by
  have hdec : ((indices n).filter (fun x => b < x ∧ x ≤ a ∧ d ∣ x - a)).reverse.Pairwise (· > ·) :=
    List.pairwise_reverse.2 ((pairwise_indices n).filter _)
  refine hdec.eq_of_mem_iff (progression_decreasing hd _) fun x => ?_
  simp only [List.mem_reverse, List.mem_filter, mem_indices, mem_progression, lt_ceil_iff (neg_pos.2 hd),
    decide_eq_true_eq]
  constructor
  · rintro ⟨-, hbx, hxa, c, hc⟩
    have hc0 : 0 ≤ c := by
      by_contra hneg
      have : 0 < d * c := mul_pos_of_neg_of_neg hd (by omega)
      omega
    have hcast : ((c.toNat : ℕ) : ℤ) = c := Int.toNat_of_nonneg hc0
    have hneg : c * -d = -(d * c) := by ring
    refine ⟨c.toNat, ?_, ?_⟩
    · rw [hcast, hneg]
      omega
    · rw [hcast, mul_comm]
      omega
  · rintro ⟨i, hi, rfl⟩
    have h0 : (i : ℤ) * d ≤ 0 := mul_nonpos_of_nonneg_of_nonpos (by omega) hd.le
    have hneg : (i : ℤ) * -d = -(i * d) := by ring
    exact ⟨⟨by omega, by omega⟩, by omega, by omega, Dvd.intro_left (i : ℤ) (by ring)⟩

@[simp] theorem progression_zero (a d : ℤ) : progression a d 0 = [] := rfl

@[simp] theorem progression_one (a d : ℤ) : progression a d 1 = [a] := by
  simp [progression]

end Dynd.Lib
