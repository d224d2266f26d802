import Mathlib.Tactic
/-!
# Binary floating point formats

The magnitudes of a binary interchange format, as exact rationals, and rounding
to the nearest of them with ties to an even significand. The bit pattern after
the largest finite one counts as the value that follows it: what is nearest to it
overflows to infinity.
-/
namespace Dynd.Lib

/-- The fraction bits of a format and its exponent bias. -/
structure BinaryFormat where
  fraction : ℕ
  bias : ℕ

namespace BinaryFormat
variable (F : BinaryFormat)

/-- A subnormal number has no hidden bit. -/
def significand (n : ℕ) : ℕ := if n / 2 ^ F.fraction = 0 then n % 2 ^ F.fraction else 2 ^ F.fraction + n % 2 ^ F.fraction

/-- The exponent of the last place. -/
def lastPlace (n : ℕ) : ℤ := max ((n / 2 ^ F.fraction : ℕ) : ℤ) 1 - F.bias - F.fraction

/-- The number that the bits below the sign stand for. -/
def magnitude (n : ℕ) : ℚ := F.significand n * 2 ^ F.lastPlace n

variable {F}

theorem fields {e t : ℕ} (ht : t < 2 ^ F.fraction) :
    (e * 2 ^ F.fraction + t) / 2 ^ F.fraction = e ∧ (e * 2 ^ F.fraction + t) % 2 ^ F.fraction = t := by
  have hpos : 0 < 2 ^ F.fraction := by positivity
  constructor
  · rw [Nat.mul_comm, Nat.mul_add_div hpos, Nat.div_eq_of_lt ht, Nat.add_zero]
  · rw [Nat.mul_comm, Nat.mul_add_mod, Nat.mod_eq_of_lt ht]

theorem magnitude_normal {e t : ℕ} (he : e ≠ 0) (ht : t < 2 ^ F.fraction) :
    F.lastPlace (e * 2 ^ F.fraction + t) = (e : ℤ) - F.bias - F.fraction ∧
      F.magnitude (e * 2 ^ F.fraction + t) = (2 ^ F.fraction + t) * 2 ^ ((e : ℤ) - F.bias - F.fraction) := by
  obtain ⟨hdiv, hmod⟩ := fields (e := e) ht
  have hmax : max (e : ℤ) 1 = e := max_eq_left (by omega)
  have hplace : F.lastPlace (e * 2 ^ F.fraction + t) = (e : ℤ) - F.bias - F.fraction := by rw [lastPlace, hdiv, hmax]
  refine ⟨hplace, ?_⟩
  rw [magnitude, hplace, significand, hdiv, hmod, if_neg he]
  push_cast
  rfl

theorem magnitude_subnormal {t : ℕ} (ht : t < 2 ^ F.fraction) :
    F.lastPlace t = 1 - F.bias - F.fraction ∧ F.magnitude t = t * 2 ^ ((1 : ℤ) - F.bias - F.fraction) := by
  have hdiv : t / 2 ^ F.fraction = 0 := Nat.div_eq_of_lt ht
  have hplace : F.lastPlace t = 1 - F.bias - F.fraction := by
    rw [lastPlace, hdiv]
    rfl
  exact ⟨hplace, by rw [magnitude, hplace, significand, if_pos hdiv, Nat.mod_eq_of_lt ht]⟩

/-- The next magnitude is one unit in the last place away. -/
theorem magnitude_succ (n : ℕ) : F.magnitude (n + 1) = F.magnitude n + 2 ^ F.lastPlace n := by
  obtain ⟨e, t, ht, rfl⟩ : ∃ e t, t < 2 ^ F.fraction ∧ n = e * 2 ^ F.fraction + t :=
    ⟨n / 2 ^ F.fraction, n % 2 ^ F.fraction, Nat.mod_lt _ (by positivity), (Nat.div_add_mod' _ _).symm⟩
  by_cases hnext : t + 1 < 2 ^ F.fraction
  · by_cases he : e = 0
    · subst he
      simp only [Nat.zero_mul, Nat.zero_add]
      rw [(magnitude_subnormal hnext).2, (magnitude_subnormal ht).1, (magnitude_subnormal ht).2]
      push_cast
      ring
    · rw [Nat.add_assoc, (magnitude_normal he hnext).2, (magnitude_normal he ht).1, (magnitude_normal he ht).2]
      push_cast
      ring
  · -- the fraction is full: the next number starts the next exponent
    have hfull : t + 1 = 2 ^ F.fraction := by omega
    have hcarry : e * 2 ^ F.fraction + t + 1 = (e + 1) * 2 ^ F.fraction + 0 := by rw [Nat.add_assoc, hfull]; ring
    have hfullQ : (t : ℚ) = 2 ^ F.fraction - 1 := by
      rw [eq_sub_iff_add_eq]
      exact_mod_cast hfull
    rw [hcarry, (magnitude_normal (Nat.succ_ne_zero e) (by positivity)).2]
    by_cases he : e = 0
    · subst he
      simp only [Nat.zero_mul, Nat.zero_add]
      rw [(magnitude_subnormal ht).1, (magnitude_subnormal ht).2, hfullQ]
      push_cast
      ring
    · rw [(magnitude_normal he ht).1, (magnitude_normal he ht).2, hfullQ]
      have hexp : ((e + 1 : ℕ) : ℤ) - F.bias - F.fraction = (e - F.bias - F.fraction) + 1 := by push_cast; ring
      rw [hexp, zpow_add_one₀ (by norm_num)]
      push_cast
      ring

theorem magnitude_strictMono : StrictMono F.magnitude := by
  refine strictMono_nat_of_lt_succ fun n => ?_
  rw [magnitude_succ]
  exact lt_add_of_pos_right _ (by positivity)

theorem magnitude_zero : F.magnitude 0 = 0 := by
  rw [(magnitude_subnormal (by positivity)).2, Nat.cast_zero, zero_mul]

end BinaryFormat

/-! ## Rounding -/

/-- Of the values up to the place `top` none is nearer to `x` than the one at `m`, and one as near only if `m` is even. -/
def NearestEven (v : ℕ → ℚ) (top : ℕ) (x : ℚ) (m : ℕ) : Prop :=
  m ≤ top ∧ ∀ m' ≤ top, m' ≠ m → |x - v m| < |x - v m'| ∨ (|x - v m| = |x - v m'| ∧ m % 2 = 0)

theorem not_nearestEven {v : ℕ → ℚ} {top : ℕ} {x : ℚ} {m m' : ℕ} (hm' : m' ≤ top) (hcloser : |x - v m'| < |x - v m|) :
    ¬ NearestEven v top x m := by
  rintro ⟨-, h⟩
  have hne : m' ≠ m := by
    rintro rfl
    exact lt_irrefl _ hcloser
  rcases h m' hm' hne with hlt | ⟨heq, -⟩
  · exact lt_asymm hlt hcloser
  · exact absurd heq hcloser.ne'

section
variable {v : ℕ → ℚ} {top : ℕ} {x : ℚ} (hv : StrictMono v)
include hv

/-- Beyond the last value. -/
theorem nearestEven_top (hx : v top ≤ x) : NearestEven v top x top := by
  refine ⟨le_rfl, fun m' hm' hne => .inl ?_⟩
  have hlt : v m' < v top := hv (lt_of_le_of_ne hm' hne)
  rw [abs_of_nonneg (by linarith), abs_of_pos (by linarith)]
  linarith

/-- Between two neighbours, nothing else is as near as the nearer of them. -/
theorem farther {a m : ℕ} (hlo : v a ≤ x) (hhi : x ≤ v (a + 1)) (hm : m ≠ a) (hm' : m ≠ a + 1) :
    x - v a < |x - v m| ∨ v (a + 1) - x < |x - v m| := by
  rcases Nat.lt_or_ge m a with h | h
  · have hlt := hv h
    left
    rw [abs_of_pos (by linarith)]
    linarith
  · have hlt : v (a + 1) < v m := hv (by omega)
    right
    rw [abs_of_neg (by linarith)]
    linarith

theorem nearestEven_lower {a : ℕ} (hlo : v a ≤ x) (hhi : x ≤ v (a + 1)) (ha : a ≤ top)
    (h : x - v a < v (a + 1) - x ∨ (x - v a = v (a + 1) - x ∧ a % 2 = 0)) : NearestEven v top x a := by
  refine ⟨ha, fun m _ hne => ?_⟩
  rw [abs_of_nonneg (sub_nonneg.2 hlo)]
  by_cases hm : m = a + 1
  · rw [hm, abs_sub_comm, abs_of_nonneg (sub_nonneg.2 hhi)]
    exact h
  · left
    have hle : x - v a ≤ v (a + 1) - x := h.elim le_of_lt fun h => le_of_eq h.1
    rcases farther hv hlo hhi hne hm with hfar | hfar
    · exact hfar
    · exact hle.trans_lt hfar

theorem nearestEven_upper {a : ℕ} (hlo : v a ≤ x) (hhi : x ≤ v (a + 1)) (ha : a + 1 ≤ top)
    (h : v (a + 1) - x < x - v a ∨ (v (a + 1) - x = x - v a ∧ (a + 1) % 2 = 0)) : NearestEven v top x (a + 1) := by
  refine ⟨ha, fun m _ hne => ?_⟩
  rw [abs_sub_comm x (v (a + 1)), abs_of_nonneg (sub_nonneg.2 hhi)]
  by_cases hm : m = a
  · rw [hm, abs_of_nonneg (sub_nonneg.2 hlo)]
    exact h
  · left
    have hle : v (a + 1) - x ≤ x - v a := h.elim le_of_lt fun h => le_of_eq h.1
    rcases farther hv hlo hhi hm hne with hfar | hfar
    · exact hle.trans_lt hfar
    · exact hfar

end

/-- One if the remainder `r` of `2 ^ d` after the quotient `a` is rounded up. -/
def roundUp (a r d : ℕ) : ℕ := if 2 ^ d < 2 * r ∨ (2 * r = 2 ^ d ∧ a % 2 = 1) then 1 else 0

namespace BinaryFormat
variable {F : BinaryFormat} {top a r d : ℕ} {x : ℚ}

/-- A number that lies `r / 2 ^ d` of a last place beyond the magnitude of `a`. -/
structure Beyond (F : BinaryFormat) (x : ℚ) (a r d : ℕ) : Prop where
  eq : x = F.magnitude a + 2 ^ F.lastPlace a * (r / 2 ^ d)
  lt : r < 2 ^ d

theorem Beyond.between (h : Beyond F x a r d) : F.magnitude a ≤ x ∧ x ≤ F.magnitude (a + 1) := by
  have hu : (0 : ℚ) < 2 ^ F.lastPlace a := by positivity
  have hr : (r : ℚ) / 2 ^ d < 1 := by
    rw [div_lt_one (by positivity)]
    exact_mod_cast h.lt
  have hr0 : (0 : ℚ) ≤ r / 2 ^ d := by positivity
  rw [magnitude_succ, h.eq]
  constructor <;> nlinarith

/-- Twice the distance from the lower magnitude, against the distance between the two. -/
theorem Beyond.compare (h : Beyond F x a r d) :
    (x - F.magnitude a < F.magnitude (a + 1) - x ↔ 2 * r < 2 ^ d) ∧
      (x - F.magnitude a = F.magnitude (a + 1) - x ↔ 2 * r = 2 ^ d) := by
  have hu : (0 : ℚ) < 2 ^ F.lastPlace a := by positivity
  have hd : (0 : ℚ) < 2 ^ d := by positivity
  have hdiff : (F.magnitude (a + 1) - x) - (x - F.magnitude a) = 2 ^ F.lastPlace a / 2 ^ d * (2 ^ d - 2 * r) := by
    rw [magnitude_succ, h.eq]
    field_simp
    ring
  have hscale : (0 : ℚ) < 2 ^ F.lastPlace a / 2 ^ d := by positivity
  have hcast : ((2 * r : ℕ) : ℚ) = 2 * r ∧ ((2 ^ d : ℕ) : ℚ) = 2 ^ d := by
    constructor <;> push_cast <;> rfl
  constructor
  · rw [← sub_pos, hdiff, mul_pos_iff_of_pos_left hscale, sub_pos, ← hcast.1, ← hcast.2, Nat.cast_lt]
  · rw [← sub_eq_zero, ← neg_eq_zero, neg_sub, hdiff, mul_eq_zero, or_iff_right hscale.ne', sub_eq_zero, ← hcast.1,
      ← hcast.2, Nat.cast_inj, eq_comm]

/-- Rounding the remainder rounds the number. -/
theorem Beyond.nearestEven (h : Beyond F x a r d) (ha : a < top) : NearestEven F.magnitude top x (a + roundUp a r d) := by
  obtain ⟨hlo, hhi⟩ := h.between
  obtain ⟨hlt, heq⟩ := h.compare
  unfold roundUp
  split_ifs with hup
  · refine nearestEven_upper magnitude_strictMono hlo hhi ha ?_
    rcases hup with hup | ⟨htie, hodd⟩
    · left
      rcases lt_trichotomy (x - F.magnitude a) (F.magnitude (a + 1) - x) with hc | hc | hc
      · exact absurd (hlt.1 hc) (by omega)
      · exact absurd (heq.1 hc) (by omega)
      · exact hc
    · exact .inr ⟨(heq.2 htie).symm, by omega⟩
  · rw [not_or, not_and] at hup
    refine nearestEven_lower magnitude_strictMono hlo hhi ha.le ?_
    rcases Nat.lt_or_ge (2 * r) (2 ^ d) with hc | hc
    · exact .inl (hlt.2 hc)
    · have htie : 2 * r = 2 ^ d := by omega
      exact .inr ⟨heq.2 htie, by have := hup.2 htie; omega⟩

/-- Past the middle, the lower magnitude is not the nearest. -/
theorem Beyond.not_lower (h : Beyond F x a r d) (ha : a < top) (hup : 2 ^ d < 2 * r) : ¬ NearestEven F.magnitude top x a := by
  obtain ⟨hlo, hhi⟩ := h.between
  obtain ⟨hlt, heq⟩ := h.compare
  refine not_nearestEven (show a + 1 ≤ top from ha) ?_
  rw [abs_sub_comm, abs_of_nonneg (sub_nonneg.2 hhi), abs_of_nonneg (sub_nonneg.2 hlo)]
  rcases lt_trichotomy (x - F.magnitude a) (F.magnitude (a + 1) - x) with hc | hc | hc
  · exact absurd (hlt.1 hc) (by omega)
  · exact absurd (heq.1 hc) (by omega)
  · exact hc

end BinaryFormat

end Dynd.Lib
