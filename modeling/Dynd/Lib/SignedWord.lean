import Mathlib.Tactic
/-!
# Signed words

A signed word of `w` bits holds the integers from `-2 ^ (w - 1)` to
`2 ^ (w - 1) - 1`. An operation with another result overflows, and has none
here. A conversion takes the low bits.
-/
namespace Dynd.Lib

variable {v w : ℕ} {z : ℤ}

def InWord (w : ℕ) (z : ℤ) : Prop := -2 ^ (w - 1) ≤ z ∧ z < 2 ^ (w - 1)

instance (w : ℕ) (z : ℤ) : Decidable (InWord w z) := inferInstanceAs (Decidable (_ ∧ _))

/-- The result of a signed operation. -/
def signedWord (w : ℕ) (z : ℤ) : Option (BitVec w) := if InWord w z then some (BitVec.ofInt w z) else none

theorem inWord_toInt (x : BitVec w) : InWord w x.toInt := ⟨BitVec.le_toInt x, BitVec.toInt_lt⟩

theorem toInt_ofInt_of_inWord (hw : 0 < w) (h : InWord w z) : (BitVec.ofInt w z).toInt = z :=
  BitVec.toInt_ofInt_eq_self hw h.1 h.2

/-- The words and the integers they hold. -/
theorem inWord_iff (hw : 0 < w) : InWord w z ↔ ∃ x : BitVec w, x.toInt = z := by
  constructor
  · intro h
    exact ⟨BitVec.ofInt w z, toInt_ofInt_of_inWord hw h⟩
  · rintro ⟨x, rfl⟩
    exact inWord_toInt x

theorem signedWord_eq_some (hw : 0 < w) {x : BitVec w} : signedWord w z = some x ↔ x.toInt = z := by
  unfold signedWord
  split_ifs with h
  · rw [Option.some_inj, ← BitVec.toInt_inj, toInt_ofInt_of_inWord hw h]
    exact eq_comm
  · refine iff_of_false (fun hnone => by cases hnone) ?_
    rintro rfl
    exact h (inWord_toInt x)

theorem signedWord_of_inWord (h : InWord w z) : signedWord w z = some (BitVec.ofInt w z) := if_pos h

theorem signedWord_overflow (h : ¬ InWord w z) : signedWord w z = none := if_neg h

/-- A conversion keeps what fits. -/
theorem toInt_signExtend_of_inWord (hv : 0 < v) (x : BitVec w) (h : InWord v x.toInt) : (x.signExtend v).toInt = x.toInt := by
  rcases le_total w v with hwide | hnarrow
  · exact BitVec.toInt_signExtend_of_le hwide
  · rw [BitVec.toInt_signExtend_eq_toInt_bmod_of_le x hnarrow, ← BitVec.toInt_ofInt]
    exact toInt_ofInt_of_inWord hv h

theorem toInt_signExtend_eq_iff (hv : 0 < v) (x : BitVec w) : (x.signExtend v).toInt = x.toInt ↔ InWord v x.toInt := by
  constructor
  · intro h
    rw [← h]
    exact inWord_toInt _
  · exact toInt_signExtend_of_inWord hv x

theorem intMin_iff (hw : 0 < w) (x : BitVec w) : x = BitVec.intMin w ↔ x.toInt = -2 ^ (w - 1) := by
  rw [← BitVec.toInt_inj, BitVec.toInt_intMin_of_pos hw]

end Dynd.Lib
