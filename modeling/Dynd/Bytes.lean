import Mathlib.Tactic
/-!
# Bytes and character ranges

The parsers read a `char` range `[begin, end)`. Here a range is the list of
its bytes, and a parser that moves `begin` forward returns what is left of
it. The character tests are those of the source: a `char` at 128 and above is
negative there and fails every one of them.
-/
namespace Dynd

/-- The byte of an ASCII character literal. -/
abbrev ch (c : Char) : UInt8 := c.toUInt8

/-- `'0' <= c && c <= '9'`. -/
def isDigit (c : UInt8) : Bool := ch '0' ≤ c && c ≤ ch '9'

/-- `isspace` in the C locale. -/
def isspace (c : UInt8) : Bool := c = ch ' ' || (9 ≤ c && c ≤ 13)

/-- The byte of a decimal digit. -/
def digitByte (d : Fin 10) : UInt8 := UInt8.ofNat (48 + d)

theorem digitByte_toNat (d : Fin 10) : (digitByte d).toNat = 48 + d := by
  fin_cases d <;> rfl

@[simp] theorem isDigit_digitByte (d : Fin 10) : isDigit (digitByte d) = true := by
  fin_cases d <;> rfl

/-- A digit is the byte of its value. -/
theorem exists_digitByte {c : UInt8} (h : isDigit c = true) : ∃ d : Fin 10, c = digitByte d := by
  simp only [isDigit, Bool.and_eq_true, decide_eq_true_eq, UInt8.le_iff_toNat_le] at h
  have h1 : (ch '0').toNat = 48 := rfl
  have h2 : (ch '9').toNat = 57 := rfl
  refine ⟨⟨c.toNat - 48, by omega⟩, ?_⟩
  apply UInt8.toNat_inj.1
  rw [digitByte_toNat]
  simp only
  omega

/-- The bytes of a string of digits. -/
def digitBytes (ds : List (Fin 10)) : List UInt8 := ds.map digitByte

end Dynd
