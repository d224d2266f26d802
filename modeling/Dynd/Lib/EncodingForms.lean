import Mathlib.Tactic
/-!
# Encoding forms

How a character is written in 16-bit and in 32-bit units, low byte first, and
what the numbers in the units say about the character.
-/
namespace Dynd.Lib

/-- A unit of 16 bits, low byte first. -/
def le16 (n : ℕ) : List UInt8 := [UInt8.ofNat n, UInt8.ofNat (n / 256)]

/-- A unit of 32 bits, low byte first. -/
def le32 (n : ℕ) : List UInt8 := le16 n ++ le16 (n / 65536)

def leadSurrogate (n : ℕ) : ℕ := 0xd800 + (n - 0x10000) / 1024

def trailSurrogate (n : ℕ) : ℕ := 0xdc00 + (n - 0x10000) % 1024

/-- The character in UTF-16: one unit, or a surrogate pair. -/
def utf16Char (c : Char) : List UInt8 :=
  if c.toNat < 0x10000 then le16 c.toNat else le16 (leadSurrogate c.toNat) ++ le16 (trailSurrogate c.toNat)

@[simp] theorem length_le16 (n : ℕ) : (le16 n).length = 2 := rfl

@[simp] theorem length_le32 (n : ℕ) : (le32 n).length = 4 := rfl

theorem length_utf16Char (c : Char) : (utf16Char c).length = if c.toNat < 0x10000 then 2 else 4 := by
  unfold utf16Char
  split_ifs <;> rfl

/-- A scalar value is below the end of the code space and no surrogate. -/
theorem scalar_bounds (c : Char) : c.toNat < 0x110000 ∧ ¬ (0xd800 ≤ c.toNat ∧ c.toNat ≤ 0xdfff) := by
  have h : c.val.toNat.isValidChar := c.valid
  unfold Nat.isValidChar at h
  have hc : c.toNat = c.val.toNat := rfl
  omega

section
variable {n : ℕ} (hlo : 0x10000 ≤ n) (hhi : n < 0x110000)
include hlo hhi

theorem leadSurrogate_range : 0xd800 ≤ leadSurrogate n ∧ leadSurrogate n ≤ 0xdbff := by
  unfold leadSurrogate
  omega

omit hlo hhi in
theorem trailSurrogate_range (n : ℕ) : 0xdc00 ≤ trailSurrogate n ∧ trailSurrogate n ≤ 0xdfff := by
  unfold trailSurrogate
  omega

/-- A surrogate pair says which character it stands for. -/
theorem surrogates_value : leadSurrogate n * 1024 + trailSurrogate n = n + 0xd800 * 1024 + 0xdc00 - 0x10000 := by
  unfold leadSurrogate trailSurrogate
  omega

theorem leadSurrogate_eq : leadSurrogate n = n / 1024 + 0xd7c0 := by
  unfold leadSurrogate
  omega

omit hhi in
theorem trailSurrogate_eq : trailSurrogate n = n % 1024 + 0xdc00 := by
  unfold trailSurrogate
  omega

end

/-- The two bytes of a unit hold its number. -/
theorem le16_value {n : ℕ} (h : n < 65536) : (UInt8.ofNat n).toNat + (UInt8.ofNat (n / 256)).toNat * 256 = n := by
  rw [UInt8.toNat_ofNat', UInt8.toNat_ofNat']
  omega

end Dynd.Lib
