import Dynd.Bytes
import Dynd.UInt128
import Dynd.Lib.Horner
/-!
# Printing integers

`print_builtin_scalar` sends integers of up to 64 bits to an output stream,
and the 128-bit ones through dynd's own digit loop over two 64-bit halves. All
of them come out as `intText`.
-/
namespace Dynd
open Lib

/-! ## Decimal text -/

/-- The decimal digits of a number: no leading zero unless the number is zero. -/
def decimalDigits (n : ℕ) : List (Fin 10) :=
  if n < 10 then [Fin.ofNat 10 n] else decimalDigits (n / 10) ++ [Fin.ofNat 10 n]

/-- What an output stream writes for an unsigned integer. -/
def decimal (n : ℕ) : List UInt8 := digitBytes (decimalDigits n)

/-- What an output stream writes for an integer. -/
def intText (z : ℤ) : List UInt8 := if z < 0 then ch '-' :: decimal z.natAbs else decimal z.natAbs

theorem decimalDigits_step {n : ℕ} (h : 10 ≤ n) : decimalDigits n = decimalDigits (n / 10) ++ [Fin.ofNat 10 n] := by
  rw [decimalDigits, if_neg (by omega)]

theorem decimalDigits_digit {n : ℕ} (h : n < 10) : decimalDigits n = [Fin.ofNat 10 n] := by
  rw [decimalDigits, if_pos h]

theorem decimalDigits_ne_nil (n : ℕ) : decimalDigits n ≠ [] := by
  rw [decimalDigits]
  split_ifs <;> simp

theorem horner_decimalDigits (n : ℕ) : horner 10 0 ((decimalDigits n).map Fin.val) = n := by
  induction n using Nat.strong_induction_on with
  | _ n ih =>
    rcases Nat.lt_or_ge n 10 with hn | hn
    · rw [decimalDigits_digit hn]
      simp [Nat.mod_eq_of_lt hn]
    · rw [decimalDigits_step hn, List.map_append, horner_append, ih (n / 10) (by omega)]
      simp only [List.map_cons, List.map_nil, horner_cons, horner_nil, Fin.val_ofNat]
      omega

/-- Either `0`, or digits that do not start with it. -/
theorem decimalDigits_head (n : ℕ) : decimalDigits n = [0] ∨ ∃ d ds, decimalDigits n = d :: ds ∧ d ≠ 0 := by
  induction n using Nat.strong_induction_on with
  | _ n ih =>
    rcases Nat.lt_or_ge n 10 with hn | hn
    · rw [decimalDigits_digit hn]
      rcases Nat.eq_zero_or_pos n with rfl | hpos
      · exact .inl rfl
      · refine .inr ⟨_, [], rfl, ?_⟩
        intro h
        have := congrArg Fin.val h
        simp only [Fin.val_ofNat, Nat.mod_eq_of_lt hn, Fin.val_zero] at this
        omega
    · right
      rw [decimalDigits_step hn]
      rcases ih (n / 10) (by omega) with h | ⟨d, ds, h, hd⟩
      · have := horner_decimalDigits (n / 10)
        rw [h] at this
        simp only [List.map_cons, List.map_nil, horner_cons, horner_nil, Fin.val_zero] at this
        omega
      · exact ⟨d, ds ++ [Fin.ofNat 10 n], by rw [h, List.cons_append], hd⟩

/-! ## The 128-bit integers -/

namespace UInt128

/-- The two halves in memory. -/
def ofBitVec (x : BitVec 128) : UInt128 :=
  ⟨UInt64.ofBitVec (x.setWidth 64), UInt64.ofBitVec ((x >>> 64).setWidth 64)⟩

/-- `uint128::divrem`: the quotient, and the remainder. -/
def divrem (x : UInt128) (rhs : UInt32) : UInt128 × UInt32 :=
  -- Split the division into three
  let hi_div := x.m_hi / rhs.toUInt64
  let hi_rem := x.m_hi % rhs.toUInt64
  let mid_val := (hi_rem <<< 32) ||| (x.m_lo >>> 32)
  let mid_div := mid_val / rhs.toUInt64
  let mid_rem := mid_val % rhs.toUInt64
  let low_val := (mid_rem <<< 32) ||| (x.m_lo &&& 0x00000000ffffffff)
  let low_div := low_val / rhs.toUInt64
  (⟨(mid_div <<< 32) ||| low_div, hi_div⟩, (low_val % rhs.toUInt64).toUInt32)

/-- `int128::operator-()`: two's complement negation. -/
def neg (x : UInt128) : UInt128 :=
  let lo := ~~~x.m_lo
  let hi := ~~~x.m_hi
  let lo_p1 := lo + 1
  ⟨lo_p1, hi + carry (lo_p1 < lo)⟩

/-- `val < int128(0)`. -/
def isNegative (val : UInt128) : Bool := val.m_hi.toInt64 < 0

/-- `do { … } while (tmp != uint128(0ULL))`: the digits are written in front of each other. -/
def digitLoop : ℕ → UInt128 → List UInt8 → List UInt8
  | 0, _, buffer => buffer
  | n + 1, tmp, buffer =>
    let (tmp, digit) := tmp.divrem 10
    let buffer := (digit.toUInt8 + ch '0') :: buffer
    if tmp ≠ ofUInt64 0 then digitLoop n tmp buffer else buffer

/-- `operator<<(ostream &, const uint128 &)`: the buffer has room for 40 bytes. -/
def print (val : UInt128) : List UInt8 :=
  if val = ofUInt64 0 then [ch '0'] else digitLoop 40 val []

/-- `operator<<(ostream &, const int128 &)`. -/
def printSigned (val : UInt128) : List UInt8 :=
  if val.isNegative then ch '-' :: print val.neg else print val

theorem toNat_ofBitVec (x : BitVec 128) : (ofBitVec x).toNat = x.toNat := by
  have := x.isLt
  have e1 : (ofBitVec x).m_lo.toNat = x.toNat % 2 ^ 64 := by
    simp [ofBitVec]
  have e2 : (ofBitVec x).m_hi.toNat = x.toNat / 2 ^ 64 := by
    simp only [ofBitVec, UInt64.toNat_ofBitVec, BitVec.toNat_setWidth, BitVec.toNat_ushiftRight,
      Nat.shiftRight_eq_div_pow]
    omega
  rw [toNat, e1, e2]
  omega

/-- A half shifted up, and a half below it. -/
theorem join_halves {a b : UInt64} (ha : a.toNat < 2 ^ 32) (hb : b.toNat < 2 ^ 32) :
    ((a <<< 32) ||| b).toNat = 2 ^ 32 * a.toNat + b.toNat := by
  have e : (32 : UInt64).toNat % 64 = 32 := rfl
  rw [UInt64.toNat_or, UInt64.toNat_shiftLeft, e, Nat.mod_eq_of_lt (by rw [Nat.shiftLeft_eq]; omega),
    ← Nat.shiftLeft_add_eq_or_of_lt hb, Nat.shiftLeft_eq, Nat.mul_comm]

/-- Long division in base `2 ^ 32`: each remainder is carried into the next digit. -/
theorem divrem_spec (x : UInt128) {rhs : UInt32} (hrhs : rhs ≠ 0) :
    (x.divrem rhs).1.toNat = x.toNat / rhs.toNat ∧ (x.divrem rhs).2.toNat = x.toNat % rhs.toNat := by
  have h1 := x.m_lo.toNat_lt
  have h2 := x.m_hi.toNat_lt
  have hr := rhs.toNat_lt
  have hpos : 0 < rhs.toNat := Nat.pos_of_ne_zero fun h => hrhs (UInt32.toNat_inj.1 h)
  have e : (32 : UInt64).toNat % 64 = 32 := rfl
  have up : (x.m_lo >>> 32).toNat = x.m_lo.toNat / 2 ^ 32 := by
    rw [UInt64.toNat_shiftRight, e, Nat.shiftRight_eq_div_pow]
  have down := low_half x.m_lo
  have rem : ∀ y : UInt64, (y % rhs.toUInt64).toNat = y.toNat % rhs.toNat := fun y => UInt64.toNat_mod _ _
  have quot : ∀ y : UInt64, (y / rhs.toUInt64).toNat = y.toNat / rhs.toNat := fun y => UInt64.toNat_div _ _
  have rem_lt : ∀ y : ℕ, y % rhs.toNat < rhs.toNat := fun y => Nat.mod_lt y hpos
  have split : ∀ y : ℕ, rhs.toNat * (y / rhs.toNat) + y % rhs.toNat = y := fun y => Nat.div_add_mod y _
  have hi_lt := rem_lt x.m_hi.toNat
  have mid_val := join_halves (a := x.m_hi % rhs.toUInt64) (b := x.m_lo >>> 32) (by rw [rem]; omega) (by omega)
  generalize hmid : (x.m_hi % rhs.toUInt64) <<< 32 ||| x.m_lo >>> 32 = mid at mid_val
  have mid_lt := rem_lt mid.toNat
  have low_val := join_halves (a := mid % rhs.toUInt64) (b := x.m_lo &&& 0x00000000ffffffff) (by rw [rem]; omega) (by omega)
  generalize hlow : (mid % rhs.toUInt64) <<< 32 ||| (x.m_lo &&& 0x00000000ffffffff) = low at low_val
  rw [rem, up] at mid_val
  rw [rem, down] at low_val
  have mid_div : mid.toNat / rhs.toNat < 2 ^ 32 := Nat.div_lt_of_lt_mul (by omega)
  have low_div : low.toNat / rhs.toNat < 2 ^ 32 := Nat.div_lt_of_lt_mul (by omega)
  have out := join_halves (a := mid / rhs.toUInt64) (b := low / rhs.toUInt64) (by rw [quot]; omega) (by rw [quot]; omega)
  rw [quot, quot] at out
  have low_rem : ((low % rhs.toUInt64).toUInt32).toNat = low.toNat % rhs.toNat := by
    rw [UInt64.toNat_toUInt32, rem]
    exact Nat.mod_eq_of_lt ((rem_lt _).trans hr)
  simp only [divrem, hmid, hlow, toNat, out, low_rem, quot]
  -- the digits of the quotient and the last remainder are the only ones there are
  rw [eq_comm, @eq_comm _ (low.toNat % rhs.toNat), Nat.div_mod_unique hpos]
  refine ⟨?_, rem_lt _⟩
  have shi := split x.m_hi.toNat
  have smid := split mid.toNat
  have slow := split low.toNat
  have expand : rhs.toNat * (2 ^ 32 * (mid.toNat / rhs.toNat) + low.toNat / rhs.toNat + 2 ^ 64 * (x.m_hi.toNat / rhs.toNat)) =
      2 ^ 32 * (rhs.toNat * (mid.toNat / rhs.toNat)) + rhs.toNat * (low.toNat / rhs.toNat) +
        2 ^ 64 * (rhs.toNat * (x.m_hi.toNat / rhs.toNat)) := by
    ring
  rw [expand]
  omega

theorem divrem_ten (x : UInt128) : (x.divrem 10).1.toNat = x.toNat / 10 ∧ (x.divrem 10).2.toNat = x.toNat % 10 :=
  divrem_spec x (by decide)

theorem toNat_neg (x : UInt128) : x.neg.toNat = (2 ^ 128 - x.toNat) % 2 ^ 128 := by
  have h1 := x.m_lo.toNat_lt
  have h2 := x.m_hi.toNat_lt
  have e1 : (~~~x.m_lo).toNat = 2 ^ 64 - 1 - x.m_lo.toNat := UInt64.toNat_not _
  have e2 : (~~~x.m_hi).toNat = 2 ^ 64 - 1 - x.m_hi.toNat := UInt64.toNat_not _
  have one : (1 : UInt64).toNat = 1 := rfl
  simp only [neg, toNat, toNat_carry, UInt64.toNat_add, UInt64.lt_iff_toNat_lt, e1, e2, one, decide_eq_true_eq]
  split <;> omega

theorem isNegative_iff (x : UInt128) : x.isNegative = true ↔ 2 ^ 127 ≤ x.toNat := by
  have h1 := x.m_lo.toNat_lt
  have h2 := x.m_hi.toNat_lt
  have hi : x.m_hi.toInt64.toInt = if 2 * x.m_hi.toNat < 2 ^ 64 then (x.m_hi.toNat : ℤ) else x.m_hi.toNat - (2 ^ 64 : ℕ) :=
    BitVec.toInt_eq_toNat_cond x.m_hi.toBitVec
  simp only [isNegative, decide_eq_true_eq, Int64.lt_iff_toInt_lt, hi, Int64.toInt_zero, toNat]
  split <;> omega

theorem eq_zero_iff (x : UInt128) : x = ofUInt64 0 ↔ x.toNat = 0 := by
  constructor
  · rintro rfl
    rfl
  · intro h
    exact LawfulUInt.inj _ _ (by simpa [LawfulUInt.toNat] using h)

theorem digit_byte {d : UInt32} (h : d.toNat < 10) : d.toUInt8 + ch '0' = digitByte (Fin.ofNat 10 d.toNat) := by
  have h0 : (ch '0').toNat = 48 := rfl
  apply UInt8.toNat_inj.1
  rw [digitByte_toNat, UInt8.toNat_add, UInt32.toNat_toUInt8, h0]
  simp only [Fin.val_ofNat]
  omega

/-- `n` digits are enough for a number below `10 ^ n`. -/
theorem digitLoop_eq (n : ℕ) (x : UInt128) (buffer : List UInt8) (h : x.toNat < 10 ^ (n + 1)) :
    digitLoop (n + 1) x buffer = decimal x.toNat ++ buffer := by
  induction n generalizing x buffer with
  | zero =>
    obtain ⟨hq, hr⟩ := divrem_ten x
    have hz : (x.divrem 10).1 = ofUInt64 0 := (eq_zero_iff _).2 (by omega)
    have hd : (x.divrem 10).2.toNat < 10 := by omega
    rw [digitLoop]
    simp only [hz, ne_eq, not_true_eq_false, if_false, digit_byte hd, hr]
    rw [decimal, decimalDigits_digit (by omega), Nat.mod_eq_of_lt (by omega)]
    rfl
  | succ n ih =>
    obtain ⟨hq, hr⟩ := divrem_ten x
    have hd : (x.divrem 10).2.toNat < 10 := by omega
    have hmod : Fin.ofNat 10 (x.toNat % 10) = Fin.ofNat 10 x.toNat := by
      apply Fin.ext
      simp
    rw [digitLoop]
    simp only [digit_byte hd, hr, hmod]
    by_cases hz : (x.divrem 10).1 = ofUInt64 0
    · have hlt : x.toNat < 10 := by
        have := (eq_zero_iff _).1 hz
        omega
      rw [if_neg (by simpa using hz), decimal, decimalDigits_digit hlt]
      rfl
    · have hge : 10 ≤ x.toNat := by
        rw [eq_zero_iff] at hz
        omega
      rw [if_pos hz, ih _ _ (by rw [hq]; rw [pow_succ] at h; omega), hq, decimal, decimal, decimalDigits_step hge]
      simp [digitBytes]

theorem print_eq (x : UInt128) : print x = decimal x.toNat := by
  have hx := x.toNat_lt
  rw [print]
  split_ifs with h
  · rw [h, decimal, decimalDigits_digit (by decide)]
    rfl
  · rw [digitLoop_eq 39 x [] (by omega), List.append_nil]

theorem print_ofBitVec (x : BitVec 128) : print (ofBitVec x) = decimal x.toNat := by
  rw [print_eq, toNat_ofBitVec]

theorem printSigned_eq (x : BitVec 128) : printSigned (ofBitVec x) = intText x.toInt := by
  have hx := x.isLt
  have hn := toNat_ofBitVec x
  have hi := BitVec.toInt_eq_toNat_cond x
  have hneg := isNegative_iff (ofBitVec x)
  rw [printSigned, intText]
  split_ifs with h1 h2 h2
  · rw [print_eq, toNat_neg, hn]
    congr 2
    rw [hneg, hn] at h1
    split_ifs at hi <;> omega
  · rw [hneg, hn] at h1
    split_ifs at hi <;> omega
  · rw [hneg, hn] at h1
    split_ifs at hi <;> omega
  · rw [print_eq, hn]
    congr 1
    rw [hneg, hn] at h1
    split_ifs at hi <;> omega

end UInt128

/-! ## The built-in integers -/

/-- The type ids of the integers. -/
inductive int_type_id where
  | int8 | int16 | int32 | int64 | int128
  | uint8 | uint16 | uint32 | uint64 | uint128
deriving DecidableEq, Repr

namespace int_type_id

def bits : int_type_id → ℕ
  | int8 | uint8 => 8
  | int16 | uint16 => 16
  | int32 | uint32 => 32
  | int64 | uint64 => 64
  | int128 | uint128 => 128

/-- `sint_kind` or `uint_kind`. -/
def signed : int_type_id → Bool
  | int8 | int16 | int32 | int64 | int128 => true
  | uint8 | uint16 | uint32 | uint64 | uint128 => false

/-- The bits of an integer in memory. -/
abbrev Data (k : int_type_id) : Type := BitVec k.bits

/-- The integer that the bits stand for. -/
def value (k : int_type_id) (x : k.Data) : ℤ := if k.signed then x.toInt else x.toNat

end int_type_id

/-- The integer cases of `print_builtin_scalar`: the shorter ones are widened to 32 bits first. -/
def print_builtin_scalar : (k : int_type_id) → k.Data → List UInt8
  | .int8, x => intText x.toInt
  | .int16, x => intText x.toInt
  | .int32, x => intText x.toInt
  | .int64, x => intText x.toInt
  | .int128, x => (UInt128.ofBitVec x).printSigned
  | .uint8, x => decimal x.toNat
  | .uint16, x => decimal x.toNat
  | .uint32, x => decimal x.toNat
  | .uint64, x => decimal x.toNat
  | .uint128, x => (UInt128.ofBitVec x).print

/-- Every integer is printed as the integer it stands for. -/
theorem print_builtin_scalar_eq (k : int_type_id) (x : k.Data) : print_builtin_scalar k x = intText (k.value x) := by
  have natural : ∀ n : ℕ, decimal n = intText n := by
    intro n
    rw [intText, if_neg (by omega), Int.natAbs_natCast]
  cases k with
  | int8 => rfl
  | int16 => rfl
  | int32 => rfl
  | int64 => rfl
  | int128 => exact UInt128.printSigned_eq x
  | uint8 => exact natural _
  | uint16 => exact natural _
  | uint32 => exact natural _
  | uint64 => exact natural _
  | uint128 => exact (UInt128.print_ofBitVec x).trans (natural _)

end Dynd
