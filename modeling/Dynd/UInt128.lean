import Mathlib.Tactic
/-!
# Unsigned integers of the number parser

`checked_string_to_uint<T>` is a template over `uint64_t` and dynd's own
`uint128`, a pair of 64-bit halves. `UIntOps` is what the template uses of
`T`; `LawfulUInt` says that it is arithmetic modulo `2 ^ w`. Both types
satisfy it.
-/
namespace Dynd

/-- `class uint128`. -/
structure UInt128 where
  m_lo : UInt64
  m_hi : UInt64
deriving DecidableEq, Repr

namespace UInt128

/-- The number the two halves stand for. -/
def toNat (x : UInt128) : ℕ := x.m_lo.toNat + 2 ^ 64 * x.m_hi.toNat

/-- The integer constructors: `m_lo(value), m_hi(0ULL)`. -/
def ofUInt64 (value : UInt64) : UInt128 := ⟨value, 0⟩

/-- A C++ `bool` used as a number. -/
def carry (b : Bool) : UInt64 := if b then 1 else 0

/-- `operator<(const uint128 &rhs)`. -/
def lt (x rhs : UInt128) : Bool := x.m_hi < rhs.m_hi || (x.m_hi = rhs.m_hi && x.m_lo < rhs.m_lo)

/-- `operator+(uint32_t rhs)`. -/
def add (x : UInt128) (rhs : UInt32) : UInt128 :=
  let lo := x.m_lo + rhs.toUInt64
  ⟨lo, x.m_hi + carry (lo < x.m_lo)⟩

/-- `operator*(uint32_t rhs)`. -/
def mul (x : UInt128) (rhs : UInt32) : UInt128 :=
  -- Split the multiplication into three
  let lo_partial := (x.m_lo &&& 0x00000000ffffffff) * rhs.toUInt64
  let tmp := ((x.m_lo &&& 0xffffffff00000000) >>> 32) * rhs.toUInt64
  let lo := lo_partial + (tmp <<< 32)
  let hi := (tmp >>> 32) + carry (lo < lo_partial)
  ⟨lo, hi + x.m_hi * rhs.toUInt64⟩

theorem toNat_lt (x : UInt128) : x.toNat < 2 ^ 128 := by
  have h1 := x.m_lo.toNat_lt
  have h2 := x.m_hi.toNat_lt
  unfold toNat
  omega

@[simp] theorem toNat_ofUInt64 (v : UInt64) : (ofUInt64 v).toNat = v.toNat := by
  simp [ofUInt64, toNat]

theorem toNat_carry (b : Bool) : (carry b).toNat = if b then 1 else 0 := by
  cases b <;> rfl

theorem lt_iff (x y : UInt128) : lt x y = true ↔ x.toNat < y.toNat := by
  have h1 := x.m_lo.toNat_lt
  have h2 := y.m_lo.toNat_lt
  simp only [lt, Bool.or_eq_true, Bool.and_eq_true, decide_eq_true_eq, UInt64.lt_iff_toNat_lt,
    ← UInt64.toNat_inj, toNat]
  omega

theorem toNat_add (x : UInt128) (r : UInt32) : (add x r).toNat = (x.toNat + r.toNat) % 2 ^ 128 := by
  have h1 := x.m_lo.toNat_lt
  have h2 := x.m_hi.toNat_lt
  have h3 := r.toNat_lt
  simp only [add, toNat, toNat_carry, UInt64.toNat_add, UInt64.lt_iff_toNat_lt,
    UInt32.toNat_toUInt64, decide_eq_true_eq]
  split <;> omega

theorem low_half (x : UInt64) : (x &&& 0x00000000ffffffff).toNat = x.toNat % 2 ^ 32 := by
  rw [UInt64.toNat_and]
  exact Nat.and_two_pow_sub_one_eq_mod _ 32

theorem high_half (x : UInt64) : (x &&& 0xffffffff00000000).toNat / 2 ^ 32 = x.toNat / 2 ^ 32 := by
  have h1 : (0xffffffff00000000 : UInt64).toNat = 0xffffffff00000000 := rfl
  have h2 : (0xffffffff00000000 : ℕ) >>> 32 = 2 ^ 32 - 1 := by decide
  rw [← Nat.shiftRight_eq_div_pow, UInt64.toNat_and, h1, Nat.shiftRight_and_distrib, h2,
    Nat.and_two_pow_sub_one_eq_mod, Nat.shiftRight_eq_div_pow]
  have := x.toNat_lt
  omega

/-- A product of two 32-bit numbers does not wrap in 64 bits. -/
theorem mul_half_lt {a r : ℕ} (ha : a < 2 ^ 32) (hr : r < 2 ^ 32) : a * r < 2 ^ 64 := by
  have h1 : a * r ≤ a * 2 ^ 32 := Nat.mul_le_mul_left _ (by omega)
  omega

theorem toNat_mul (x : UInt128) (r : UInt32) : (mul x r).toNat = x.toNat * r.toNat % 2 ^ 128 := by
  have h1 := x.m_lo.toNat_lt
  have hr := r.toNat_lt
  have hp : x.m_lo.toNat % 2 ^ 32 * r.toNat < 2 ^ 64 := mul_half_lt (by omega) hr
  have ht : x.m_lo.toNat / 2 ^ 32 * r.toNat < 2 ^ 64 := mul_half_lt (by omega) hr
  have hsplit : x.toNat * r.toNat = x.m_lo.toNat % 2 ^ 32 * r.toNat +
      2 ^ 32 * (x.m_lo.toNat / 2 ^ 32 * r.toNat) + 2 ^ 64 * (x.m_hi.toNat * r.toNat) := by
    conv_lhs => rw [toNat, ← Nat.mod_add_div x.m_lo.toNat (2 ^ 32)]
    ring
  have e1 : (32 : UInt64).toNat % 64 = 32 := rfl
  simp only [mul, toNat, toNat_carry, UInt64.toNat_add, UInt64.toNat_mul, UInt64.lt_iff_toNat_lt,
    UInt32.toNat_toUInt64, decide_eq_true_eq, low_half, high_half, UInt64.toNat_shiftLeft,
    UInt64.toNat_shiftRight, e1, Nat.shiftLeft_eq, Nat.shiftRight_eq_div_pow] at hsplit ⊢
  rw [hsplit]
  generalize x.m_lo.toNat % 2 ^ 32 * r.toNat = p at hp ⊢
  generalize x.m_lo.toNat / 2 ^ 32 * r.toNat = t at ht ⊢
  generalize x.m_hi.toNat * r.toNat = h
  rw [Nat.mod_eq_of_lt hp, Nat.mod_eq_of_lt ht]
  split <;> omega

end UInt128

/-- What `checked_string_to_uint` uses of its template parameter `T`. -/
class UIntOps (T : Type) where
  zero : T
  mul : T → UInt32 → T
  add : T → UInt32 → T
  lt : T → T → Bool

/-- `T` is the unsigned integers modulo `2 ^ w`. -/
class LawfulUInt (T : Type) [UIntOps T] (w : outParam ℕ) where
  toNat : T → ℕ
  inj : ∀ x y : T, toNat x = toNat y → x = y
  toNat_lt : ∀ x : T, toNat x < 2 ^ w
  toNat_zero : toNat (UIntOps.zero : T) = 0
  toNat_mul : ∀ (x : T) (r : UInt32), toNat (UIntOps.mul x r) = toNat x * r.toNat % 2 ^ w
  toNat_add : ∀ (x : T) (r : UInt32), toNat (UIntOps.add x r) = (toNat x + r.toNat) % 2 ^ w
  lt_iff : ∀ x y : T, UIntOps.lt x y = true ↔ toNat x < toNat y

instance : UIntOps UInt64 where
  zero := 0
  mul x r := x * r.toUInt64
  add x r := x + r.toUInt64
  lt x y := x < y

instance : LawfulUInt UInt64 64 where
  toNat := UInt64.toNat
  inj _ _ := UInt64.toNat_inj.1
  toNat_lt := UInt64.toNat_lt
  toNat_zero := rfl
  toNat_mul x r := by simp [UIntOps.mul, UInt64.toNat_mul]
  toNat_add x r := by simp [UIntOps.add, UInt64.toNat_add]
  lt_iff x y := by simp [UIntOps.lt, UInt64.lt_iff_toNat_lt]

instance : UIntOps UInt128 where
  zero := .ofUInt64 0
  mul := .mul
  add := .add
  lt := UInt128.lt

instance : LawfulUInt UInt128 128 where
  toNat := UInt128.toNat
  inj x y h := by
    have h1 := x.m_lo.toNat_lt
    have h2 := y.m_lo.toNat_lt
    simp only [UInt128.toNat] at h
    cases x; cases y
    simp only [UInt128.mk.injEq, ← UInt64.toNat_inj] at *
    omega
  toNat_lt := UInt128.toNat_lt
  toNat_zero := rfl
  toNat_mul := UInt128.toNat_mul
  toNat_add := UInt128.toNat_add
  lt_iff := UInt128.lt_iff

end Dynd
