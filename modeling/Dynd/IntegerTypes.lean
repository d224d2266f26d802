import Dynd.Int128
import Dynd.ParseScalar
/-!
# Conversions between the integer types

Integers of up to 64 bits are converted and compared by the language; `int128`
and `uint128` by their constructors, conversions and operators, on two halves.
A conversion keeps every integer the destination has, and every operator
compares the integers.
-/
namespace Dynd

/-- The two halves back in memory. -/
def UInt128.toBitVec (x : UInt128) : BitVec 128 := x.m_hi.toBitVec ++ x.m_lo.toBitVec

theorem UInt128.toNat_toBitVec (x : UInt128) : x.toBitVec.toNat = x.toNat := by
  have h1 := x.m_lo.toNat_lt
  unfold UInt128.toBitVec UInt128.toNat
  rw [BitVec.toNat_append, UInt64.toNat_toBitVec, UInt64.toNat_toBitVec, ← Nat.shiftLeft_add_eq_or_of_lt h1,
    Nat.shiftLeft_eq]
  omega

theorem UInt128.toBitVec_ofBitVec (x : BitVec 128) : (UInt128.ofBitVec x).toBitVec = x := by
  apply BitVec.eq_of_toNat_eq
  rw [UInt128.toNat_toBitVec, UInt128.toNat_ofBitVec]

/-- The operators that compare two values. -/
inductive comparison where
  | less
  | less_equal
  | equal
  | not_equal
  | greater_equal
  | greater
deriving DecidableEq

/-- What the operator says of two integers. -/
def comparison.holds : comparison → ℤ → ℤ → Bool
  | less, a, b => a < b
  | less_equal, a, b => a ≤ b
  | equal, a, b => a = b
  | not_equal, a, b => a ≠ b
  | greater_equal, a, b => a ≥ b
  | greater, a, b => a > b

/-- The operators of `class uint128`. -/
def UInt128.op : comparison → UInt128 → UInt128 → Bool
  | .less, a, rhs => a.lt rhs
  | .less_equal, a, rhs => a.le rhs
  | .equal, a, rhs => a.m_hi = rhs.m_hi && a.m_lo = rhs.m_lo
  | .not_equal, a, rhs => a.m_hi ≠ rhs.m_hi || a.m_lo ≠ rhs.m_lo
  | .greater_equal, a, rhs => rhs.le a
  | .greater, a, rhs => rhs.lt a

/-- The operators of `class int128`. -/
def Int128.op : comparison → Int128 → Int128 → Bool
  | .less, a, rhs => a.lt rhs
  | .less_equal, a, rhs => a.le rhs
  | .equal, a, rhs => a.m_lo = rhs.m_lo && a.m_hi = rhs.m_hi
  | .not_equal, a, rhs => a.m_lo ≠ rhs.m_lo || a.m_hi ≠ rhs.m_hi
  | .greater_equal, a, rhs => rhs.le a
  | .greater, a, rhs => rhs.lt a

theorem UInt128.op_eq (c : comparison) (a b : UInt128) : UInt128.op c a b = c.holds a.toNat b.toNat := by
  have heq : (a.m_hi = b.m_hi ∧ a.m_lo = b.m_lo) ↔ a.toNat = b.toNat := by
    refine ⟨fun h => ?_, fun h => ?_⟩
    · unfold UInt128.toNat
      rw [h.1, h.2]
    · rw [UInt128.toNat_inj h]
      exact ⟨rfl, rfl⟩
  unfold UInt128.op comparison.holds
  apply Bool.eq_iff_iff.mpr
  cases c with
  | less => simpa using UInt128.lt_iff a b
  | less_equal => simpa using UInt128.le_iff a b
  | equal => simpa using heq
  | not_equal => simpa [← not_and_or] using not_congr heq
  | greater_equal => simpa using UInt128.le_iff b a
  | greater => simpa using UInt128.lt_iff b a

theorem Int128.op_eq (c : comparison) (a b : Int128) : Int128.op c a b = c.holds a.toInt b.toInt := by
  have heq : (a.m_lo = b.m_lo ∧ a.m_hi = b.m_hi) ↔ a.toInt = b.toInt := by
    refine ⟨fun ⟨hlo, hhi⟩ => ?_, fun h => ?_⟩
    · have hab : a = b := by
        cases a
        cases b
        cases hlo
        cases hhi
        rfl
      rw [hab]
    · rw [Int128.toInt_inj h]
      exact ⟨rfl, rfl⟩
  unfold Int128.op comparison.holds
  apply Bool.eq_iff_iff.mpr
  cases c with
  | less => simpa using Int128.lt_iff a b
  | less_equal => simpa using Int128.le_iff a b
  | equal => simpa using heq
  | not_equal => simpa [← not_and_or] using not_congr heq
  | greater_equal => simpa using Int128.le_iff b a
  | greater => simpa using Int128.lt_iff b a

namespace int_type_id

/-- `operator==` and the others, for two values of one type. -/
def op (c : comparison) : (k : int_type_id) → k.Data → k.Data → Bool
  | int128, a, b => Int128.op c (.ofUInt128 (.ofBitVec a)) (.ofUInt128 (.ofBitVec b))
  | uint128, a, b => UInt128.op c (.ofBitVec a) (.ofBitVec b)
  | int8, a, b => c.holds (int8.value a) (int8.value b)
  | int16, a, b => c.holds (int16.value a) (int16.value b)
  | int32, a, b => c.holds (int32.value a) (int32.value b)
  | int64, a, b => c.holds (int64.value a) (int64.value b)
  | uint8, a, b => c.holds (uint8.value a) (uint8.value b)
  | uint16, a, b => c.holds (uint16.value a) (uint16.value b)
  | uint32, a, b => c.holds (uint32.value a) (uint32.value b)
  | uint64, a, b => c.holds (uint64.value a) (uint64.value b)

/-- The constructors of `int128`. -/
def to_int128 (src : int_type_id) (value : src.Data) : UInt128 :=
  match src, value with
  | int128, value | uint128, value => .ofBitVec value
  | src, value => ⟨.ofBitVec (.ofInt 64 (src.value value)), if src.value value < 0 then 0xffffffffffffffff else 0⟩

/-- The constructors of `uint128`: a negative value is not extended to the upper half. -/
def to_uint128 (src : int_type_id) (value : src.Data) : UInt128 :=
  match src, value with
  | int128, value | uint128, value => .ofBitVec value
  | src, value => ⟨.ofBitVec (.ofInt 64 (src.value value)), 0⟩

/-- The language's own conversions, and those of the 128-bit classes to its types. -/
def to_bits (bits : ℕ) (src : int_type_id) (value : src.Data) : BitVec bits :=
  match src, value with
  | int128, value | uint128, value => (UInt128.ofBitVec value).m_lo.toBitVec.setWidth bits
  | src, value => .ofInt bits (src.value value)

def static_cast (dst src : int_type_id) (value : src.Data) : dst.Data :=
  match dst with
  | int128 => (to_int128 src value).toBitVec
  | uint128 => (to_uint128 src value).toBitVec
  | dst => to_bits dst.bits src value

/-! ## The integers a type has -/

def lo (k : int_type_id) : ℤ := if k.signed then -2 ^ (k.bits - 1) else 0

def hi (k : int_type_id) : ℤ := if k.signed then 2 ^ (k.bits - 1) else 2 ^ k.bits

/-- The type can represent the integer. -/
def InRange (k : int_type_id) (z : ℤ) : Prop := k.lo ≤ z ∧ z < k.hi

instance (k : int_type_id) (z : ℤ) : Decidable (k.InRange z) := inferInstanceAs (Decidable (_ ∧ _))

theorem value_inRange (k : int_type_id) (x : k.Data) : k.InRange (k.value x) := by
  have h := Parse.value_bounds k x
  unfold InRange lo hi
  split_ifs at h ⊢ <;> exact h

theorem value_ofInt (k : int_type_id) {z : ℤ} (h : k.InRange z) : k.value (BitVec.ofInt k.bits z) = z := by
  unfold InRange lo hi at h
  unfold value
  have hbits : 0 < k.bits := by cases k <;> decide
  split_ifs at h ⊢
  · have hpow : (2 : ℤ) ^ k.bits = 2 * 2 ^ (k.bits - 1) := by
      rw [← pow_succ', Nat.sub_add_cancel hbits]
    rw [BitVec.toInt_ofInt]
    apply Int.bmod_eq_of_le
    · push_cast
      omega
    · push_cast
      omega
  · rw [BitVec.toNat_ofInt, Int.emod_eq_of_lt h.1 (by exact_mod_cast h.2), Int.toNat_of_nonneg h.1]

/-- The operators of a type compare its integers. -/
theorem op_eq (c : comparison) (k : int_type_id) (a b : k.Data) : op c k a b = c.holds (k.value a) (k.value b) := by
  have hint : ∀ x y : BitVec 128, Int128.op c (.ofUInt128 (.ofBitVec x)) (.ofUInt128 (.ofBitVec y)) =
      c.holds x.toInt y.toInt := by
    intro x y
    rw [Int128.op_eq, Int128.toInt_ofUInt128, UInt128.toNat_ofBitVec, Int128.toInt_ofUInt128, UInt128.toNat_ofBitVec]
    rw [BitVec.toInt_eq_toNat_bmod x, BitVec.toInt_eq_toNat_bmod y]
  have huint : ∀ x y : BitVec 128, UInt128.op c (.ofBitVec x) (.ofBitVec y) = c.holds x.toNat y.toNat := by
    intro x y
    rw [UInt128.op_eq, UInt128.toNat_ofBitVec, UInt128.toNat_ofBitVec]
  cases k with
  | int128 => exact hint a b
  | uint128 => exact huint a b
  | _ => rfl

/-! ## Conversions -/

theorem setWidth_eq_ofInt {bits : ℕ} (hbits : bits ≤ 128) (x : BitVec 128) :
    x.setWidth bits = .ofInt bits x.toInt ∧ x.setWidth bits = .ofInt bits (x.toNat : ℤ) := by
  constructor
  · apply BitVec.eq_of_toInt_eq
    rw [BitVec.toInt_setWidth, BitVec.toInt_ofInt, BitVec.toInt_eq_toNat_bmod]
    exact (Int.bmod_bmod_of_dvd (pow_dvd_pow 2 hbits)).symm
  · rw [BitVec.ofInt_natCast]
    exact (BitVec.ofNat_toNat bits x).symm

/-- The value's low bits. -/
theorem to_bits_eq {bits : ℕ} (hbits : bits ≤ 64) (src : int_type_id) (x : src.Data) :
    to_bits bits src x = .ofInt bits (src.value x) := by
  have hlow : ∀ y : BitVec 128, (UInt128.ofBitVec y).m_lo.toBitVec.setWidth bits = y.setWidth bits := by
    intro y
    unfold UInt128.ofBitVec
    exact BitVec.setWidth_setWidth_of_le y hbits
  have hbits : bits ≤ 128 := by omega
  cases src with
  | int128 => exact (hlow x).trans (setWidth_eq_ofInt hbits x).1
  | uint128 => exact (hlow x).trans (setWidth_eq_ofInt hbits x).2
  | _ => rfl

/-- Halves that stand for an integer modulo `2 ^ 128`. -/
theorem toBitVec_eq_ofInt {x : UInt128} {z : ℤ} (h : (x.toNat : ℤ) = z % 2 ^ 128) : x.toBitVec = .ofInt 128 z := by
  apply BitVec.eq_of_toNat_eq
  rw [UInt128.toNat_toBitVec, BitVec.toNat_ofInt]
  omega

/-- The value with its sign in the upper half. -/
theorem to_int128_eq (src : int_type_id) (x : src.Data) : (to_int128 src x).toBitVec = .ofInt 128 (src.value x) := by
  have hrange := src.value_inRange x
  have hsmall : ∀ z : ℤ, -2 ^ 63 ≤ z → z < 2 ^ 64 →
      (UInt128.mk (.ofBitVec (.ofInt 64 z)) (if z < 0 then 0xffffffffffffffff else 0)).toBitVec = .ofInt 128 z := by
    intro z hlo hhi
    apply toBitVec_eq_ofInt
    unfold UInt128.toNat
    dsimp only
    rw [UInt64.toNat_ofBitVec, BitVec.toNat_ofInt]
    split_ifs with hz
    · have : (0xffffffffffffffff : UInt64).toNat = 2 ^ 64 - 1 := rfl
      omega
    · have : (0 : UInt64).toNat = 0 := rfl
      omega
  cases src with
  | int128 => exact (UInt128.toBitVec_ofBitVec x).trans BitVec.ofInt_toInt.symm
  | uint128 =>
    have hnat : ∀ y : BitVec 128, y = .ofInt 128 (y.toNat : ℤ) := by
      intro y
      rw [← (setWidth_eq_ofInt le_rfl y).2, BitVec.setWidth_eq]
    exact (UInt128.toBitVec_ofBitVec x).trans (hnat x)
  | _ =>
    have hlo := hrange.1
    have hhi := hrange.2
    norm_num [lo, hi, signed, bits] at hlo hhi
    exact hsmall _ (by omega) (by omega)

/-- The value, if it is not negative. -/
theorem to_uint128_eq {src : int_type_id} {x : src.Data} (h : src.bits < 128 → 0 ≤ src.value x) :
    (to_uint128 src x).toBitVec = .ofInt 128 (src.value x) := by
  have hneg : src.bits < 128 → to_uint128 src x = to_int128 src x := by
    intro hb
    have := h hb
    cases src with
    | int128 => exact absurd hb (by decide)
    | uint128 => exact absurd hb (by decide)
    | _ =>
      unfold to_uint128 to_int128
      dsimp only
      rw [if_neg (by omega)]
  cases src with
  | int128 => exact to_int128_eq int128 x
  | uint128 => exact to_int128_eq uint128 x
  | _ =>
    rw [hneg (by decide)]
    exact to_int128_eq _ x

/-- A conversion takes the value modulo the destination's size, unless a
negative value of a shorter type becomes a `uint128`. -/
theorem static_cast_eq (dst src : int_type_id) (x : src.Data)
    (h : dst = .uint128 → src.bits < 128 → 0 ≤ src.value x) :
    static_cast dst src x = BitVec.ofInt dst.bits (src.value x) := by
  cases dst with
  | int128 => exact to_int128_eq src x
  | uint128 => exact to_uint128_eq (h rfl)
  | _ => exact to_bits_eq (by decide) src x

/-- A value that the destination has is kept. -/
theorem value_static_cast {dst src : int_type_id} {x : src.Data} (h : dst.InRange (src.value x)) :
    dst.value (static_cast dst src x) = src.value x := by
  rw [static_cast_eq dst src x, value_ofInt dst h]
  rintro rfl -
  exact h.1

/-- `T(0)`. -/
def zero (T : int_type_id) : T.Data := static_cast T int32 0

theorem value_zero (k : int_type_id) : k.value k.zero = 0 := by
  have hzero : int32.value 0 = 0 := rfl
  have hrange : k.InRange (int32.value 0) := by
    rw [hzero]
    cases k <;> decide
  exact (value_static_cast hrange).trans hzero

/-- A longer type of the same signedness, or a longer signed type, has the
values of the shorter. -/
theorem InRange.wider {s t : int_type_id}
    (h : s.signed = t.signed ∧ s.bits ≤ t.bits ∨ s.signed = false ∧ t.signed = true ∧ s.bits < t.bits) {z : ℤ}
    (hz : s.InRange z) : t.InRange z := by
  have hpow : ∀ m n : ℕ, m ≤ n → (2 : ℤ) ^ m ≤ 2 ^ n := fun m n h => pow_le_pow_right₀ (by decide) h
  unfold InRange lo hi at hz ⊢
  obtain ⟨hs, hb⟩ | ⟨hs, ht, hb⟩ := h
  · have h1 := hpow _ _ hb
    have h2 := hpow (s.bits - 1) (t.bits - 1) (by omega)
    rw [hs] at hz
    split_ifs at hz ⊢
    · exact ⟨by omega, by omega⟩
    · exact ⟨hz.1, by omega⟩
  · have h1 := hpow s.bits (t.bits - 1) (by omega)
    rw [hs, if_neg (by decide), if_neg (by decide)] at hz
    rw [ht, if_pos rfl, if_pos rfl]
    exact ⟨by omega, by omega⟩

/-- An unsigned type has the values of a type no longer that are not negative. -/
theorem InRange.of_nonneg {s u : int_type_id} (hu : u.signed = false) (hbits : s.bits ≤ u.bits) {z : ℤ}
    (hz : s.InRange z) (h0 : 0 ≤ z) : u.InRange z := by
  have hpow : ∀ m n : ℕ, m ≤ n → (2 : ℤ) ^ m ≤ 2 ^ n := fun m n h => pow_le_pow_right₀ (by decide) h
  have hhi : s.hi ≤ 2 ^ u.bits := by
    unfold hi
    split_ifs
    · exact hpow _ _ (by omega)
    · exact hpow _ _ hbits
  unfold InRange lo hi
  rw [hu, if_neg (by decide), if_neg (by decide)]
  exact ⟨h0, hz.2.trans_le hhi⟩

theorem value_nonneg {k : int_type_id} (h : k.signed = false) (x : k.Data) : 0 ≤ k.value x := by
  have hlo := (k.value_inRange x).1
  unfold lo at hlo
  rwa [h, if_neg (by decide)] at hlo

end int_type_id
end Dynd
