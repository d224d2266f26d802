import Dynd.PrintInt
/-!
# 128-bit arithmetic

`uint128` and `int128` compute on two 64-bit halves. Every operator is exact
modulo `2 ^ 128`, except where the borrow of a subtraction is taken from
`lo < m_lo` and where a signed product or quotient negates the smallest
integer over and over.
-/
namespace Dynd

namespace UInt128

/-- `operator+(const uint128 &rhs)`. -/
def addWide (x rhs : UInt128) : UInt128 :=
  let lo := x.m_lo + rhs.m_lo
  ⟨lo, x.m_hi + rhs.m_hi + carry (lo < x.m_lo)⟩

/-- `operator+(uint64_t rhs)`. -/
def add64 (x : UInt128) (rhs : UInt64) : UInt128 :=
  let lo := x.m_lo + rhs
  ⟨lo, x.m_hi + carry (lo < x.m_lo)⟩

/-- `operator-(const uint128 &rhs)`. -/
def sub (x rhs : UInt128) : UInt128 :=
  let lo := x.m_lo + ~~~rhs.m_lo + 1
  ⟨lo, x.m_hi + ~~~rhs.m_hi + carry (lo < x.m_lo)⟩

/-- `operator-(uint64_t rhs)`. -/
def sub64 (x : UInt128) (rhs : UInt64) : UInt128 :=
  let lo := x.m_lo + ~~~rhs + 1
  ⟨lo, x.m_hi + 0xffffffffffffffff + carry (lo < x.m_lo)⟩

/-- `operator<=(const uint128 &rhs)`. -/
def le (x rhs : UInt128) : Bool := x.m_hi < rhs.m_hi || (x.m_hi = rhs.m_hi && x.m_lo ≤ rhs.m_lo)

/-- `operator/(uint32_t rhs)`: the division of `divrem`. -/
def div (x : UInt128) (rhs : UInt32) : UInt128 := (x.divrem rhs).1

theorem toNat_addWide (x y : UInt128) : (x.addWide y).toNat = (x.toNat + y.toNat) % 2 ^ 128 := by
  have h1 := x.m_lo.toNat_lt
  have h2 := x.m_hi.toNat_lt
  have h3 := y.m_lo.toNat_lt
  have h4 := y.m_hi.toNat_lt
  simp only [addWide, toNat, toNat_carry, UInt64.toNat_add, UInt64.lt_iff_toNat_lt, decide_eq_true_eq]
  split <;> omega

theorem toNat_add64 (x : UInt128) (v : UInt64) : (x.add64 v).toNat = (x.toNat + v.toNat) % 2 ^ 128 := by
  have h1 := x.m_lo.toNat_lt
  have h2 := x.m_hi.toNat_lt
  have h3 := v.toNat_lt
  simp only [add64, toNat, toNat_carry, UInt64.toNat_add, UInt64.lt_iff_toNat_lt, decide_eq_true_eq]
  split <;> omega

/-- The carry out of `m_lo + ~rhs + 1` is lost when `rhs` is zero: the result is `2 ^ 64` too small. -/
theorem toNat_sub (x y : UInt128) :
    (x.sub y).toNat = (x.toNat + (2 ^ 128 - y.toNat) + if y.m_lo = 0 then 2 ^ 128 - 2 ^ 64 else 0) % 2 ^ 128 := by
  have h1 := x.m_lo.toNat_lt
  have h2 := x.m_hi.toNat_lt
  have h3 := y.m_lo.toNat_lt
  have h4 := y.m_hi.toNat_lt
  have e1 : (~~~y.m_lo).toNat = 2 ^ 64 - 1 - y.m_lo.toNat := UInt64.toNat_not _
  have e2 : (~~~y.m_hi).toNat = 2 ^ 64 - 1 - y.m_hi.toNat := UInt64.toNat_not _
  have one : (1 : UInt64).toNat = 1 := rfl
  have zero : y.m_lo = 0 ↔ y.m_lo.toNat = 0 := UInt64.toNat_inj.symm
  simp only [sub, toNat, toNat_carry, UInt64.toNat_add, UInt64.lt_iff_toNat_lt, e1, e2, one, zero, decide_eq_true_eq]
  split <;> split <;> omega

/-- The high half of a 64-bit operand is zero. -/
theorem sub64_eq (x : UInt128) (v : UInt64) : x.sub64 v = x.sub (ofUInt64 v) := by
  have h : (0xffffffffffffffff : UInt64) = ~~~0 := by decide
  rw [sub64, h]
  rfl

theorem le_iff (x y : UInt128) : le x y = true ↔ x.toNat ≤ y.toNat := by
  have h1 := x.m_lo.toNat_lt
  have h2 := y.m_lo.toNat_lt
  simp only [le, Bool.or_eq_true, Bool.and_eq_true, decide_eq_true_eq, UInt64.lt_iff_toNat_lt, UInt64.le_iff_toNat_le,
    ← UInt64.toNat_inj, toNat]
  omega

theorem toNat_inj {x y : UInt128} (h : x.toNat = y.toNat) : x = y := LawfulUInt.inj _ _ h

/-- A difference is exact when the low half of the second operand is not zero. -/
theorem sub_exact_iff (x y : UInt128) :
    ((x.sub y).toNat : ℤ) = ((x.toNat : ℤ) - y.toNat) % 2 ^ 128 ↔ y.m_lo ≠ 0 := by
  have h1 := x.toNat_lt
  have h2 := y.toNat_lt
  have h := toNat_sub x y
  by_cases hz : y.m_lo = 0
  · rw [if_pos hz] at h
    simp only [hz, ne_eq, not_true_eq_false, iff_false]
    omega
  · rw [if_neg hz] at h
    simp only [ne_eq, hz, not_false_eq_true, iff_true]
    omega

end UInt128

/-! ## Signed integers -/

/-- `class int128`. -/
structure Int128 where
  m_lo : UInt64
  m_hi : UInt64
deriving DecidableEq, Repr

namespace Int128

/-- `uint128(const int128 &value)`. -/
def toUInt128 (x : Int128) : UInt128 := ⟨x.m_lo, x.m_hi⟩

/-- `int128(const uint128 &value)`. -/
def ofUInt128 (x : UInt128) : Int128 := ⟨x.m_lo, x.m_hi⟩

/-- The integer the two halves stand for, in two's complement. -/
@[irreducible] def toInt (x : Int128) : ℤ := Int.bmod x.toUInt128.toNat (2 ^ 128)

/-- The smallest integer, which is its own negative. -/
def min : Int128 := ⟨0, 0x8000000000000000⟩

/-- `operator-()`. -/
def neg (x : Int128) : Int128 := ofUInt128 x.toUInt128.neg

/-- `operator+(const int128 &rhs)`: the halves are added as those of a `uint128`. -/
def add (x rhs : Int128) : Int128 := ofUInt128 (x.toUInt128.addWide rhs.toUInt128)

/-- `operator-(const int128 &rhs)`: the halves are subtracted as those of a `uint128`. -/
def sub (x rhs : Int128) : Int128 := ofUInt128 (x.toUInt128.sub rhs.toUInt128)

/-- `operator<(const int128 &rhs)`. -/
def lt (x rhs : Int128) : Bool :=
  x.m_hi.toInt64 < rhs.m_hi.toInt64 || (x.m_hi = rhs.m_hi && x.m_lo < rhs.m_lo)

/-- `operator<=(const int128 &rhs)`. -/
def le (x rhs : Int128) : Bool :=
  x.m_hi.toInt64 < rhs.m_hi.toInt64 || (x.m_hi = rhs.m_hi && x.m_lo ≤ rhs.m_lo)

/-- `if ((int64_t)m_hi < 0) return -(-(*this) op rhs);`, and otherwise the
operation of `uint128`. `none` when the calls nest deeper than `depth`. -/
def onMagnitude (op : UInt128 → UInt32 → UInt128) : (depth : ℕ) → Int128 → UInt32 → Option Int128
  | 0, _, _ => none
  | depth + 1, x, rhs =>
    if x.m_hi.toInt64 < 0 then (onMagnitude op depth x.neg rhs).map neg
    else some (ofUInt128 (op x.toUInt128 rhs))

/-- `operator*(uint32_t rhs)`. -/
def mul : (depth : ℕ) → Int128 → UInt32 → Option Int128 := onMagnitude UInt128.mul

/-- `operator/(uint32_t rhs)`. -/
def div : (depth : ℕ) → Int128 → UInt32 → Option Int128 := onMagnitude UInt128.div

@[simp] theorem toUInt128_ofUInt128 (x : UInt128) : (ofUInt128 x).toUInt128 = x := rfl

theorem toInt_ofUInt128 (x : UInt128) : (ofUInt128 x).toInt = Int.bmod x.toNat (2 ^ 128) := by
  unfold toInt
  rw [toUInt128_ofUInt128]

/-- The upper half of the numbers stands for the negative integers. -/
theorem bmod_cases {n : ℕ} (h : n < 2 ^ 128) :
    2 ^ 127 ≤ n ∧ Int.bmod n (2 ^ 128) = n - 2 ^ 128 ∨ n < 2 ^ 127 ∧ Int.bmod n (2 ^ 128) = n := by
  rw [Int.bmod_def]
  omega

theorem toInt_cases (x : Int128) : 2 ^ 127 ≤ x.toUInt128.toNat ∧ x.toInt = x.toUInt128.toNat - 2 ^ 128 ∨
    x.toUInt128.toNat < 2 ^ 127 ∧ x.toInt = x.toUInt128.toNat := by
  unfold toInt
  exact bmod_cases x.toUInt128.toNat_lt

theorem toInt_inj {x y : Int128} (h : x.toInt = y.toInt) : x = y := by
  have heq : x.toUInt128 = y.toUInt128 := by
    apply UInt128.toNat_inj
    have hxlt := x.toUInt128.toNat_lt
    have hylt := y.toUInt128.toNat_lt
    rcases toInt_cases x with ⟨hx, hxi⟩ | ⟨hx, hxi⟩ <;> rcases toInt_cases y with ⟨hy, hyi⟩ | ⟨hy, hyi⟩ <;> omega
  exact congrArg ofUInt128 heq

theorem toInt_neg (x : Int128) : x.neg.toInt = (-x.toInt).bmod (2 ^ 128) := by
  have hcast : ∀ n : ℕ, n < 2 ^ 128 → (((2 ^ 128 - n) % 2 ^ 128 : ℕ) : ℤ) = (-(n : ℤ)) % (2 ^ 128 : ℕ) := by
    intro n hn
    omega
  unfold neg
  rw [toInt_ofUInt128, UInt128.toNat_neg, hcast _ x.toUInt128.toNat_lt, Int.emod_bmod]
  unfold toInt
  rw [Int.bmod_neg_bmod]

theorem toInt_add (x y : Int128) : (x.add y).toInt = (x.toInt + y.toInt).bmod (2 ^ 128) := by
  have hcast : ∀ n m : ℕ, (((n + m) % 2 ^ 128 : ℕ) : ℤ) = ((n : ℤ) + m) % (2 ^ 128 : ℕ) := by
    intro n m
    omega
  unfold add
  rw [toInt_ofUInt128, UInt128.toNat_addWide, hcast, Int.emod_bmod]
  unfold toInt
  rw [Int.bmod_add_bmod, Int.add_bmod_bmod]

/-- Two numbers below `2 ^ 128` stand for the same integer only if they are the same. -/
theorem bmod_inj {n : ℕ} {z : ℤ} (hn : n < 2 ^ 128) : Int.bmod n (2 ^ 128) = z.bmod (2 ^ 128) ↔ (n : ℤ) = z % 2 ^ 128 := by
  rw [Int.bmod_def, Int.bmod_def]
  omega

theorem sub_exact_iff (x y : Int128) : (x.sub y).toInt = (x.toInt - y.toInt).bmod (2 ^ 128) ↔ y.m_lo ≠ 0 := by
  unfold sub
  rw [toInt_ofUInt128]
  unfold toInt
  rw [Int.bmod_sub_bmod, Int.sub_bmod_bmod, bmod_inj (UInt128.toNat_lt _)]
  exact UInt128.sub_exact_iff x.toUInt128 y.toUInt128

/-- The upper half of a negative integer is a negative `int64_t`. -/
theorem high_half_neg (x : Int128) : x.m_hi.toInt64 < 0 ↔ x.toInt < 0 := by
  have hneg := UInt128.isNegative_iff x.toUInt128
  have hlt := x.toUInt128.toNat_lt
  rw [UInt128.isNegative, decide_eq_true_eq] at hneg
  refine hneg.trans ?_
  rcases toInt_cases x with ⟨hx, hxi⟩ | ⟨hx, hxi⟩ <;> omega

/-- The signed upper half and the lower half are the integer in base `2 ^ 64`. -/
theorem toInt_halves (x : Int128) : x.toInt = 2 ^ 64 * x.m_hi.toInt64.toInt + x.m_lo.toNat := by
  have h1 := x.m_lo.toNat_lt
  have h2 := x.m_hi.toNat_lt
  have hn : x.toUInt128.toNat = x.m_lo.toNat + 2 ^ 64 * x.m_hi.toNat := rfl
  have hi : x.m_hi.toInt64.toInt = if 2 * x.m_hi.toNat < 2 ^ 64 then (x.m_hi.toNat : ℤ) else x.m_hi.toNat - (2 ^ 64 : ℕ) :=
    BitVec.toInt_eq_toNat_cond x.m_hi.toBitVec
  rw [hi]
  rcases toInt_cases x with ⟨hx, hxi⟩ | ⟨hx, hxi⟩ <;> split_ifs <;> omega

theorem toInt64_inj {a b : UInt64} : a = b ↔ a.toInt64.toInt = b.toInt64.toInt := by
  rw [Int64.toInt_inj]
  exact ⟨fun h => congrArg _ h, fun h => by simpa using congrArg Int64.toUInt64 h⟩

theorem lt_iff (x y : Int128) : lt x y = true ↔ x.toInt < y.toInt := by
  have h1 := x.m_lo.toNat_lt
  have h2 := y.m_lo.toNat_lt
  simp only [lt, Bool.or_eq_true, Bool.and_eq_true, decide_eq_true_eq, toInt64_inj, UInt64.lt_iff_toNat_lt,
    Int64.lt_iff_toInt_lt, toInt_halves]
  omega

theorem le_iff (x y : Int128) : le x y = true ↔ x.toInt ≤ y.toInt := by
  have h1 := x.m_lo.toNat_lt
  have h2 := y.m_lo.toNat_lt
  have hlo : x.m_lo ≤ y.m_lo ↔ x.m_lo.toNat ≤ y.m_lo.toNat := UInt64.le_iff_toNat_le
  simp only [le, Bool.or_eq_true, Bool.and_eq_true, decide_eq_true_eq, toInt64_inj (a := x.m_hi), hlo,
    Int64.lt_iff_toInt_lt, toInt_halves]
  omega

/-! ### Products and quotients -/

theorem toInt_min : min.toInt = -2 ^ 127 := by
  rcases toInt_cases min with ⟨hx, hxi⟩ | ⟨hx, hxi⟩
  · rw [hxi]
    rfl
  · exact absurd hx (by decide)

/-- Every other integer has a negative. -/
theorem toInt_neg_of_ne_min {x : Int128} (h : x ≠ min) : x.neg.toInt = -x.toInt := by
  have hmin : x.toInt ≠ -2 ^ 127 := fun hx => h (toInt_inj (hx.trans toInt_min.symm))
  have hlt := x.toUInt128.toNat_lt
  rw [toInt_neg]
  apply Int.bmod_eq_of_le
  · rcases toInt_cases x with ⟨hx, hxi⟩ | ⟨hx, hxi⟩ <;> omega
  · rcases toInt_cases x with ⟨hx, hxi⟩ | ⟨hx, hxi⟩ <;> omega

theorem neg_min : min.neg = min := by decide

/-- The smallest integer is negated forever. -/
theorem onMagnitude_min (op : UInt128 → UInt32 → UInt128) (depth : ℕ) (rhs : UInt32) :
    onMagnitude op depth min rhs = none := by
  have hneg : min.m_hi.toInt64 < 0 := by decide
  induction depth with
  | zero => rfl
  | succ depth ih => rw [onMagnitude, if_pos hneg, neg_min, ih, Option.map_none]

/-- Every other integer is negated once at most. -/
theorem onMagnitude_returns (op : UInt128 → UInt32 → UInt128) {x : Int128} (h : x ≠ min) (rhs : UInt32) :
    onMagnitude op 2 x rhs = some (if x.toInt < 0 then neg (ofUInt128 (op x.neg.toUInt128 rhs))
      else ofUInt128 (op x.toUInt128 rhs)) := by
  have hneg := toInt_neg_of_ne_min h
  simp only [onMagnitude, high_half_neg, hneg]
  split_ifs with h1 h2
  · omega
  · rfl
  · rfl

/-- More depth does not change what is returned. -/
theorem onMagnitude_mono (op : UInt128 → UInt32 → UInt128) {depth : ℕ} {x p : Int128} {rhs : UInt32}
    (h : onMagnitude op depth x rhs = some p) (more : ℕ) : onMagnitude op (depth + more) x rhs = some p := by
  induction depth generalizing x p with
  | zero => cases h
  | succ depth ih =>
    rw [onMagnitude] at h
    rw [Nat.succ_add, onMagnitude]
    split_ifs at h ⊢
    · obtain ⟨q, hq, rfl⟩ := Option.map_eq_some_iff.1 h
      rw [ih hq, Option.map_some]
    · exact h

/-- A call returns when its operand is not the smallest integer. -/
theorem onMagnitude_some_iff (op : UInt128 → UInt32 → UInt128) (x p : Int128) (rhs : UInt32) :
    (∃ depth, onMagnitude op depth x rhs = some p) ↔ x ≠ min ∧
      p = if x.toInt < 0 then neg (ofUInt128 (op x.neg.toUInt128 rhs)) else ofUInt128 (op x.toUInt128 rhs) := by
  constructor
  · rintro ⟨depth, hd⟩
    have hx : x ≠ min := by
      rintro rfl
      rw [onMagnitude_min] at hd
      cases hd
    refine ⟨hx, Option.some.inj ?_⟩
    have h1 := onMagnitude_mono op hd 2
    have h2 := onMagnitude_mono op (onMagnitude_returns op hx rhs) depth
    rw [Nat.add_comm] at h2
    exact h1.symm.trans h2
  · rintro ⟨hx, rfl⟩
    exact ⟨2, onMagnitude_returns op hx rhs⟩

/-- The magnitude of an integer that is not the smallest. -/
theorem toNat_magnitude {x : Int128} (h : x ≠ min) :
    (if x.toInt < 0 then (x.neg.toUInt128.toNat : ℤ) = -x.toInt else (x.toUInt128.toNat : ℤ) = x.toInt) := by
  have hneg := toInt_neg_of_ne_min h
  have hx := x.toUInt128.toNat_lt
  have hn := x.neg.toUInt128.toNat_lt
  split_ifs with h0
  · rcases toInt_cases x.neg with ⟨hy, hyi⟩ | ⟨hy, hyi⟩ <;> omega
  · rcases toInt_cases x with ⟨hy, hyi⟩ | ⟨hy, hyi⟩ <;> omega

theorem mul_exact_iff (x : Int128) (r : UInt32) :
    (∃ depth p, mul depth x r = some p ∧ p.toInt = (x.toInt * r.toNat).bmod (2 ^ 128)) ↔ x ≠ min := by
  constructor
  · rintro ⟨depth, p, hp, -⟩
    exact ((onMagnitude_some_iff _ x p r).1 ⟨depth, hp⟩).1
  · intro hx
    refine ⟨2, _, onMagnitude_returns UInt128.mul hx r, ?_⟩
    have hprod : ∀ y : UInt128, (ofUInt128 (y.mul r)).toInt = ((y.toNat : ℤ) * r.toNat).bmod (2 ^ 128) := by
      intro y
      rw [toInt_ofUInt128, UInt128.toNat_mul]
      push_cast
      exact Int.emod_bmod _ _
    have hmag := toNat_magnitude hx
    split_ifs at hmag ⊢ with h0
    · rw [toInt_neg, hprod, hmag, Int.bmod_neg_bmod]
      ring_nf
    · rw [hprod, hmag]

theorem div_exact_iff (x : Int128) {r : UInt32} (hr : r ≠ 0) :
    (∃ depth p, div depth x r = some p ∧ p.toInt = x.toInt.tdiv r.toNat) ↔ x ≠ min := by
  constructor
  · rintro ⟨depth, p, hp, -⟩
    exact ((onMagnitude_some_iff _ x p r).1 ⟨depth, hp⟩).1
  · intro hx
    refine ⟨2, _, onMagnitude_returns UInt128.div hx r, ?_⟩
    have hmag := toNat_magnitude hx
    have hbound : -2 ^ 127 ≤ x.toInt ∧ x.toInt < 2 ^ 127 := by
      have hlt := x.toUInt128.toNat_lt
      rcases toInt_cases x with ⟨hy, hyi⟩ | ⟨hy, hyi⟩ <;> omega
    have hmin : x.toInt ≠ -2 ^ 127 := fun h => hx (toInt_inj (h.trans toInt_min.symm))
    have hquot : ∀ y : UInt128, y.toNat < 2 ^ 127 → (ofUInt128 (y.div r)).toInt = (y.toNat : ℤ).tdiv r.toNat := by
      intro y hy
      have hdiv : (y.div r).toNat = y.toNat / r.toNat := (UInt128.divrem_spec y hr).1
      have hle := Nat.div_le_self y.toNat r.toNat
      rcases toInt_cases (ofUInt128 (y.div r)) with ⟨hq, -⟩ | ⟨-, hq⟩
      · rw [toUInt128_ofUInt128] at hq
        omega
      · rw [hq, toUInt128_ofUInt128, hdiv]
        rfl
    split_ifs at hmag ⊢ with h0
    · have hy : x.neg.toUInt128.toNat < 2 ^ 127 := by omega
      have hne : ofUInt128 (x.neg.toUInt128.div r) ≠ min := by
        intro he
        have hpos := Int.tdiv_nonneg (Int.natCast_nonneg x.neg.toUInt128.toNat) (Int.natCast_nonneg r.toNat)
        have hq := hquot _ hy
        rw [he, toInt_min] at hq
        omega
      rw [toInt_neg_of_ne_min hne, hquot _ hy, hmag, Int.neg_tdiv, neg_neg]
    · rw [hquot _ (by omega), hmag]

end Int128

/-! ## All operators -/

/-- A call of an operator. The divisor of a quotient is not zero. -/
inductive WideCall where
  | uadd (x rhs : UInt128)
  | uadd64 (x : UInt128) (rhs : UInt64)
  | uadd32 (x : UInt128) (rhs : UInt32)
  | usub (x rhs : UInt128)
  | usub64 (x : UInt128) (rhs : UInt64)
  | umul (x : UInt128) (rhs : UInt32)
  | udiv (x : UInt128) (rhs : UInt32) (h : rhs ≠ 0)
  | udivrem (x : UInt128) (rhs : UInt32) (h : rhs ≠ 0)
  | ult (x rhs : UInt128)
  | ule (x rhs : UInt128)
  | neg (x : Int128)
  | add (x rhs : Int128)
  | sub (x rhs : Int128)
  | mul (x : Int128) (rhs : UInt32)
  | div (x : Int128) (rhs : UInt32) (h : rhs ≠ 0)
  | lt (x rhs : Int128)
  | le (x rhs : Int128)

namespace WideCall

/-- The call returns, and returns the exact result reduced modulo `2 ^ 128`. -/
def Exact : WideCall → Prop
  | uadd x rhs => (x.addWide rhs).toNat = (x.toNat + rhs.toNat) % 2 ^ 128
  | uadd64 x rhs => (x.add64 rhs).toNat = (x.toNat + rhs.toNat) % 2 ^ 128
  | uadd32 x rhs => (x.add rhs).toNat = (x.toNat + rhs.toNat) % 2 ^ 128
  | usub x rhs => ((x.sub rhs).toNat : ℤ) = ((x.toNat : ℤ) - rhs.toNat) % 2 ^ 128
  | usub64 x rhs => ((x.sub64 rhs).toNat : ℤ) = ((x.toNat : ℤ) - rhs.toNat) % 2 ^ 128
  | umul x rhs => (x.mul rhs).toNat = x.toNat * rhs.toNat % 2 ^ 128
  | udiv x rhs _ => (x.div rhs).toNat = x.toNat / rhs.toNat
  | udivrem x rhs _ => (x.divrem rhs).1.toNat = x.toNat / rhs.toNat ∧ (x.divrem rhs).2.toNat = x.toNat % rhs.toNat
  | ult x rhs => x.lt rhs = true ↔ x.toNat < rhs.toNat
  | ule x rhs => x.le rhs = true ↔ x.toNat ≤ rhs.toNat
  | neg x => x.neg.toInt = (-x.toInt).bmod (2 ^ 128)
  | add x rhs => (x.add rhs).toInt = (x.toInt + rhs.toInt).bmod (2 ^ 128)
  | sub x rhs => (x.sub rhs).toInt = (x.toInt - rhs.toInt).bmod (2 ^ 128)
  | mul x rhs => ∃ depth p, Int128.mul depth x rhs = some p ∧ p.toInt = (x.toInt * rhs.toNat).bmod (2 ^ 128)
  | div x rhs _ => ∃ depth p, Int128.div depth x rhs = some p ∧ p.toInt = x.toInt.tdiv rhs.toNat
  | lt x rhs => x.lt rhs = true ↔ x.toInt < rhs.toInt
  | le x rhs => x.le rhs = true ↔ x.toInt ≤ rhs.toInt

/-- Not a difference whose second operand has a zero low half, and not a
signed product or quotient of the smallest integer. -/
def Regular : WideCall → Prop
  | usub _ rhs => rhs.m_lo ≠ 0
  | usub64 _ rhs => rhs ≠ 0
  | sub _ rhs => rhs.m_lo ≠ 0
  | mul x _ => x ≠ Int128.min
  | div x _ _ => x ≠ Int128.min
  | _ => True

/-- The operators are exact on regular calls and on no others. -/
theorem call_exact_iff (call : WideCall) : call.Exact ↔ call.Regular := by
  cases call with
  | uadd x rhs => exact iff_true_intro (x.toNat_addWide rhs)
  | uadd64 x rhs => exact iff_true_intro (x.toNat_add64 rhs)
  | uadd32 x rhs => exact iff_true_intro (x.toNat_add rhs)
  | usub x rhs => exact x.sub_exact_iff rhs
  | usub64 x rhs =>
    have h := x.sub_exact_iff (.ofUInt64 rhs)
    rw [← UInt128.sub64_eq, UInt128.toNat_ofUInt64] at h
    exact h
  | umul x rhs => exact iff_true_intro (x.toNat_mul rhs)
  | udiv x rhs h => exact iff_true_intro (x.divrem_spec h).1
  | udivrem x rhs h => exact iff_true_intro (x.divrem_spec h)
  | ult x rhs => exact iff_true_intro (x.lt_iff rhs)
  | ule x rhs => exact iff_true_intro (x.le_iff rhs)
  | neg x => exact iff_true_intro x.toInt_neg
  | add x rhs => exact iff_true_intro (x.toInt_add rhs)
  | sub x rhs => exact x.sub_exact_iff rhs
  | mul x rhs => exact x.mul_exact_iff rhs
  | div x rhs h => exact x.div_exact_iff h
  | lt x rhs => exact iff_true_intro (x.lt_iff rhs)
  | le x rhs => exact iff_true_intro (x.le_iff rhs)

/-- `1 - 0` is not 1. -/
theorem sub_zero_inexact : ¬ (∀ call : WideCall, call.Exact) := by
  intro h
  have h10 : ((UInt128.sub ⟨1, 0⟩ ⟨0, 0⟩).toNat : ℤ) = 1 := h (.usub ⟨1, 0⟩ ⟨0, 0⟩)
  exact absurd h10 (by decide)

end WideCall

end Dynd
