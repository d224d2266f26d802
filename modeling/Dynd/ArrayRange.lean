import Dynd.IntegerTypes
import Dynd.Lib.Except
import Dynd.Lib.SignedWord
/-!
# Ranges of integers

`nd::range` counts the elements in `intptr_t`, whatever type they have, and
then stores them one after the other.

`range_iff` says for which bounds and steps of which types it stores the
sequence, or throws as it should.
-/
namespace Dynd.ArrayRange
open Lib int_type_id

/-! ## Counting -/

inductive fault where
  | type_error
  | runtime_error (what : String)
  | undefined_behavior
deriving DecidableEq

/-- The result of an operation of `intptr_t`. -/
def checked (z : ℤ) : Except fault ℤ := if InWord 64 z then .ok z else .error .undefined_behavior

/-- `(intptr_t)x` -/
def intptr_t {T : int_type_id} (x : T.Data) : ℤ := int64.value (static_cast int64 T x)

def int128_of (x : int128.Data) : Int128 := .ofUInt128 (.ofBitVec x)

def negate_word {w : ℕ} (x : BitVec w) : Except fault (BitVec w) :=
  (signedWord w (-x.toInt)).elim (.error .undefined_behavior) .ok

/-- `x = -x`. The shorter types are negated as an `int`. -/
def negate : (T : int_type_id) → T.Data → Except fault T.Data
  | .int32, x => negate_word x
  | .int64, x => negate_word x
  | .int128, x => .ok (int128_of x).neg.toUInt128.toBitVec
  | T, x => .ok (.ofInt T.bits (-T.value x))

/-- `((intptr_t)last - (intptr_t)first + (intptr_t)step - 1) / (intptr_t)step` -/
def divide (first last step : ℤ) : Except fault ℤ := do
  let size ← checked (last - first)
  let size ← checked (size + step)
  let size ← checked (size - 1)
  if step = 0 then .error .undefined_behavior else checked (size.tdiv step)

section
variable (T : int_type_id)

/-- Both counters; that of the unsigned types has no branch for a negative step. -/
def range_counter.count (beginval endval stepval : T.Data) : Except fault ℤ :=
  if op .greater T stepval T.zero then
    if op .less_equal T endval beginval then .ok 0 else divide (intptr_t beginval) (intptr_t endval) (intptr_t stepval)
  else if T.signed && op .less T stepval T.zero then
    if op .greater_equal T endval beginval then .ok 0
    else do
      let stepval ← negate T stepval
      divide (intptr_t endval) (intptr_t beginval) (intptr_t stepval)
  else .error (.runtime_error "nd::range cannot have a zero-sized step")

end

/-! ## Storing -/

/-- `static_cast<T>(begin + i * step)`: in `intptr_t`, or modulo 2 ^ 64. -/
def element : (T : int_type_id) → T.Data → T.Data → ℕ → Except fault T.Data
  | .uint64, beginval, stepval, i => .ok (.ofNat 64 (beginval.toNat + i * stepval.toNat))
  | T, beginval, stepval, i => do
    let product ← checked (i * T.value stepval)
    let sum ← checked (T.value beginval + product)
    return .ofInt T.bits sum

/-- `begin + step` -/
def int128_add (beginval stepval : int128.Data) : int128.Data := ((int128_of beginval).add (int128_of stepval)).toUInt128.toBitVec

def int128_elements (stepval : int128.Data) : ℕ → int128.Data → List int128.Data
  | 0, _ => []
  | count + 1, beginval => beginval :: int128_elements stepval count (int128_add beginval stepval)

def range_specialization.range : (T : int_type_id) → T.Data → T.Data → ℕ → Except fault (List T.Data)
  | .int128, beginval, stepval, count => .ok (int128_elements stepval count beginval)
  | T, beginval, stepval, count => (List.range count).mapM (element T beginval stepval)

/-- A fixed dim, or a var dim without any data. -/
inductive result (T : int_type_id) where
  | fixed (elements : List T.Data)
  | var
deriving DecidableEq

/-- `extra_offset` bytes stand before the elements in their memory block, whose size is counted modulo 2 ^ 64. -/
def range (extra_offset : ℕ) (T : int_type_id) (beginval endval stepval : T.Data) : Except fault (result T) :=
  if T = .uint128 then .error .type_error
  else do
    let dim_size ← range_counter.count T beginval endval stepval
    if dim_size < 0 then return .var
    else if dim_size ≠ 0 ∧ 2 ^ 64 ≤ extra_offset + dim_size.toNat * (T.bits / 8) then .error .undefined_behavior
    else return .fixed (← range_specialization.range T beginval stepval dim_size.toNat)

/-! ## What is asked of it -/

/-- Strictly before the end in the direction of the step. -/
def Before (endval stepval x : ℤ) : Prop := if 0 < stepval then x < endval else endval < x

/-- All of `begin + i * step` that are before the end, and nothing else. -/
structure Sequence (beginval endval stepval : ℤ) (xs : List ℤ) : Prop where
  complete : ∀ i : ℕ, i < xs.length ↔ Before endval stepval (beginval + i * stepval)
  exact : ∀ (i : ℕ) (h : i < xs.length), xs[i] = beginval + i * stepval

/-- How far the end is. -/
def distance (beginval endval stepval : ℤ) : ℤ := if 0 < stepval then endval - beginval else beginval - endval

/-- How many elements there are, when the end is not behind. -/
def exact_count (beginval endval stepval : ℤ) : ℤ := (distance beginval endval stepval + |stepval| - 1) / |stepval|

/-- A type without a range is refused, and otherwise the sequence is stored or there is none to store. -/
def Answered (T : int_type_id) (beginval endval stepval : ℤ) : Except fault (result T) → Prop
  | .ok (.fixed xs) => Sequence beginval endval stepval (xs.map T.value)
  | .ok .var => False
  | .error .type_error => T = .uint128
  | .error (.runtime_error _) => stepval = 0 ∨ 2 ^ 63 ≤ exact_count beginval endval stepval
  | .error .undefined_behavior => False

def Ranged (extra_offset : ℕ) (T : int_type_id) (beginval endval stepval : T.Data) : Prop :=
  Answered T (T.value beginval) (T.value endval) (T.value stepval) (range extra_offset T beginval endval stepval)

/-! ## When it is right -/

/-- The low 64 bits, with a sign. -/
def low (z : ℤ) : ℤ := z.bmod (2 ^ 64)

/-- The quotient of the counters is the number of elements, where `size` and `step` are what they compute with. -/
def Counts (size step n : ℤ) : Prop :=
  0 < step ∧ 0 < size ∧ size + step < 2 ^ 63 ∧ (size + step - 1) / step = n ∨
    step < 0 ∧ size ≤ 1 ∧ -2 ^ 63 ≤ size + step - 1 ∧ 1 + (1 - size) / (-step) = n ∧ n < 2 ^ 63

/-- The count of elements of a type, for a step toward the end. -/
def Countable : int_type_id → ℤ → ℤ → ℤ → Prop
  | .int8, beginval, endval, stepval => stepval ≠ -2 ^ 7 ∨ distance beginval endval stepval = 1
  | .int16, beginval, endval, stepval => stepval ≠ -2 ^ 15 ∨ distance beginval endval stepval = 1
  | .int32, _, _, stepval => stepval ≠ -2 ^ 31
  | .int64, beginval, endval, stepval => distance beginval endval stepval + |stepval| < 2 ^ 63
  | .uint64, beginval, endval, stepval =>
    (endval < 2 ^ 63 ∨ 2 ^ 63 ≤ beginval) ∧ (endval - beginval + stepval < 2 ^ 63 ∨ 2 ^ 63 ≤ stepval ∧ endval - beginval = 1) ∨
      beginval < 2 ^ 63 ∧ 2 ^ 63 ≤ endval ∧ 3 * 2 ^ 62 < endval - beginval ∧ endval - beginval = stepval + 1
  | .int128, beginval, endval, stepval =>
    Counts (if 0 < stepval then low endval - low beginval else low beginval - low endval) (low |stepval|)
      (exact_count beginval endval stepval)
  | .uint8, _, _, _ | .uint16, _, _, _ | .uint32, _, _, _ | .uint128, _, _, _ => True

/-- There is no sequence, or it is empty, or it is counted and has room. -/
def Regular (extra_offset : ℕ) (T : int_type_id) (beginval endval stepval : ℤ) : Prop :=
  T = .uint128 ∨ stepval = 0 ∨ distance beginval endval stepval ≤ 0 ∨
    Countable T beginval endval stepval ∧ extra_offset + exact_count beginval endval stepval * (T.bits / 8 : ℕ) < 2 ^ 64

/-! ## The counters -/

theorem checked_eq_ok {z w : ℤ} : checked z = .ok w ↔ InWord 64 z ∧ w = z := by
  unfold checked
  split_ifs with h
  · rw [Except.ok.injEq, and_iff_right h]
    exact eq_comm
  · exact iff_of_false (fun herror => by cases herror) fun hword => h hword.1

theorem low_inWord (z : ℤ) : InWord 64 (low z) := by
  unfold low
  rw [← BitVec.toInt_ofInt]
  exact inWord_toInt _

theorem low_of_inWord {z : ℤ} (h : InWord 64 z) : low z = z := by
  unfold low
  rw [← BitVec.toInt_ofInt]
  exact toInt_ofInt_of_inWord (by decide) h

theorem intptr_t_eq {T : int_type_id} (x : T.Data) : intptr_t x = low (T.value x) := by
  have hcast : static_cast int64 T x = BitVec.ofInt 64 (T.value x) := static_cast_eq int64 T x fun h => by cases h
  unfold intptr_t
  rw [hcast]
  exact BitVec.toInt_ofInt _

theorem tdiv_short {a b : ℤ} (h : a < b) (hb : 0 < b) : a.tdiv b ≤ 0 := by
  rcases le_or_gt 0 a with ha | ha
  · exact (Int.tdiv_eq_zero_of_lt ha h).le
  · rw [← Int.neg_tdiv_neg]
    exact Int.tdiv_nonpos_of_nonneg_of_nonpos (by omega) (by omega)

/-- The quotient rounds toward zero, so it is positive only if the step is no larger than what it divides. -/
theorem tdiv_eq_iff {size step n : ℤ} (hn : 1 ≤ n) : step ≠ 0 ∧ (size + step - 1).tdiv step = n ↔
    0 < step ∧ 0 < size ∧ (size + step - 1) / step = n ∨ step < 0 ∧ size ≤ 1 ∧ 1 + (1 - size) / (-step) = n := by
  rcases lt_trichotomy step 0 with hneg | rfl | hpos
  · have hquot : (size + step - 1).tdiv step = (1 - size + -step).tdiv (-step) := by
      rw [← Int.neg_tdiv_neg]
      congr 1
      ring
    rw [hquot, and_iff_right hneg.ne, or_iff_right fun h => absurd h.1 (by omega), and_iff_right hneg]
    rcases le_or_gt size 1 with hsize | hsize
    · rw [and_iff_right hsize, Int.tdiv_eq_ediv_of_nonneg (by omega), Int.add_ediv_of_dvd_right (dvd_refl _),
        Int.ediv_self (by omega), add_comm]
    · refine iff_of_false ?_ fun h => absurd h.1 (by omega)
      have hle : (1 - size + -step).tdiv (-step) ≤ 0 := tdiv_short (by omega) (by omega)
      omega
  · exact iff_of_false (fun h => h.1 rfl) fun h => by omega
  · rw [and_iff_right hpos.ne', and_iff_right hpos, or_iff_left fun h => absurd h.1 (by omega)]
    rcases le_or_gt 1 size with hsize | hsize
    · rw [and_iff_right (show 0 < size by omega), Int.tdiv_eq_ediv_of_nonneg (by omega)]
    · refine iff_of_false ?_ fun h => absurd h.1 (by omega)
      have hle : (size + step - 1).tdiv step ≤ 0 := tdiv_short (by omega) hpos
      omega

theorem divide_iff {first last step n : ℤ} (hstep : InWord 64 step) (hn : 1 ≤ n) :
    divide first last step = .ok n ↔ Counts (last - first) step n := by
  have hquot := @tdiv_eq_iff (last - first) step n hn
  obtain ⟨hlow, hhigh⟩ := hstep
  unfold divide Counts
  generalize last - first = size at hquot ⊢
  constructor
  · intro h
    obtain ⟨z, hz, hafter⟩ := bind_eq_ok.mp h
    obtain ⟨hsize, hz⟩ := checked_eq_ok.mp hz
    rw [hz] at hafter
    obtain ⟨z', hz', hafter'⟩ := bind_eq_ok.mp hafter
    obtain ⟨hsum, hz'⟩ := checked_eq_ok.mp hz'
    rw [hz'] at hafter'
    obtain ⟨z'', hz'', hquotient⟩ := bind_eq_ok.mp hafter'
    obtain ⟨hlast, hz''⟩ := checked_eq_ok.mp hz''
    rw [hz''] at hquotient
    split_ifs at hquotient with hzero
    obtain ⟨hword, hdiv⟩ := checked_eq_ok.mp hquotient
    rcases hquot.mp ⟨hzero, hdiv.symm⟩ with ⟨hpos, hsize', hn'⟩ | ⟨hneg, hsize', hn'⟩
    · exact Or.inl ⟨hpos, hsize', hsum.2, hn'⟩
    · exact Or.inr ⟨hneg, hsize', hlast.1, hn', hdiv ▸ hword.2⟩
  · intro h
    have hfits : InWord 64 size ∧ InWord 64 (size + step) ∧ InWord 64 (size + step - 1) ∧ n < 2 ^ 63 := by
      rcases h with ⟨hpos, hsize, hsum, hn'⟩ | ⟨hneg, hsize, hsum, -, hn'⟩
      · have hle : n ≤ size + step - 1 := hn' ▸ Int.ediv_le_self step (by omega)
        exact ⟨⟨by omega, by omega⟩, ⟨by omega, by omega⟩, ⟨by omega, by omega⟩, by omega⟩
      · exact ⟨⟨by omega, by omega⟩, ⟨by omega, by omega⟩, ⟨by omega, by omega⟩, hn'⟩
    obtain ⟨hsize, hsum, hlast, hn'⟩ := hfits
    obtain ⟨hzero, hdiv⟩ := hquot.mpr (h.imp (fun h => ⟨h.1, h.2.1, h.2.2.2⟩) fun h => ⟨h.1, h.2.1, h.2.2.2.1⟩)
    rw [checked_eq_ok.mpr ⟨hsize, rfl⟩, ok_bind, checked_eq_ok.mpr ⟨hsum, rfl⟩, ok_bind, checked_eq_ok.mpr ⟨hlast, rfl⟩, ok_bind,
      if_neg hzero, hdiv]
    exact checked_eq_ok.mpr ⟨⟨by omega, hn'⟩, rfl⟩

/-! ## The branches of the counters -/

section
variable {T : int_type_id} {beginval endval stepval : T.Data}

theorem op_iff (c : comparison) (a b : T.Data) : op c T a b = true ↔ c.holds (T.value a) (T.value b) = true := by
  rw [op_eq]

theorem step_positive : op .greater T stepval T.zero = true ↔ 0 < T.value stepval := by
  rw [op_eq, value_zero]
  exact decide_eq_true_iff

theorem step_negative : op .less T stepval T.zero = true ↔ T.value stepval < 0 := by
  rw [op_eq, value_zero]
  exact decide_eq_true_iff

theorem count_zero (h : T.value stepval = 0) : range_counter.count T beginval endval stepval =
    .error (.runtime_error "nd::range cannot have a zero-sized step") := by
  unfold range_counter.count
  rw [if_neg (by rw [step_positive]; omega), if_neg (by rw [Bool.and_eq_true, step_negative]; omega)]

/-- The type has the sign of the step. -/
theorem signed_of_neg (h : T.value stepval < 0) : T.signed = true := by
  by_contra hunsigned
  exact absurd (value_nonneg (by simpa using hunsigned) stepval) (by omega)

theorem count_empty (hstep : T.value stepval ≠ 0) (h : distance (T.value beginval) (T.value endval) (T.value stepval) ≤ 0) :
    range_counter.count T beginval endval stepval = .ok 0 := by
  unfold distance at h
  unfold range_counter.count
  by_cases hpos : 0 < T.value stepval
  · rw [if_pos hpos] at h
    rw [if_pos (step_positive.mpr hpos), if_pos]
    rw [op_eq]
    exact decide_eq_true (by omega)
  · rw [if_neg hpos] at h
    have hneg : T.value stepval < 0 := by omega
    rw [if_neg (by rwa [step_positive]), if_pos (by rw [signed_of_neg hneg, Bool.true_and, step_negative]; exact hneg), if_pos]
    rw [op_eq]
    exact decide_eq_true (by omega)

theorem count_positive (hpos : 0 < T.value stepval) (h : T.value beginval < T.value endval) :
    range_counter.count T beginval endval stepval = divide (low (T.value beginval)) (low (T.value endval)) (low (T.value stepval)) := by
  unfold range_counter.count
  rw [if_pos (step_positive.mpr hpos), if_neg, intptr_t_eq, intptr_t_eq, intptr_t_eq]
  rw [op_eq]
  exact Bool.not_eq_true _ ▸ decide_eq_false (by omega)

theorem count_negative (hneg : T.value stepval < 0) (h : T.value endval < T.value beginval) :
    range_counter.count T beginval endval stepval =
      negate T stepval >>= fun y => divide (low (T.value endval)) (low (T.value beginval)) (low (T.value y)) := by
  unfold range_counter.count
  rw [if_neg (by rw [step_positive]; omega), if_pos (by rw [signed_of_neg hneg, Bool.true_and, step_negative]; exact hneg), if_neg]
  · simp only [intptr_t_eq]
  · rw [op_eq]
    exact Bool.not_eq_true _ ▸ decide_eq_false (by omega)

end

/-! ## What is counted -/

theorem exact_count_pos {b e s : ℤ} (hs : s ≠ 0) (h : 0 < distance b e s) : 1 ≤ exact_count b e s := by
  have habs := abs_pos.mpr hs
  unfold exact_count
  rw [Int.le_ediv_iff_mul_le habs]
  omega

/-- A size and a step that are computed with as they are. -/
theorem counts_self {size step : ℤ} (hsize : 0 < size) (hstep : 0 < step) :
    Counts size step ((size + step - 1) / step) ↔ size + step < 2 ^ 63 := by
  unfold Counts
  rw [or_iff_left fun h => absurd h.1 (by omega), and_iff_right hstep, and_iff_right hsize, and_iff_left rfl]

/-- A step that is its own negative is rounded to once only from a size of one. -/
theorem counts_min {size step : ℤ} (hsize : 0 < size) (hstep : step < 0) (hlow : -2 ^ 62 ≤ step) (hfar : size < 2 ^ 62) :
    Counts size step ((size + -step - 1) / -step) ↔ size = 1 := by
  unfold Counts
  rw [or_iff_right fun h => absurd h.1 (by omega), and_iff_right hstep]
  constructor
  · intro h
    omega
  · rintro rfl
    have hone : (1 + -step - 1) / -step = 1 := by
      rw [show 1 + -step - 1 = -step by ring]
      exact Int.ediv_self (by omega)
    rw [hone, sub_self, Int.zero_ediv]
    omega

/-- Two bounds on both sides of 2 ^ 63 have a negative difference. Its quotient by a negative step is the count of two elements
at most, and only by coincidence. -/
theorem counts_uint64 {b e s : ℤ} (hb : 0 ≤ b) (hbe : b < e) (he : e < 2 ^ 64) (hs : 0 < s) (hs' : s < 2 ^ 64) :
    Counts (low e - low b) (low s) ((e - b + s - 1) / s) ↔ Countable .uint64 b e s := by
  have hlow {x : ℤ} (h0 : 0 ≤ x) (h : x < 2 ^ 63) : low x = x := low_of_inWord ⟨by omega, h⟩
  have hhigh {x : ℤ} (h0 : 2 ^ 63 ≤ x) (h : x < 2 ^ 64) : low x = x - 2 ^ 64 := by
    unfold low
    rw [Int.bmod_def]
    omega
  dsimp only [Countable]
  by_cases hsame : e < 2 ^ 63 ∨ 2 ^ 63 ≤ b
  · have hsize : low e - low b = e - b := by
      rcases hsame with hlt | hge
      · rw [hlow (by omega) hlt, hlow hb (by omega)]
      · rw [hhigh (by omega) he, hhigh hge (by omega)]
        ring
    rw [hsize, or_iff_left fun h => by omega, and_iff_right hsame]
    rcases lt_or_ge s (2 ^ 63) with hshort | hlong
    · rw [hlow hs.le hshort, counts_self (by omega) hs, or_iff_left fun h => absurd h.1 (by omega)]
    · have hstep := hhigh hlong hs'
      rw [hstep, or_iff_right (show ¬ e - b + s < 2 ^ 63 by omega), and_iff_right hlong]
      unfold Counts
      rw [or_iff_right fun h => absurd h.1 (by omega), and_iff_right (show s - 2 ^ 64 < 0 by omega)]
      constructor
      · intro h
        omega
      · intro hone
        have hcount : (e - b + s - 1) / s = 1 := by
          rw [hone, show 1 + s - 1 = s by ring]
          exact Int.ediv_self hs.ne'
        rw [hcount, hone, sub_self, Int.zero_ediv]
        omega
  · have hcross : b < 2 ^ 63 ∧ 2 ^ 63 ≤ e := by omega
    rw [hhigh hcross.2 he, hlow hb hcross.1, or_iff_right fun h => hsame h.1, and_iff_right hcross.1, and_iff_right hcross.2]
    unfold Counts
    rcases lt_or_ge s (2 ^ 63) with hshort | hlong
    · rw [hlow hs.le hshort]
      omega
    · rw [hhigh hlong hs', or_iff_right fun h => absurd h.1 (by omega), and_iff_right (show s - 2 ^ 64 < 0 by omega)]
      rcases le_or_gt (e - b) s with hone | htwo
      · -- one element, but a quotient of two or more
        have hcount : (e - b + s - 1) / s = 1 := by
          rw [Int.ediv_eq_iff_of_pos hs]
          omega
        have hquot : 1 ≤ (1 - (e - 2 ^ 64 - b)) / -(s - 2 ^ 64) := by
          rw [Int.le_ediv_iff_mul_le (by omega)]
          omega
        rw [hcount]
        omega
      · have hcount : (e - b + s - 1) / s = 2 := by
          rw [Int.ediv_eq_iff_of_pos hs]
          omega
        have hquot : (1 - (e - 2 ^ 64 - b)) / -(s - 2 ^ 64) = 1 ↔ e - b = s + 1 := by
          rw [Int.ediv_eq_iff_of_pos (by omega)]
          omega
        rw [hcount]
        omega

section
variable {T : int_type_id} {beginval endval stepval : T.Data}

/-- The values of a type of up to 32 bits, and of `int64_t`. -/
theorem value_small (h : T.bits < 64) (x : T.Data) : -2 ^ 31 ≤ T.value x ∧ T.value x < 2 ^ 32 := by
  have hrange := T.value_inRange x
  unfold InRange lo hi at hrange
  cases T with
  | int64 | int128 | uint64 | uint128 => exact absurd h (by decide)
  | _ =>
    norm_num [signed, bits] at hrange ⊢
    omega

theorem low_value (h : T.bits < 64 ∨ T.signed ∧ T.bits = 64) (x : T.Data) : low (T.value x) = T.value x := by
  apply low_of_inWord
  rcases h with h | ⟨hsigned, hbits⟩
  · have hsmall := value_small h x
    exact ⟨by omega, by omega⟩
  · have hrange := T.value_inRange x
    unfold InRange lo hi at hrange
    rwa [if_pos hsigned, if_pos hsigned, hbits] at hrange

/-- A step forward. -/
theorem count_positive_iff (hT : T ≠ .uint128) (hpos : 0 < T.value stepval) (h : T.value beginval < T.value endval) :
    range_counter.count T beginval endval stepval = .ok (exact_count (T.value beginval) (T.value endval) (T.value stepval)) ↔
      Countable T (T.value beginval) (T.value endval) (T.value stepval) := by
  have hdist : distance (T.value beginval) (T.value endval) (T.value stepval) = T.value endval - T.value beginval := if_pos hpos
  have hcount := exact_count_pos hpos.ne' (show 0 < distance (T.value beginval) (T.value endval) (T.value stepval) by omega)
  rw [count_positive hpos h, divide_iff (low_inWord _) hcount]
  have hword (hbits : T.bits < 64 ∨ T.signed ∧ T.bits = 64) :
      Counts (low (T.value endval) - low (T.value beginval)) (low (T.value stepval))
        (exact_count (T.value beginval) (T.value endval) (T.value stepval)) ↔
      distance (T.value beginval) (T.value endval) (T.value stepval) + |T.value stepval| < 2 ^ 63 := by
    unfold exact_count
    rw [low_value hbits, low_value hbits, low_value hbits, hdist, abs_of_pos hpos, counts_self (by omega) hpos]
  have hsmall (hbits : T.bits < 64) : Counts (low (T.value endval) - low (T.value beginval)) (low (T.value stepval))
      (exact_count (T.value beginval) (T.value endval) (T.value stepval)) := by
    have hb := value_small hbits beginval
    have he := value_small hbits endval
    have hs := value_small hbits stepval
    rw [hword (Or.inl hbits), hdist, abs_of_pos hpos]
    omega
  cases T with
  | int8 => exact iff_of_true (hsmall (by decide)) (Or.inl (by omega))
  | int16 => exact iff_of_true (hsmall (by decide)) (Or.inl (by omega))
  | int32 => exact iff_of_true (hsmall (by decide)) (show int32.value stepval ≠ -2 ^ 31 by omega)
  | int64 => exact hword (by decide)
  | int128 =>
    dsimp only [Countable]
    rw [if_pos hpos, abs_of_pos hpos]
  | uint8 => exact iff_of_true (hsmall (by decide)) True.intro
  | uint16 => exact iff_of_true (hsmall (by decide)) True.intro
  | uint32 => exact iff_of_true (hsmall (by decide)) True.intro
  | uint64 =>
    have hb := uint64.value_inRange beginval
    have he := uint64.value_inRange endval
    have hs := uint64.value_inRange stepval
    unfold exact_count
    rw [hdist, abs_of_pos hpos]
    exact counts_uint64 hb.1 h he.2 hpos hs.2
  | uint128 => exact absurd rfl hT

/-! ## A step back -/

/-- The negative of a step, where its type has it. -/
theorem value_negated (hneg : T.value stepval < 0) (hmin : T.value stepval ≠ T.lo) :
    T.value (.ofInt T.bits (-T.value stepval)) = -T.value stepval := by
  have hrange := T.value_inRange stepval
  have hsigned := signed_of_neg hneg
  apply T.value_ofInt
  unfold InRange lo hi at hrange ⊢
  unfold lo at hmin
  rw [if_pos hsigned] at hrange hmin ⊢
  rw [if_pos hsigned] at hrange ⊢
  omega

/-- The shorter types keep a step that is its own negative. -/
theorem count_min_iff (hbits : T.bits ≤ 16) (hnegate : negate T stepval = .ok (.ofInt T.bits (-T.value stepval)))
    (hneg : T.value stepval < 0) (hmin : T.value stepval = T.lo) (hown : T.value (.ofInt T.bits (-T.lo)) = T.lo)
    (h : T.value endval < T.value beginval) :
    (negate T stepval >>= fun y => divide (low (T.value endval)) (low (T.value beginval)) (low (T.value y))) =
        .ok (exact_count (T.value beginval) (T.value endval) (T.value stepval)) ↔
      distance (T.value beginval) (T.value endval) (T.value stepval) = 1 := by
  have hdist : distance (T.value beginval) (T.value endval) (T.value stepval) = T.value beginval - T.value endval :=
    if_neg hneg.not_gt
  have hcount := exact_count_pos hneg.ne (show 0 < distance (T.value beginval) (T.value endval) (T.value stepval) by omega)
  have hsmall : T.bits < 64 := by omega
  have hs := value_small hsmall stepval
  have hb := value_small hsmall beginval
  have he := value_small hsmall endval
  rw [hnegate, ok_bind, divide_iff (low_inWord _) hcount, low_value (Or.inl hsmall), low_value (Or.inl hsmall),
    low_value (Or.inl hsmall), hmin, hown, ← hmin]
  unfold exact_count
  rw [hdist, abs_of_neg hneg]
  exact counts_min (by omega) hneg (by omega) (by omega)

theorem negate_word_eq {w : ℕ} {x : BitVec w} (h : x.toInt ≠ -2 ^ (w - 1)) : negate_word x = .ok (.ofInt w (-x.toInt)) := by
  have hword : InWord w (-x.toInt) := by
    obtain ⟨hlow, hhigh⟩ := inWord_toInt x
    exact ⟨by omega, by omega⟩
  unfold negate_word
  rw [signedWord_of_inWord hword]
  rfl

theorem negate_word_min {w : ℕ} {x : BitVec w} (h : x.toInt = -2 ^ (w - 1)) : negate_word x = .error .undefined_behavior := by
  unfold negate_word
  rw [signedWord_overflow]
  · rfl
  · rintro ⟨-, hlt⟩
    omega

theorem value_int128_of (x : int128.Data) : (int128_of x).toInt = int128.value x := by
  have hvalue (y : BitVec 128) : (Int128.ofUInt128 (.ofBitVec y)).toInt = y.toInt := by
    rw [Int128.toInt_ofUInt128, UInt128.toNat_ofBitVec]
    exact (BitVec.toInt_eq_toNat_bmod y).symm
  exact hvalue x

theorem value_toBitVec (x : Int128) : int128.value x.toUInt128.toBitVec = x.toInt := by
  have hvalue : x.toInt = Int.bmod x.toUInt128.toNat (2 ^ 128) := Int128.toInt_ofUInt128 x.toUInt128
  rw [hvalue, ← UInt128.toNat_toBitVec]
  exact BitVec.toInt_eq_toNat_bmod _

theorem count_negative_iff (hneg : T.value stepval < 0) (h : T.value endval < T.value beginval) :
    range_counter.count T beginval endval stepval = .ok (exact_count (T.value beginval) (T.value endval) (T.value stepval)) ↔
      Countable T (T.value beginval) (T.value endval) (T.value stepval) := by
  have hdist : distance (T.value beginval) (T.value endval) (T.value stepval) = T.value beginval - T.value endval :=
    if_neg hneg.not_gt
  have hcount := exact_count_pos hneg.ne (show 0 < distance (T.value beginval) (T.value endval) (T.value stepval) by omega)
  have hsigned := signed_of_neg hneg
  rw [count_negative hneg h]
  -- a step that has a negative
  have hword (hbits : T.bits < 64 ∨ T.signed ∧ T.bits = 64) (hmin : T.value stepval ≠ T.lo)
      (hnegate : negate T stepval = .ok (.ofInt T.bits (-T.value stepval))) :
      (negate T stepval >>= fun y => divide (low (T.value endval)) (low (T.value beginval)) (low (T.value y))) =
          .ok (exact_count (T.value beginval) (T.value endval) (T.value stepval)) ↔
        distance (T.value beginval) (T.value endval) (T.value stepval) + |T.value stepval| < 2 ^ 63 := by
    rw [hnegate, ok_bind, divide_iff (low_inWord _) hcount, low_value hbits, low_value hbits, low_value hbits,
      value_negated hneg hmin]
    unfold exact_count
    rw [hdist, abs_of_neg hneg, counts_self (by omega) (by omega)]
  have habs := abs_of_neg hneg
  have hsmall (hbits : T.bits < 64) : distance (T.value beginval) (T.value endval) (T.value stepval) + |T.value stepval| < 2 ^ 63 := by
    have hb := value_small hbits beginval
    have he := value_small hbits endval
    have hs := value_small hbits stepval
    omega
  cases T with
  | int8 =>
    by_cases hmin : int8.value stepval = -2 ^ 7
    · exact (count_min_iff (by decide) rfl hneg hmin (by decide) h).trans (or_iff_right (not_not_intro hmin)).symm
    · exact iff_of_true ((hword (by decide) hmin rfl).mpr (hsmall (by decide))) (Or.inl hmin)
  | int16 =>
    by_cases hmin : int16.value stepval = -2 ^ 15
    · exact (count_min_iff (by decide) rfl hneg hmin (by decide) h).trans (or_iff_right (not_not_intro hmin)).symm
    · exact iff_of_true ((hword (by decide) hmin rfl).mpr (hsmall (by decide))) (Or.inl hmin)
  | int32 =>
    by_cases hmin : int32.value stepval = -2 ^ 31
    · have hnegate : negate .int32 stepval = .error .undefined_behavior := negate_word_min hmin
      rw [hnegate]
      exact iff_of_false (fun herror => by cases herror) fun hcountable => hcountable hmin
    · exact iff_of_true ((hword (by decide) hmin (negate_word_eq hmin)).mpr (hsmall (by decide))) hmin
  | int64 =>
    by_cases hmin : int64.value stepval = -2 ^ 63
    · have hnegate : negate .int64 stepval = .error .undefined_behavior := negate_word_min hmin
      rw [hnegate]
      refine iff_of_false (fun herror => by cases herror) fun hcountable => ?_
      change _ + |int64.value stepval| < 2 ^ 63 at hcountable
      omega
    · exact hword (by decide) hmin (negate_word_eq hmin)
  | int128 =>
    have hlow : low (int128.value (int128_of stepval).neg.toUInt128.toBitVec) = low |int128.value stepval| := by
      rw [value_toBitVec, Int128.toInt_neg, value_int128_of, habs]
      exact Int.bmod_bmod_of_dvd (by decide)
    change divide (low (int128.value endval)) (low (int128.value beginval)) (low (int128.value (int128_of stepval).neg.toUInt128.toBitVec)) =
      _ ↔ _
    rw [divide_iff (low_inWord _) hcount, hlow]
    dsimp only [Countable]
    rw [if_neg hneg.not_gt]
  | uint8 | uint16 | uint32 | uint64 | uint128 => cases hsigned

theorem count_iff (hT : T ≠ .uint128) (hstep : T.value stepval ≠ 0)
    (h : 0 < distance (T.value beginval) (T.value endval) (T.value stepval)) :
    range_counter.count T beginval endval stepval = .ok (exact_count (T.value beginval) (T.value endval) (T.value stepval)) ↔
      Countable T (T.value beginval) (T.value endval) (T.value stepval) := by
  unfold distance at h
  rcases lt_or_gt_of_ne hstep with hneg | hpos
  · rw [if_neg hneg.not_gt] at h
    exact count_negative_iff hneg (by omega)
  · rw [if_pos hpos] at h
    exact count_positive_iff hT hpos (by omega)

/-! ## What goes wrong -/

theorem checked_fault {z : ℤ} {f : fault} (h : checked z = .error f) : f = .undefined_behavior := by
  unfold checked at h
  split_ifs at h
  exact (Except.error.inj h).symm

theorem divide_fault {first last step : ℤ} {f : fault} (h : divide first last step = .error f) : f = .undefined_behavior := by
  rcases bind_eq_error.mp h with hfault | ⟨size, -, h⟩
  · exact checked_fault hfault
  rcases bind_eq_error.mp h with hfault | ⟨sum, -, h⟩
  · exact checked_fault hfault
  rcases bind_eq_error.mp h with hfault | ⟨total, -, h⟩
  · exact checked_fault hfault
  split_ifs at h
  · exact (Except.error.inj h).symm
  · exact checked_fault h

theorem negate_fault {x : T.Data} {f : fault} (h : negate T x = .error f) : f = .undefined_behavior := by
  have hword {w : ℕ} {x : BitVec w} (h : negate_word x = .error f) : f = .undefined_behavior := by
    unfold negate_word at h
    cases hsigned : signedWord w (-x.toInt) with
    | none =>
      rw [hsigned] at h
      exact (Except.error.inj h).symm
    | some y =>
      rw [hsigned] at h
      cases h
  cases T with
  | int32 | int64 => exact hword h
  | _ => cases h

theorem count_fault (hstep : T.value stepval ≠ 0) {f : fault} (h : range_counter.count T beginval endval stepval = .error f) :
    f = .undefined_behavior := by
  rcases le_or_gt (distance (T.value beginval) (T.value endval) (T.value stepval)) 0 with hempty | hdist
  · rw [count_empty hstep hempty] at h
    cases h
  · unfold distance at hdist
    rcases lt_or_gt_of_ne hstep with hneg | hpos
    · rw [if_neg hneg.not_gt] at hdist
      rw [count_negative hneg (by omega)] at h
      rcases bind_eq_error.mp h with hfault | ⟨y, -, h⟩
      · exact negate_fault hfault
      · exact divide_fault h
    · rw [if_pos hpos] at hdist
      rw [count_positive hpos (by omega)] at h
      exact divide_fault h

theorem element_fault {i : ℕ} {f : fault} (h : element T beginval stepval i = .error f) : f = .undefined_behavior := by
  cases T with
  | uint64 => cases h
  | _ =>
    rcases bind_eq_error.mp h with hfault | ⟨product, -, h⟩
    · exact checked_fault hfault
    rcases bind_eq_error.mp h with hfault | ⟨sum, -, h⟩
    · exact checked_fault hfault
    cases h

theorem length_int128_elements (stepval : int128.Data) (count : ℕ) (beginval : int128.Data) :
    (int128_elements stepval count beginval).length = count := by
  induction count generalizing beginval with
  | zero => rfl
  | succ count ih => exact congrArg (· + 1) (ih _)

/-- As many elements as were counted, or an overflow. -/
theorem stored_cases (count : ℕ) : (∃ xs, range_specialization.range T beginval stepval count = .ok xs ∧ xs.length = count) ∨
    range_specialization.range T beginval stepval count = .error .undefined_behavior := by
  have hloop : (∃ xs, (List.range count).mapM (element T beginval stepval) = .ok xs ∧ xs.length = count) ∨
      (List.range count).mapM (element T beginval stepval) = .error .undefined_behavior := by
    rcases mapM_cases (element T beginval stepval) (List.range count) with ⟨xs, hxs, hall⟩ | ⟨-, i, -, f, -, -, hi, hf⟩
    · exact Or.inl ⟨xs, hxs, by rw [← hall.length_eq, List.length_range]⟩
    · obtain rfl := element_fault hi
      exact Or.inr hf
  cases T with
  | int128 => exact Or.inl ⟨_, rfl, length_int128_elements stepval count beginval⟩
  | _ => exact hloop

/-! ## The sequence -/

/-- The indices of the elements are those below their number. -/
theorem before_iff {b e s : ℤ} (hs : s ≠ 0) (i : ℕ) : Before e s (b + i * s) ↔ i * |s| < distance b e s := by
  unfold Before distance
  rcases lt_or_gt_of_ne hs with hneg | hpos
  · rw [if_neg hneg.not_gt, if_neg hneg.not_gt, abs_of_neg hneg, mul_neg]
    omega
  · rw [if_pos hpos, if_pos hpos, abs_of_pos hpos]
    omega

theorem before_iff_lt {b e s : ℤ} (hs : s ≠ 0) (i : ℕ) : Before e s (b + i * s) ↔ (i : ℤ) < exact_count b e s := by
  unfold exact_count
  rw [before_iff hs, ← Int.add_one_le_iff, ← Int.add_one_le_iff, Int.le_ediv_iff_mul_le (abs_pos.mpr hs), add_mul]
  omega

theorem sequence_nil {b e s : ℤ} (hs : s ≠ 0) (h : distance b e s ≤ 0) : Sequence b e s [] := by
  refine ⟨fun i => iff_of_false (Nat.not_lt_zero i) ?_, fun i hi => absurd hi (Nat.not_lt_zero i)⟩
  rw [before_iff hs]
  have := mul_nonneg (Int.natCast_nonneg i) (abs_nonneg s)
  omega

/-- A sequence has as many elements as there are. -/
theorem Sequence.count {b e s : ℤ} {xs : List ℤ} (h : Sequence b e s xs) (hs : s ≠ 0) (hn : 0 ≤ exact_count b e s) :
    (xs.length : ℤ) = exact_count b e s := by
  have hlast := h.complete (exact_count b e s).toNat
  have hall := h.complete xs.length
  rw [before_iff_lt hs] at hlast hall
  omega

/-- An element lies between the bounds. -/
theorem element_inRange (hstep : T.value stepval ≠ 0) {i : ℕ}
    (h : Before (T.value endval) (T.value stepval) (T.value beginval + i * T.value stepval)) :
    T.InRange (T.value beginval + i * T.value stepval) := by
  obtain ⟨hblow, hbhigh⟩ := T.value_inRange beginval
  obtain ⟨helow, hehigh⟩ := T.value_inRange endval
  unfold Before at h
  rcases lt_or_gt_of_ne hstep with hneg | hpos
  · have hdown := mul_nonneg (Int.natCast_nonneg i) (neg_nonneg.mpr hneg.le)
    rw [if_neg hneg.not_gt] at h
    rw [mul_neg] at hdown
    exact ⟨by omega, by omega⟩
  · have hup := mul_nonneg (Int.natCast_nonneg i) hpos.le
    rw [if_pos hpos] at h
    exact ⟨by omega, by omega⟩

/-- What is stored, where the products and the sums fit. -/
theorem element_eq (hT : T ≠ .int128) {i : ℕ} (h : T = .uint64 ∨ InWord 64 (i * T.value stepval) ∧
    InWord 64 (T.value beginval + i * T.value stepval)) :
    element T beginval stepval i = .ok (.ofInt T.bits (T.value beginval + i * T.value stepval)) := by
  have hwords (hne : T ≠ .uint64) : (do
      let product ← checked (i * T.value stepval)
      let sum ← checked (T.value beginval + product)
      return BitVec.ofInt T.bits sum) = .ok (BitVec.ofInt T.bits (T.value beginval + i * T.value stepval)) := by
    obtain ⟨hproduct, hsum⟩ := h.resolve_left hne
    rw [checked_eq_ok.mpr ⟨hproduct, rfl⟩, ok_bind, checked_eq_ok.mpr ⟨hsum, rfl⟩, ok_bind]
    rfl
  cases T with
  | uint64 => exact congrArg Except.ok (BitVec.ofInt_natCast 64 (beginval.toNat + i * stepval.toNat)).symm
  | int128 => exact absurd rfl hT
  | _ => exact hwords (by decide)

theorem int128_elements_eq (stepval : int128.Data) (count : ℕ) (beginval : int128.Data)
    (h : ∀ i < count, int128.InRange (int128.value beginval + i * int128.value stepval)) :
    (int128_elements stepval count beginval).map int128.value =
      (List.range count).map fun i : ℕ => int128.value beginval + i * int128.value stepval := by
  induction count generalizing beginval with
  | zero => rfl
  | succ count ih =>
    rw [int128_elements, List.map_cons, List.range_succ_eq_map, List.map_cons, List.map_map, Nat.cast_zero, zero_mul, add_zero]
    congr 1
    rcases Nat.eq_zero_or_pos count with rfl | hpos
    · rfl
    · have hnext : int128.value (int128_add beginval stepval) = int128.value beginval + int128.value stepval := by
        have hrange := h 1 (by omega)
        rw [Nat.cast_one, one_mul] at hrange
        unfold int128_add
        rw [value_toBitVec, Int128.toInt_add, value_int128_of, value_int128_of, ← BitVec.toInt_ofInt]
        exact int128.value_ofInt hrange
      rw [ih, hnext]
      · refine List.map_congr_left fun i _ => ?_
        rw [Function.comp_apply]
        push_cast
        ring
      · intro i hi
        have hrange := h (i + 1) (by omega)
        rw [hnext]
        push_cast at hrange
        rwa [add_mul, one_mul, add_comm (_ * _), ← add_assoc] at hrange

/-- All products and sums fit when the count did. -/
theorem element_fits (hT : T ≠ .int128 ∧ T ≠ .uint128) (hstep : T.value stepval ≠ 0)
    (hcountable : Countable T (T.value beginval) (T.value endval) (T.value stepval)) {i : ℕ}
    (h : Before (T.value endval) (T.value stepval) (T.value beginval + i * T.value stepval)) :
    T = .uint64 ∨ InWord 64 (i * T.value stepval) ∧ InWord 64 (T.value beginval + i * T.value stepval) := by
  by_cases hunsigned : T = .uint64
  · exact Or.inl hunsigned
  · have hbits : T.bits < 64 ∨ T.signed ∧ T.bits = 64 := by
      obtain ⟨h128, hu128⟩ := hT
      cases T <;> first | exact absurd rfl h128 | exact absurd rfl hu128 | exact absurd rfl hunsigned | decide
    have hvalue (x : T.Data) : InWord 64 (T.value x) := by
      rw [← low_value hbits x]
      exact low_inWord _
    have hdist : distance (T.value beginval) (T.value endval) (T.value stepval) < 2 ^ 63 := by
      rcases hbits with hsmall | ⟨hsigned, hwide⟩
      · have hb := value_small hsmall beginval
        have he := value_small hsmall endval
        unfold distance
        split_ifs <;> omega
      · have hint64 : T = .int64 := by
          cases T <;> first | rfl | exact absurd hwide (by decide) | exact absurd rfl hunsigned
        subst hint64
        have habs := abs_nonneg (int64.value stepval)
        change distance _ _ _ + |int64.value stepval| < 2 ^ 63 at hcountable
        omega
    have hfar := (before_iff hstep i).mp h
    have hproduct : InWord 64 (i * T.value stepval) := by
      rcases lt_or_gt_of_ne hstep with hneg | hpos
      · have hdown := mul_nonneg (Int.natCast_nonneg i) (neg_nonneg.mpr hneg.le)
        rw [abs_of_neg hneg] at hfar
        rw [mul_neg] at hfar hdown
        exact ⟨by omega, by omega⟩
      · have hup := mul_nonneg (Int.natCast_nonneg i) hpos.le
        rw [abs_of_pos hpos] at hfar
        exact ⟨by omega, by omega⟩
    obtain ⟨hblow, hbhigh⟩ := hvalue beginval
    obtain ⟨helow, hehigh⟩ := hvalue endval
    obtain ⟨hlow, hhigh⟩ := hproduct
    refine Or.inr ⟨⟨hlow, hhigh⟩, ?_⟩
    unfold Before at h
    rcases lt_or_gt_of_ne hstep with hneg | hpos
    · have hdown := mul_nonneg (Int.natCast_nonneg i) (neg_nonneg.mpr hneg.le)
      rw [if_neg hneg.not_gt] at h
      rw [mul_neg] at hdown
      exact ⟨by omega, by omega⟩
    · have hup := mul_nonneg (Int.natCast_nonneg i) hpos.le
      rw [if_pos hpos] at h
      exact ⟨by omega, by omega⟩

/-- The elements that were counted are stored. -/
theorem stored_sequence (hT : T ≠ .uint128) (hstep : T.value stepval ≠ 0)
    (hcountable : Countable T (T.value beginval) (T.value endval) (T.value stepval)) {n : ℕ}
    (hn : (n : ℤ) = exact_count (T.value beginval) (T.value endval) (T.value stepval)) :
    ∃ xs, range_specialization.range T beginval stepval n = .ok xs ∧
      Sequence (T.value beginval) (T.value endval) (T.value stepval) (xs.map T.value) := by
  have hbefore (i : ℕ) : Before (T.value endval) (T.value stepval) (T.value beginval + i * T.value stepval) ↔ i < n := by
    rw [before_iff_lt hstep, ← hn]
    exact Nat.cast_lt
  have hvalues (xs : List T.Data) (hxs : xs.map T.value = (List.range n).map fun i : ℕ => T.value beginval + i * T.value stepval) :
      Sequence (T.value beginval) (T.value endval) (T.value stepval) (xs.map T.value) := by
    rw [hxs]
    refine ⟨fun i => ?_, fun i hi => ?_⟩
    · rw [List.length_map, List.length_range, hbefore]
    · rw [List.getElem_map, List.getElem_range]
  have hloop (h128 : T ≠ .int128) : ∃ xs, (List.range n).mapM (element T beginval stepval) = .ok xs ∧
      Sequence (T.value beginval) (T.value endval) (T.value stepval) (xs.map T.value) := by
    have hmap := mapM_eq_map (l := List.range n) fun i hi => element_eq h128
      (element_fits ⟨h128, hT⟩ hstep hcountable ((hbefore i).mpr (List.mem_range.mp hi)))
    refine ⟨_, hmap, hvalues _ ?_⟩
    rw [List.map_map]
    refine List.map_congr_left fun i hi => T.value_ofInt ?_
    exact element_inRange hstep ((hbefore i).mpr (List.mem_range.mp hi))
  cases T with
  | int128 =>
    exact ⟨_, rfl, hvalues _ (int128_elements_eq stepval n beginval fun i hi => element_inRange hstep ((hbefore i).mpr hi))⟩
  | uint128 => exact absurd rfl hT
  | _ => exact hloop (by decide)

end

/-! ## Ranges -/

section
variable {T : int_type_id} {beginval endval stepval : T.Data} {extra_offset : ℕ}

theorem stored_nothing : range_specialization.range T beginval stepval 0 = .ok [] := by
  cases T <;> rfl

/-- The elements are stored when there is room. -/
theorem range_of_count (hT : T ≠ .uint128) {n : ℤ} (hcount : range_counter.count T beginval endval stepval = .ok n) :
    range extra_offset T beginval endval stepval =
      if n < 0 then .ok .var
      else if n ≠ 0 ∧ 2 ^ 64 ≤ extra_offset + n.toNat * (T.bits / 8) then .error .undefined_behavior
      else .fixed <$> range_specialization.range T beginval stepval n.toNat := by
  unfold range
  rw [if_neg hT, hcount, ok_bind]
  split_ifs
  · rfl
  · rfl
  · cases range_specialization.range T beginval stepval n.toNat <;> rfl

theorem range_of_fault (hT : T ≠ .uint128) {f : fault} (hcount : range_counter.count T beginval endval stepval = .error f) :
    range extra_offset T beginval endval stepval = .error f := by
  unfold range
  rw [if_neg hT, hcount]
  rfl

/-- A sequence of one element or more. -/
theorem ranged_iff (hT : T ≠ .uint128) (hstep : T.value stepval ≠ 0)
    (hdist : 0 < distance (T.value beginval) (T.value endval) (T.value stepval)) :
    Ranged extra_offset T beginval endval stepval ↔ Countable T (T.value beginval) (T.value endval) (T.value stepval) ∧
      extra_offset + exact_count (T.value beginval) (T.value endval) (T.value stepval) * (T.bits / 8 : ℕ) < 2 ^ 64 := by
  have hpos := exact_count_pos hstep hdist
  rw [← count_iff hT hstep hdist]
  generalize hn : exact_count (T.value beginval) (T.value endval) (T.value stepval) = n at hpos ⊢
  have hroom : (2 ^ 64 ≤ extra_offset + n.toNat * (T.bits / 8)) ↔ ¬ (extra_offset + n * (T.bits / 8 : ℕ) < 2 ^ 64) := by
    obtain ⟨m, rfl⟩ := Int.eq_ofNat_of_zero_le (show 0 ≤ n by omega)
    rw [Int.toNat_natCast, not_lt]
    norm_cast
  unfold Ranged
  constructor
  · intro h
    cases hcount : range_counter.count T beginval endval stepval with
    | error f =>
      obtain rfl := count_fault hstep hcount
      rw [range_of_fault hT hcount] at h
      exact False.elim h
    | ok c =>
      rw [range_of_count hT hcount] at h
      split_ifs at h with hvar hfull
      · exact False.elim h
      · exact False.elim h
      · obtain ⟨xs, hxs, hlength⟩ | hfault := @stored_cases T beginval stepval c.toNat
        · rw [hxs] at h
          have hlen := Sequence.count h hstep (by omega)
          rw [List.length_map, hlength, hn, Int.toNat_of_nonneg (by omega)] at hlen
          subst hlen
          refine ⟨rfl, ?_⟩
          by_contra hmany
          exact hfull ⟨by omega, hroom.mpr hmany⟩
        · rw [hfault] at h
          exact False.elim h
  · rintro ⟨hcount, hfits⟩
    have hcountable : Countable T (T.value beginval) (T.value endval) (T.value stepval) := by
      rw [← count_iff hT hstep hdist, hn]
      exact hcount
    obtain ⟨xs, hxs, hsequence⟩ := stored_sequence hT hstep hcountable (n := n.toNat) (by rw [hn, Int.toNat_of_nonneg (by omega)])
    rw [range_of_count hT hcount, if_neg (by omega), if_neg fun h => hroom.mp h.2 hfits, hxs]
    exact hsequence

/-- The sequence is stored, or there is none, where nothing overflows that is computed in 64 bits, and the step is not its own
negative. -/
theorem range_iff (extra_offset : ℕ) (T : int_type_id) (beginval endval stepval : T.Data) :
    Ranged extra_offset T beginval endval stepval ↔
      Regular extra_offset T (T.value beginval) (T.value endval) (T.value stepval) := by
  unfold Regular
  by_cases hT : T = .uint128
  · refine iff_of_true ?_ (Or.inl hT)
    unfold Ranged range
    rw [if_pos hT]
    exact hT
  rw [or_iff_right hT]
  by_cases hstep : T.value stepval = 0
  · refine iff_of_true ?_ (Or.inl hstep)
    unfold Ranged
    rw [range_of_fault hT (count_zero hstep)]
    exact Or.inl hstep
  rw [or_iff_right hstep]
  rcases le_or_gt (distance (T.value beginval) (T.value endval) (T.value stepval)) 0 with hempty | hdist
  · refine iff_of_true ?_ (Or.inl hempty)
    unfold Ranged
    rw [range_of_count hT (count_empty hstep hempty), if_neg (lt_irrefl 0), if_neg (fun h => h.1 rfl), Int.toNat_zero, stored_nothing]
    exact sequence_nil hstep hempty
  · rw [or_iff_right hdist.not_ge]
    exact ranged_iff hT hstep hdist

/-- From 100 down to 0 in steps of -128: nothing, though 100 is before the end. -/
theorem step_negated_to_itself : ¬ Ranged 64 .int8 100 0 (-128) := by
  intro h
  have hnil : Sequence 100 0 (-128) [] := h
  exact absurd ((hnil.complete 0).mpr (by unfold Before; decide)) (Nat.lt_irrefl 0)

end

end Dynd.ArrayRange
