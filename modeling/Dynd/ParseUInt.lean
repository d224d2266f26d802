import Dynd.Bytes
import Dynd.UInt128
import Dynd.Lib.Horner
/-!
# Checked string to unsigned integer

`checked_string_to_uint` reports overflow when its wrapped accumulator gets
smaller. Multiplying by ten can wrap and still grow, so the test misses some
overflows: `checked_exact_iff` says which.
-/
namespace Dynd.Parse
open Lib

/-! ## The parser -/

/-- The value returned, and the two flags after the call. -/
structure Checked (T : Type) where
  value : T
  out_overflow : Bool
  out_badparse : Bool
deriving DecidableEq, Repr

section
variable {T : Type} [UIntOps T]

/-- `for (int i = 0; i < exponent; ++i)`: the power of ten, one factor at a time. -/
def applyExponent : ℕ → T → T → Bool → T × Bool
  | 0, result, _, out_overflow => (result, out_overflow)
  | n + 1, result, prev_result, out_overflow =>
    let result := UIntOps.mul result 10
    applyExponent n result result (out_overflow || UIntOps.lt result prev_result)

/-- At most two exponent digits: their value and what follows them. -/
def twoDigits : List UInt8 → ℕ × List UInt8
  | [] => (0, [])
  | c :: s =>
    if isDigit c then
      match s with
      | [] => ((c - ch '0').toNat, [])
      | d :: s' =>
        if isDigit d then (10 * (c - ch '0').toNat + (d - ch '0').toNat, s')
        else ((c - ch '0').toNat, d :: s')
    else (0, c :: s)

/-- An optional `'+'`. -/
def skipPlus : List UInt8 → List UInt8
  | [] => []
  | c :: s => if c = ch '+' then s else c :: s

def skipZeros (s : List UInt8) : List UInt8 := s.dropWhile (· = ch '0')

/-- What follows an `'e'` or `'E'`. -/
def checkedExponent (result : T) (out_overflow out_badparse : Bool) (begin : List UInt8) : Checked T :=
  let begin := skipPlus begin
  if begin = [] then
    ⟨result, out_overflow, true⟩
  else
    -- Accept any number of zeros followed by at most two digits.
    let (exponent, begin) := twoDigits (skipZeros begin)
    if begin = [] then
      let (result, out_overflow) := applyExponent exponent result result out_overflow
      ⟨result, out_overflow, out_badparse⟩
    else
      ⟨result, out_overflow, true⟩

/-- `while (begin < end)`. -/
def checkedLoop (result prev_result : T) (out_overflow out_badparse : Bool) : List UInt8 → Checked T
  | [] => ⟨result, out_overflow, out_badparse⟩
  | c :: begin =>
    if isDigit c then
      let result := UIntOps.add (UIntOps.mul result 10) (c - ch '0').toUInt32
      checkedLoop result result (out_overflow || UIntOps.lt result prev_result) out_badparse begin
    else if c = ch '.' then
      -- Accept ".", ".0" with trailing decimal zeros as well
      if skipZeros begin = [] then ⟨result, out_overflow, out_badparse⟩
      else ⟨result, out_overflow, true⟩
    else if c = ch 'e' || c = ch 'E' then
      checkedExponent result out_overflow out_badparse begin
    else
      ⟨result, out_overflow, true⟩

def checked_string_to_uint (s : List UInt8) (out_overflow out_badparse : Bool) : Checked T :=
  checkedLoop UIntOps.zero UIntOps.zero out_overflow (out_badparse || s.isEmpty) s

end

def checked_string_to_uint64 : List UInt8 → Bool → Bool → Checked UInt64 := checked_string_to_uint

def checked_string_to_uint128 : List UInt8 → Bool → Bool → Checked UInt128 := checked_string_to_uint

/-! ## The texts of unsigned integers -/

/-- What may follow the mantissa. -/
inductive UIntTail where
  | none
  /-- `'.'` and zeros -/
  | point (zeros : ℕ)
  /-- `'e'` or `'E'`, an optional `'+'`, zeros and at most two more digits -/
  | exponent (upper plus : Bool) (zeros : ℕ) (digits : List (Fin 10)) (atMostTwo : digits.length ≤ 2)
      (nonempty : zeros + digits.length ≠ 0)

/-- The text of an unsigned integer: one or more digits and a tail. -/
structure UIntText where
  mantissa : List (Fin 10)
  nonempty : mantissa ≠ []
  tail : UIntTail

def UIntTail.bytes : UIntTail → List UInt8
  | none => []
  | point zeros => ch '.' :: List.replicate zeros (ch '0')
  | exponent upper plus zeros digits _ _ =>
    (if upper then ch 'E' else ch 'e') :: ((if plus then [ch '+'] else []) ++
      (List.replicate zeros (ch '0') ++ digitBytes digits))

def UIntTail.power : UIntTail → ℕ
  | exponent _ _ _ digits _ _ => horner 10 0 (digits.map Fin.val)
  | _ => 0

namespace UIntText

def bytes (t : UIntText) : List UInt8 := digitBytes t.mantissa ++ t.tail.bytes

/-- The integer the text denotes. -/
def value (t : UIntText) : ℕ := horner 10 0 (t.mantissa.map Fin.val) * 10 ^ t.tail.power

/-- The digits of the integer: those of the mantissa, then one zero for each power of ten. -/
def digits (t : UIntText) : List ℕ := t.mantissa.map Fin.val ++ List.replicate t.tail.power 0

theorem horner_digits (t : UIntText) : horner 10 0 t.digits = t.value := by
  rw [digits, horner_append, horner_zeros, value]

end UIntText

/-! ## What the parser computes -/

section
variable {T : Type} [UIntOps T] {w : ℕ} [LawfulUInt T w]
open LawfulUInt

/-- The accumulator holds the residue of `v`. -/
def Holds (w : ℕ) [LawfulUInt T w] (r : T) (v : ℕ) : Prop := toNat r = v % 2 ^ w

theorem digit_toNat (d : Fin 10) : (digitByte d - ch '0').toNat = d := by
  fin_cases d <;> rfl

theorem digit_toUInt32 (d : Fin 10) : (digitByte d - ch '0').toUInt32.toNat = d := by
  rw [UInt8.toNat_toUInt32, digit_toNat]

theorem holds_mul {r : T} {v : ℕ} (h : Holds w r v) : Holds w (UIntOps.mul r 10) (10 * v) := by
  unfold Holds at h ⊢
  rw [toNat_mul, h, Nat.mul_comm 10 v]
  exact Nat.mod_mul_mod v 10 (2 ^ w)

theorem holds_step {r : T} {v : ℕ} (h : Holds w r v) (d : UInt32) :
    Holds w (UIntOps.add (UIntOps.mul r 10) d) (10 * v + d.toNat) := by
  have hm := holds_mul h
  unfold Holds at hm ⊢
  rw [toNat_add, hm, Nat.mod_add_mod]

/-- The overflow test compares the residues. -/
theorem lt_of_holds {r s : T} {u v : ℕ} (hr : Holds w r u) (hs : Holds w s v) :
    UIntOps.lt r s = decide (u % 2 ^ w < v % 2 ^ w) := by
  rw [Bool.eq_iff_iff, lt_iff, hr, hs, decide_eq_true_eq]

/-- The exponent loop multiplies by a power of ten and sees the drops on the way. -/
theorem applyExponent_spec (n : ℕ) {r : T} {v : ℕ} (ov : Bool) (h : Holds w r v) :
    Holds w (applyExponent n r r ov).1 (v * 10 ^ n) ∧
      (applyExponent n r r ov).2 = (ov || decide (Drops (2 ^ w) 10 v (List.replicate n 0))) := by
  induction n generalizing r v ov with
  | zero => simpa [applyExponent] using h
  | succ n ih =>
    obtain ⟨h1, h2⟩ := ih (ov || UIntOps.lt (UIntOps.mul r 10) r) (holds_mul h)
    refine ⟨?_, ?_⟩
    · rw [pow_succ, show v * (10 ^ n * 10) = 10 * v * 10 ^ n by ring]
      exact h1
    · rw [applyExponent, h2, lt_of_holds (holds_mul h) h, List.replicate_succ]
      simp [Bool.or_assoc]

/-- The mantissa loop, up to the tail. -/
theorem checkedLoop_digits (ds : List (Fin 10)) (s : List UInt8) {r : T} {v : ℕ} (ov bad : Bool)
    (h : Holds w r v) :
    ∃ r' : T, Holds w r' (horner 10 v (ds.map Fin.val)) ∧
      checkedLoop r r ov bad (digitBytes ds ++ s) =
        checkedLoop r' r' (ov || decide (Drops (2 ^ w) 10 v (ds.map Fin.val))) bad s := by
  induction ds generalizing r v ov with
  | nil => exact ⟨r, h, by simp [digitBytes]⟩
  | cons d ds ih =>
    have hstep := holds_step h (digitByte d - ch '0').toUInt32
    rw [digit_toUInt32] at hstep
    obtain ⟨r', hr', he⟩ := ih (ov || decide ((10 * v + d) % 2 ^ w < v % 2 ^ w)) hstep
    refine ⟨r', hr', ?_⟩
    simp only [digitBytes] at he
    simp only [digitBytes, List.map_cons, List.cons_append, checkedLoop, isDigit_digitByte, if_true,
      lt_of_holds hstep h, he, drops_cons, Bool.decide_or, Bool.or_assoc]

theorem skipZeros_replicate (n : ℕ) (s : List UInt8) :
    skipZeros (List.replicate n (ch '0') ++ s) = skipZeros s := by
  induction n with
  | zero => rfl
  | succ n ih => exact ih

theorem skipZeros_zeros (n : ℕ) : skipZeros (List.replicate n (ch '0')) = [] := by
  simp [skipZeros]

/-- Zeros and at most two digits are read as the exponent they denote. -/
theorem twoDigits_spec : ∀ digits : List (Fin 10), digits.length ≤ 2 →
    twoDigits (skipZeros (digitBytes digits)) = (horner 10 0 (digits.map Fin.val), [])
  | [], _ => rfl
  | [d], _ => by fin_cases d <;> rfl
  | [d, e], _ => by fin_cases d <;> fin_cases e <;> rfl

theorem skipPlus_digits {s : List UInt8} (h : ∀ c ∈ s, isDigit c = true) : skipPlus s = s := by
  cases s with
  | nil => rfl
  | cons c s =>
    have hc : c ≠ ch '+' := by
      rintro rfl
      exact absurd (h (ch '+') List.mem_cons_self) (by decide)
    simp [skipPlus, hc]

theorem exponent_isDigit (zeros : ℕ) (digits : List (Fin 10)) :
    ∀ c ∈ List.replicate zeros (ch '0') ++ digitBytes digits, isDigit c = true := by
  intro c hc
  rcases List.mem_append.1 hc with hc | hc
  · rw [List.eq_of_mem_replicate hc]
    rfl
  · obtain ⟨d, _, rfl⟩ := List.mem_map.1 hc
    exact isDigit_digitByte d

/-- An exponent in the accepted form is applied to the mantissa. -/
theorem checkedExponent_spec (plus : Bool) (zeros : ℕ) (digits : List (Fin 10)) (h2 : digits.length ≤ 2)
    (h0 : zeros + digits.length ≠ 0) (r : T) (ov bad : Bool) :
    checkedExponent r ov bad ((if plus then [ch '+'] else []) ++
        (List.replicate zeros (ch '0') ++ digitBytes digits)) =
      let (r', ov') := applyExponent (horner 10 0 (digits.map Fin.val)) r r ov
      ⟨r', ov', bad⟩ := by
  have hplus : skipPlus ((if plus then [ch '+'] else []) ++
      (List.replicate zeros (ch '0') ++ digitBytes digits)) =
      List.replicate zeros (ch '0') ++ digitBytes digits := by
    cases plus with
    | true => rfl
    | false => exact skipPlus_digits (exponent_isDigit zeros digits)
  have hne : List.replicate zeros (ch '0') ++ digitBytes digits ≠ [] := by
    intro h
    have := congrArg List.length h
    simp only [List.length_append, List.length_replicate, digitBytes, List.length_map, List.length_nil] at this
    omega
  unfold checkedExponent
  simp only [hplus, if_neg hne, skipZeros_replicate, twoDigits_spec digits h2, if_pos]

/-- The tail: the power of ten, applied to what the mantissa left. -/
theorem checkedLoop_tail (tail : UIntTail) {r : T} {v : ℕ} (ov bad : Bool) (h : Holds w r v) :
    ∃ r' : T, Holds w r' (v * 10 ^ tail.power) ∧ checkedLoop r r ov bad tail.bytes =
      ⟨r', ov || decide (Drops (2 ^ w) 10 v (List.replicate tail.power 0)), bad⟩ := by
  cases tail with
  | none => exact ⟨r, by simpa [UIntTail.power] using h, by simp [UIntTail.bytes, UIntTail.power, checkedLoop]⟩
  | point zeros =>
    refine ⟨r, by simpa [UIntTail.power] using h, ?_⟩
    have h1 : isDigit (ch '.') = false := rfl
    simp [UIntTail.bytes, UIntTail.power, checkedLoop, h1, skipZeros_zeros]
  | exponent upper plus zeros digits h2 h0 =>
    obtain ⟨h3, h4⟩ := applyExponent_spec (horner 10 0 (digits.map Fin.val)) ov h
    refine ⟨_, h3, ?_⟩
    have he : checkedLoop r r ov bad (UIntTail.exponent upper plus zeros digits h2 h0).bytes =
        checkedExponent r ov bad ((if plus then [ch '+'] else []) ++
          (List.replicate zeros (ch '0') ++ digitBytes digits)) := by
      cases upper <;> rfl
    rw [he, checkedExponent_spec plus zeros digits h2 h0, UIntTail.power, ← h4]

/-- On the text of an integer the parser returns the integer's residue, and
its overflow flag says whether some prefix made the residue drop. -/
theorem checked_spec (t : UIntText) :
    ∃ r : T, Holds w r t.value ∧ checked_string_to_uint t.bytes false false =
      ⟨r, decide (Drops (2 ^ w) 10 0 t.digits), false⟩ := by
  have hzero : Holds w (UIntOps.zero : T) 0 := by simp [Holds, toNat_zero]
  obtain ⟨r1, h1, e1⟩ := checkedLoop_digits t.mantissa t.tail.bytes false false hzero
  obtain ⟨r2, h2, e2⟩ := checkedLoop_tail t.tail
    (false || decide (Drops (2 ^ w) 10 0 (t.mantissa.map Fin.val))) false h1
  refine ⟨r2, h2, ?_⟩
  have hne : (digitBytes t.mantissa ++ t.tail.bytes).isEmpty = false := by
    have := t.nonempty
    cases hm : t.mantissa with
    | nil => exact absurd hm this
    | cons d ds => rfl
  rw [checked_string_to_uint, UIntText.bytes, hne, Bool.false_or, e1, e2, UIntText.digits]
  simp only [drops_append, Bool.false_or, Bool.decide_or]

/-! ## When it is exact -/

/-- What a checked parse promises of the text `t`: no bad parse, the integer
itself when it is below `2 ^ w`, and the overflow flag when it is not. -/
def Exact (w : ℕ) [LawfulUInt T w] (t : UIntText) (out : Checked T) : Prop :=
  out.out_badparse = false ∧
    (t.value < 2 ^ w → out.out_overflow = false ∧ toNat out.value = t.value) ∧
    (2 ^ w ≤ t.value → out.out_overflow = true)

/-- The parse is exact unless the integer is too large and no prefix of its
digits has a smaller residue modulo `2 ^ w` than the prefix before it. -/
theorem exact_iff (t : UIntText) :
    Exact w t (checked_string_to_uint t.bytes false false : Checked T) ↔
      t.value < 2 ^ w ∨ Drops (2 ^ w) 10 0 t.digits := by
  obtain ⟨r, hr, he⟩ := checked_spec (T := T) t
  rw [he]
  unfold Exact
  constructor
  · rintro ⟨-, -, hov⟩
    rcases Nat.lt_or_ge t.value (2 ^ w) with hlt | hge
    · exact .inl hlt
    · exact .inr (of_decide_eq_true (hov hge))
  · intro h
    refine ⟨rfl, fun hlt => ⟨?_, ?_⟩, fun hge => ?_⟩
    · have hn : ¬ Drops (2 ^ w) 10 0 t.digits := not_drops_of_lt (by omega) (by rw [t.horner_digits]; exact hlt)
      simp [hn]
    · rw [hr, Nat.mod_eq_of_lt hlt]
    · rcases h with hlt | hd
      · omega
      · simp [hd]

end

/-- `checked_string_to_uint64` and `checked_string_to_uint128` are exact on
the text of an integer that fits, and on one that does not exactly when some
decimal prefix has a smaller residue than the prefix before it. -/
theorem checked_exact_iff (t : UIntText) :
    (Exact 64 t (checked_string_to_uint64 t.bytes false false) ↔
      t.value < 2 ^ 64 ∨ Drops (2 ^ 64) 10 0 t.digits) ∧
    (Exact 128 t (checked_string_to_uint128 t.bytes false false) ↔
      t.value < 2 ^ 128 ∨ Drops (2 ^ 128) 10 0 t.digits) :=
  ⟨exact_iff t, exact_iff t⟩

/-- `d` followed by `n` zeros. -/
def roundText (d : Fin 10) (n : ℕ) : UIntText := ⟨d :: List.replicate n 0, by simp, .none⟩

/-- `30000000000000000000` and, in 128 bits, five with 38 zeros are too large,
and neither sets the overflow flag. -/
theorem overflow_missed :
    ¬ (∀ t : UIntText, Exact 64 t (checked_string_to_uint64 t.bytes false false)) ∧
    ¬ (∀ t : UIntText, Exact 128 t (checked_string_to_uint128 t.bytes false false)) := by
  refine ⟨fun h => ?_, fun h => ?_⟩
  · have h3 := (h (roundText 3 19)).2.2 (by decide)
    exact absurd h3 (by decide)
  · have h5 := (h (roundText 5 38)).2.2 (by decide)
    exact absurd h5 (by decide)

end Dynd.Parse
