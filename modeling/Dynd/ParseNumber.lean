import Dynd.ParseScalar
/-!
# Strings to integers

There are two ways from a string to a builtin integer: `string_to_number`, which
options and JSON use, and the assignment kernels of strings. Both read the digits
with `checked_string_to_uint` or `unchecked_string_to_uint`, which agree, and
handle the sign and the range on their own.
-/
namespace Dynd.Parse
open Lib

/-! ## The checked and the unchecked parser -/

section
variable {T : Type} [UIntOps T]

theorem applyPower_eq (n : ℕ) (r prev : T) (ov : Bool) : applyPower n r = (applyExponent n r prev ov).1 := by
  induction n generalizing r prev ov with
  | zero => rfl
  | succ n ih => exact ih _ _ _

/-- Both read the same value, whatever the checked one flags. -/
theorem uncheckedLoop_eq (s : List UInt8) (r prev : T) (ov bad : Bool) :
    uncheckedLoop r s = (checkedLoop r prev ov bad s).value := by
  induction s generalizing r prev ov with
  | nil => rfl
  | cons c s ih =>
    rw [uncheckedLoop, checkedLoop]
    by_cases hdigit : isDigit c = true
    · rw [if_pos hdigit, if_pos hdigit]
      exact ih _ _ _
    rw [if_neg hdigit, if_neg hdigit]
    by_cases hpoint : c = ch '.'
    · subst hpoint
      rw [if_pos rfl, if_neg (by decide)]
      split_ifs <;> rfl
    rw [if_neg hpoint]
    by_cases hexp : (c = ch 'e' || c = ch 'E') = true
    · rw [if_pos hexp, if_pos hexp, checkedExponent]
      by_cases hnil : skipPlus s = []
      · simp only [if_pos hnil]
      simp only [if_neg hnil]
      by_cases hrest : (twoDigits (skipZeros (skipPlus s))).2 = []
      · simp only [if_pos hrest]
        exact applyPower_eq _ _ _ _
      · simp only [if_neg hrest]
    · rw [if_neg hexp, if_neg hexp]

theorem unchecked_eq (s : List UInt8) (ov bad : Bool) :
    unchecked_string_to_uint s = (checked_string_to_uint s ov bad : Checked T).value :=
  uncheckedLoop_eq s _ _ _ _

end

/-- Where the checked parser flags nothing, the unchecked one reads the same value. -/
theorem unchecked_agrees (s : List UInt8) :
    ((checked_string_to_uint64 s false false).out_overflow = false → (checked_string_to_uint64 s false false).out_badparse = false →
      unchecked_string_to_uint64 s = (checked_string_to_uint64 s false false).value) ∧
    ((checked_string_to_uint128 s false false).out_overflow = false → (checked_string_to_uint128 s false false).out_badparse = false →
      unchecked_string_to_uint128 s = (checked_string_to_uint128 s false false).value) :=
  ⟨fun _ _ => unchecked_eq s false false, fun _ _ => unchecked_eq s false false⟩

theorem unchecked_agrees_point :
    unchecked_string_to_uint64 [ch '1', ch '2', ch '.', ch '0'] = 12 ∧
      unchecked_string_to_uint128 [ch '1', ch '2', ch '.', ch '0'] =
        (checked_string_to_uint128 [ch '1', ch '2', ch '.', ch '0'] false false).value :=
  ⟨(unchecked_agrees [ch '1', ch '2', ch '.', ch '0']).1 rfl rfl, (unchecked_agrees [ch '1', ch '2', ch '.', ch '0']).2 rfl rfl⟩

theorem uncheckedValue_eq (k : int_type_id) (s : List UInt8) : uncheckedValue k s = (checkedValue k s).value := by
  unfold uncheckedValue checkedValue
  split_ifs
  · exact congrArg UInt128.toNat (unchecked_eq s false false)
  · exact congrArg UInt64.toNat (unchecked_eq s false false)

/-! ## Printing and parsing 128 bits -/

/-- The text of `operator<<` is parsed to the integer it was printed from, without a bad parse or an
overflow. -/
theorem parse_printed_128 (x : BitVec 128) (errmode : assign_error_mode) :
    string_to_number .uint128 (UInt128.ofBitVec x).print errmode = .ok x ∧
      string_to_number .int128 (UInt128.ofBitVec x).printSigned errmode = .ok x := by
  have hunsigned := string_to_number_intText .uint128 x errmode
  have hsigned := string_to_number_intText .int128 x errmode
  rw [← print_builtin_scalar_eq .uint128 x] at hunsigned
  rw [← print_builtin_scalar_eq .int128 x] at hsigned
  exact ⟨hunsigned, hsigned⟩

/-! ## What a number reads as -/

/-- The exponent that the text after the digits applies. -/
def appliedExponent : List UInt8 → ℕ
  | [] => 0
  | c :: begin =>
    if (c = ch 'e' || c = ch 'E') && skipPlus begin ≠ [] && (twoDigits (skipZeros (skipPlus begin))).2 = [] then
      (twoDigits (skipZeros (skipPlus begin))).1
    else 0

/-- The number at the start of a text: its digits, and the exponent if nothing follows it. -/
def leadingNumber (v : ℕ) : List UInt8 → ℕ
  | [] => v
  | c :: begin =>
    if isDigit c then leadingNumber (10 * v + (c - ch '0').toUInt32.toNat) begin
    else v * 10 ^ appliedExponent (c :: begin)

section
variable {T : Type} {w : ℕ} [UIntOps T] [LawfulUInt T w]

theorem applyPower_holds (n : ℕ) {r : T} {v : ℕ} (h : Holds w r v) : Holds w (applyPower n r) (v * 10 ^ n) := by
  rw [applyPower_eq n r r false]
  exact (applyExponent_spec n false h).1

/-- The unchecked parser reads the number at the start, up to multiples of `2 ^ w`. -/
theorem uncheckedLoop_holds (s : List UInt8) {r : T} {v : ℕ} (h : Holds w r v) :
    Holds w (uncheckedLoop r s) (leadingNumber v s) := by
  induction s generalizing r v with
  | nil => exact h
  | cons c s ih =>
    rw [uncheckedLoop, leadingNumber]
    by_cases hdigit : isDigit c = true
    · rw [if_pos hdigit, if_pos hdigit]
      exact ih (holds_step h _)
    rw [if_neg hdigit, if_neg hdigit, appliedExponent]
    by_cases hexp : (c = ch 'e' || c = ch 'E') = true
    · rw [if_pos hexp, hexp, Bool.true_and]
      by_cases hnil : skipPlus s = []
      · simpa [hnil] using h
      by_cases hrest : (twoDigits (skipZeros (skipPlus s))).2 = []
      · simpa [hnil, hrest] using applyPower_holds _ h
      · simpa [hnil, hrest] using h
    · rw [if_neg hexp]
      simpa [hexp] using h

theorem unchecked_holds (s : List UInt8) : Holds w (unchecked_string_to_uint s : T) (leadingNumber 0 s) := by
  have hzero : Holds w (UIntOps.zero : T) 0 := by simp [Holds, LawfulUInt.toNat_zero]
  exact uncheckedLoop_holds s hzero

end

theorem uncheckedValue_128 {k : int_type_id} (h : k.bits = 128) (s : List UInt8) :
    uncheckedValue k s = leadingNumber 0 s % 2 ^ 128 := by
  rw [uncheckedValue, if_pos h]
  exact unchecked_holds (T := UInt128) s

/-! ## Trimming -/

def trim_begin (s : List UInt8) : List UInt8 := s.dropWhile isspace

/-- From the end backwards. -/
def trim_end (s : List UInt8) : List UInt8 := s.rdropWhile isspace

def trim (s : List UInt8) : List UInt8 := trim_begin (trim_end s)

theorem trim_eq_self {s : List UInt8} (h : ∀ c ∈ s, isspace c = false) : trim s = s := by
  have hend : trim_end s = s := by
    rw [trim_end, List.rdropWhile_eq_self_iff]
    intro hne
    simp [h _ (List.getLast_mem hne)]
  rw [trim, hend, trim_begin]
  cases s with
  | nil => rfl
  | cons c s => exact List.dropWhile_cons_of_neg (by simp [h c List.mem_cons_self])

/-! ## The assignment kernels of strings -/

/-- `string_to_int<T>::single` -/
def string_to_int (k : int_type_id) (s : List UInt8) (errmode : assign_error_mode) : Except exception k.Data :=
  let (negative, s) := takeMinus (trim s)
  if errmode = .nocheck then
    .ok (signedBits k (unchecked_string_to_uint64 s).toNat negative)
  else
    let value := checked_string_to_uint64 s false false
    if value.out_badparse then .error ⟨"cannot cast string ", s⟩
    else if value.out_overflow || is_overflow k value.value.toNat negative then .error ⟨"overflow converting string ", s⟩
    else .ok (signedBits k value.value.toNat negative)

/-- `string_to_uint<T>::single` -/
def string_to_uint (k : int_type_id) (s : List UInt8) (errmode : assign_error_mode) : Except exception k.Data :=
  let (negative, s) := takeMinus (trim s)
  if errmode = .nocheck then
    .ok (if negative then 0 else BitVec.ofNat k.bits (unchecked_string_to_uint64 s).toNat)
  else
    let value := checked_string_to_uint64 s false false
    if value.out_badparse then .error ⟨"cannot cast string ", s⟩
    else if value.out_overflow || (negative && value.value.toNat ≠ 0) || is_overflow k value.value.toNat negative then
      .error ⟨"overflow converting string ", s⟩
    else .ok (BitVec.ofNat k.bits value.value.toNat)

def string_to_int128_single (s : List UInt8) (errmode : assign_error_mode) : Except exception int_type_id.int128.Data :=
  let (negative, s) := takeMinus (trim s)
  if errmode = .nocheck then
    .ok (if negative then 0 else BitVec.ofNat 128 (unchecked_string_to_uint128 s).toNat)
  else
    let value := checked_string_to_uint128 s false false
    if value.out_badparse then .error ⟨"cannot cast string ", s⟩
    else if value.out_overflow || is_overflow .int128 value.value.toNat negative then
      .error ⟨"overflow converting string ", s⟩
    else .ok (signedBits .int128 value.value.toNat negative)

/-- The `result` is an `int128`, which keeps the bits of the parser's `uint128`. -/
def string_to_uint128_single (s : List UInt8) (errmode : assign_error_mode) : Except exception int_type_id.uint128.Data :=
  let (negative, s) := takeMinus (trim s)
  if errmode = .nocheck then
    .ok (BitVec.ofNat 128 (unchecked_string_to_uint128 s).toNat)
  else
    let value := checked_string_to_uint128 s false false
    if value.out_badparse then .error ⟨"cannot cast string ", s⟩
    else if value.out_overflow || (negative && value.value.toNat ≠ 0) then .error ⟨"overflow converting string ", s⟩
    else .ok (BitVec.ofNat 128 value.value.toNat)

/-- The integers of `static_string_to_builtin_kernels`. -/
def static_string_to_builtin_kernels : (k : int_type_id) → List UInt8 → assign_error_mode → Except exception k.Data
  | .int8 => string_to_int .int8
  | .int16 => string_to_int .int16
  | .int32 => string_to_int .int32
  | .int64 => string_to_int .int64
  | .int128 => string_to_int128_single
  | .uint8 => string_to_uint .uint8
  | .uint16 => string_to_uint .uint16
  | .uint32 => string_to_uint .uint32
  | .uint64 => string_to_uint .uint64
  | .uint128 => string_to_uint128_single

/-- What both ways store in a checking mode, from the sign and what the checked parser returned. -/
def checkedResult (k : int_type_id) (u : Checked ℕ) (negative : Bool) : Option k.Data :=
  if u.out_badparse || u.out_overflow || (negative && !k.signed && u.value ≠ 0) || is_overflow k u.value negative then none
  else some (signedBits k u.value (negative && k.signed))

theorem is_overflow_unsigned {k : int_type_id} (h : k.signed = false) (value : ℕ) (a b : Bool) :
    is_overflow k value a = is_overflow k value b := by
  simp [is_overflow, h]

theorem string_to_number_checked (k : int_type_id) (s : List UInt8) {errmode : assign_error_mode} (h : errmode ≠ .nocheck) :
    (string_to_number k s errmode).toOption = checkedResult k (checkedValue k (takeMinus s).2) (takeMinus s).1 := by
  rw [string_to_number]
  simp only [if_pos h]
  generalize checkedValue k (takeMinus s).2 = u
  generalize (takeMinus s).1 = negative
  unfold checkedResult
  rcases u with ⟨value, ov, bad⟩
  cases hs : k.signed with
  | true =>
    simp only [Bool.true_or, Bool.and_true, Bool.not_true, Bool.false_and, Bool.or_false, Bool.and_false]
    cases bad <;> cases ov <;> cases is_overflow k value negative <;> rfl
  | false =>
    rw [is_overflow_unsigned hs value _ negative]
    simp only [Bool.false_or, Bool.not_false, Bool.true_and, Bool.and_true, Bool.and_false]
    cases bad <;> cases ov <;> cases is_overflow k value negative <;> cases negative && decide (value ≠ 0) <;> rfl

theorem string_to_int_checked {k : int_type_id} (hs : k.signed = true) (hk : k.bits ≠ 128) (s : List UInt8)
    {errmode : assign_error_mode} (h : errmode ≠ .nocheck) :
    (string_to_int k s errmode).toOption = checkedResult k (checkedValue k (takeMinus (trim s)).2) (takeMinus (trim s)).1 := by
  rw [string_to_int, checkedValue]
  simp only [if_neg h, if_neg hk]
  generalize checked_string_to_uint64 _ false false = u
  rcases u with ⟨value, ov, bad⟩
  simp only [checkedResult, hs, Bool.and_true, Bool.not_true, Bool.and_false, Bool.false_and, Bool.or_false]
  cases bad <;> cases ov <;> cases is_overflow k value.toNat (takeMinus (trim s)).1 <;> rfl

theorem string_to_uint_checked {k : int_type_id} (hs : k.signed = false) (hk : k.bits ≠ 128) (s : List UInt8)
    {errmode : assign_error_mode} (h : errmode ≠ .nocheck) :
    (string_to_uint k s errmode).toOption = checkedResult k (checkedValue k (takeMinus (trim s)).2) (takeMinus (trim s)).1 := by
  rw [string_to_uint, checkedValue]
  simp only [if_neg h, if_neg hk]
  generalize checked_string_to_uint64 _ false false = u
  rcases u with ⟨value, ov, bad⟩
  simp only [checkedResult, hs, Bool.and_true, Bool.not_false, Bool.and_false, signedBits, Bool.false_eq_true, if_false,
    BitVec.ofInt_natCast]
  cases bad <;> cases ov <;> cases is_overflow k value.toNat (takeMinus (trim s)).1 <;>
    cases (takeMinus (trim s)).1 && decide (value.toNat ≠ 0) <;> rfl

theorem string_to_int128_checked (s : List UInt8) {errmode : assign_error_mode} (h : errmode ≠ .nocheck) :
    (string_to_int128_single s errmode).toOption =
      checkedResult .int128 (checkedValue .int128 (takeMinus (trim s)).2) (takeMinus (trim s)).1 := by
  rw [string_to_int128_single, checkedValue]
  simp only [if_neg h, if_pos (show int_type_id.int128.bits = 128 from rfl)]
  generalize checked_string_to_uint128 _ false false = u
  rcases u with ⟨value, ov, bad⟩
  simp only [checkedResult, show int_type_id.int128.signed = true from rfl, Bool.and_true, Bool.not_true, Bool.and_false,
    Bool.false_and, Bool.or_false]
  cases bad <;> cases ov <;> cases is_overflow .int128 value.toNat (takeMinus (trim s)).1 <;> rfl

theorem string_to_uint128_checked (s : List UInt8) {errmode : assign_error_mode} (h : errmode ≠ .nocheck) :
    (string_to_uint128_single s errmode).toOption =
      checkedResult .uint128 (checkedValue .uint128 (takeMinus (trim s)).2) (takeMinus (trim s)).1 := by
  rw [string_to_uint128_single, checkedValue]
  simp only [if_neg h, if_pos (show int_type_id.uint128.bits = 128 from rfl)]
  generalize checked_string_to_uint128 _ false false = u
  rcases u with ⟨value, ov, bad⟩
  have hov : is_overflow .uint128 value.toNat (takeMinus (trim s)).1 = false := by
    rw [is_overflow, if_neg (by simp [int_type_id.signed])]
    exact decide_eq_false (Nat.not_le.2 value.toNat_lt)
  simp only [checkedResult, hov, show int_type_id.uint128.signed = false from rfl, Bool.and_true, Bool.not_false,
    Bool.and_false, Bool.or_false, signedBits, Bool.false_eq_true, if_false, BitVec.ofInt_natCast]
  cases bad <;> cases ov <;> cases (takeMinus (trim s)).1 && decide (value.toNat ≠ 0) <;> rfl

/-- In a checking mode both ways store the same or both throw. -/
theorem kernels_checked (k : int_type_id) (s : List UInt8) {errmode : assign_error_mode} (h : errmode ≠ .nocheck) :
    (static_string_to_builtin_kernels k s errmode).toOption = (string_to_number k (trim s) errmode).toOption := by
  rw [string_to_number_checked k (trim s) h]
  cases k
  case int128 => exact string_to_int128_checked s h
  case uint128 => exact string_to_uint128_checked s h
  case int8 | int16 | int32 | int64 => exact string_to_int_checked rfl (by simp [int_type_id.bits]) s h
  case uint8 | uint16 | uint32 | uint64 => exact string_to_uint_checked rfl (by simp [int_type_id.bits]) s h

/-! ## Without checks -/

/-- What `string_to_number` stores in the nocheck mode. -/
def uncheckedResult (k : int_type_id) (uvalue : ℕ) (negative : Bool) : k.Data :=
  if negative && !k.signed then 0 else signedBits k uvalue (negative && k.signed)

theorem string_to_number_nocheck (k : int_type_id) (s : List UInt8) :
    string_to_number k s .nocheck = .ok (uncheckedResult k (uncheckedValue k (takeMinus s).2) (takeMinus s).1) := by
  rw [string_to_number]
  simp only [ne_eq, not_true_eq_false, if_false]
  unfold uncheckedResult
  cases hs : k.signed with
  | true => simp
  | false => cases (takeMinus s).1 <;> simp [signedBits]

/-- What the checking mode stores is stored without checks as well. -/
theorem checkedResult_nocheck {k : int_type_id} {u : Checked ℕ} {negative : Bool} {x : k.Data}
    (h : checkedResult k u negative = some x) : uncheckedResult k u.value negative = x := by
  unfold checkedResult at h
  split_ifs at h with hfail
  rw [← Option.some.inj h, uncheckedResult]
  split_ifs with hneg
  · -- the sign of an unsigned zero
    simp only [hneg, Bool.true_and, Bool.or_eq_true, decide_eq_true_eq, not_or, not_not] at hfail
    simp only [Bool.and_eq_true, Bool.not_eq_true'] at hneg
    simp [signedBits, hneg, hfail.1.2]
  · rfl

theorem checked_then_nocheck {k : int_type_id} {s : List UInt8} {errmode : assign_error_mode} {x : k.Data}
    (h : string_to_number k s errmode = .ok x) : string_to_number k s .nocheck = .ok x := by
  by_cases hmode : errmode = .nocheck
  · rwa [hmode] at h
  · have hc := string_to_number_checked k s hmode
    rw [h] at hc
    rw [string_to_number_nocheck, uncheckedValue_eq, checkedResult_nocheck hc.symm]

theorem kernels_nocheck {k : int_type_id} (hk : k.bits ≠ 128) (s : List UInt8) :
    static_string_to_builtin_kernels k s .nocheck = string_to_number k (trim s) .nocheck := by
  have hint : ∀ {k : int_type_id}, k.signed = true → k.bits ≠ 128 →
      string_to_int k s .nocheck = string_to_number k (trim s) .nocheck := by
    intro k hs hk
    rw [string_to_number_nocheck, string_to_int, uncheckedValue, if_neg hk]
    simp [uncheckedResult, hs]
  have huint : ∀ {k : int_type_id}, k.signed = false → k.bits ≠ 128 →
      string_to_uint k s .nocheck = string_to_number k (trim s) .nocheck := by
    intro k hs hk
    rw [string_to_number_nocheck, string_to_uint, uncheckedValue, if_neg hk]
    simp [uncheckedResult, hs, signedBits]
  cases k
  case int128 | uint128 => exact absurd rfl hk
  case int8 | int16 | int32 | int64 => exact hint rfl hk
  case uint8 | uint16 | uint32 | uint64 => exact huint rfl hk

theorem ofNat_eq_zero_iff {w v : ℕ} (h : v < 2 ^ w) : BitVec.ofNat w v = 0#w ↔ v = 0 := by
  constructor
  · intro h0
    have := congrArg BitVec.toNat h0
    simpa [Nat.mod_eq_of_lt h] using this
  · rintro rfl
    rfl

theorem signedBits_neg_eq_zero {k : int_type_id} {v : ℕ} (h : v < 2 ^ k.bits) : signedBits k v true = 0#k.bits ↔ v = 0 := by
  rw [signedBits, if_pos rfl, BitVec.ofInt_neg, BitVec.ofInt_natCast, ← ofNat_eq_zero_iff h]
  constructor
  · intro h0
    rw [← BitVec.neg_neg (x := BitVec.ofNat k.bits v), h0, BitVec.neg_zero]
  · intro h0
    rw [h0, BitVec.neg_zero]

/-- The two kernels of 128 bits treat a sign in their own ways: one stores zero, the other ignores it. -/
theorem kernels_nocheck_128 {k : int_type_id} (hk : k.bits = 128) (s : List UInt8) :
    static_string_to_builtin_kernels k s .nocheck = string_to_number k (trim s) .nocheck ↔
      ((takeMinus (trim s)).1 = true → leadingNumber 0 (takeMinus (trim s)).2 % 2 ^ 128 = 0) := by
  have hvalue := uncheckedValue_128 hk (takeMinus (trim s)).2
  have hlt : leadingNumber 0 (takeMinus (trim s)).2 % 2 ^ 128 < 2 ^ 128 := Nat.mod_lt _ (by positivity)
  rw [string_to_number_nocheck, hvalue]
  rw [uncheckedValue, if_pos hk] at hvalue
  generalize leadingNumber 0 (takeMinus (trim s)).2 % 2 ^ 128 = v at hvalue hlt ⊢
  cases k
  case int128 =>
    have hzero : signedBits .int128 v true = 0#128 ↔ v = 0 := signedBits_neg_eq_zero hlt
    rw [static_string_to_builtin_kernels, string_to_int128_single]
    simp only [if_true, hvalue, Except.ok.injEq]
    cases (takeMinus (trim s)).1 with
    | true => exact ⟨fun h _ => hzero.1 h.symm, fun h => (hzero.2 (h rfl)).symm⟩
    | false => exact ⟨fun _ h => absurd h Bool.false_ne_true, fun _ => (BitVec.ofInt_natCast 128 v).symm⟩
  case uint128 =>
    rw [static_string_to_builtin_kernels, string_to_uint128_single]
    simp only [if_true, hvalue]
    cases (takeMinus (trim s)).1 with
    | true =>
      exact ⟨fun h _ => (ofNat_eq_zero_iff hlt).1 (Except.ok.inj h),
        fun h => congrArg Except.ok ((ofNat_eq_zero_iff hlt).2 (h rfl))⟩
    | false =>
      exact ⟨fun _ h => absurd h Bool.false_ne_true, fun _ => congrArg Except.ok (BitVec.ofInt_natCast 128 v).symm⟩
  all_goals cases hk

/-- What is promised of a text and a type: the kernel and `string_to_number` store the same or both throw in every error
mode, and what either stores with checks it stores without. -/
def Agree (k : int_type_id) (s : List UInt8) : Prop :=
  (∀ errmode, (static_string_to_builtin_kernels k s errmode).toOption = (string_to_number k (trim s) errmode).toOption) ∧
    (∀ errmode x, static_string_to_builtin_kernels k s errmode = .ok x → static_string_to_builtin_kernels k s .nocheck = .ok x) ∧
    ∀ errmode x, string_to_number k (trim s) errmode = .ok x → string_to_number k (trim s) .nocheck = .ok x

/-- Everything is promised but for a 128-bit type and a text whose sign stands before a number that is not zero. -/
theorem string_to_integer_agree_iff (k : int_type_id) (s : List UInt8) :
    Agree k s ↔
      (k.bits = 128 → (takeMinus (trim s)).1 = true → leadingNumber 0 (takeMinus (trim s)).2 % 2 ^ 128 = 0) := by
  have hnocheck : static_string_to_builtin_kernels k s .nocheck = string_to_number k (trim s) .nocheck ↔
      (k.bits = 128 → (takeMinus (trim s)).1 = true → leadingNumber 0 (takeMinus (trim s)).2 % 2 ^ 128 = 0) := by
    by_cases hk : k.bits = 128
    · simp only [kernels_nocheck_128 hk, hk, true_implies]
    · simp only [kernels_nocheck hk, hk, false_implies]
  rw [← hnocheck]
  constructor
  · rintro ⟨hboth, -, -⟩
    have h := hboth .nocheck
    rw [string_to_number_nocheck] at h ⊢
    cases hkernel : static_string_to_builtin_kernels k s .nocheck with
    | error e => simp [hkernel, Except.toOption] at h
    | ok x => simpa [hkernel, Except.toOption] using h
  · intro h
    have hboth : ∀ errmode, (static_string_to_builtin_kernels k s errmode).toOption =
        (string_to_number k (trim s) errmode).toOption := by
      intro errmode
      by_cases hmode : errmode = .nocheck
      · rw [hmode, h]
      · exact kernels_checked k s hmode
    refine ⟨hboth, fun errmode x hx => ?_, fun errmode x hx => checked_then_nocheck hx⟩
    have hx' := hboth errmode
    rw [hx] at hx'
    cases hnumber : string_to_number k (trim s) errmode with
    | error e => simp [hnumber, Except.toOption] at hx'
    | ok y =>
      obtain rfl : x = y := by simpa [hnumber, Except.toOption] using hx'
      rw [h, checked_then_nocheck hnumber]

/-- Without checks `-5` is stored as `0` in an `int128`. -/
theorem int128_loses_sign : ¬ Agree .int128 [ch '-', ch '5'] := by
  rintro ⟨-, hstable, -⟩
  have h := hstable .overflow (-5) (by rfl)
  exact absurd (Except.ok.inj h) (by decide)

/-! ## Options -/

/-- `DYND_INT8_NA` and its siblings: `std::numeric_limits<T>::min()`. -/
def NA (k : int_type_id) : k.Data := BitVec.ofInt k.bits (-2 ^ (k.bits - 1))

/-- `option_type::assign_na`; only the signed types have the kernels of an option. -/
def assign_na (k : int_type_id) : Except exception k.Data :=
  if k.signed then .ok (NA k) else .error ⟨"cannot instantiate data with type", []⟩

/-- `option_type::is_avail` -/
def is_avail (k : int_type_id) (data : k.Data) : Except exception Bool :=
  if k.signed then .ok (data ≠ NA k) else .error ⟨"cannot instantiate data with type", []⟩

/-- `string_to_number` with its `option` argument. -/
def string_to_number_option (k : int_type_id) (s : List UInt8) (option : Bool) (errmode : assign_error_mode) :
    Except exception k.Data :=
  if option && matches_option_type_na_token s then
    if k.signed then .ok (NA k) else .error ⟨"No NA value has been configured for option[", []⟩
  else string_to_number k s errmode

/-- `option_type::set_from_utf8_string`, of an option of an integer. -/
def option_set_from_utf8_string (k : int_type_id) (utf8 : List UInt8) (errmode : assign_error_mode) :
    Except exception k.Data :=
  if matches_option_type_na_token utf8 then assign_na k else string_to_number_option k utf8 false errmode

/-- `option_type::set_from_utf8_string` and `string_to_number` in its option mode are the same for signed integers. -/
theorem option_set_from_utf8_string_eq {k : int_type_id} (hs : k.signed = true) (s : List UInt8) (errmode : assign_error_mode) :
    option_set_from_utf8_string k s errmode = string_to_number_option k s true errmode := by
  simp [option_set_from_utf8_string, string_to_number_option, assign_na, hs]

/-- The sentinel is one of the numbers: the smallest. -/
theorem signedBits_eq_NA_iff {k : int_type_id} (hs : k.signed = true) {value : ℕ} {negative : Bool}
    (h : is_overflow k value negative = false) :
    signedBits k value negative = NA k ↔ negative = true ∧ value = 2 ^ (k.bits - 1) := by
  have hpos : 0 < k.bits := by cases k <;> decide
  have hp : ((2 ^ (k.bits - 1) : ℕ) : ℤ) = 2 ^ (k.bits - 1) := by push_cast; rfl
  have hp0 : 0 < 2 ^ (k.bits - 1) := by positivity
  simp only [is_overflow, if_pos hs, Bool.and_eq_false_iff, decide_eq_false_iff_not, Bool.not_eq_false', Bool.and_eq_true,
    decide_eq_true_eq] at h
  have hvalue : (signedBits k value negative).toInt = if negative then -(value : ℤ) else value := by
    apply BitVec.toInt_ofInt_eq_self hpos <;> rw [← hp] <;> cases negative <;> simp at h ⊢ <;> omega
  have hNA : (NA k).toInt = -2 ^ (k.bits - 1) := by
    apply BitVec.toInt_ofInt_eq_self hpos
    · exact le_rfl
    · rw [← hp]
      omega
  rw [← BitVec.toInt_inj, hvalue, hNA, ← hp]
  cases negative with
  | true => simp only [if_true, neg_inj, Nat.cast_inj, true_and]
  | false =>
    simp only [Bool.false_eq_true, if_false, false_and, iff_false]
    omega

theorem isspace_of_isDigit {c : UInt8} (h : isDigit c = true) : isspace c = false := by
  simp only [isDigit, Bool.and_eq_true, decide_eq_true_eq, UInt8.le_iff_toNat_le] at h
  have h0 : (ch '0').toNat = 48 := rfl
  have hne : c ≠ ch ' ' := by
    rintro rfl
    exact absurd h.1 (by decide)
  simp only [isspace, hne, decide_false, Bool.false_or, Bool.and_eq_false_iff, decide_eq_false_iff_not,
    UInt8.le_iff_toNat_le]
  right
  have h13 : (13 : UInt8).toNat = 13 := rfl
  omega

/-- At most two digits and nothing else. -/
theorem twoDigits_all : ∀ {s : List UInt8}, (twoDigits s).2 = [] → ∀ c ∈ s, isDigit c = true := by
  intro s h
  rcases s with _ | ⟨c, _ | ⟨d, s⟩⟩
  · simp
  · by_cases hc : isDigit c = true
    · simpa using hc
    · simp [twoDigits, hc] at h
  · by_cases hc : isDigit c = true <;> by_cases hd : isDigit d = true <;> simp [twoDigits, hc, hd] at h
    subst h
    simp [hc, hd]

theorem checkedExponent_noSpace {T : Type} [UIntOps T] {r : T} {ov bad : Bool} {s : List UInt8}
    (h : (checkedExponent r ov bad s).out_badparse = false) : ∀ c ∈ s, isspace c = false := by
  rw [checkedExponent] at h
  have hrest : (twoDigits (skipZeros (skipPlus s))).2 = [] := by
    by_contra hne
    simp [hne] at h
  have hzeros : ∀ c ∈ skipPlus s, isspace c = false := by
    intro c hc
    rw [← List.takeWhile_append_dropWhile (p := (· = ch '0')) (l := skipPlus s), List.mem_append] at hc
    rcases hc with hc | hc
    · have hzero := List.mem_takeWhile_imp hc
      rw [of_decide_eq_true hzero]
      rfl
    · exact isspace_of_isDigit (twoDigits_all hrest c hc)
  cases s with
  | nil => simp
  | cons c s =>
    rw [skipPlus] at hzeros
    split_ifs at hzeros with hplus
    · rw [List.forall_mem_cons]
      exact ⟨by rw [hplus]; rfl, hzeros⟩
    · exact hzeros

/-- What the checked parser accepts has no white space. -/
theorem checkedLoop_noSpace {T : Type} [UIntOps T] {s : List UInt8} {r prev : T} {ov bad : Bool}
    (h : (checkedLoop r prev ov bad s).out_badparse = false) : ∀ c ∈ s, isspace c = false := by
  induction s generalizing r prev ov bad with
  | nil => simp
  | cons c s ih =>
    rw [checkedLoop] at h
    rw [List.forall_mem_cons]
    split_ifs at h with hdigit hpoint hzeros hexp
    · exact ⟨isspace_of_isDigit hdigit, ih h⟩
    · subst hpoint
      refine ⟨rfl, fun c hc => ?_⟩
      have hzero := List.dropWhile_eq_nil_iff.1 hzeros c hc
      rw [of_decide_eq_true hzero]
      rfl
    · refine ⟨?_, checkedExponent_noSpace h⟩
      rcases (by simpa using hexp : c = ch 'e' ∨ c = ch 'E') with rfl | rfl <;> rfl

theorem checkedValue_noSpace {k : int_type_id} {s : List UInt8} (h : (checkedValue k s).out_badparse = false) :
    ∀ c ∈ s, isspace c = false := by
  rw [checkedValue] at h
  split_ifs at h
  · exact checkedLoop_noSpace h
  · exact checkedLoop_noSpace h

theorem takeMinus_noSpace {s : List UInt8} (h : ∀ c ∈ (takeMinus s).2, isspace c = false) : ∀ c ∈ s, isspace c = false := by
  cases s with
  | nil => simp
  | cons c s =>
    rw [takeMinus] at h
    split_ifs at h with hminus
    · rw [List.forall_mem_cons]
      exact ⟨by rw [hminus]; rfl, h⟩
    · exact h

theorem matchesLetters_noSpace {lower s : List UInt8} (hl : ∀ l ∈ lower, ∀ c, c = l ∨ c + 32 = l → isspace c = false)
    (h : matchesLetters lower s = true) : ∀ c ∈ s, isspace c = false := by
  simp only [matchesLetters, Bool.and_eq_true, decide_eq_true_eq, List.all_eq_true, Bool.or_eq_true] at h
  obtain ⟨hlen, hall⟩ := h
  intro c hc
  obtain ⟨i, hi, rfl⟩ := List.getElem_of_mem hc
  have hmem : (s[i], lower[i]) ∈ s.zip lower := by
    rw [List.mem_iff_getElem]
    exact ⟨i, by simp [hlen ▸ hi, hi], by simp⟩
  exact hl lower[i] (List.getElem_mem _) s[i] (hall _ hmem)

theorem na_token_noSpace {s : List UInt8} (h : matches_option_type_na_token s = true) : ∀ c ∈ s, isspace c = false := by
  simp only [matches_option_type_na_token, Bool.or_eq_true, decide_eq_true_eq] at h
  rcases h with ((rfl | rfl) | h) | rfl
  · simp
  · simp only [List.forall_mem_cons, List.not_mem_nil, false_implies, implies_true, and_true]
    exact ⟨rfl, rfl⟩
  · refine matchesLetters_noSpace (fun l hl c hc => ?_) h
    have hletter : 97 ≤ l.toNat := by
      simp only [List.mem_cons, List.not_mem_nil, or_false] at hl
      rcases hl with rfl | rfl | rfl | rfl <;> decide
    cases hspace : isspace c with
    | false => rfl
    | true =>
      have hnat : c.toNat ≤ 32 := by
        simp only [isspace, Bool.or_eq_true, decide_eq_true_eq, Bool.and_eq_true, UInt8.le_iff_toNat_le] at hspace
        rcases hspace with rfl | ⟨-, h13⟩
        · rfl
        · exact h13.trans (by decide)
      rcases hc with rfl | rfl
      · omega
      · rw [UInt8.toNat_add, show (32 : UInt8).toNat = 32 from rfl] at hletter
        omega
  · simp only [List.forall_mem_cons, List.not_mem_nil, false_implies, implies_true, and_true]
    exact ⟨rfl, rfl, rfl, rfl⟩

/-- After a success in a checking mode the stored bits are the sentinel exactly for the NA tokens and for the spellings
of the smallest number. -/
theorem option_number_NA_iff (k : int_type_id) (hs : k.signed = true) (s : List UInt8) (errmode : assign_error_mode)
    (hmode : errmode ≠ .nocheck) (x : k.Data) (h : string_to_number_option k s true errmode = .ok x) :
    x = NA k ↔ matches_option_type_na_token (trim s) = true ∨
      (takeMinus (trim s)).1 = true ∧ (checkedValue k (takeMinus (trim s)).2).value = 2 ^ (k.bits - 1) := by
  rw [string_to_number_option, Bool.true_and] at h
  by_cases hNA : matches_option_type_na_token s = true
  · rw [if_pos hNA, if_pos hs] at h
    rw [trim_eq_self (na_token_noSpace hNA)]
    exact ⟨fun _ => .inl hNA, fun _ => (Except.ok.inj h).symm⟩
  rw [if_neg hNA] at h
  have hchecked := string_to_number_checked k s hmode
  rw [h] at hchecked
  have hresult : checkedResult k (checkedValue k (takeMinus s).2) (takeMinus s).1 = some x := hchecked.symm
  unfold checkedResult at hresult
  split_ifs at hresult with hfail
  simp only [Bool.or_eq_true, not_or, Bool.not_eq_true] at hfail
  rw [trim_eq_self (takeMinus_noSpace (checkedValue_noSpace hfail.1.1.1)), ← Option.some.inj hresult, hs, Bool.and_true,
    signedBits_eq_NA_iff hs hfail.2]
  simp [hNA]

/-- A missing value and the smallest number are what `is_avail` reports. -/
theorem option_is_avail_iff (k : int_type_id) (hs : k.signed = true) (s : List UInt8) (errmode : assign_error_mode)
    (hmode : errmode ≠ .nocheck) (x : k.Data) :
    (option_set_from_utf8_string k s errmode = .ok x →
      (is_avail k x = .ok false ↔ matches_option_type_na_token (trim s) = true ∨
        (takeMinus (trim s)).1 = true ∧ (checkedValue k (takeMinus (trim s)).2).value = 2 ^ (k.bits - 1))) ∧
    (string_to_number_option k s true errmode = .ok x →
      (x = NA k ↔ matches_option_type_na_token (trim s) = true ∨
        (takeMinus (trim s)).1 = true ∧ (checkedValue k (takeMinus (trim s)).2).value = 2 ^ (k.bits - 1))) := by
  have hiff := option_number_NA_iff k hs s errmode hmode x
  refine ⟨fun h => ?_, hiff⟩
  rw [option_set_from_utf8_string_eq hs] at h
  rw [← hiff h, is_avail, if_pos hs]
  simp

/-- `-128` is a number and becomes a missing value. -/
theorem option_int8_smallest :
    is_avail .int8 (NA .int8) = .ok false ↔ matches_option_type_na_token (trim [ch '-', ch '1', ch '2', ch '8']) = true ∨
      (takeMinus (trim [ch '-', ch '1', ch '2', ch '8'])).1 = true ∧
        (checkedValue .int8 (takeMinus (trim [ch '-', ch '1', ch '2', ch '8'])).2).value = 128 :=
  (option_is_avail_iff .int8 rfl [ch '-', ch '1', ch '2', ch '8'] .overflow (by simp) (NA .int8)).1 rfl

theorem smallest_number_is_missing :
    ¬ ∀ (s : List UInt8) (x : int_type_id.int8.Data), option_set_from_utf8_string .int8 s .overflow = .ok x →
      (is_avail .int8 x = .ok false ↔ matches_option_type_na_token (trim s) = true) := by
  intro h
  have hNA := (h [ch '-', ch '1', ch '2', ch '8'] (NA .int8) rfl).1 rfl
  exact absurd hNA (by decide)

end Dynd.Parse
