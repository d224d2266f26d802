import Dynd.ParseUInt
import Dynd.ParserUtil
import Dynd.PrintInt
import Dynd.StringEncodings
/-!
# Scalars from text

`unescape_string`, and the conversions of a range of text to a bool, an
integer or a UTF-8 string. They throw plain exceptions: where in a document the
text stood is not known here.
-/
namespace Dynd.Parse
open Lib

/-- What is thrown: the text of the message, and the string it quotes. -/
structure exception where
  what : String
  str : List UInt8
deriving DecidableEq, Repr

inductive assign_error_mode where
  | nocheck
  | overflow
  | fractional
  | inexact
  | default
deriving DecidableEq, Repr

/-! ## Unescaping -/

/-- The escapes of one character, and the character. -/
def unescapeShort (e : UInt8) : Option UInt8 :=
  if e = ch '"' || e = ch '\\' || e = ch '/' then some e
  else if e = ch 'b' then some 8
  else if e = ch 'f' then some 12
  else if e = ch 'n' then some 10
  else if e = ch 'r' then some 13
  else if e = ch 't' then some 9
  else none

/-- One hexadecimal digit after the code point `cp`. -/
def hexStep (cp : UInt32) (d : UInt8) : UInt32 :=
  let cp := cp * 16
  if isDigit d then cp + (d - ch '0').toUInt32
  else if ch 'A' ≤ d && d ≤ ch 'F' then cp + ((d - ch 'A').toUInt32 + 10)
  else if ch 'a' ≤ d && d ≤ ch 'f' then cp + ((d - ch 'a').toUInt32 + 10)
  else '?'.val

/-- `utf8::append` throws for what is no code point. -/
def append_utf8_codepoint (cp : UInt32) : Except exception (List UInt8) :=
  match Utf8.append cp with
  | some s => .ok s
  | none => .error ⟨"Invalid code point", []⟩

mutual

/-- A malformed escape at the end of the text ends the output. -/
def unescape_string : List UInt8 → Except exception (List UInt8)
  | [] => .ok []
  | c :: s =>
    if c = ch '\\' then
      match s with
      | [] => .ok []
      | e :: s =>
        match unescapeShort e with
        | some b => (b :: ·) <$> unescape_string s
        | none =>
          if e = ch 'u' then
            if s.length < 4 then .ok [] else unescapeHex 4 0 s
          else if e = ch 'U' then
            if s.length < 8 then .ok [] else unescapeHex 8 0 s
          else
            (ch '?' :: ·) <$> unescape_string s
    else
      (c :: ·) <$> unescape_string s

/-- The `n` digits of a `\u` or `\U`, and the rest of the text. -/
def unescapeHex : ℕ → UInt32 → List UInt8 → Except exception (List UInt8)
  | _, _, [] => .ok []
  | n, cp, d :: s =>
    if n ≤ 1 then do
      let bytes ← append_utf8_codepoint (hexStep cp d)
      (bytes ++ ·) <$> unescape_string s
    else
      unescapeHex (n - 1) (hexStep cp d) s

end

/-- The text that a string literal stands for: it is unescaped where it has escapes. -/
def Quoted.text (q : Quoted) : Except exception (List UInt8) :=
  if q.escaped then unescape_string q.str else .ok q.str

/-! ## Bools -/

/-- Letter by letter, in either case: `(begin[0] == 'T' || begin[0] == 't') && …`. -/
def matchesLetters (lower s : List UInt8) : Bool :=
  s.length = lower.length && (s.zip lower).all fun (c, l) => c = l || c + 32 = l

/-- The `option` argument is false in every call. -/
def string_to_bool (s : List UInt8) (errmode : assign_error_mode) : Except exception Bool :=
  let nocheck : Bool := errmode = .nocheck
  let fail := .error ⟨"cannot cast string to bool", s⟩
  match s with
  | [] => if nocheck then .ok false else fail
  | [c] =>
    if c ∈ [ch '0', ch 'n', ch 'N', ch 'f', ch 'F'] then .ok false
    else if nocheck || c ∈ [ch '1', ch 'y', ch 'Y', ch 't', ch 'T'] then .ok true
    else fail
  | [_, _] =>
    if matchesLetters [ch 'n', ch 'o'] s then .ok false
    else if nocheck || matchesLetters [ch 'o', ch 'n'] s then .ok true
    else fail
  | [_, _, _] =>
    if matchesLetters [ch 'o', ch 'f', ch 'f'] s then .ok false
    else if nocheck || matchesLetters [ch 'y', ch 'e', ch 's'] s then .ok true
    else fail
  | [_, _, _, _] =>
    if nocheck || matchesLetters [ch 't', ch 'r', ch 'u', ch 'e'] s then .ok true else fail
  | [_, _, _, _, _] =>
    if matchesLetters [ch 'f', ch 'a', ch 'l', ch 's', ch 'e'] s then .ok false
    else if nocheck then .ok true
    else fail
  | _ => fail

def matches_option_type_na_token (s : List UInt8) : Bool :=
  s = [] || s = [ch 'N', ch 'A'] || matchesLetters [ch 'n', ch 'u', ch 'l', ch 'l'] s ||
    s = [ch 'N', ch 'o', ch 'n', ch 'e']

/-! ## Integers -/

section
variable {T : Type} [UIntOps T]

/-- Apply the exponent in a naive way. -/
def applyPower : ℕ → T → T
  | 0, result => result
  | n + 1, result => applyPower n (UIntOps.mul result 10)

def uncheckedLoop (result : T) : List UInt8 → T
  | [] => result
  | c :: begin =>
    if isDigit c then
      uncheckedLoop (UIntOps.add (UIntOps.mul result 10) (c - ch '0').toUInt32) begin
    else if c = ch 'e' || c = ch 'E' then
      let begin := skipPlus begin
      if begin = [] then result
      else
        let (exponent, begin) := twoDigits (skipZeros begin)
        if begin = [] then applyPower exponent result else result
    else
      result

def unchecked_string_to_uint (s : List UInt8) : T := uncheckedLoop UIntOps.zero s

end

def unchecked_string_to_uint64 : List UInt8 → UInt64 := unchecked_string_to_uint

def unchecked_string_to_uint128 : List UInt8 → UInt128 := unchecked_string_to_uint

/-- The `int128` and `uint128` cases use `checked_string_to_uint128`, the others `checked_string_to_uint64`. -/
def checkedValue (k : int_type_id) (begin : List UInt8) : Checked ℕ :=
  if k.bits = 128 then
    let c := checked_string_to_uint128 begin false false
    ⟨c.value.toNat, c.out_overflow, c.out_badparse⟩
  else
    let c := checked_string_to_uint64 begin false false
    ⟨c.value.toNat, c.out_overflow, c.out_badparse⟩

def uncheckedValue (k : int_type_id) (begin : List UInt8) : ℕ :=
  if k.bits = 128 then (unchecked_string_to_uint128 begin).toNat else (unchecked_string_to_uint64 begin).toNat

/-- `overflow_check<T>::is_overflow(value, negative)`: some bit from the sign bit
up is set, and the number is not the smallest one. -/
def is_overflow (k : int_type_id) (value : ℕ) (negative : Bool) : Bool :=
  if k.signed then 2 ^ (k.bits - 1) ≤ value && !(negative && value = 2 ^ (k.bits - 1))
  else 2 ^ k.bits ≤ value

/-- `if (begin < end && *begin == '-')`. -/
def takeMinus : List UInt8 → Bool × List UInt8
  | [] => (false, [])
  | c :: begin => if c = ch '-' then (true, begin) else (false, c :: begin)

/-- `static_cast<T>(negative ? -value : value)`. -/
def signedBits (k : int_type_id) (value : ℕ) (negative : Bool) : k.Data :=
  BitVec.ofInt k.bits (if negative then -value else value)

/-- The integer cases of `string_to_number`. The `option` argument is false in every call. -/
def string_to_number (k : int_type_id) (s : List UInt8) (errmode : assign_error_mode) : Except exception k.Data :=
  let (negative, begin) := takeMinus s
  if errmode ≠ .nocheck then
    let u := checkedValue k begin
    let negative := negative && (k.signed || u.value ≠ 0)
    let overflow := u.out_overflow || (!k.signed && negative) || is_overflow k u.value negative
    if overflow then .error ⟨"overflow converting string", begin⟩
    else if u.out_badparse then .error ⟨"parse error converting string", begin⟩
    else .ok (signedBits k u.value negative)
  else
    let uvalue := uncheckedValue k begin
    if k.signed then .ok (signedBits k uvalue negative)
    else .ok (BitVec.ofNat k.bits (if negative then 0 else uvalue))

/-! ## UTF-8 strings -/

/-- `next_utf8` throws where `noerror_next_utf8` substitutes. -/
def next_utf8 (errmode : assign_error_mode) (it : List UInt8) : Except exception (UInt32 × List UInt8) :=
  if errmode = .nocheck then .ok (StringEncodings.noerror_next_utf8 it)
  else
    match Utf8.validate_next it with
    | .ok r => .ok r
    | .error _ => .error ⟨"invalid UTF-8", it⟩

/-- `while (utf8_begin < utf8_end)`: a round that does not move the iterator is repeated for ever. -/
def utf8Loop (errmode : assign_error_mode) : ℕ → List UInt8 → Except exception (List UInt8)
  | _, [] => .ok []
  | 0, it => .error ⟨"the loop does not end", it⟩
  | n + 1, it => do
    let (cp, it) ← next_utf8 errmode it
    let bytes ← append_utf8_codepoint cp
    (bytes ++ ·) <$> utf8Loop errmode n it

/-- `string_type::set_from_utf8_string`, into a UTF-8 string. -/
def set_from_utf8_string (errmode : assign_error_mode) (utf8 : List UInt8) : Except exception (List UInt8) :=
  utf8Loop errmode utf8.length utf8

/-! ## What unescaping does -/

theorem unescape_plain {c : UInt8} (hc : c ≠ ch '\\') (s : List UInt8) :
    unescape_string (c :: s) = (c :: ·) <$> unescape_string s := by
  cases s <;> exact if_neg hc

theorem unescape_backslash (e : UInt8) (s : List UInt8) : unescape_string (ch '\\' :: e :: s) =
    match unescapeShort e with
    | some b => (b :: ·) <$> unescape_string s
    | none =>
      if e = ch 'u' then if s.length < 4 then .ok [] else unescapeHex 4 0 s
      else if e = ch 'U' then if s.length < 8 then .ok [] else unescapeHex 8 0 s
      else (ch '?' :: ·) <$> unescape_string s := if_pos rfl

theorem unescape_short {e b : UInt8} (h : unescapeShort e = some b) (s : List UInt8) :
    unescape_string (ch '\\' :: e :: s) = (b :: ·) <$> unescape_string s := by
  rw [unescape_backslash, h]

/-- The code point of some hexadecimal digits. -/
def hexValue (digits : List UInt8) : UInt32 := digits.foldl hexStep 0

theorem unescapeHex_append {h : List UInt8} (hne : h ≠ []) (cp : UInt32) (s : List UInt8) :
    unescapeHex h.length cp (h ++ s) =
      append_utf8_codepoint (h.foldl hexStep cp) >>= fun bytes => (bytes ++ ·) <$> unescape_string s := by
  induction h generalizing cp with
  | nil => exact absurd rfl hne
  | cons d h ih =>
    cases h with
    | nil => rfl
    | cons d' h =>
      have hmore : ¬ (d :: d' :: h).length ≤ 1 := by simp
      exact (if_neg hmore).trans (ih (by simp) (hexStep cp d))

theorem unescape_hex4 {h : List UInt8} (hlen : h.length = 4) (s : List UInt8) :
    unescape_string (ch '\\' :: ch 'u' :: (h ++ s)) =
      append_utf8_codepoint (hexValue h) >>= fun bytes => (bytes ++ ·) <$> unescape_string s := by
  have hs : unescapeShort (ch 'u') = none := by decide
  have happ := unescapeHex_append (h := h) (by rintro rfl; cases hlen) 0 s
  rw [hlen] at happ
  rw [unescape_backslash, hs]
  dsimp only
  rw [if_pos rfl, if_neg (by simp; omega)]
  exact happ

theorem unescape_hex8 {h : List UInt8} (hlen : h.length = 8) (s : List UInt8) :
    unescape_string (ch '\\' :: ch 'U' :: (h ++ s)) =
      append_utf8_codepoint (hexValue h) >>= fun bytes => (bytes ++ ·) <$> unescape_string s := by
  have hs : unescapeShort (ch 'U') = none := by decide
  have hu : ¬ ch 'U' = ch 'u' := by decide
  have happ := unescapeHex_append (h := h) (by rintro rfl; cases hlen) 0 s
  rw [hlen] at happ
  rw [unescape_backslash, hs]
  dsimp only
  rw [if_neg hu, if_pos rfl, if_neg (by simp; omega)]
  exact happ

/-- Bytes that are no backslash stand for themselves. -/
theorem unescape_append_plain {p : List UInt8} (hp : ∀ c ∈ p, c ≠ ch '\\') (s : List UInt8) :
    unescape_string (p ++ s) = (p ++ ·) <$> unescape_string s := by
  induction p with
  | nil =>
    simp only [List.nil_append]
    cases unescape_string s <;> rfl
  | cons c p ih =>
    rw [List.cons_append, unescape_plain (hp c List.mem_cons_self), ih (fun d hd => hp d (List.mem_cons_of_mem _ hd))]
    cases unescape_string s <;> rfl

theorem unescape_of_plain {p : List UInt8} (hp : p.contains (ch '\\') = false) : unescape_string p = .ok p := by
  have h := unescape_append_plain (p := p) (by rintro c hc rfl; simp [hc] at hp) []
  rw [List.append_nil] at h
  rw [h, unescape_string]
  simp

/-- Unescaping a literal without escapes would change nothing. -/
theorem Quoted.text_eq {q : Quoted} (h : q.escaped = q.str.contains (ch '\\')) : q.text = unescape_string q.str := by
  rw [Quoted.text]
  split_ifs with he
  · rfl
  · rw [unescape_of_plain]
    rw [← h]
    simpa using he

/-! ## Integers and their text -/

theorem takeMinus_intText (z : ℤ) : takeMinus (intText z) = (decide (z < 0), decimal z.natAbs) := by
  rw [intText]
  split_ifs with h
  · simp [takeMinus, h]
  · obtain ⟨d, ds, hd⟩ := List.exists_cons_of_ne_nil (decimalDigits_ne_nil z.natAbs)
    have hne : digitByte d ≠ ch '-' := by
      intro he
      have := digitByte_toNat d
      rw [he] at this
      have h45 : (ch '-').toNat = 45 := rfl
      omega
    rw [decimal, hd, digitBytes, List.map_cons, takeMinus, if_neg hne]
    simp [h]

/-- The text of a natural number, for `checked_string_to_uint`. -/
def decimalText (n : ℕ) : UIntText := ⟨decimalDigits n, decimalDigits_ne_nil n, .none⟩

theorem decimalText_bytes (n : ℕ) : (decimalText n).bytes = decimal n := List.append_nil _

theorem decimalText_value (n : ℕ) : (decimalText n).value = n := by
  rw [UIntText.value, decimalText, horner_decimalDigits]
  exact Nat.mul_one n

theorem checkedValue_decimal (k : int_type_id) {n : ℕ} (h : n < if k.bits = 128 then 2 ^ 128 else 2 ^ 64) :
    checkedValue k (decimal n) = ⟨n, false, false⟩ := by
  obtain ⟨h64, h128⟩ := checked_exact_iff (decimalText n)
  rw [decimalText_value, decimalText_bytes] at h64 h128
  rw [checkedValue]
  split_ifs at h ⊢
  · obtain ⟨hbad, hval, -⟩ := h128.2 (.inl h)
    rw [decimalText_value] at hval
    obtain ⟨hov, hv⟩ := hval h
    simp only [hbad, hov]
    congr
  · obtain ⟨hbad, hval, -⟩ := h64.2 (.inl h)
    rw [decimalText_value] at hval
    obtain ⟨hov, hv⟩ := hval h
    simp only [hbad, hov]
    congr

section
variable {T : Type} {w : ℕ} [UIntOps T] [LawfulUInt T w]

theorem uncheckedLoop_digits (ds : List (Fin 10)) {r : T} {v : ℕ} (h : Holds w r v) :
    Holds w (uncheckedLoop r (digitBytes ds)) (horner 10 v (ds.map Fin.val)) := by
  induction ds generalizing r v with
  | nil => exact h
  | cons d ds ih =>
    rw [digitBytes, List.map_cons, uncheckedLoop, if_pos (isDigit_digitByte d), List.map_cons, horner_cons]
    apply ih
    have := holds_step h (digitByte d - ch '0').toUInt32
    rwa [digit_toUInt32] at this

theorem unchecked_decimal (n : ℕ) : Holds w (unchecked_string_to_uint (decimal n) : T) n := by
  have hzero : Holds w (UIntOps.zero : T) 0 := by simp [Holds, LawfulUInt.toNat_zero]
  have h := uncheckedLoop_digits (decimalDigits n) hzero
  rwa [horner_decimalDigits] at h

end

theorem uncheckedValue_decimal (k : int_type_id) {n : ℕ} (h : n < if k.bits = 128 then 2 ^ 128 else 2 ^ 64) :
    uncheckedValue k (decimal n) = n := by
  rw [uncheckedValue]
  split_ifs at h ⊢
  · exact (unchecked_decimal (T := UInt128) n).trans (Nat.mod_eq_of_lt h)
  · exact (unchecked_decimal (T := UInt64) n).trans (Nat.mod_eq_of_lt h)

/-- Where the integer of `k` lies. -/
theorem value_bounds (k : int_type_id) (x : k.Data) :
    if k.signed then -2 ^ (k.bits - 1) ≤ k.value x ∧ k.value x < 2 ^ (k.bits - 1)
    else 0 ≤ k.value x ∧ k.value x < 2 ^ k.bits := by
  unfold int_type_id.value
  have hu := x.isLt
  have h1 := BitVec.le_toInt x
  have h2 := BitVec.toInt_lt (x := x)
  split_ifs
  · exact ⟨h1, h2⟩
  · exact ⟨by omega, by exact_mod_cast hu⟩

theorem natAbs_value_lt (k : int_type_id) (x : k.Data) :
    (k.value x).natAbs < if k.bits = 128 then 2 ^ 128 else 2 ^ 64 := by
  have h := value_bounds k x
  generalize k.value x = z at h
  cases k <;> simp only [int_type_id.bits, int_type_id.signed, if_true, if_false, Bool.false_eq_true] at h ⊢ <;>
    norm_num at h ⊢ <;> omega

theorem signedBits_value (k : int_type_id) (x : k.Data) (h : k.signed = true) :
    signedBits k (k.value x).natAbs (decide (k.value x < 0)) = x := by
  have hv : k.value x = x.toInt := if_pos h
  have hz : (if k.value x < 0 then -((k.value x).natAbs : ℤ) else (k.value x).natAbs) = x.toInt := by
    split_ifs <;> omega
  rw [signedBits]
  simp only [decide_eq_true_eq]
  rw [hz]
  exact BitVec.ofInt_toInt

theorem unsignedBits_value (k : int_type_id) (x : k.Data) (h : k.signed = false) :
    BitVec.ofNat k.bits (k.value x).natAbs = x ∧ signedBits k (k.value x).natAbs false = x := by
  have hv : k.value x = x.toNat := if_neg (by simp [h])
  have hx : BitVec.ofNat k.bits x.toNat = x := by rw [BitVec.ofNat_toNat, BitVec.setWidth_eq]
  rw [hv, Int.natAbs_natCast]
  refine ⟨hx, ?_⟩
  rw [signedBits]
  simp only [Bool.false_eq_true, if_false, BitVec.ofInt_natCast]
  exact hx

/-- Every integer of a type is read back from its text, in every error mode. -/
theorem string_to_number_intText (k : int_type_id) (x : k.Data) (errmode : assign_error_mode) :
    string_to_number k (intText (k.value x)) errmode = .ok x := by
  have hlt := natAbs_value_lt k x
  have hbounds := value_bounds k x
  rw [string_to_number, takeMinus_intText]
  simp only [checkedValue_decimal k hlt, uncheckedValue_decimal k hlt]
  cases hs : k.signed with
  | true =>
    have hbits := signedBits_value k x hs
    rw [if_pos hs] at hbounds
    have hov : is_overflow k (k.value x).natAbs (decide (k.value x < 0)) = false := by
      rw [is_overflow, if_pos hs]
      simp only [Bool.and_eq_false_iff, decide_eq_false_iff_not, Bool.not_eq_false', Bool.and_eq_true, decide_eq_true_eq]
      have hp : ((2 ^ (k.bits - 1) : ℕ) : ℤ) = 2 ^ (k.bits - 1) := by push_cast; rfl
      generalize k.value x = z at hbounds ⊢
      generalize 2 ^ (k.bits - 1) = p at hbounds hp ⊢
      omega
    simp only [Bool.true_or, Bool.and_true, Bool.not_true, Bool.false_and, Bool.or_false, hov, Bool.false_eq_true,
      if_false, if_true, hbits, ite_self]
  | false =>
    obtain ⟨hbits, hsigned⟩ := unsignedBits_value k x hs
    rw [if_neg (by simp [hs])] at hbounds
    have hneg : decide (k.value x < 0) = false := by simpa using hbounds.1
    have hov : is_overflow k (k.value x).natAbs false = false := by
      rw [is_overflow, if_neg (by simp [hs])]
      simp only [decide_eq_false_iff_not]
      have hp : ((2 ^ k.bits : ℕ) : ℤ) = 2 ^ k.bits := by push_cast; rfl
      generalize k.value x = z at hbounds ⊢
      generalize 2 ^ k.bits = p at hbounds hp ⊢
      omega
    simp only [hneg, Bool.false_and, Bool.or_false, Bool.and_false, hov, Bool.false_eq_true, if_false, hbits, hsigned,
      ite_self]

theorem intPart_decimal (n : ℕ) : IntPart (decimal n) := by
  rw [decimal]
  rcases decimalDigits_head n with h | ⟨d, ds, h, hd⟩
  · rw [h]
    exact .zero
  · rw [h, digitBytes, List.map_cons]
    refine .nonzero (isDigit_digitByte d) ?_ ?_
    · intro he
      apply hd
      apply Fin.ext
      have := digitByte_toNat d
      rw [he] at this
      have h48 : (ch '0').toNat = 48 := rfl
      simp only [Fin.val_zero]
      omega
    · intro c hc
      obtain ⟨e, -, rfl⟩ := List.mem_map.1 hc
      exact isDigit_digitByte e

theorem jsonNumber_intText (z : ℤ) : JsonNumber (intText z) := by
  have h := fun m hm => JsonNumber.mk (m := m) hm (intPart_decimal z.natAbs) .none .none
  rw [intText]
  split_ifs
  · simpa using h [ch '-'] (.inr rfl)
  · simpa using h [] (.inl rfl)

/-! ## Unicode text -/

/-- The UTF-8 encoding of some characters. -/
def encode (cs : List Char) : List UInt8 := cs.flatMap String.utf8EncodeChar

theorem encode_cons (c : Char) (cs : List Char) : encode (c :: cs) = String.utf8EncodeChar c ++ encode cs := rfl

theorem append_utf8_codepoint_char (c : Char) : append_utf8_codepoint c.val = .ok (String.utf8EncodeChar c) := by
  rw [append_utf8_codepoint, Utf8.append_char]

theorem next_utf8_char (errmode : assign_error_mode) (c : Char) (rest : List UInt8) :
    next_utf8 errmode (String.utf8EncodeChar c ++ rest) = .ok (c.val, rest) := by
  rw [next_utf8, StringEncodings.noerror_next_utf8_char, Utf8.validate_next_char]
  split_ifs <;> rfl

theorem utf8Loop_encode (errmode : assign_error_mode) (cs : List Char) (n : ℕ) (h : (encode cs).length ≤ n) :
    utf8Loop errmode n (encode cs) = .ok (encode cs) := by
  induction cs generalizing n with
  | nil =>
    rw [encode, List.flatMap_nil, utf8Loop.eq_def]
  | cons c cs ih =>
    obtain ⟨b, trails, he, -⟩ := Utf8.utf8EncodeChar_complete c
    rw [encode_cons, List.length_append, he, List.length_cons] at h
    obtain ⟨n, rfl⟩ : ∃ k, n = k + 1 := ⟨n - 1, by omega⟩
    have hnext := next_utf8_char errmode c (encode cs)
    rw [encode_cons]
    rw [he] at hnext ⊢
    rw [List.cons_append] at hnext ⊢
    rw [utf8Loop, hnext]
    · simp only [ok_bind, append_utf8_codepoint_char, he, ih n (by omega), map_ok]
      rfl
    · intro hnil
      cases hnil

/-- A string of characters is set to itself. -/
theorem set_from_utf8_string_encode (errmode : assign_error_mode) (cs : List Char) :
    set_from_utf8_string errmode (encode cs) = .ok (encode cs) :=
  utf8Loop_encode errmode cs _ le_rfl

end Dynd.Parse
