import Dynd.Bytes
import Dynd.Lib.Except
/-!
# Parser utilities

The scanners every parser of the library is built from: tokens, double-quoted
strings and JSON numbers. A scanner takes what is left of the text and returns
what is left after it, so a position in the text is what is left of it there.
Each scanner is matched against the grammar of what it reads.
-/
namespace Dynd.Parse
open Lib

structure parse_error where
  position : List UInt8
  message : String
deriving DecidableEq, Repr

/-! ## Tokens -/

def skip_whitespace (s : List UInt8) : List UInt8 := s.dropWhile isspace

/-- The comparison is `memcmp`; a failed one leaves `begin` where it was. -/
def parse_token_no_ws (token begin : List UInt8) : Option (List UInt8) :=
  if token <+: begin then some (begin.drop token.length) else none

def parse_token (token begin : List UInt8) : Option (List UInt8) :=
  parse_token_no_ws token (skip_whitespace begin)

/-! ## Double-quoted strings -/

/-- The test for a hexadecimal digit. -/
def isHexDigit (d : UInt8) : Bool := isDigit d || (ch 'A' ≤ d && d ≤ ch 'F') || (ch 'a' ≤ d && d ≤ ch 'f')

/-- The escapes of one character: `case '"': case '\\': case '/': …`. -/
def shortEscapes : List UInt8 := [ch '"', ch '\\', ch '/', ch 'b', ch 'f', ch 'n', ch 'r', ch 't']

mutual

/-- `for (;;)`: whether a backslash was seen, and what follows the closing quote. -/
def quotedLoop (rbegin : List UInt8) : List UInt8 → Bool → Except parse_error (Bool × List UInt8)
  | [], _ => .error ⟨rbegin, "string has no ending quote"⟩
  | c :: begin, escaped =>
    if c = ch '\\' then
      match begin with
      | [] => .error ⟨rbegin, "string has no ending quote"⟩
      | e :: begin =>
        if e ∈ shortEscapes then
          quotedLoop rbegin begin true
        else if e = ch 'u' then
          if begin.length < 4 then .error ⟨c :: e :: begin, "invalid unicode escape sequence in string"⟩
          else hexLoop rbegin 4 begin
        else if e = ch 'U' then
          if begin.length < 8 then .error ⟨c :: e :: begin, "invalid unicode escape sequence in string"⟩
          else hexLoop rbegin 8 begin
        else
          .error ⟨c :: e :: begin, "invalid escape sequence in string"⟩
    else if c = ch '"' then
      .ok (escaped, begin)
    else
      quotedLoop rbegin begin escaped

/-- The `n` hexadecimal digits of a `\u` or `\U`, and the rest of the string. -/
def hexLoop (rbegin : List UInt8) : ℕ → List UInt8 → Except parse_error (Bool × List UInt8)
  | _, [] => .error ⟨[], "invalid unicode escape sequence in string"⟩
  | n, d :: begin =>
    if isHexDigit d then
      if n ≤ 1 then quotedLoop rbegin begin true else hexLoop rbegin (n - 1) begin
    else
      .error ⟨d :: begin, "invalid unicode escape sequence in string"⟩

end

/-- `[out_strbegin, out_strend)` as it stands in the text, whether it has
escapes, and what is left after the closing quote. -/
structure Quoted where
  str : List UInt8
  escaped : Bool
  rest : List UInt8
deriving DecidableEq, Repr

/-- `none` when there is no opening quote. -/
def parse_doublequote_string_no_ws (rbegin : List UInt8) : Except parse_error (Option Quoted) :=
  match parse_token_no_ws [ch '"'] rbegin with
  | none => .ok none
  | some begin => do
    let (escaped, rest) ← quotedLoop rbegin begin false
    return some ⟨begin.take (begin.length - (rest.length + 1)), escaped, rest⟩

/-! ## JSON numbers -/

def skipDigits (s : List UInt8) : List UInt8 := s.dropWhile isDigit

/-- At least one digit is required. -/
def someDigits : List UInt8 → Option (List UInt8)
  | [] => none
  | c :: begin => if isDigit c then some (skipDigits begin) else none

/-- Either '0' or a non-zero digit followed by digits. -/
def numberInt : List UInt8 → Option (List UInt8)
  | [] => none
  | c :: begin =>
    if c = ch '0' then some begin
    else if ch '1' ≤ c && c ≤ ch '9' then some (skipDigits begin)
    else none

/-- Optional decimal point, followed by one or more digits. -/
def numberFrac : List UInt8 → Option (List UInt8)
  | [] => some []
  | c :: begin => if c = ch '.' then someDigits begin else some (c :: begin)

/-- Optional exponent, followed by a sign and some digits. -/
def numberExp : List UInt8 → Option (List UInt8)
  | [] => some []
  | c :: begin =>
    if c = ch 'e' || c = ch 'E' then
      match begin with
      | [] => none
      | d :: begin' => if d = ch '+' || d = ch '-' then someDigits begin' else someDigits begin
    else
      some (c :: begin)

def skipMinus : List UInt8 → List UInt8
  | [] => []
  | c :: begin => if c = ch '-' then begin else c :: begin

/-- The number's bytes and what is left after them. -/
def parse_json_number_no_ws (rbegin : List UInt8) : Option (List UInt8 × List UInt8) := do
  let begin ← numberInt (skipMinus rbegin)
  let begin ← numberFrac begin
  let begin ← numberExp begin
  return (rbegin.take (rbegin.length - begin.length), begin)

/-! ## What whitespace and tokens read -/

def Ws (w : List UInt8) : Prop := ∀ c ∈ w, isspace c = true

/-- What is left does not start with a byte of this kind. -/
def Stops (p : UInt8 → Bool) (r : List UInt8) : Prop := ∀ c t, r = c :: t → p c = false

@[simp] theorem stops_nil (p : UInt8 → Bool) : Stops p [] := by
  intro c t h
  cases h

@[simp] theorem stops_cons {p : UInt8 → Bool} {c : UInt8} {t : List UInt8} : Stops p (c :: t) ↔ p c = false := by
  constructor
  · intro h
    exact h c t rfl
  · intro h c' t' he
    obtain ⟨rfl, rfl⟩ := List.cons.inj he
    exact h

/-- A run of bytes of one kind, read to its end. -/
theorem dropWhile_eq_iff {p : UInt8 → Bool} {s r : List UInt8} :
    s.dropWhile p = r ↔ ∃ w, s = w ++ r ∧ (∀ c ∈ w, p c = true) ∧ Stops p r := by
  constructor
  · rintro rfl
    refine ⟨s.takeWhile p, List.takeWhile_append_dropWhile.symm, List.all_eq_true.1 List.all_takeWhile, ?_⟩
    intro c t h
    have := List.head?_dropWhile_not p s
    rw [h] at this
    simpa using this
  · rintro ⟨w, rfl, hw, hr⟩
    rw [List.dropWhile_append_of_pos hw]
    cases r with
    | nil => rfl
    | cons c t =>
      rw [List.dropWhile_cons_of_neg]
      simpa using hr c t rfl

theorem skip_whitespace_eq {w s : List UInt8} (hw : Ws w) (hs : Stops isspace s) : skip_whitespace (w ++ s) = s :=
  dropWhile_eq_iff.2 ⟨w, rfl, hw, hs⟩

theorem skip_whitespace_split (s : List UInt8) : ∃ w, s = w ++ skip_whitespace s ∧ Ws w ∧ Stops isspace (skip_whitespace s) :=
  dropWhile_eq_iff.1 rfl

theorem parse_token_no_ws_iff {token s r : List UInt8} : parse_token_no_ws token s = some r ↔ s = token ++ r := by
  unfold parse_token_no_ws
  constructor
  · intro h
    split_ifs at h with hp
    obtain ⟨t, rfl⟩ := hp
    rw [List.drop_left] at h
    rw [Option.some.inj h]
  · rintro rfl
    rw [if_pos (List.prefix_append _ _), List.drop_left]

theorem token_none {token s : List UInt8} (h : ∀ r, s ≠ token ++ r) : parse_token_no_ws token s = none := by
  cases hp : parse_token_no_ws token s with
  | none => rfl
  | some r => exact absurd (parse_token_no_ws_iff.1 hp) (h r)

theorem token_none_cons {c d : UInt8} (h : c ≠ d) (token s : List UInt8) : parse_token_no_ws (c :: token) (d :: s) = none :=
  token_none fun _ he => h (List.cons.inj he).1.symm

theorem token_none_stops {c : UInt8} {token s : List UInt8} (h : Stops (fun d => d = c) s) :
    parse_token_no_ws (c :: token) s = none := by
  refine token_none fun r he => ?_
  have := h c (token ++ r) he
  exact absurd rfl (of_decide_eq_false this)

theorem token_some (token r : List UInt8) : parse_token_no_ws token (token ++ r) = some r :=
  parse_token_no_ws_iff.2 rfl

theorem parse_token_iff {c : UInt8} {token s r : List UInt8} (hc : isspace c = false) :
    parse_token (c :: token) s = some r ↔ ∃ w, Ws w ∧ s = w ++ c :: token ++ r := by
  unfold parse_token
  rw [parse_token_no_ws_iff]
  constructor
  · intro h
    obtain ⟨w, hs, hw, -⟩ := skip_whitespace_split s
    rw [h] at hs
    exact ⟨w, hw, by rw [hs, List.append_assoc]⟩
  · rintro ⟨w, hw, rfl⟩
    rw [List.append_assoc, skip_whitespace_eq hw (by simpa using hc)]

/-- A token is not there when another byte is. -/
theorem parse_token_ne {c d : UInt8} {w r : List UInt8} (hw : Ws w) (hd : isspace d = false) (hne : d ≠ c) :
    parse_token [c] (w ++ d :: r) = none := by
  unfold parse_token parse_token_no_ws
  rw [skip_whitespace_eq hw (by simpa using hd), if_neg]
  rintro ⟨t, ht⟩
  exact hne (List.cons.inj ht).1.symm

/-! ## The bodies of strings -/

/-- What may stand between two quotes. -/
inductive StringBody : List UInt8 → Prop where
  | nil : StringBody []
  | plain {c : UInt8} {s : List UInt8} : c ≠ ch '"' → c ≠ ch '\\' → StringBody s → StringBody (c :: s)
  | short {e : UInt8} {s : List UInt8} : e ∈ shortEscapes → StringBody s → StringBody (ch '\\' :: e :: s)
  | hex4 {h s : List UInt8} : h.length = 4 → (∀ d ∈ h, isHexDigit d = true) → StringBody s →
      StringBody (ch '\\' :: ch 'u' :: (h ++ s))
  | hex8 {h s : List UInt8} : h.length = 8 → (∀ d ∈ h, isHexDigit d = true) → StringBody s →
      StringBody (ch '\\' :: ch 'U' :: (h ++ s))

theorem quotedLoop_backslash (rbegin : List UInt8) (e : UInt8) (begin : List UInt8) (escaped : Bool) :
    quotedLoop rbegin (ch '\\' :: e :: begin) escaped =
      if e ∈ shortEscapes then quotedLoop rbegin begin true
      else if e = ch 'u' then
        if begin.length < 4 then .error ⟨ch '\\' :: e :: begin, "invalid unicode escape sequence in string"⟩
        else hexLoop rbegin 4 begin
      else if e = ch 'U' then
        if begin.length < 8 then .error ⟨ch '\\' :: e :: begin, "invalid unicode escape sequence in string"⟩
        else hexLoop rbegin 8 begin
      else .error ⟨ch '\\' :: e :: begin, "invalid escape sequence in string"⟩ :=
  if_pos rfl

theorem quotedLoop_quote (rbegin begin : List UInt8) (escaped : Bool) :
    quotedLoop rbegin (ch '"' :: begin) escaped = .ok (escaped, begin) := by
  cases begin <;> rfl

theorem quotedLoop_plain (rbegin : List UInt8) {c : UInt8} (hbs : c ≠ ch '\\') (hq : c ≠ ch '"') (begin : List UInt8)
    (escaped : Bool) : quotedLoop rbegin (c :: begin) escaped = quotedLoop rbegin begin escaped := by
  cases begin <;> exact (if_neg hbs).trans (if_neg hq)

theorem hexLoop_cons (rbegin : List UInt8) (n : ℕ) (d : UInt8) (begin : List UInt8) : hexLoop rbegin n (d :: begin) =
    if isHexDigit d then
      if n ≤ 1 then quotedLoop rbegin begin true else hexLoop rbegin (n - 1) begin
    else .error ⟨d :: begin, "invalid unicode escape sequence in string"⟩ := rfl

theorem hexLoop_append (rbegin : List UInt8) {h : List UInt8} (hh : ∀ d ∈ h, isHexDigit d = true) (hne : h ≠ [])
    (s : List UInt8) : hexLoop rbegin h.length (h ++ s) = quotedLoop rbegin s true := by
  induction h with
  | nil => exact absurd rfl hne
  | cons d h ih =>
    have hd := hh d List.mem_cons_self
    rw [List.cons_append, hexLoop_cons, if_pos hd]
    cases h with
    | nil => simp
    | cons d' h =>
      rw [if_neg (by simp)]
      exact ih (fun x hx => hh x (List.mem_cons_of_mem _ hx)) (by simp)

theorem hexLoop_eq_ok {rbegin : List UInt8} {n : ℕ} (hn : n ≠ 0) {s : List UInt8} {x : Bool × List UInt8}
    (h : hexLoop rbegin n s = .ok x) : ∃ hex s', s = hex ++ s' ∧ hex.length = n ∧
      (∀ d ∈ hex, isHexDigit d = true) ∧ quotedLoop rbegin s' true = .ok x := by
  induction s generalizing n with
  | nil => cases h
  | cons d s ih =>
    rw [hexLoop_cons] at h
    split_ifs at h with hd hle
    · exact ⟨[d], s, rfl, by simp; omega, by simpa using hd, h⟩
    · obtain ⟨hex, s', rfl, hlen, hall, hq⟩ := ih (by omega) h
      refine ⟨d :: hex, s', rfl, by simp [hlen]; omega, ?_, hq⟩
      simpa [hd] using hall

/-- The loop reads a body and its closing quote. -/
theorem quotedLoop_body (rbegin : List UInt8) {b : List UInt8} (hb : StringBody b) (escaped : Bool) (r : List UInt8) :
    quotedLoop rbegin (b ++ ch '"' :: r) escaped = .ok (escaped || b.contains (ch '\\'), r) := by
  induction hb generalizing escaped with
  | nil =>
    rw [List.nil_append, quotedLoop_quote]
    simp
  | @plain c s hq hbs _ ih =>
    rw [List.cons_append, quotedLoop_plain _ hbs hq, ih, List.contains_cons]
    have : (ch '\\' == c) = false := beq_false_of_ne (Ne.symm hbs)
    rw [this, Bool.false_or]
  | @short e s he _ ih =>
    rw [List.cons_append, List.cons_append, quotedLoop_backslash, if_pos he, ih]
    simp
  | @hex4 h s hlen hall _ ih =>
    have hs : ¬ ch 'u' ∈ shortEscapes := by decide
    rw [List.cons_append, List.cons_append, quotedLoop_backslash, if_neg hs, if_pos rfl, List.append_assoc,
      if_neg (by simp; omega), ← hlen, hexLoop_append rbegin hall (by rintro rfl; cases hlen), ih]
    simp
  | @hex8 h s hlen hall _ ih =>
    have hs : ¬ ch 'U' ∈ shortEscapes := by decide
    have hu : ¬ ch 'U' = ch 'u' := by decide
    rw [List.cons_append, List.cons_append, quotedLoop_backslash, if_neg hs, if_neg hu, if_pos rfl, List.append_assoc,
      if_neg (by simp; omega), ← hlen, hexLoop_append rbegin hall (by rintro rfl; cases hlen), ih]
    simp

/-- What the loop accepts is a body and its closing quote. -/
theorem quotedLoop_eq_ok {rbegin s : List UInt8} {escaped : Bool} {x : Bool × List UInt8}
    (h : quotedLoop rbegin s escaped = .ok x) : ∃ b, s = b ++ ch '"' :: x.2 ∧ StringBody b := by
  -- on the length of what is left: an escape reads up to ten bytes
  induction hn : s.length using Nat.strong_induction_on generalizing s escaped with
  | _ n ih =>
    subst hn
    rcases s with _ | ⟨c, s⟩
    · cases h
    by_cases hbs : c = ch '\\'
    · subst hbs
      rcases s with _ | ⟨e, s⟩
      · cases h
      rw [quotedLoop_backslash] at h
      split_ifs at h with hs hu hlen hU hlen
      · obtain ⟨b, rfl, hb⟩ := ih _ (by simp) h rfl
        exact ⟨_, rfl, .short hs hb⟩
      · obtain ⟨hex, s', rfl, hl, hall, hq⟩ := hexLoop_eq_ok (by decide) h
        obtain ⟨b, rfl, hb⟩ := ih _ (by simp; omega) hq rfl
        exact ⟨ch '\\' :: e :: (hex ++ b), by simp, by rw [hu]; exact .hex4 hl hall hb⟩
      · obtain ⟨hex, s', rfl, hl, hall, hq⟩ := hexLoop_eq_ok (by decide) h
        obtain ⟨b, rfl, hb⟩ := ih _ (by simp; omega) hq rfl
        exact ⟨ch '\\' :: e :: (hex ++ b), by simp, by rw [hU]; exact .hex8 hl hall hb⟩
    · by_cases hq : c = ch '"'
      · subst hq
        rw [quotedLoop_quote] at h
        cases h
        exact ⟨[], rfl, .nil⟩
      · rw [quotedLoop_plain _ hbs hq] at h
        obtain ⟨b, rfl, hb⟩ := ih _ (by simp) h rfl
        exact ⟨c :: b, rfl, .plain hq hbs hb⟩

/-- A double-quoted string is a body between quotes, and is escaped when it has a backslash. -/
theorem parse_doublequote_string_no_ws_iff {s : List UInt8} {q : Quoted} :
    parse_doublequote_string_no_ws s = .ok (some q) ↔
      s = ch '"' :: q.str ++ ch '"' :: q.rest ∧ StringBody q.str ∧ q.escaped = q.str.contains (ch '\\') := by
  unfold parse_doublequote_string_no_ws
  constructor
  · intro h
    cases ht : parse_token_no_ws [ch '"'] s with
    | none => simp [ht] at h
    | some begin =>
      rw [parse_token_no_ws_iff] at ht
      simp only [show parse_token_no_ws [ch '"'] s = some begin from parse_token_no_ws_iff.2 ht] at h
      obtain ⟨⟨escaped, rest⟩, hl, h⟩ := bind_eq_ok.1 h
      obtain ⟨b, rfl, hb⟩ := quotedLoop_eq_ok hl
      rw [quotedLoop_body s hb] at hl
      cases hl
      cases h
      have hb' : (b ++ ch '"' :: rest).take ((b ++ ch '"' :: rest).length - (rest.length + 1)) = b := by
        rw [List.take_append_of_le_length (by simp), List.take_of_length_le (by simp)]
      refine ⟨?_, ?_, ?_⟩
      · simp only [hb']
        rw [ht]
        rfl
      · simpa only [hb'] using hb
      · simp only [hb', Bool.false_or]
  · rintro ⟨rfl, hb, he⟩
    have ht : parse_token_no_ws [ch '"'] (ch '"' :: q.str ++ ch '"' :: q.rest) = some (q.str ++ ch '"' :: q.rest) :=
      parse_token_no_ws_iff.2 rfl
    simp only [ht, quotedLoop_body _ hb, ok_bind]
    rw [List.take_append_of_le_length (by simp), List.take_of_length_le (by simp)]
    obtain ⟨str, escaped, rest⟩ := q
    simp only at he ⊢
    simp [he]

theorem parse_doublequote_string_no_ws_none {s : List UInt8} (h : Stops (· = ch '"') s) :
    parse_doublequote_string_no_ws s = .ok none := by
  unfold parse_doublequote_string_no_ws
  cases ht : parse_token_no_ws [ch '"'] s with
  | none => rfl
  | some r =>
    rw [parse_token_no_ws_iff] at ht
    rw [ht] at h
    simp at h

/-! ## The numbers of JSON -/

inductive IntPart : List UInt8 → Prop where
  | zero : IntPart [ch '0']
  | nonzero {c : UInt8} {ds : List UInt8} : isDigit c = true → c ≠ ch '0' → (∀ d ∈ ds, isDigit d = true) → IntPart (c :: ds)

/-- One or more digits. -/
def Digits (ds : List UInt8) : Prop := ds ≠ [] ∧ ∀ d ∈ ds, isDigit d = true

inductive FracPart : List UInt8 → Prop where
  | none : FracPart []
  | some {ds : List UInt8} : Digits ds → FracPart (ch '.' :: ds)

def isExponent (c : UInt8) : Bool := c = ch 'e' || c = ch 'E'

inductive ExpPart : List UInt8 → Prop where
  | none : ExpPart []
  | some {c : UInt8} {sign ds : List UInt8} : isExponent c = true → sign = [] ∨ sign = [ch '+'] ∨ sign = [ch '-'] →
      Digits ds → ExpPart (c :: (sign ++ ds))

inductive JsonNumber : List UInt8 → Prop where
  | mk {m i f e : List UInt8} : m = [] ∨ m = [ch '-'] → IntPart i → FracPart f → ExpPart e → JsonNumber (m ++ (i ++ (f ++ e)))

/-- What is left after a digit run that was read to its end. -/
def IntStop (i r : List UInt8) : Prop := i ≠ [ch '0'] → Stops isDigit r

def FracStop (f r : List UInt8) : Prop := (f = [] → Stops (· = ch '.') r) ∧ (f ≠ [] → Stops isDigit r)

def ExpStop (e r : List UInt8) : Prop := (e = [] → Stops isExponent r) ∧ (e ≠ [] → Stops isDigit r)

theorem someDigits_iff {s r : List UInt8} : someDigits s = some r ↔ ∃ ds, s = ds ++ r ∧ Digits ds ∧ Stops isDigit r := by
  constructor
  · intro h
    cases s with
    | nil => cases h
    | cons c s =>
      rw [someDigits] at h
      split_ifs at h with hc
      obtain ⟨ds, rfl, hds, hr⟩ := dropWhile_eq_iff.1 (Option.some.inj h)
      exact ⟨c :: ds, rfl, ⟨by simp, by simpa [hc] using hds⟩, hr⟩
  · rintro ⟨ds, rfl, ⟨hne, hds⟩, hr⟩
    cases ds with
    | nil => exact absurd rfl hne
    | cons c ds =>
      rw [List.forall_mem_cons] at hds
      rw [List.cons_append, someDigits, if_pos hds.1]
      exact congrArg some (dropWhile_eq_iff.2 ⟨ds, rfl, hds.2, hr⟩)

/-- `'1' <= c && c <= '9'`. -/
theorem nonzeroDigit_iff (c : UInt8) : (ch '1' ≤ c && c ≤ ch '9') = true ↔ isDigit c = true ∧ c ≠ ch '0' := by
  simp only [isDigit, Bool.and_eq_true, decide_eq_true_eq, UInt8.le_iff_toNat_le, ne_eq, ← UInt8.toNat_inj]
  have h0 : (ch '0').toNat = 48 := rfl
  have h1 : (ch '1').toNat = 49 := rfl
  have h9 : (ch '9').toNat = 57 := rfl
  omega

theorem numberInt_iff {s r : List UInt8} : numberInt s = some r ↔ ∃ i, s = i ++ r ∧ IntPart i ∧ IntStop i r := by
  constructor
  · intro h
    cases s with
    | nil => cases h
    | cons c s =>
      rw [numberInt] at h
      split_ifs at h with h0 hc
      · obtain rfl := Option.some.inj h
        exact ⟨[c], rfl, by rw [h0]; exact .zero, fun hne => absurd (by rw [h0]) hne⟩
      · obtain ⟨hd, hne⟩ := (nonzeroDigit_iff c).1 hc
        obtain ⟨ds, rfl, hds, hr⟩ := dropWhile_eq_iff.1 (Option.some.inj h)
        exact ⟨c :: ds, rfl, .nonzero hd hne hds, fun _ => hr⟩
  · rintro ⟨i, rfl, hi, hr⟩
    cases hi with
    | zero => rfl
    | @nonzero c ds hd hne hds =>
      rw [List.cons_append, numberInt, if_neg hne, if_pos ((nonzeroDigit_iff c).2 ⟨hd, hne⟩)]
      refine congrArg some (dropWhile_eq_iff.2 ⟨ds, rfl, hds, hr ?_⟩)
      intro h
      exact hne (List.cons.inj h).1

theorem numberFrac_iff {s r : List UInt8} : numberFrac s = some r ↔ ∃ f, s = f ++ r ∧ FracPart f ∧ FracStop f r := by
  constructor
  · intro h
    cases s with
    | nil =>
      obtain rfl := Option.some.inj h
      exact ⟨[], rfl, .none, by simp [FracStop]⟩
    | cons c s =>
      rw [numberFrac] at h
      split_ifs at h with hc
      · obtain ⟨ds, rfl, hds, hr⟩ := someDigits_iff.1 h
        exact ⟨c :: ds, rfl, by rw [hc]; exact .some hds, by simp [FracStop, hr]⟩
      · obtain rfl := Option.some.inj h
        exact ⟨[], rfl, .none, by simpa [FracStop] using hc⟩
  · rintro ⟨f, rfl, hf, hr⟩
    cases hf with
    | none =>
      cases r with
      | nil => rfl
      | cons c r =>
        have hc : ¬ c = ch '.' := by simpa using hr.1 rfl
        rw [List.nil_append, numberFrac, if_neg hc]
    | some hds =>
      rw [List.cons_append, numberFrac, if_pos rfl]
      exact someDigits_iff.2 ⟨_, rfl, hds, hr.2 (by simp)⟩

theorem numberExp_cons (c d : UInt8) (s : List UInt8) : numberExp (c :: d :: s) =
    if isExponent c then if d = ch '+' || d = ch '-' then someDigits s else someDigits (d :: s)
    else some (c :: d :: s) := rfl

theorem isDigit_ne_sign {d : UInt8} (h : isDigit d = true) : ¬ (d = ch '+' || d = ch '-') = true := by
  simp only [isDigit, Bool.and_eq_true, decide_eq_true_eq, UInt8.le_iff_toNat_le] at h
  simp only [Bool.or_eq_true, decide_eq_true_eq, ← UInt8.toNat_inj]
  have h0 : (ch '0').toNat = 48 := rfl
  have h1 : (ch '+').toNat = 43 := rfl
  have h2 : (ch '-').toNat = 45 := rfl
  omega

theorem numberExp_iff {s r : List UInt8} : numberExp s = some r ↔ ∃ e, s = e ++ r ∧ ExpPart e ∧ ExpStop e r := by
  constructor
  · intro h
    rcases s with _ | ⟨c, s⟩
    · obtain rfl := Option.some.inj h
      exact ⟨[], rfl, .none, by simp [ExpStop]⟩
    by_cases hc : isExponent c
    · rcases s with _ | ⟨d, s⟩
      · have hnone : numberExp [c] = none := if_pos hc
        rw [hnone] at h
        cases h
      · rw [numberExp_cons, if_pos hc] at h
        split_ifs at h with hd
        · obtain ⟨ds, rfl, hds, hr⟩ := someDigits_iff.1 h
          have hsign : [d] = [ch '+'] ∨ [d] = [ch '-'] := by simpa using hd
          exact ⟨c :: d :: ds, rfl, .some hc (.inr hsign) hds, by simp [ExpStop, hr]⟩
        · obtain ⟨ds, hs, hds, hr⟩ := someDigits_iff.1 h
          exact ⟨c :: ds, by rw [hs]; rfl, .some hc (.inl rfl) hds, by simp [ExpStop, hr]⟩
    · have : numberExp (c :: s) = some (c :: s) := by
        simp only [numberExp]
        exact if_neg hc
      rw [this] at h
      obtain rfl := Option.some.inj h
      exact ⟨[], rfl, .none, by simpa [ExpStop] using hc⟩
  · rintro ⟨e, rfl, he, hr⟩
    cases he with
    | none =>
      cases r with
      | nil => rfl
      | cons c r =>
        have hc : ¬ isExponent c = true := by simpa using hr.1 rfl
        simp only [List.nil_append, numberExp]
        exact if_neg hc
    | @some c sign ds hc hsign hds =>
      have hstop := hr.2 (by simp)
      obtain ⟨d, ds', rfl⟩ := List.exists_cons_of_ne_nil hds.1
      rcases hsign with rfl | rfl | rfl
      · simp only [List.cons_append, List.nil_append]
        rw [numberExp_cons, if_pos hc, if_neg (isDigit_ne_sign (hds.2 d List.mem_cons_self))]
        exact someDigits_iff.2 ⟨_, rfl, hds, hstop⟩
      · simp only [List.cons_append, List.nil_append]
        rw [numberExp_cons, if_pos hc, if_pos (by decide)]
        exact someDigits_iff.2 ⟨_, rfl, hds, hstop⟩
      · simp only [List.cons_append, List.nil_append]
        rw [numberExp_cons, if_pos hc, if_pos (by decide)]
        exact someDigits_iff.2 ⟨_, rfl, hds, hstop⟩

/-- A number whose four parts are each read to their end. -/
inductive ReadNumber : List UInt8 → List UInt8 → Prop where
  | mk {m i f e r : List UInt8} : m = [] ∨ m = [ch '-'] → IntPart i → FracPart f → ExpPart e →
      IntStop i (f ++ (e ++ r)) → FracStop f (e ++ r) → ExpStop e r → ReadNumber (m ++ (i ++ (f ++ e))) r

theorem skipMinus_split (s : List UInt8) : ∃ m, s = m ++ skipMinus s ∧ (m = [] ∨ m = [ch '-']) := by
  cases s with
  | nil => exact ⟨[], rfl, .inl rfl⟩
  | cons c s =>
    rw [skipMinus]
    split_ifs with hc
    · exact ⟨[c], rfl, .inr (by rw [hc])⟩
    · exact ⟨[], rfl, .inl rfl⟩

theorem skipMinus_int {m i : List UInt8} (hm : m = [] ∨ m = [ch '-']) (hi : IntPart i) (s : List UInt8) :
    skipMinus (m ++ (i ++ s)) = i ++ s := by
  rcases hm with rfl | rfl
  · cases hi with
    | zero => rfl
    | nonzero hd =>
      have hne := isDigit_ne_sign hd
      simp only [Bool.or_eq_true, decide_eq_true_eq, not_or] at hne
      exact if_neg hne.2
  · rfl

theorem parse_json_number_no_ws_iff {s n r : List UInt8} :
    parse_json_number_no_ws s = some (n, r) ↔ s = n ++ r ∧ ReadNumber n r := by
  unfold parse_json_number_no_ws
  constructor
  · intro h
    obtain ⟨m, hs, hm⟩ := skipMinus_split s
    obtain ⟨a, ha, hrest⟩ := Option.bind_eq_some_iff.1 h
    obtain ⟨b, hb, hrest⟩ := Option.bind_eq_some_iff.1 hrest
    obtain ⟨c, hc, hlast⟩ := Option.bind_eq_some_iff.1 hrest
    obtain ⟨i, hi, int, intStop⟩ := numberInt_iff.1 ha
    obtain ⟨f, rfl, frac, fracStop⟩ := numberFrac_iff.1 hb
    obtain ⟨e, rfl, exp, expStop⟩ := numberExp_iff.1 hc
    obtain ⟨rfl, rfl⟩ := Prod.mk.inj (Option.some.inj hlast)
    rw [hi] at hs
    have hsplit : s = (m ++ (i ++ (f ++ e))) ++ c := by rw [hs]; simp only [List.append_assoc]
    have htake : s.take (s.length - c.length) = m ++ (i ++ (f ++ e)) := by
      rw [hsplit, List.length_append, Nat.add_sub_cancel, List.take_left]
    rw [htake]
    exact ⟨hsplit, .mk hm int frac exp intStop fracStop expStop⟩
  · rintro ⟨rfl, @⟨m, i, f, e, _, hm, int, frac, exp, intStop, fracStop, expStop⟩⟩
    refine Option.bind_eq_some_iff.2 ⟨f ++ (e ++ r), ?_, Option.bind_eq_some_iff.2 ⟨e ++ r, ?_,
      Option.bind_eq_some_iff.2 ⟨r, ?_, ?_⟩⟩⟩
    · simp only [List.append_assoc]
      rw [skipMinus_int hm int]
      exact numberInt_iff.2 ⟨i, rfl, int, intStop⟩
    · exact numberFrac_iff.2 ⟨f, rfl, frac, fracStop⟩
    · exact numberExp_iff.2 ⟨e, rfl, exp, expStop⟩
    · rw [List.length_append, Nat.add_sub_cancel, List.take_left]
      rfl

/-- The text that is left does not continue the number. -/
def NumberEnds (n r : List UInt8) : Prop := ∀ c t, r = c :: t → ∀ u, ¬ JsonNumber (n ++ c :: u)

theorem ReadNumber.number {n r : List UInt8} (h : ReadNumber n r) : JsonNumber n := by
  obtain ⟨hm, hi, hf, he, -⟩ := h
  exact .mk hm hi hf he

/-- Only the first byte that is left matters. -/
theorem ReadNumber.head {n : List UInt8} {c : UInt8} {t : List UInt8} (h : ReadNumber n (c :: t)) (u : List UInt8) :
    ReadNumber n (c :: u) := by
  have swap : ∀ {p : UInt8 → Bool} (x : List UInt8), Stops p (x ++ c :: t) → Stops p (x ++ c :: u) := by
    intro p x hx
    cases x with
    | nil => simpa using hx
    | cons d x => simpa using hx
  obtain ⟨hm, hi, hf, he, intStop, fracStop, expStop⟩ := h
  refine .mk hm hi hf he ?_ ⟨fun h => swap _ (fracStop.1 h), fun h => swap _ (fracStop.2 h)⟩
    ⟨fun h => swap [] (expStop.1 h), fun h => swap [] (expStop.2 h)⟩
  intro hne
  rw [← List.append_assoc]
  apply swap
  rw [List.append_assoc]
  exact intStop hne

theorem stops_exp {p : UInt8 → Bool} {e r : List UInt8} (he : ExpPart e) (hp : ∀ c, isExponent c = true → p c = false)
    (hr : e = [] → Stops p r) : Stops p (e ++ r) := by
  cases he with
  | none => exact hr rfl
  | some hc => exact stops_cons.2 (hp _ hc)

theorem stops_frac {p : UInt8 → Bool} {f r : List UInt8} (hf : FracPart f) (hp : p (ch '.') = false)
    (hr : f = [] → Stops p r) : Stops p (f ++ r) := by
  cases hf with
  | none => exact hr rfl
  | some => exact stops_cons.2 hp

theorem isExponent_cases {c : UInt8} (h : isExponent c = true) : c = ch 'e' ∨ c = ch 'E' := by
  simpa [isExponent] using h

theorem IntPart.snoc {i : List UInt8} {c : UInt8} (hi : IntPart i) (hne : i ≠ [ch '0']) (hc : isDigit c = true) :
    IntPart (i ++ [c]) := by
  cases hi with
  | zero => exact absurd rfl hne
  | nonzero hd h0 hds =>
    refine .nonzero hd h0 ?_
    intro d hmem
    rcases List.mem_append.1 hmem with h | h
    · exact hds d h
    · rw [List.mem_singleton.1 h]
      exact hc

theorem Digits.snoc {ds : List UInt8} {c : UInt8} (h : Digits ds) (hc : isDigit c = true) : Digits (ds ++ [c]) := by
  refine ⟨by simp, ?_⟩
  intro d hmem
  rcases List.mem_append.1 hmem with hd | hd
  · exact h.2 d hd
  · rw [List.mem_singleton.1 hd]
    exact hc

theorem FracPart.snoc {f : List UInt8} {c : UInt8} (hf : FracPart f) (hne : f ≠ []) (hc : isDigit c = true) :
    FracPart (f ++ [c]) := by
  cases hf with
  | none => exact absurd rfl hne
  | some hds => exact .some (hds.snoc hc)

theorem ExpPart.snoc {e : List UInt8} {c : UInt8} (he : ExpPart e) (hne : e ≠ []) (hc : isDigit c = true) :
    ExpPart (e ++ [c]) := by
  cases he with
  | none => exact absurd rfl hne
  | some hx hsign hds =>
    rw [List.cons_append, List.append_assoc]
    exact .some hx hsign (hds.snoc hc)

theorem digits_zero : Digits [ch '0'] := ⟨by simp, List.forall_mem_singleton.2 rfl⟩

/-- A number that ends in its text is read to its end: if some part went on,
that part of the text, completed by a zero, would make a longer number. -/
theorem JsonNumber.read {n r : List UInt8} (h : JsonNumber n) (hr : NumberEnds n r) : ReadNumber n r := by
  obtain @⟨m, i, f, e, hm, hi, hf, he⟩ := h
  have stop : ∀ p : UInt8 → Bool,
      (∀ c, p c = true → ∃ u, JsonNumber ((m ++ (i ++ (f ++ e))) ++ c :: u)) → Stops p r := by
    intro p hp c t hct
    by_contra hc
    obtain ⟨u, hu⟩ := hp c (by simpa using hc)
    exact hr c t hct u hu
  refine .mk hm hi hf he ?_ ⟨?_, ?_⟩ ⟨?_, ?_⟩
  · intro hne
    apply stops_frac hf rfl
    rintro rfl
    apply stops_exp he
    · intro c hc
      rcases isExponent_cases hc with rfl | rfl <;> rfl
    · rintro rfl
      apply stop
      intro c hc
      refine ⟨[], ?_⟩
      have := JsonNumber.mk hm (hi.snoc hne hc) .none .none
      simpa only [List.append_assoc, List.append_nil, List.nil_append] using this
  · rintro rfl
    apply stops_exp he
    · intro c hc
      rcases isExponent_cases hc with rfl | rfl <;> rfl
    · rintro rfl
      apply stop
      intro c hc
      obtain rfl : c = ch '.' := by simpa using hc
      refine ⟨[ch '0'], ?_⟩
      have := JsonNumber.mk hm hi (.some digits_zero) .none
      simpa only [List.append_assoc, List.append_nil, List.nil_append] using this
  · intro hne
    apply stops_exp he
    · intro c hc
      rcases isExponent_cases hc with rfl | rfl <;> rfl
    · rintro rfl
      apply stop
      intro c hc
      refine ⟨[], ?_⟩
      have := JsonNumber.mk hm hi (hf.snoc hne hc) .none
      simpa only [List.append_assoc, List.append_nil, List.nil_append] using this
  · rintro rfl
    apply stop
    intro c hc
    refine ⟨[ch '0'], ?_⟩
    have := JsonNumber.mk hm hi hf (.some hc (.inl rfl) digits_zero)
    simpa only [List.append_assoc, List.append_nil, List.nil_append] using this
  · intro hne
    apply stop
    intro c hc
    refine ⟨[], ?_⟩
    have := JsonNumber.mk hm hi hf (he.snoc hne hc)
    simpa only [List.append_assoc, List.append_nil, List.nil_append] using this

theorem ReadNumber.ends {n r : List UInt8} (h : ReadNumber n r) : NumberEnds n r := by
  rintro c t rfl u hn
  have h1 := parse_json_number_no_ws_iff.2 ⟨rfl, h.head u⟩
  have h2 := parse_json_number_no_ws_iff.2 ⟨(List.append_nil _).symm, hn.read (r := []) (by intro c t hc; cases hc)⟩
  rw [h1] at h2
  cases (Prod.mk.inj (Option.some.inj h2)).2

/-- The number scanner reads the longest number, if that number ends. -/
theorem parse_json_number_spec {s n r : List UInt8} :
    parse_json_number_no_ws s = some (n, r) ↔ s = n ++ r ∧ JsonNumber n ∧ NumberEnds n r := by
  rw [parse_json_number_no_ws_iff]
  constructor
  · rintro ⟨hs, h⟩
    exact ⟨hs, h.number, h.ends⟩
  · rintro ⟨hs, h, hr⟩
    exact ⟨hs, h.read hr⟩

/-- The bytes that occur in numbers. -/
def isNumberByte (c : UInt8) : Bool := isDigit c || c = ch '+' || c = ch '-' || c = ch '.' || isExponent c

theorem Digits.bytes {ds : List UInt8} (h : Digits ds) : ∀ c ∈ ds, isNumberByte c = true := by
  intro c hc
  simp [isNumberByte, h.2 c hc]

theorem JsonNumber.bytes {n : List UInt8} (h : JsonNumber n) : ∀ c ∈ n, isNumberByte c = true := by
  obtain ⟨hm, hi, hf, he⟩ := h
  intro c hc
  simp only [List.mem_append] at hc
  rcases hc with hc | hc | hc | hc
  · rcases hm with rfl | rfl
    · cases hc
    · obtain rfl := List.mem_singleton.1 hc
      rfl
  · cases hi with
    | zero =>
      obtain rfl := List.mem_singleton.1 hc
      rfl
    | nonzero hd _ hds =>
      rcases List.mem_cons.1 hc with rfl | hc
      · simp [isNumberByte, hd]
      · simp [isNumberByte, hds c hc]
  · cases hf with
    | none => cases hc
    | some hds =>
      rcases List.mem_cons.1 hc with rfl | hc
      · rfl
      · exact hds.bytes c hc
  · cases he with
    | none => cases hc
    | some hx hsign hds =>
      rcases List.mem_cons.1 hc with rfl | hc
      · simp [isNumberByte, hx]
      · rcases List.mem_append.1 hc with hc | hc
        · rcases hsign with rfl | rfl | rfl
          · cases hc
          · obtain rfl := List.mem_singleton.1 hc
            rfl
          · obtain rfl := List.mem_singleton.1 hc
            rfl
        · exact hds.bytes c hc

/-- A byte that occurs in no number ends every number. -/
theorem numberEnds_of_stops {n r : List UInt8} (h : Stops isNumberByte r) : NumberEnds n r := by
  rintro c t rfl u hn
  have h1 := hn.bytes c (List.mem_append_right _ List.mem_cons_self)
  rw [stops_cons.1 h] at h1
  cases h1

theorem JsonNumber.head {n : List UInt8} (h : JsonNumber n) : ∃ c t, n = c :: t ∧ (c = ch '-' ∨ isDigit c = true) := by
  obtain ⟨hm, hi, -, -⟩ := h
  rcases hm with rfl | rfl
  · cases hi with
    | zero => exact ⟨_, _, rfl, .inr rfl⟩
    | nonzero hd => exact ⟨_, _, rfl, .inr hd⟩
  · exact ⟨_, _, rfl, .inl rfl⟩

end Dynd.Parse
