import Dynd.Lib.Except
import Dynd.ParseScalar
/-!
# Sizes in datashapes

The productions of `datashape_parser.cpp` that read a number. One converts its
digits with the checked parse, one with `atoll` and the others with `atoi`, so
a number can be a different size in each: `sizes_agree_iff` says when all read
the same integer.
-/
namespace Dynd.Datashape
open Lib Parse StringEncodings

/-! ## Scanning -/

def str (s : String) : List UInt8 := s.toList.map ch

mutual

def skip_whitespace_and_pound_comments : List UInt8 → List UInt8
  | [] => []
  | c :: begin =>
    if isspace c then skip_whitespace_and_pound_comments begin
    else if c = ch '#' then skipLine begin
    else c :: begin

/-- `memchr(begin, '\n', end - begin)`, and on from the line after it. -/
def skipLine : List UInt8 → List UInt8
  | [] => []
  | c :: begin => if c = ch '\n' then skip_whitespace_and_pound_comments begin else skipLine begin

end

def parse_token_ds (token begin : List UInt8) : Option (List UInt8) :=
  parse_token_no_ws token (skip_whitespace_and_pound_comments begin)

/-- Leading zeros do not match. -/
def parse_unsigned_int_no_ws : List UInt8 → Option (List UInt8 × List UInt8)
  | [] => none
  | c :: begin =>
    if ch '1' ≤ c && c ≤ ch '9' then some (c :: begin.takeWhile isDigit, begin.dropWhile isDigit)
    else if c = ch '0' then
      match begin with
      | [] => some ([c], [])
      | d :: begin => if isDigit d then none else some ([c], d :: begin)
    else none

def nameStart (c : UInt8) : Bool := (ch 'a' ≤ c && c ≤ ch 'z') || (ch 'A' ≤ c && c ≤ ch 'Z') || c = ch '_'

def nameChar (c : UInt8) : Bool := nameStart c || isDigit c

def parse_name_no_ws : List UInt8 → Option (List UInt8 × List UInt8)
  | [] => none
  | c :: begin => if nameStart c then some (c :: begin.takeWhile nameChar, begin.dropWhile nameChar) else none

def parse_name_or_number (rbegin : List UInt8) : Option (List UInt8 × List UInt8) :=
  match parse_name_no_ws rbegin with
  | some r => some r
  | none => parse_unsigned_int_no_ws rbegin

/-- The digits, or the empty string where there is no number. -/
def parse_number (rbegin : List UInt8) : List UInt8 × List UInt8 :=
  match parse_unsigned_int_no_ws (skip_whitespace_and_pound_comments rbegin) with
  | none => ([], rbegin)
  | some r => r

/-! ## The numbers of C -/

/-- What the digits denote. -/
def digitsValue (ds : List (Fin 10)) : ℕ := horner 10 0 (ds.map Fin.val)

/-- The C library's conversions: a number that fits is read as it is. What they
return for another one is not specified. -/
structure CLibrary where
  atoi : List UInt8 → ℤ
  atoll : List UInt8 → ℤ
  atoi_range : ∀ s, -2 ^ 31 ≤ atoi s ∧ atoi s < 2 ^ 31
  atoi_digits : ∀ ds, digitsValue ds < 2 ^ 31 → atoi (digitBytes ds) = digitsValue ds
  atoll_range : ∀ s, -2 ^ 63 ≤ atoll s ∧ atoll s < 2 ^ 63
  atoll_digits : ∀ ds, digitsValue ds < 2 ^ 63 → atoll (digitBytes ds) = digitsValue ds

/-- `strtol` stops at the largest `long`. -/
def strtol (s : List UInt8) : ℕ :=
  min (horner 10 0 ((s.takeWhile isDigit).map fun c => (c - ch '0').toNat)) (2 ^ 63 - 1)

theorem strtol_digits (ds : List (Fin 10)) : strtol (digitBytes ds) = min (digitsValue ds) (2 ^ 63 - 1) := by
  have htake : (digitBytes ds).takeWhile isDigit = digitBytes ds := by
    rw [List.takeWhile_eq_self_iff]
    intro c hc
    obtain ⟨d, -, rfl⟩ := List.mem_map.1 hc
    exact isDigit_digitByte d
  rw [strtol, htake, digitBytes, List.map_map, digitsValue]
  congr 3
  funext d
  exact digit_toNat d

/-- `(int) strtol(s, NULL, 10)`. -/
def atoi (s : List UInt8) : ℤ := (BitVec.ofNat 32 (strtol s)).toInt

theorem atoi_bounds (s : List UInt8) : -2 ^ 31 ≤ atoi s ∧ atoi s < 2 ^ 31 :=
  ⟨BitVec.le_toInt _, BitVec.toInt_lt⟩

theorem atoi_exact {ds : List (Fin 10)} (h : digitsValue ds < 2 ^ 31) : atoi (digitBytes ds) = digitsValue ds := by
  have hlong : strtol (digitBytes ds) = digitsValue ds := by
    rw [strtol_digits]
    omega
  have hmod : digitsValue ds % 2 ^ 32 = digitsValue ds := Nat.mod_eq_of_lt (by omega)
  rw [atoi, hlong, BitVec.toInt_eq_toNat_of_lt, BitVec.toNat_ofNat, hmod]
  rw [BitVec.toNat_ofNat, hmod]
  omega

/-- `atoll` is `strtoll`, which is `strtol` where both are of 64 bits. -/
def glibc : CLibrary where
  atoi := atoi
  atoll s := strtol s
  atoi_range := atoi_bounds
  atoi_digits _ h := atoi_exact h
  atoll_range s := by
    rw [strtol]
    omega
  atoll_digits ds h := by
    rw [strtol_digits]
    omega

theorem glibc_atoi : glibc.atoi = atoi := rfl

/-! ## The productions -/

inductive exception where
  | datashape_parse_error (position : List UInt8) (message : String)
  | overflow_error (str : List UInt8)
  | invalid_argument (str : List UInt8)
  /-- thrown by `utf8::append` -/
  | invalid_code_point (cp : UInt32)
deriving DecidableEq, Repr

/-- The call that makes the type, with the values its parameters get. -/
inductive MakeType (T : Type) where
  | fixed_dim (dim_size : ℤ) (element_tp : T)
  | fixed_string (stringsize : ℤ) (encoding : string_encoding_t)
  | bytes (alignment : ℤ)
  | fixed_bytes (element_size alignment : ℤ)
deriving DecidableEq, Repr

/-- The value of a parameter of type `size_t`. -/
def size_t (z : ℤ) : ℤ := z % 2 ^ 64

def checked_string_to_intptr (begin : List UInt8) : Except exception ℤ :=
  let (negative, begin) := takeMinus begin
  let uvalue := checked_string_to_uint64 begin false false
  if uvalue.out_overflow || is_overflow .int64 uvalue.value.toNat negative then .error (.overflow_error begin)
  else if uvalue.out_badparse then .error (.invalid_argument begin)
  else .ok (if negative then -uvalue.value.toNat else uvalue.value.toNat)

def string_to_encoding (error_begin estr : List UInt8) : Except exception string_encoding_t :=
  if estr ∈ ["A", "ascii", "us-ascii"].map str then .ok .ascii
  else if estr ∈ ["U8", "utf8", "utf-8", "utf_8"].map str then .ok .utf_8
  else if estr ∈ ["U16", "utf16", "utf-16", "utf_16"].map str then .ok .utf_16
  else if estr ∈ ["U32", "utf32", "utf-32", "utf_32"].map str then .ok .utf_32
  else if estr ∈ ["ucs2", "ucs-2", "ucs_2"].map str then .ok .ucs_2
  else .error (.datashape_parse_error error_begin "unrecognized string encoding")

mutual

/-- `for (;;)`, up to the closing quote. `rbegin` is where the string started. -/
def quotedChars (rbegin : List UInt8) (beginning_quote : UInt8) : List UInt8 → List UInt8 →
    Except exception (List UInt8 × List UInt8)
  | [], _ =>
    .error (.datashape_parse_error (skip_whitespace_and_pound_comments rbegin) "string has no ending quote")
  | c :: begin, out_val =>
    if c = ch '\\' then
      match begin with
      | [] =>
        .error (.datashape_parse_error (skip_whitespace_and_pound_comments rbegin) "string has no ending quote")
      | e :: begin =>
        if e = ch '\'' then quotedChars rbegin beginning_quote begin (out_val ++ [e])
        else
          match unescapeShort e with
          | some b => quotedChars rbegin beginning_quote begin (out_val ++ [b])
          | none =>
            if e = ch 'u' then
              if begin.length < 4 then
                .error (.datashape_parse_error (c :: e :: begin) "invalid unicode escape sequence in string")
              else quotedHex rbegin beginning_quote 4 0 begin out_val
            else .error (.datashape_parse_error (c :: e :: begin) "invalid escape sequence in string")
    else if c ≠ beginning_quote then quotedChars rbegin beginning_quote begin (out_val ++ [c])
    else .ok (out_val, begin)

/-- `for (int i = 0; i < 4; ++i)`, and the rest of the string. -/
def quotedHex (rbegin : List UInt8) (beginning_quote : UInt8) : ℕ → UInt32 → List UInt8 → List UInt8 →
    Except exception (List UInt8 × List UInt8)
  | _, _, [], _ =>
    .error (.datashape_parse_error [] "invalid unicode escape sequence in string")
  | n, cp, d :: begin, out_val =>
    if isHexDigit d then
      if n ≤ 1 then
        match Utf8.append (hexStep cp d) with
        | some bytes => quotedChars rbegin beginning_quote begin (out_val ++ bytes)
        | none => .error (.invalid_code_point (hexStep cp d))
      else quotedHex rbegin beginning_quote (n - 1) (hexStep cp d) begin out_val
    else .error (.datashape_parse_error (d :: begin) "invalid unicode escape sequence in string")

end

/-- `none` when there is no opening quote. -/
def parse_quoted_string (rbegin : List UInt8) : Except exception (Option (List UInt8 × List UInt8)) :=
  match parse_token_ds [ch '\''] rbegin with
  | some begin => some <$> quotedChars rbegin (ch '\'') begin []
  | none =>
    match parse_token_ds [ch '"'] rbegin with
    | some begin => some <$> quotedChars rbegin (ch '"') begin []
    | none => .ok none

/-- `if (!parse_token_ds(begin, end, token)) throw datashape_parse_error(begin, message);` -/
def expect (token : List UInt8) (message : String) (begin : List UInt8) : Except exception (List UInt8) :=
  match parse_token_ds token begin with
  | some begin => .ok begin
  | none => .error (.datashape_parse_error begin message)

/-- `parse_number`, and the throw when it gives the empty string. -/
def expectNumber (message : String) (begin : List UInt8) : Except exception (List UInt8 × List UInt8) :=
  if (parse_number begin).1 = [] then .error (.datashape_parse_error begin message) else .ok (parse_number begin)

section
variable {T : Type} (lib : CLibrary) (parse_datashape : List UInt8 → Except exception (Option (T × List UInt8)))

/-- `parse_datashape`, and the throw when it gives a null type. -/
def expectType (message : String) (begin : List UInt8) : Except exception (T × List UInt8) := do
  match ← parse_datashape begin with
  | some r => return r
  | none => throw (.datashape_parse_error begin message)

def parse_fixed_dim_parameters (rbegin : List UInt8) : Except exception (MakeType T × List UInt8) := do
  let begin ← expect [ch '['] "expected opening '['" rbegin
  let (dim_size_str, begin) ← expectNumber "expected dimension size" begin
  let dim_size := lib.atoll dim_size_str
  let begin ← expect [ch ']'] "expected closing ']'" begin
  let begin ← expect [ch '*'] "expected dimension separator '*'" begin
  let (element_tp, begin) ← expectType parse_datashape "expected element type" begin
  return (.fixed_dim (size_t dim_size) element_tp, begin)

def parse_fixed_string_parameters (rbegin : List UInt8) : Except exception (MakeType T × List UInt8) := do
  let saved_begin ← expect [ch '['] "expected opening '['" rbegin
  let (value, begin) := parse_number saved_begin
  if value ≠ [] then
    let string_size := lib.atoi value
    if string_size = 0 then
      throw (.datashape_parse_error saved_begin "string size cannot be zero")
    match parse_token_ds [ch ','] begin with
    | some saved_begin =>
      match ← parse_quoted_string saved_begin with
      | none => throw (.datashape_parse_error saved_begin "expected a string encoding")
      | some (encoding_str, begin) =>
        let encoding ← string_to_encoding saved_begin encoding_str
        let begin ← expect [ch ']'] "expected closing ']'" begin
        return (.fixed_string string_size encoding, begin)
    | none =>
      let begin ← expect [ch ']'] "expected closing ']'" begin
      return (.fixed_string string_size .utf_8, begin)
  else
    match ← parse_quoted_string saved_begin with
    | none => throw (.datashape_parse_error saved_begin "expected a size integer")
    | some (encoding_str, begin) =>
      let encoding ← string_to_encoding saved_begin encoding_str
      let begin ← expect [ch ']'] "expected closing ']'" begin
      return (.fixed_string 0 encoding, begin)

def parse_bytes_parameters (rbegin : List UInt8) : Except exception (MakeType T × List UInt8) :=
  match parse_token_ds [ch '['] rbegin with
  | some begin => do
    let begin ← expect (str "align") "expected 'align'" begin
    let begin ← expect [ch '='] "expected an =" begin
    let (align_val, begin) ← expectNumber "expected an integer" begin
    let begin ← expect [ch ']'] "expected closing ']'" begin
    return (.bytes (size_t (lib.atoi align_val)), begin)
  | none => return (.bytes 1, rbegin)

def parse_fixed_bytes_parameters (rbegin : List UInt8) : Except exception (MakeType T × List UInt8) := do
  let begin ← expect [ch '['] "expected opening '['" rbegin
  let (size_val, begin) ← expectNumber "expected 'align' or an integer" begin
  match parse_token_ds [ch ']'] begin with
  | some begin => return (.fixed_bytes (lib.atoi size_val) 1, begin)
  | none =>
    let begin ← expect [ch ','] "expected closing ']' or another argument" begin
    let begin ← expect (str "align") "expected align= parameter" begin
    let begin ← expect [ch '='] "expected an =" begin
    let (align_val, begin) ← expectNumber "expected an integer" begin
    let begin ← expect [ch ']'] "expected closing ']'" begin
    return (.fixed_bytes (lib.atoi size_val) (lib.atoi align_val), begin)

-- the branches that read no size: they start at `rbegin` again
variable (other : List UInt8 → Except exception (Option (MakeType T × List UInt8)))

/-- The types that start with the name `n`. -/
def parse_named (rbegin n begin : List UInt8) : Except exception (Option (MakeType T × List UInt8)) :=
  if n = str "fixed_string" then some <$> parse_fixed_string_parameters lib begin
  else if n = str "bytes" then some <$> parse_bytes_parameters lib begin
  else if n = str "fixed_bytes" then some <$> parse_fixed_bytes_parameters lib begin
  else if n = str "fixed" then some <$> parse_fixed_dim_parameters lib parse_datashape begin
  else other rbegin

/-- The size of `dim ASTERISK datashape`, where it is a number. -/
def parse_dim (rbegin n begin : List UInt8) : Except exception (Option (MakeType T × List UInt8)) := do
  let (element_tp, begin) ← expectType parse_datashape "expected a dynd type" begin
  if n.head?.any isDigit then
    let size ← checked_string_to_intptr n
    return some (.fixed_dim (size_t size) element_tp, begin)
  else
    other rbegin

def parse_datashape_nooption (rbegin : List UInt8) : Except exception (Option (MakeType T × List UInt8)) :=
  match parse_name_or_number (skip_whitespace_and_pound_comments rbegin) with
  | some (n, begin) =>
    if (parse_token_ds (str "**") begin).isSome then other rbegin
    else
      match parse_token_ds [ch '*'] begin with
      | some begin => parse_dim parse_datashape other rbegin n begin
      | none =>
        if (parse_token_ds (str "...") begin).isSome || (parse_token_ds [ch '|'] begin).isSome then other rbegin
        else parse_named lib parse_datashape other rbegin n begin
  | none =>
    -- an unnamed ellipsis, a struct, a tuple or a function prototype
    if (parse_token_ds (str "...") rbegin).isSome || (parse_token_ds [ch '\x7b'] rbegin).isSome ||
        (parse_token_ds [ch '('] rbegin).isSome then
      other rbegin
    else .ok none

end

/-! ## Gaps -/

/-- What is skipped before a token. -/
def blankStart (c : UInt8) : Bool := isspace c || c = ch '#'

/-- Whitespace and comments: a text that is skipped whatever follows it. -/
def Gap := {w : List UInt8 // ∀ s, skip_whitespace_and_pound_comments (w ++ s) = skip_whitespace_and_pound_comments s}

def Gap.whitespace (w : List UInt8) (hw : Ws w) : Gap :=
  ⟨w, fun s => by
    induction w with
    | nil => rfl
    | cons c w ih =>
      rw [List.cons_append, skip_whitespace_and_pound_comments, if_pos (hw c List.mem_cons_self)]
      exact ih fun d hd => hw d (List.mem_cons_of_mem _ hd)⟩

theorem skipLine_eq {w : List UInt8} (hw : ch '\n' ∉ w) (s : List UInt8) :
    skipLine (w ++ ch '\n' :: s) = skip_whitespace_and_pound_comments s := by
  induction w with
  | nil => rw [List.nil_append, skipLine, if_pos rfl]
  | cons c w ih =>
    rw [List.mem_cons, not_or] at hw
    rw [List.cons_append, skipLine, if_neg (Ne.symm hw.1), ih hw.2]

/-- A comment and its line end. -/
def Gap.comment (w : List UInt8) (hw : ch '\n' ∉ w) : Gap :=
  ⟨ch '#' :: (w ++ [ch '\n']), fun s => by
    rw [List.cons_append, skip_whitespace_and_pound_comments, if_neg (by decide), if_pos rfl, List.append_assoc,
      List.singleton_append, skipLine_eq hw]⟩

/-- One gap after another. -/
def Gap.append (g h : Gap) : Gap :=
  ⟨g.1 ++ h.1, fun s => by rw [List.append_assoc, g.2, h.2]⟩

theorem skip_stops {s : List UInt8} (hs : Stops blankStart s) : skip_whitespace_and_pound_comments s = s := by
  cases s with
  | nil => rw [skip_whitespace_and_pound_comments]
  | cons c s =>
    obtain ⟨h1, h2⟩ := Bool.or_eq_false_iff.1 (hs c s rfl)
    rw [skip_whitespace_and_pound_comments, if_neg (by simp [h1]), if_neg (of_decide_eq_false h2)]

theorem skip_gap (g : Gap) {s : List UInt8} (hs : Stops blankStart s) : skip_whitespace_and_pound_comments (g.1 ++ s) = s := by
  rw [g.2, skip_stops hs]

/-- What a gap starts with, no token does. -/
theorem gap_stops (g : Gap) {p : UInt8 → Bool} (hp : ∀ c, blankStart c = true → p c = false) {s : List UInt8}
    (hs : Stops p s) : Stops p (g.1 ++ s) := by
  cases hg : g.1 with
  | nil => exact hs
  | cons c w =>
    rw [List.cons_append, stops_cons]
    by_contra hc
    have hb : blankStart c = false := by
      by_contra h
      exact hc (hp c (by simpa using h))
    have := g.2 []
    rw [hg, List.cons_append, skip_stops (by simpa using hb), skip_stops (stops_nil _)] at this
    cases this

theorem blankStart_mem {c : UInt8} (h : blankStart c = true) : c ∈ [ch ' ', 9, 10, 11, 12, 13, ch '#'] := by
  simp only [blankStart, isspace, Bool.or_eq_true, Bool.and_eq_true, decide_eq_true_eq, UInt8.le_iff_toNat_le] at h
  obtain (rfl | ⟨h1, h2⟩) | rfl := h
  · simp
  · have h9 : (9 : UInt8).toNat = 9 := rfl
    have h13 : (13 : UInt8).toNat = 13 := rfl
    obtain h | h | h | h | h : c.toNat = 9 ∨ c.toNat = 10 ∨ c.toNat = 11 ∨ c.toNat = 12 ∨ c.toNat = 13 := by omega
    all_goals
      rw [← UInt8.ofNat_toNat (x := c), h]
      simp
  · simp

theorem blankStart_not_digit (c : UInt8) (h : blankStart c = true) : isDigit c = false := by
  have hall : [ch ' ', 9, 10, 11, 12, 13, ch '#'].all (fun c => !isDigit c) = true := rfl
  simpa using List.all_eq_true.1 hall c (blankStart_mem h)

theorem blankStart_not_name (c : UInt8) (h : blankStart c = true) : nameChar c = false := by
  have hall : [ch ' ', 9, 10, 11, 12, 13, ch '#'].all (fun c => !nameChar c) = true := rfl
  simpa using List.all_eq_true.1 hall c (blankStart_mem h)

/-! ## Tokens after a gap -/

/-- A token starts with what no gap starts with. -/
def IsToken (token : List UInt8) : Prop := ∃ c t, token = c :: t ∧ blankStart c = false

theorem token_char {c : UInt8} (hc : blankStart c = false) : IsToken [c] := ⟨c, [], rfl, hc⟩

theorem token_gap (g : Gap) {token : List UInt8} (ht : IsToken token) (r : List UInt8) :
    parse_token_ds token (g.1 ++ (token ++ r)) = some r := by
  obtain ⟨c, t, rfl, hc⟩ := ht
  rw [parse_token_ds, skip_gap g (by simpa using hc), token_some]

theorem token_char_gap (g : Gap) {c : UInt8} (hc : blankStart c = false) (r : List UInt8) :
    parse_token_ds [c] (g.1 ++ c :: r) = some r :=
  token_gap g (token_char hc) r

theorem token_gap_ne (g : Gap) {c d : UInt8} (hd : blankStart d = false) (hne : c ≠ d) (token r : List UInt8) :
    parse_token_ds (c :: token) (g.1 ++ d :: r) = none := by
  rw [parse_token_ds, skip_gap g (by simpa using hd), token_none_cons hne]

theorem expect_gap (g : Gap) {token : List UInt8} (ht : IsToken token) (message : String) (r : List UInt8) :
    expect token message (g.1 ++ (token ++ r)) = .ok r := by
  rw [expect, token_gap g ht]

theorem expect_char (g : Gap) {c : UInt8} (hc : blankStart c = false) (message : String) (r : List UInt8) :
    expect [c] message (g.1 ++ c :: r) = .ok r :=
  expect_gap g (token_char hc) message r

/-! ## Digit strings -/

/-- A number of the grammar: at least one digit, and no leading zero. -/
def Number : List (Fin 10) → Prop
  | [] => False
  | [_] => True
  | d :: _ :: _ => d.val ≠ 0

theorem span_stops {p : UInt8 → Bool} {w r : List UInt8} (hw : ∀ c ∈ w, p c = true) (hr : Stops p r) :
    (w ++ r).takeWhile p = w ∧ (w ++ r).dropWhile p = r := by
  have hdrop : (w ++ r).dropWhile p = r := dropWhile_eq_iff.2 ⟨w, rfl, hw, hr⟩
  refine ⟨?_, hdrop⟩
  have := List.takeWhile_append_dropWhile (p := p) (l := w ++ r)
  rw [hdrop] at this
  exact List.append_cancel_right this

theorem isDigit_digitBytes (ds : List (Fin 10)) : ∀ c ∈ digitBytes ds, isDigit c = true := by
  intro c hc
  obtain ⟨d, -, rfl⟩ := List.mem_map.1 hc
  exact isDigit_digitByte d

theorem digitBytes_ne_nil {N : List (Fin 10)} (hN : Number N) : digitBytes N ≠ [] := by
  cases N with
  | nil => exact hN.elim
  | cons d ds => simp [digitBytes]

theorem digitByte_not_zero {d : Fin 10} (h : d.val ≠ 0) : (ch '1' ≤ digitByte d && digitByte d ≤ ch '9') = true := by
  revert d
  decide

theorem digitByte_zero {d : Fin 10} (h : d.val = 0) : digitByte d = ch '0' := by
  revert d
  decide

theorem unsigned_int_number {N : List (Fin 10)} (hN : Number N) {r : List UInt8} (hr : Stops isDigit r) :
    parse_unsigned_int_no_ws (digitBytes N ++ r) = some (digitBytes N, r) := by
  cases N with
  | nil => exact hN.elim
  | cons d ds =>
    obtain ⟨htake, hdrop⟩ := span_stops (isDigit_digitBytes ds) hr
    rw [digitBytes] at htake hdrop
    rw [digitBytes, List.map_cons, List.cons_append, parse_unsigned_int_no_ws.eq_def]
    by_cases h0 : d.val = 0
    · have hds : ds = [] := by
        cases ds with
        | nil => rfl
        | cons e es => exact absurd h0 hN
      subst hds
      rw [digitByte_zero h0]
      cases r with
      | nil => rfl
      | cons e r =>
        have he : isDigit e = false := by simpa using hr
        simp [he]
    · simp only [digitByte_not_zero h0, if_true, htake, hdrop]

theorem unsigned_int_other {c : UInt8} (hc : isDigit c = false) (r : List UInt8) :
    parse_unsigned_int_no_ws (c :: r) = none := by
  have h0 : (ch '0').toNat = 48 := rfl
  have h1 : (ch '1').toNat = 49 := rfl
  simp only [isDigit, Bool.and_eq_false_iff, decide_eq_false_iff_not, UInt8.le_iff_toNat_le] at hc
  rw [parse_unsigned_int_no_ws.eq_def]
  dsimp only
  rw [if_neg, if_neg]
  · rintro rfl
    revert hc
    decide
  · simp only [Bool.and_eq_true, decide_eq_true_eq, UInt8.le_iff_toNat_le]
    omega

theorem unsigned_int_none {N : List (Fin 10)} (hN : ¬ Number N) {c : UInt8} (hc : isDigit c = false) (g : Gap)
    (r : List UInt8) : parse_unsigned_int_no_ws (digitBytes N ++ (g.1 ++ c :: r)) = none := by
  match N, hN with
  | [], _ =>
    cases hs : g.1 ++ c :: r with
    | nil => exact absurd hs (by simp)
    | cons d s =>
      have hd := gap_stops g blankStart_not_digit (s := c :: r) (by simpa using hc)
      rw [hs, stops_cons] at hd
      exact unsigned_int_other hd s
  | [_], hN => exact absurd trivial hN
  | d :: e :: es, hN =>
    have h0 : d.val = 0 := by simpa [Number] using hN
    have h1 : ¬ (ch '1' ≤ ch '0') := by decide
    rw [digitBytes, List.map_cons, List.map_cons, digitByte_zero h0]
    simp [parse_unsigned_int_no_ws, h1]

theorem digitByte_not_blank (d : Fin 10) : blankStart (digitByte d) = false := by
  revert d
  decide

theorem digitByte_not_name (d : Fin 10) : nameStart (digitByte d) = false := by
  revert d
  decide

/-- Digits, if any, are where a gap ends. -/
theorem skip_digits (g h : Gap) (N : List (Fin 10)) {c : UInt8} (hc : blankStart c = false) (r : List UInt8) :
    skip_whitespace_and_pound_comments (g.1 ++ (digitBytes N ++ (h.1 ++ c :: r))) =
      digitBytes N ++ (if N = [] then c :: r else h.1 ++ c :: r) := by
  cases N with
  | nil =>
    rw [g.2, digitBytes, List.map_nil, List.nil_append, skip_gap h (by simpa using hc), if_pos rfl, List.nil_append]
  | cons d ds =>
    have hd : Stops blankStart (digitBytes (d :: ds) ++ (h.1 ++ c :: r)) := by
      rw [digitBytes, List.map_cons, List.cons_append, stops_cons]
      exact digitByte_not_blank d
    rw [skip_gap g hd, if_neg (by simp)]

theorem parse_number_of {N : List (Fin 10)} (hN : Number N) (g h : Gap) {c : UInt8} (hc : blankStart c = false)
    (hd : isDigit c = false) (r : List UInt8) :
    parse_number (g.1 ++ (digitBytes N ++ (h.1 ++ c :: r))) = (digitBytes N, h.1 ++ c :: r) := by
  have hne : N ≠ [] := by
    rintro rfl
    exact hN
  have hs : Stops isDigit (h.1 ++ c :: r) := gap_stops h blankStart_not_digit (by simpa using hd)
  rw [parse_number, skip_digits g h N hc, if_neg hne, unsigned_int_number hN hs]

theorem parse_number_none {N : List (Fin 10)} (hN : ¬ Number N) (g h : Gap) {c : UInt8} (hc : blankStart c = false)
    (hd : isDigit c = false) (r : List UInt8) :
    (parse_number (g.1 ++ (digitBytes N ++ (h.1 ++ c :: r)))).1 = [] := by
  have hnone : parse_unsigned_int_no_ws (digitBytes N ++ (if N = [] then c :: r else h.1 ++ c :: r)) = none := by
    split_ifs
    · exact unsigned_int_none hN hd (.whitespace [] (by simp [Ws])) r
    · exact unsigned_int_none hN hd h r
  rw [parse_number, skip_digits g h N hc, hnone]

/-- No token but a digit stands where digits stand. -/
theorem token_digits (g h : Gap) (N : List (Fin 10)) {c d : UInt8} (hc : blankStart c = false) (hne : d ≠ c)
    (hd : isDigit d = false) (token r : List UInt8) :
    parse_token_ds (d :: token) (g.1 ++ (digitBytes N ++ (h.1 ++ c :: r))) = none := by
  rw [parse_token_ds, skip_digits g h N hc]
  cases N with
  | nil => exact token_none_cons hne _ _
  | cons e es =>
    refine token_none_cons ?_ _ _
    rintro rfl
    rw [isDigit_digitByte] at hd
    cases hd

/-! ## Names -/

def IsName (n : List UInt8) : Prop := ∃ c t, n = c :: t ∧ nameStart c = true ∧ ∀ d ∈ t, nameChar d = true

theorem blankStart_of_name {c : UInt8} (h : nameStart c = true) : blankStart c = false := by
  by_contra hb
  have := blankStart_not_name c (by simpa using hb)
  rw [nameChar, h] at this
  cases this

theorem name_or_number_name {n : List UInt8} (hn : IsName n) (g h : Gap) {c : UInt8} (hc : nameChar c = false)
    (r : List UInt8) :
    parse_name_or_number (skip_whitespace_and_pound_comments (g.1 ++ (n ++ (h.1 ++ c :: r)))) =
      some (n, h.1 ++ c :: r) := by
  obtain ⟨d, t, rfl, hd, ht⟩ := hn
  have hs : Stops blankStart (d :: t ++ (h.1 ++ c :: r)) := by
    rw [List.cons_append, stops_cons]
    exact blankStart_of_name hd
  obtain ⟨htake, hdrop⟩ := span_stops ht (gap_stops h blankStart_not_name (s := c :: r) (by simpa using hc))
  rw [skip_gap g hs, parse_name_or_number, List.cons_append, parse_name_no_ws, if_pos hd, htake, hdrop]

/-- Where digits stand, no name does. -/
theorem name_or_number_digits (g h : Gap) (N : List (Fin 10)) {c : UInt8} (hc : blankStart c = false)
    (hn : nameStart c = false) (r : List UInt8) :
    parse_name_or_number (skip_whitespace_and_pound_comments (g.1 ++ (digitBytes N ++ (h.1 ++ c :: r)))) =
      parse_unsigned_int_no_ws (digitBytes N ++ (if N = [] then c :: r else h.1 ++ c :: r)) := by
  rw [skip_digits g h N hc, parse_name_or_number]
  cases N with
  | nil => simp [digitBytes, parse_name_no_ws, hn]
  | cons d ds => simp [digitBytes, parse_name_no_ws, digitByte_not_name d]

/-! ## The conversions -/

theorem takeMinus_digits (N : List (Fin 10)) : takeMinus (digitBytes N) = (false, digitBytes N) := by
  cases N with
  | nil => rfl
  | cons d ds =>
    have hd : digitByte d ≠ ch '-' := by
      revert d
      decide
    rw [digitBytes, List.map_cons, takeMinus, if_neg hd]

/-- The checked parse reads what fits as it is. -/
theorem checked_string_to_intptr_digits {N : List (Fin 10)} (hne : N ≠ []) (hN : digitsValue N < 2 ^ 63) :
    checked_string_to_intptr (digitBytes N) = .ok (digitsValue N) := by
  let t : UIntText := ⟨N, hne, .none⟩
  have hbytes : t.bytes = digitBytes N := List.append_nil _
  have hvalue : t.value = digitsValue N := Nat.mul_one _
  obtain ⟨hbad, hval, -⟩ := (checked_exact_iff t).1.2 (.inl (by omega))
  rw [hbytes, hvalue] at hval
  rw [hbytes] at hbad
  obtain ⟨hov, hv⟩ := hval (by omega)
  have hv' : (checked_string_to_uint64 (digitBytes N) false false).value.toNat = digitsValue N := hv
  have hlt : is_overflow .int64 (digitsValue N) false = false := by
    have : ¬ (2 ^ (int_type_id.int64.bits - 1) ≤ digitsValue N) := not_le.2 hN
    rw [is_overflow, if_pos (by rfl), decide_eq_false this, Bool.false_and]
  rw [checked_string_to_intptr, takeMinus_digits]
  simp only [hov, hv', hlt, hbad, Bool.or_self, Bool.false_eq_true, if_false]

/-! ## The texts of the productions -/

section
variable {T : Type} (lib : CLibrary) (parse_datashape : List UInt8 → Except exception (Option (T × List UInt8)))
  (other : List UInt8 → Except exception (Option (MakeType T × List UInt8)))

/-- An element type as it stands in the text, with what it is parsed to. -/
structure Element where
  text : List UInt8
  tp : T
  rest : List UInt8
  parsed : parse_datashape text = .ok (some (tp, rest))
  not_star : Stops (· = ch '*') text

/-- The places a size is read from. The other number of `fixed_bytes` is a
number of the grammar. -/
inductive Production where
  /-- `N * T` -/
  | dim
  /-- `fixed[N] * T` -/
  | fixed
  /-- `fixed_string[N]` -/
  | fixed_string
  /-- `bytes[align=N]` -/
  | bytes
  /-- `fixed_bytes[N]` -/
  | fixed_bytes
  /-- `fixed_bytes[N, align=A]` -/
  | fixed_bytes_size (align : {A // Number A})
  /-- `fixed_bytes[S, align=N]` -/
  | fixed_bytes_align (size : {S // Number S})

/-- The digits between two gaps. -/
def sized (g h : Gap) (N : List (Fin 10)) (tail : List UInt8) : List UInt8 := g.1 ++ (digitBytes N ++ (h.1 ++ tail))

def bracketed (g : ℕ → Gap) (name : String) (inner : List UInt8) : List UInt8 :=
  (g 0).1 ++ (str name ++ ((g 1).1 ++ ch '[' :: inner))

/-- `align=`. -/
def aligned (g h : Gap) (tail : List UInt8) : List UInt8 := g.1 ++ (str "align" ++ (h.1 ++ ch '=' :: tail))

variable {parse_datashape}

/-- The text with the digits `N` where the production reads its size. `rest` is what follows it. -/
def Production.text (g : ℕ → Gap) (el : Element parse_datashape) (rest : List UInt8) (N : List (Fin 10)) :
    Production → List UInt8
  | dim => sized (g 0) (g 1) N (ch '*' :: el.text)
  | fixed => bracketed g "fixed" (sized (g 2) (g 3) N (ch ']' :: ((g 4).1 ++ ch '*' :: el.text)))
  | fixed_string => bracketed g "fixed_string" (sized (g 2) (g 3) N (ch ']' :: rest))
  | bytes => bracketed g "bytes" (aligned (g 2) (g 3) (sized (g 4) (g 5) N (ch ']' :: rest)))
  | fixed_bytes => bracketed g "fixed_bytes" (sized (g 2) (g 3) N (ch ']' :: rest))
  | fixed_bytes_size align =>
    bracketed g "fixed_bytes"
      (sized (g 2) (g 3) N (ch ',' :: aligned (g 4) (g 5) (sized (g 6) (g 7) align.1 (ch ']' :: rest))))
  | fixed_bytes_align size =>
    bracketed g "fixed_bytes"
      (sized (g 2) (g 3) size.1 (ch ',' :: aligned (g 4) (g 5) (sized (g 6) (g 7) N (ch ']' :: rest))))

/-- What the production does with the size once it is an integer. -/
def Production.build (g : ℕ → Gap) (el : Element parse_datashape) (rest : List UInt8) (N : List (Fin 10)) (z : ℤ) :
    Production → Except exception (Option (MakeType T × List UInt8))
  | dim | fixed => .ok (some (.fixed_dim (size_t z) el.tp, el.rest))
  | fixed_string =>
    if z = 0 then
      .error (.datashape_parse_error (sized (g 2) (g 3) N (ch ']' :: rest)) "string size cannot be zero")
    else .ok (some (.fixed_string z .utf_8, rest))
  | bytes => .ok (some (.bytes (size_t z), rest))
  | fixed_bytes => .ok (some (.fixed_bytes z 1, rest))
  | fixed_bytes_size align => .ok (some (.fixed_bytes z (lib.atoi (digitBytes align.1)), rest))
  | fixed_bytes_align size => .ok (some (.fixed_bytes (lib.atoi (digitBytes size.1)) z, rest))

/-- The routine that converts the digits. -/
def Production.convert (s : List UInt8) : Production → Except exception ℤ
  | dim => checked_string_to_intptr s
  | fixed => .ok (lib.atoll s)
  | _ => .ok (lib.atoi s)

theorem nooption_named {name : String} (hname : IsName (str name)) (g : ℕ → Gap) (inner : List UInt8) :
    parse_datashape_nooption lib parse_datashape other (bracketed g name inner) =
      parse_named lib parse_datashape other (bracketed g name inner) (str name) ((g 1).1 ++ ch '[' :: inner) := by
  have hno : ∀ c : UInt8, c ≠ ch '[' → ∀ t, parse_token_ds (c :: t) ((g 1).1 ++ ch '[' :: inner) = none :=
    fun c hc t => token_gap_ne (g 1) (by decide) hc t inner
  have hpow : parse_token_ds (str "**") ((g 1).1 ++ ch '[' :: inner) = none := hno (ch '*') (by decide) [ch '*']
  have hdots : parse_token_ds (str "...") ((g 1).1 ++ ch '[' :: inner) = none :=
    hno (ch '.') (by decide) [ch '.', ch '.']
  rw [parse_datashape_nooption, bracketed, name_or_number_name hname (g 0) (g 1) (by decide)]
  simp only [hpow, hno (ch '*') (by decide), hdots, hno (ch '|') (by decide), Option.isSome_none, Bool.or_self,
    Bool.false_eq_true, if_false]

theorem parse_size {N : List (Fin 10)} (hN : Number N) (g h : Gap) {c : UInt8} (hc : blankStart c = false)
    (hd : isDigit c = false) (r : List UInt8) : parse_number (sized g h N (c :: r)) = (digitBytes N, h.1 ++ c :: r) :=
  parse_number_of hN g h hc hd r

theorem expect_size {N : List (Fin 10)} (hN : Number N) (g h : Gap) {c : UInt8} (hc : blankStart c = false)
    (hd : isDigit c = false) (message : String) (r : List UInt8) :
    expectNumber message (sized g h N (c :: r)) = .ok (digitBytes N, h.1 ++ c :: r) := by
  rw [expectNumber, parse_size hN g h hc hd, if_neg (digitBytes_ne_nil hN)]

theorem expect_size_none {N : List (Fin 10)} (hN : ¬ Number N) (g h : Gap) {c : UInt8} (hc : blankStart c = false)
    (hd : isDigit c = false) (message : String) (r : List UInt8) :
    expectNumber message (sized g h N (c :: r)) = .error (.datashape_parse_error (sized g h N (c :: r)) message) := by
  rw [expectNumber, if_pos]
  exact parse_number_none hN g h hc hd r

theorem expectType_element (el : Element parse_datashape) (message : String) :
    expectType parse_datashape message el.text = .ok (el.tp, el.rest) := by
  rw [expectType, el.parsed]
  rfl

/-! ## What each production reads -/

theorem nooption_fixed (g : ℕ → Gap) (inner : List UInt8) :
    parse_datashape_nooption lib parse_datashape other (bracketed g "fixed" inner) =
      some <$> parse_fixed_dim_parameters lib parse_datashape ((g 1).1 ++ ch '[' :: inner) := by
  rw [nooption_named lib other ⟨_, _, rfl, rfl, List.all_eq_true.1 rfl⟩, parse_named, if_neg (by decide),
    if_neg (by decide), if_neg (by decide), if_pos rfl]

theorem nooption_fixed_string (g : ℕ → Gap) (inner : List UInt8) :
    parse_datashape_nooption lib parse_datashape other (bracketed g "fixed_string" inner) =
      some <$> parse_fixed_string_parameters lib ((g 1).1 ++ ch '[' :: inner) := by
  rw [nooption_named lib other ⟨_, _, rfl, rfl, List.all_eq_true.1 rfl⟩, parse_named, if_pos rfl]

theorem nooption_bytes (g : ℕ → Gap) (inner : List UInt8) :
    parse_datashape_nooption lib parse_datashape other (bracketed g "bytes" inner) =
      some <$> parse_bytes_parameters lib ((g 1).1 ++ ch '[' :: inner) := by
  rw [nooption_named lib other ⟨_, _, rfl, rfl, List.all_eq_true.1 rfl⟩, parse_named, if_neg (by decide), if_pos rfl]

theorem nooption_fixed_bytes (g : ℕ → Gap) (inner : List UInt8) :
    parse_datashape_nooption lib parse_datashape other (bracketed g "fixed_bytes" inner) =
      some <$> parse_fixed_bytes_parameters lib ((g 1).1 ++ ch '[' :: inner) := by
  rw [nooption_named lib other ⟨_, _, rfl, rfl, List.all_eq_true.1 rfl⟩, parse_named, if_neg (by decide),
    if_neg (by decide), if_pos rfl]

theorem isToken_align : IsToken (str "align") := ⟨_, _, rfl, by decide⟩

/-- `fixed_bytes` after its size. -/
theorem fixed_bytes_aligned {S : List (Fin 10)} (hS : Number S) (g : ℕ → Gap) (tail : List UInt8) :
    (parse_fixed_bytes_parameters lib ((g 1).1 ++ ch '[' :: sized (g 2) (g 3) S (ch ',' :: aligned (g 4) (g 5) tail)) :
      Except exception (MakeType T × List UInt8)) = do
      let (align_val, begin) ← expectNumber "expected an integer" tail
      let begin ← expect [ch ']'] "expected closing ']'" begin
      return (.fixed_bytes (lib.atoi (digitBytes S)) (lib.atoi align_val), begin) := by
  rw [parse_fixed_bytes_parameters, expect_char (g 1) (by decide), ok_bind,
    expect_size hS (g 2) (g 3) (by decide) (by decide), ok_bind]
  dsimp only
  rw [token_gap_ne (g 3) (by decide) (by decide)]
  dsimp only
  rw [expect_char (g 3) (by decide), ok_bind, aligned, expect_gap (g 4) isToken_align, ok_bind,
    expect_char (g 5) (by decide), ok_bind]

/-- One asterisk is not the power's two. -/
theorem token_power (g : Gap) {s : List UInt8} (hs : Stops (· = ch '*') s) :
    parse_token_ds (str "**") (g.1 ++ ch '*' :: s) = none := by
  have hstar : Stops blankStart (ch '*' :: s) := stops_cons.2 (by decide)
  rw [parse_token_ds, skip_gap g hstar]
  refine token_none fun r he => ?_
  have := hs (ch '*') r (List.cons.inj he).2
  exact absurd rfl (of_decide_eq_false this)

theorem nooption_dim (g : ℕ → Gap) (el : Element parse_datashape) {N : List (Fin 10)} (hN : Number N) :
    parse_datashape_nooption lib parse_datashape other (sized (g 0) (g 1) N (ch '*' :: el.text)) =
      checked_string_to_intptr (digitBytes N) >>= fun z => .ok (some (.fixed_dim (size_t z) el.tp, el.rest)) := by
  have hne : N ≠ [] := by
    rintro rfl
    exact hN
  have hstop : Stops isDigit ((g 1).1 ++ ch '*' :: el.text) :=
    gap_stops (g 1) blankStart_not_digit (stops_cons.2 (by decide))
  have hdigit : (digitBytes N).head?.any isDigit = true := by
    cases N with
    | nil => exact absurd rfl hne
    | cons d ds => exact isDigit_digitByte d
  rw [parse_datashape_nooption, sized, name_or_number_digits (g 0) (g 1) N (by decide) (by decide), if_neg hne,
    unsigned_int_number hN hstop]
  dsimp only
  rw [token_power (g 1) el.not_star, Option.isSome_none, if_neg Bool.false_ne_true, token_char_gap (g 1) (by decide)]
  dsimp only
  rw [parse_dim, expectType_element, ok_bind]
  dsimp only
  rw [if_pos hdigit]
  rfl

/-- A production reads its digits with its routine, and goes on with the integer. -/
theorem parse_text (g : ℕ → Gap) (el : Element parse_datashape) (rest : List UInt8) {N : List (Fin 10)} (hN : Number N)
    (p : Production) :
    parse_datashape_nooption lib parse_datashape other (p.text g el rest N) =
      p.convert lib (digitBytes N) >>= fun z => p.build lib g el rest N z := by
  cases p with
  | dim => exact nooption_dim lib other g el hN
  | fixed =>
    rw [Production.text, nooption_fixed, parse_fixed_dim_parameters, expect_char (g 1) (by decide),
      ok_bind, expect_size hN (g 2) (g 3) (by decide) (by decide), ok_bind]
    dsimp only
    rw [expect_char (g 3) (by decide), ok_bind, expect_char (g 4) (by decide), ok_bind, expectType_element, ok_bind]
    rfl
  | fixed_string =>
    have hne : digitBytes N ≠ [] := digitBytes_ne_nil hN
    rw [Production.text, nooption_fixed_string, parse_fixed_string_parameters, expect_char (g 1) (by decide), ok_bind,
      parse_size hN (g 2) (g 3) (by decide) (by decide)]
    dsimp only
    rw [if_pos hne, token_gap_ne (g 3) (by decide) (by decide)]
    simp only [Production.convert, Production.build, ok_bind]
    split_ifs with h0
    · rfl
    · simp only [expect_char (g 3) (c := ch ']') (by decide), ok_bind, pure_eq_ok, map_ok]
  | bytes =>
    rw [Production.text, nooption_bytes, parse_bytes_parameters, token_char_gap (g 1) (by decide)]
    dsimp only
    rw [aligned, expect_gap (g 2) isToken_align, ok_bind, expect_char (g 3) (by decide), ok_bind,
      expect_size hN (g 4) (g 5) (by decide) (by decide), ok_bind]
    dsimp only
    rw [expect_char (g 5) (by decide)]
    rfl
  | fixed_bytes =>
    rw [Production.text, nooption_fixed_bytes, parse_fixed_bytes_parameters, expect_char (g 1) (by decide), ok_bind,
      expect_size hN (g 2) (g 3) (by decide) (by decide), ok_bind]
    dsimp only
    rw [token_char_gap (g 3) (by decide)]
    rfl
  | fixed_bytes_size align =>
    rw [Production.text, nooption_fixed_bytes, fixed_bytes_aligned lib hN,
      expect_size align.2 (g 6) (g 7) (by decide) (by decide), ok_bind]
    dsimp only
    rw [expect_char (g 7) (by decide)]
    rfl
  | fixed_bytes_align size =>
    rw [Production.text, nooption_fixed_bytes, fixed_bytes_aligned lib size.2,
      expect_size hN (g 6) (g 7) (by decide) (by decide), ok_bind]
    dsimp only
    rw [expect_char (g 7) (by decide)]
    rfl

theorem nooption_dim_none (g : ℕ → Gap) (s : List UInt8) {N : List (Fin 10)} (hN : ¬ Number N) :
    parse_datashape_nooption lib parse_datashape other (sized (g 0) (g 1) N (ch '*' :: s)) = .ok none := by
  have hnone : parse_unsigned_int_no_ws (digitBytes N ++ (if N = [] then ch '*' :: s else (g 1).1 ++ ch '*' :: s)) = none := by
    split_ifs
    · exact unsigned_int_none hN (by decide) (.whitespace [] (by simp [Ws])) s
    · exact unsigned_int_none hN (by decide) (g 1) s
  have hno : ∀ c : UInt8, c ≠ ch '*' → isDigit c = false → ∀ t,
      parse_token_ds (c :: t) ((g 0).1 ++ (digitBytes N ++ ((g 1).1 ++ ch '*' :: s))) = none :=
    fun c hc hd t => token_digits (g 0) (g 1) N (by decide) hc hd t s
  have hdots : parse_token_ds (str "...") ((g 0).1 ++ (digitBytes N ++ ((g 1).1 ++ ch '*' :: s))) = none :=
    hno (ch '.') (by decide) (by decide) [ch '.', ch '.']
  rw [parse_datashape_nooption, sized, name_or_number_digits (g 0) (g 1) N (by decide) (by decide), hnone]
  simp only [hdots, hno (ch '\x7b') (by decide) (by decide), hno (ch '(') (by decide) (by decide), Option.isSome_none,
    Bool.or_self, Bool.false_eq_true, if_false]

theorem parse_quoted_string_digits (g h : Gap) (N : List (Fin 10)) (r : List UInt8) :
    parse_quoted_string (sized g h N (ch ']' :: r)) = .ok none := by
  rw [parse_quoted_string, sized, token_digits g h N (by decide) (by decide) (by decide)]
  dsimp only
  rw [token_digits g h N (by decide) (by decide) (by decide)]

/-- Digits that are no number are in no production. -/
theorem parse_text_rejects (g : ℕ → Gap) (el : Element parse_datashape) (rest : List UInt8) {N : List (Fin 10)}
    (hN : ¬ Number N) (p : Production) (r : MakeType T × List UInt8) :
    parse_datashape_nooption lib parse_datashape other (p.text g el rest N) ≠ .ok (some r) := by
  cases p with
  | dim =>
    rw [Production.text, nooption_dim_none lib other g _ hN]
    simp
  | fixed =>
    rw [Production.text, nooption_fixed, parse_fixed_dim_parameters, expect_char (g 1) (by decide), ok_bind,
      expect_size_none hN (g 2) (g 3) (by decide) (by decide)]
    simp
  | fixed_string =>
    have hnone : (parse_number (sized (g 2) (g 3) N (ch ']' :: rest))).1 = [] :=
      parse_number_none hN (g 2) (g 3) (by decide) (by decide) rest
    rw [Production.text, nooption_fixed_string, parse_fixed_string_parameters, expect_char (g 1) (by decide), ok_bind]
    dsimp only
    rw [hnone, if_neg (by simp), parse_quoted_string_digits]
    simp
  | bytes =>
    rw [Production.text, nooption_bytes, parse_bytes_parameters, token_char_gap (g 1) (by decide)]
    dsimp only
    rw [aligned, expect_gap (g 2) isToken_align, ok_bind, expect_char (g 3) (by decide), ok_bind,
      expect_size_none hN (g 4) (g 5) (by decide) (by decide)]
    simp
  | fixed_bytes =>
    rw [Production.text, nooption_fixed_bytes, parse_fixed_bytes_parameters, expect_char (g 1) (by decide), ok_bind,
      expect_size_none hN (g 2) (g 3) (by decide) (by decide)]
    simp
  | fixed_bytes_size align =>
    rw [Production.text, nooption_fixed_bytes, parse_fixed_bytes_parameters, expect_char (g 1) (by decide), ok_bind,
      expect_size_none hN (g 2) (g 3) (by decide) (by decide)]
    simp
  | fixed_bytes_align size =>
    rw [Production.text, nooption_fixed_bytes, fixed_bytes_aligned lib size.2,
      expect_size_none hN (g 6) (g 7) (by decide) (by decide)]
    simp

/-! ## When the sizes agree -/

/-- The production, given the digits `N`, does what it does with the integer `z`. -/
def Reads (g : ℕ → Gap) (el : Element parse_datashape) (rest : List UInt8) (N : List (Fin 10)) (p : Production) (z : ℤ) :
    Prop :=
  parse_datashape_nooption lib parse_datashape other (p.text g el rest N) = p.build lib g el rest N z

/-- No type is made: an exception, or a null type. -/
def Rejects (g : ℕ → Gap) (el : Element parse_datashape) (rest : List UInt8) (N : List (Fin 10)) (p : Production) : Prop :=
  ∀ r, parse_datashape_nooption lib parse_datashape other (p.text g el rest N) ≠ .ok (some r)

theorem convert_exact {N : List (Fin 10)} (hN : Number N) (hlt : digitsValue N < 2 ^ 31) (p : Production) :
    p.convert lib (digitBytes N) = .ok (digitsValue N : ℤ) := by
  have hne : N ≠ [] := by
    rintro rfl
    exact hN
  cases p with
  | dim => exact checked_string_to_intptr_digits hne (by omega)
  | fixed => exact congrArg Except.ok (lib.atoll_digits N (by omega))
  | _ => exact congrArg Except.ok (lib.atoi_digits N hlt)

/-- All the productions read a digit string as its integer, or all reject it,
when the integer is below `2 ^ 31` or the digits are no number of the grammar;
and for no other. -/
theorem sizes_agree_iff (g : ℕ → Gap) (el : Element parse_datashape) (rest : List UInt8) (N : List (Fin 10)) :
    ((∀ p, Reads lib other g el rest N p (digitsValue N)) ∨ (∀ p, Rejects lib other g el rest N p)) ↔
      digitsValue N < 2 ^ 31 ∨ ¬ Number N := by
  by_cases hN : Number N
  · constructor
    · rintro (h | h)
      · have hb := h .fixed_bytes
        rw [Reads, parse_text lib other g el rest hN] at hb
        simp only [Production.convert, Production.build, ok_bind, Except.ok.injEq, Option.some.injEq, Prod.mk.injEq,
          MakeType.fixed_bytes.injEq, and_true] at hb
        have := (lib.atoi_range (digitBytes N)).2
        left
        omega
      · have hf := h .fixed
        simp only [Rejects, parse_text lib other g el rest hN, Production.convert, Production.build, ok_bind] at hf
        exact absurd rfl (hf _)
    · rintro (hlt | h)
      · left
        intro p
        rw [Reads, parse_text lib other g el rest hN, convert_exact lib hN hlt, ok_bind]
      · exact absurd hN h
  · constructor
    · exact fun _ => .inr hN
    · exact fun _ => .inr (parse_text_rejects lib other g el rest hN)

end

/-! ## A size that wraps -/

/-- The datashape `int32`. -/
def parse_int32 (begin : List UInt8) : Except exception (Option (Unit × List UInt8)) :=
  .ok ((parse_token_ds (str "int32") begin).map fun r => ((), r))

def int32Element : Element parse_int32 := ⟨str " int32", (), [], by decide, stops_cons.2 (by decide)⟩

def noOther : List UInt8 → Except exception (Option (MakeType Unit × List UInt8)) := fun _ => .ok none

def noGap : ℕ → Gap := fun _ => .whitespace [] (by simp [Ws])

/-- `fixed_string[4294967297]` is a string of size one, where `4294967297 * int32`
has the size that is written. -/
theorem size_wraps :
    parse_datashape_nooption glibc parse_int32 noOther (str "fixed_string[4294967297]") =
      .ok (some (.fixed_string 1 .utf_8, [])) ∧
    parse_datashape_nooption glibc parse_int32 noOther (str "4294967297 * int32") =
      .ok (some (.fixed_dim 4294967297 (), [])) ∧
    ¬ ∀ N, (∀ p, Reads glibc noOther noGap int32Element [] N p (digitsValue N)) ∨
      (∀ p, Rejects glibc noOther noGap int32Element [] N p) := by
  let N : List (Fin 10) := [4, 2, 9, 4, 9, 6, 7, 2, 9, 7]
  have hN : Number N := by
    change (4 : Fin 10).val ≠ 0
    decide
  have hvalue : digitsValue N = 4294967297 := by rfl
  have hatoi : glibc.atoi (digitBytes N) = 1 := by
    have hlong : strtol (digitBytes N) = 4294967297 := by
      rw [strtol_digits, hvalue]
      norm_num
    rw [glibc_atoi, atoi, hlong]
    decide
  have hstring : parse_datashape_nooption glibc parse_int32 noOther (str "fixed_string[4294967297]") =
      .ok (some (.fixed_string 1 .utf_8, [])) := by
    have := parse_text glibc noOther noGap int32Element [] hN .fixed_string
    simp only [Production.convert, hatoi, ok_bind] at this
    exact this
  refine ⟨hstring, ?_, fun h => ?_⟩
  · have hspace : Ws (str " ") := by simp [Ws, str, isspace]
    have := parse_text glibc noOther (fun i => if i = 1 then .whitespace (str " ") hspace else noGap i) int32Element [] hN .dim
    simp only [Production.convert, checked_string_to_intptr_digits (N := N) (by simp [N]) (by rw [hvalue]; norm_num), hvalue,
      ok_bind] at this
    exact this
  · obtain h | h := h N
    · have hread : _ = _ := h .fixed_string
      rw [hvalue] at hread
      have := hstring.symm.trans hread
      simp [Production.build] at this
    · exact absurd hstring (h .fixed_string _)

end Dynd.Datashape
