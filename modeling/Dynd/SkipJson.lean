import Dynd.ParserUtil
/-!
# Validating and skipping JSON

`skip_json_value` is a recursive scanner for one JSON value, and
`validate_json` is the scanner followed by the end of the text. Both are
matched against the grammar of JSON, at every nesting depth.
-/
namespace Dynd.Json
open Lib Parse

/-! ## The scanner -/

/-- `if (!…) { throw … }` -/
def expect {α : Type} (o : Option α) (e : parse_error) : Except parse_error α :=
  match o with
  | some a => .ok a
  | none => .error e

@[simp] theorem expect_some {α : Type} (a : α) (e : parse_error) : expect (some a) e = .ok a := rfl

@[simp] theorem expect_none {α : Type} (e : parse_error) : expect (none : Option α) e = .error e := rfl

def trueToken : List UInt8 := [ch 't', ch 'r', ch 'u', ch 'e']
def falseToken : List UInt8 := [ch 'f', ch 'a', ch 'l', ch 's', ch 'e']
def nullToken : List UInt8 := [ch 'n', ch 'u', ch 'l', ch 'l']

mutual

/-- One value. The fuel counts the calls nested in each other. -/
def skipValue : ℕ → List UInt8 → Except parse_error (List UInt8)
  | 0, begin => .error ⟨begin, "out of fuel"⟩
  | n + 1, begin =>
    match skip_whitespace begin with
    | [] => .error ⟨[], "malformed JSON, expecting an element"⟩
    | c :: s =>
      if c = ch '{' then
        match parse_token [ch '}'] s with
        | some r => .ok r
        | none => skipMembers n s
      else if c = ch '[' then
        match parse_token [ch ']'] s with
        | some r => .ok r
        | none => skipElements n s
      else if c = ch '"' then do
        let q ← expect (← parse_doublequote_string_no_ws (c :: s)) ⟨c :: s, "invalid string"⟩
        return q.rest
      else if c = ch 't' then
        expect (parse_token trueToken (c :: s)) ⟨c :: s, "invalid json value"⟩
      else if c = ch 'f' then
        expect (parse_token falseToken (c :: s)) ⟨c :: s, "invalid json value"⟩
      else if c = ch 'n' then
        expect (parse_token nullToken (c :: s)) ⟨c :: s, "invalid json value"⟩
      else if c = ch '-' || isDigit c then do
        let (_, r) ← expect (parse_json_number_no_ws (c :: s)) ⟨c :: s, "invalid number"⟩
        return r
      else
        .error ⟨c :: s, "invalid json value"⟩

/-- The loop of an object that is not empty, and its `}`. -/
def skipMembers : ℕ → List UInt8 → Except parse_error (List UInt8)
  | 0, begin => .error ⟨begin, "out of fuel"⟩
  | n + 1, begin => do
    let begin := skip_whitespace begin
    let q ← expect (← parse_doublequote_string_no_ws begin) ⟨begin, "expected string for name in object dict"⟩
    let begin ← expect (parse_token [ch ':'] q.rest)
      ⟨q.rest, "expected ':' separating name from value in object dict"⟩
    let begin ← skipValue n begin
    match parse_token [ch ','] begin with
    | some begin => skipMembers n begin
    | none => expect (parse_token [ch '}'] begin) ⟨begin, "expected object separator ',' or terminator '\x7d'"⟩

/-- The loop of an array that is not empty, and its `]`. -/
def skipElements : ℕ → List UInt8 → Except parse_error (List UInt8)
  | 0, begin => .error ⟨begin, "out of fuel"⟩
  | n + 1, begin => do
    let begin ← skipValue n begin
    match parse_token [ch ','] begin with
    | some begin => skipElements n begin
    | none => expect (parse_token [ch ']'] begin) ⟨begin, "expected array separator ',' or terminator ']'"⟩

end

/-- Each byte can open a value and the loop inside it. -/
def skip_json_value (begin : List UInt8) : Except parse_error (List UInt8) :=
  skipValue (2 * begin.length + 1) begin

/-- The error is then reported with its line and column. -/
def validate_json (json : List UInt8) : Except parse_error Unit := do
  let begin ← skip_json_value json
  let begin := skip_whitespace begin
  if begin ≠ [] then throw ⟨begin, "unexpected trailing JSON text"⟩

/-! ## The grammar -/

def quoted (b : List UInt8) : List UInt8 := ch '"' :: (b ++ [ch '"'])

mutual

inductive Value : List UInt8 → Prop where
  | true : Value trueToken
  | false : Value falseToken
  | null : Value nullToken
  | number {n : List UInt8} : JsonNumber n → Value n
  | string {b : List UInt8} : StringBody b → Value (quoted b)
  | emptyArray {w : List UInt8} : Ws w → Value (ch '[' :: (w ++ [ch ']']))
  | array {es : List UInt8} : Elements es → Value (ch '[' :: (es ++ [ch ']']))
  | emptyObject {w : List UInt8} : Ws w → Value (ch '{' :: (w ++ [ch '}']))
  | object {ms : List UInt8} : Members ms → Value (ch '{' :: (ms ++ [ch '}']))

/-- Values, each between whitespace, separated by commas. -/
inductive Elements : List UInt8 → Prop where
  | last {w v w' : List UInt8} : Ws w → Value v → Ws w' → Elements (w ++ (v ++ w'))
  | more {w v w' es : List UInt8} : Ws w → Value v → Ws w' → Elements es →
      Elements (w ++ (v ++ (w' ++ ch ',' :: es)))

/-- Names and values, with a colon between the two. -/
inductive Members : List UInt8 → Prop where
  | last {w b x y v w' : List UInt8} : Ws w → StringBody b → Ws x → Ws y → Value v → Ws w' →
      Members (w ++ (quoted b ++ (x ++ ch ':' :: (y ++ (v ++ w')))))
  | more {w b x y v w' ms : List UInt8} : Ws w → StringBody b → Ws x → Ws y → Value v → Ws w' → Members ms →
      Members (w ++ (quoted b ++ (x ++ ch ':' :: (y ++ (v ++ (w' ++ ch ',' :: ms))))))

end

/-- One value between optional whitespace. -/
def JsonText (s : List UInt8) : Prop := ∃ w v w', s = w ++ (v ++ w') ∧ Ws w ∧ Value v ∧ Ws w'

/-! ## What is scanned is a value -/

theorem expect_eq_ok {α : Type} {o : Option α} {e : parse_error} {a : α} : expect o e = .ok a ↔ o = some a := by
  cases o <;> simp [expect]

/-- A value and, if it is a number, the end of it. -/
structure Skips (s r : List UInt8) (w v : List UInt8) : Prop where
  split : s = w ++ (v ++ r)
  ws : Ws w
  value : Value v
  ends : JsonNumber v → NumberEnds v r

theorem isspace_ne {c d : UInt8} (hc : isspace c = true) (hd : isspace d = false) : c ≠ d := by
  rintro rfl
  rw [hc] at hd
  cases hd

theorem not_number {c : UInt8} {s : List UInt8} (h1 : c ≠ ch '-') (h2 : isDigit c = false) : ¬ JsonNumber (c :: s) := by
  intro h
  obtain ⟨d, t, hs, hd⟩ := h.head
  obtain ⟨rfl, rfl⟩ := List.cons.inj hs
  rcases hd with rfl | hd
  · exact h1 rfl
  · rw [h2] at hd
    cases hd

/-- Where no whitespace is skipped. -/
theorem parse_token_here {token s r : List UInt8} (hs : Stops isspace s) :
    parse_token token s = some r ↔ s = token ++ r := by
  unfold parse_token
  rw [← List.nil_append s, skip_whitespace_eq (by intro c hc; cases hc) hs, parse_token_no_ws_iff, List.nil_append]

/-- What starts as no number does may have anything after it. -/
theorem ends_anywhere {c : UInt8} {v r : List UInt8} (hc : c ≠ ch '-' ∧ isDigit c = false) :
    JsonNumber (c :: v) → NumberEnds (c :: v) r := fun hn => absurd hn (not_number hc.1 hc.2)

section
variable {n : ℕ} {s r : List UInt8}

theorem skipValue_step (ihe : ∀ s r, skipElements n s = .ok r → ∃ es, s = es ++ ch ']' :: r ∧ Elements es)
    (ihm : ∀ s r, skipMembers n s = .ok r → ∃ ms, s = ms ++ ch '}' :: r ∧ Members ms) (h : skipValue (n + 1) s = .ok r) :
    ∃ w v, Skips s r w v := by
  obtain ⟨w, hs, hw, hstop⟩ := skip_whitespace_split s
  rw [skipValue] at h
  cases hskip : skip_whitespace s with
  | nil => simp [hskip] at h
  | cons c t =>
    rw [hskip] at hs hstop
    simp only [hskip] at h
    -- what starts with `c` is all there is to find
    suffices hv : ∃ v, c :: t = v ++ r ∧ Value v ∧ (JsonNumber v → NumberEnds v r) by
      obtain ⟨v, hv, hval, hend⟩ := hv
      exact ⟨w, v, by rw [hs, hv], hw, hval, hend⟩
    split_ifs at h with hc hc hc hc hc hc hc
    · subst hc
      cases ht : parse_token [ch '}'] t with
      | some r' =>
        simp only [ht, Except.ok.injEq] at h
        obtain ⟨w', hw', rfl⟩ := (parse_token_iff (by decide)).1 ht
        exact ⟨_, by simp [h], .emptyObject hw', ends_anywhere (by decide)⟩
      | none =>
        simp only [ht] at h
        obtain ⟨ms, rfl, hms⟩ := ihm _ _ h
        exact ⟨_, by simp, .object hms, ends_anywhere (by decide)⟩
    · subst hc
      cases ht : parse_token [ch ']'] t with
      | some r' =>
        simp only [ht, Except.ok.injEq] at h
        obtain ⟨w', hw', rfl⟩ := (parse_token_iff (by decide)).1 ht
        exact ⟨_, by simp [h], .emptyArray hw', ends_anywhere (by decide)⟩
      | none =>
        simp only [ht] at h
        obtain ⟨es, rfl, hes⟩ := ihe _ _ h
        exact ⟨_, by simp, .array hes, ends_anywhere (by decide)⟩
    · obtain ⟨oq, hq, hoq⟩ := bind_eq_ok.1 h
      obtain ⟨q, hoq, hr⟩ := bind_eq_ok.1 hoq
      rw [expect_eq_ok] at hoq
      rw [hoq, parse_doublequote_string_no_ws_iff] at hq
      obtain rfl := Except.ok.inj hr
      exact ⟨quoted q.str, by rw [hq.1]; simp [quoted], .string hq.2.1, ends_anywhere (by decide)⟩
    · exact ⟨trueToken, (parse_token_here hstop).1 (expect_eq_ok.1 h), .true, ends_anywhere (by decide)⟩
    · exact ⟨falseToken, (parse_token_here hstop).1 (expect_eq_ok.1 h), .false, ends_anywhere (by decide)⟩
    · exact ⟨nullToken, (parse_token_here hstop).1 (expect_eq_ok.1 h), .null, ends_anywhere (by decide)⟩
    · obtain ⟨⟨v, r'⟩, hn, hr⟩ := bind_eq_ok.1 h
      rw [expect_eq_ok, parse_json_number_spec] at hn
      obtain rfl := Except.ok.inj hr
      exact ⟨v, hn.1, .number hn.2.1, fun _ => hn.2.2⟩

theorem skipElements_step (ihv : ∀ s r, skipValue n s = .ok r → ∃ w v, Skips s r w v)
    (ihe : ∀ s r, skipElements n s = .ok r → ∃ es, s = es ++ ch ']' :: r ∧ Elements es) (h : skipElements (n + 1) s = .ok r) :
    ∃ es, s = es ++ ch ']' :: r ∧ Elements es := by
  rw [skipElements] at h
  obtain ⟨rest, hval, hnext⟩ := bind_eq_ok.1 h
  obtain ⟨w, v, rfl, hw, hv, -⟩ := ihv _ _ hval
  cases ht : parse_token [ch ','] rest with
  | some s' =>
    simp only [ht] at hnext
    obtain ⟨w', hw', rfl⟩ := (parse_token_iff (by decide)).1 ht
    obtain ⟨es, rfl, hes⟩ := ihe _ _ hnext
    exact ⟨_, by simp, .more hw hv hw' hes⟩
  | none =>
    simp only [ht] at hnext
    obtain ⟨w', hw', rfl⟩ := (parse_token_iff (by decide)).1 (expect_eq_ok.1 hnext)
    exact ⟨_, by simp, .last hw hv hw'⟩

theorem skipMembers_step (ihv : ∀ s r, skipValue n s = .ok r → ∃ w v, Skips s r w v)
    (ihm : ∀ s r, skipMembers n s = .ok r → ∃ ms, s = ms ++ ch '}' :: r ∧ Members ms) (h : skipMembers (n + 1) s = .ok r) :
    ∃ ms, s = ms ++ ch '}' :: r ∧ Members ms := by
  obtain ⟨w, hs, hw, -⟩ := skip_whitespace_split s
  rw [skipMembers] at h
  obtain ⟨oq, hq, h₁⟩ := bind_eq_ok.1 h
  obtain ⟨q, hoq, h₂⟩ := bind_eq_ok.1 h₁
  obtain ⟨s₁, hc, h₃⟩ := bind_eq_ok.1 h₂
  obtain ⟨rest, hval, hnext⟩ := bind_eq_ok.1 h₃
  rw [expect_eq_ok] at hoq hc
  rw [hoq, parse_doublequote_string_no_ws_iff] at hq
  obtain ⟨hq, hb, -⟩ := hq
  obtain ⟨x, hx, hc⟩ := (parse_token_iff (by decide)).1 hc
  obtain ⟨y, v, rfl, hy, hv, -⟩ := ihv _ _ hval
  rw [hq, hc] at hs
  cases ht : parse_token [ch ','] rest with
  | some s' =>
    simp only [ht] at hnext
    obtain ⟨w', hw', rfl⟩ := (parse_token_iff (by decide)).1 ht
    obtain ⟨ms, rfl, hms⟩ := ihm _ _ hnext
    exact ⟨_, by rw [hs]; simp [quoted], .more hw hb hx hy hv hw' hms⟩
  | none =>
    simp only [ht] at hnext
    obtain ⟨w', hw', rfl⟩ := (parse_token_iff (by decide)).1 (expect_eq_ok.1 hnext)
    exact ⟨_, by rw [hs]; simp [quoted], .last hw hb hx hy hv hw'⟩

end

/-- What is skipped is a value. -/
theorem skip_sound (n : ℕ) :
    (∀ s r, skipValue n s = .ok r → ∃ w v, Skips s r w v) ∧
    (∀ s r, skipElements n s = .ok r → ∃ es, s = es ++ ch ']' :: r ∧ Elements es) ∧
    (∀ s r, skipMembers n s = .ok r → ∃ ms, s = ms ++ ch '}' :: r ∧ Members ms) := by
  induction n with
  | zero =>
    refine ⟨?_, ?_, ?_⟩
    · intro s r h
      simp [skipValue] at h
    · intro s r h
      simp [skipElements] at h
    · intro s r h
      simp [skipMembers] at h
  | succ n ih =>
    obtain ⟨ihv, ihe, ihm⟩ := ih
    exact ⟨fun _ _ => skipValue_step ihe ihm, fun _ _ => skipElements_step ihv ihe, fun _ _ => skipMembers_step ihv ihm⟩

/-! ## Every value is scanned -/

theorem isspace_toNat {c : UInt8} (h : isspace c = true) : c.toNat = 32 ∨ (9 ≤ c.toNat ∧ c.toNat ≤ 13) := by
  simp only [isspace, Bool.or_eq_true, Bool.and_eq_true, decide_eq_true_eq, UInt8.le_iff_toNat_le] at h
  rcases h with rfl | h
  · exact .inl rfl
  · exact .inr h

/-- Whitespace does not occur in numbers. -/
theorem isNumberByte_of_isspace {c : UInt8} (h : isspace c = true) : isNumberByte c = false := by
  have hc := isspace_toNat h
  simp only [isNumberByte, isDigit, isExponent, Bool.or_eq_false_iff, Bool.and_eq_false_iff, decide_eq_false_iff_not,
    UInt8.le_iff_toNat_le, ← UInt8.toNat_inj]
  have h0 : (ch '0').toNat = 48 := rfl
  have h1 : (ch '+').toNat = 43 := rfl
  have h2 : (ch '-').toNat = 45 := rfl
  have h3 : (ch '.').toNat = 46 := rfl
  have h4 : (ch 'e').toNat = 101 := rfl
  have h5 : (ch 'E').toNat = 69 := rfl
  omega

/-- What a value starts with. -/
theorem value_head {v : List UInt8} (h : Value v) : ∃ c t, v = c :: t ∧ isspace c = false ∧ c ≠ ch ']' := by
  cases h with
  | number hn =>
    obtain ⟨c, t, rfl, hc⟩ := hn.head
    refine ⟨c, t, rfl, ?_, ?_⟩
    · by_contra hs
      have h1 := isNumberByte_of_isspace (by simpa using hs)
      rw [hn.bytes c List.mem_cons_self] at h1
      cases h1
    · rintro rfl
      revert hc
      decide
  | true => exact ⟨_, _, rfl, by decide, by decide⟩
  | false => exact ⟨_, _, rfl, by decide, by decide⟩
  | null => exact ⟨_, _, rfl, by decide, by decide⟩
  | string => exact ⟨_, _, rfl, by decide, by decide⟩
  | emptyArray => exact ⟨_, _, rfl, by decide, by decide⟩
  | array => exact ⟨_, _, rfl, by decide, by decide⟩
  | emptyObject => exact ⟨_, _, rfl, by decide, by decide⟩
  | object => exact ⟨_, _, rfl, by decide, by decide⟩

theorem skip_whitespace_here {c : UInt8} (hc : isspace c = false) (s : List UInt8) : skip_whitespace (c :: s) = c :: s :=
  skip_whitespace_eq (w := []) (by intro c hc; cases hc) (stops_cons.2 hc)

/-- After the whitespace the first byte decides. -/
theorem skipValue_ws {w : List UInt8} {c : UInt8} (hw : Ws w) (hc : isspace c = false) (n : ℕ) (s : List UInt8) :
    skipValue (n + 1) (w ++ c :: s) = skipValue (n + 1) (c :: s) := by
  rw [skipValue, skipValue, skip_whitespace_eq hw (stops_cons.2 hc), skip_whitespace_here hc]

/-- The whitespace and the byte after a value end a number. -/
theorem stops_after {w : List UInt8} {c : UInt8} (hw : Ws w) (hc : isNumberByte c = false) (r : List UInt8) :
    Stops isNumberByte (w ++ c :: r) := by
  cases w with
  | nil => exact stops_cons.2 hc
  | cons d w => exact stops_cons.2 (isNumberByte_of_isspace (hw d List.mem_cons_self))

theorem skipValue_object (n : ℕ) (s : List UInt8) : skipValue (n + 1) (ch '{' :: s) =
    match parse_token [ch '}'] s with
    | some r => .ok r
    | none => skipMembers n s := by
  rw [skipValue, skip_whitespace_here (by decide)]
  rfl

theorem skipValue_array (n : ℕ) (s : List UInt8) : skipValue (n + 1) (ch '[' :: s) =
    match parse_token [ch ']'] s with
    | some r => .ok r
    | none => skipElements n s := by
  rw [skipValue, skip_whitespace_here (by decide)]
  rfl

theorem skipValue_string (n : ℕ) {b : List UInt8} (hb : StringBody b) (r : List UInt8) :
    skipValue (n + 1) (quoted b ++ r) = .ok r := by
  have hq : parse_doublequote_string_no_ws (quoted b ++ r) = .ok (some ⟨b, b.contains (ch '\\'), r⟩) :=
    parse_doublequote_string_no_ws_iff.2 ⟨by simp [quoted], hb, rfl⟩
  rw [quoted, List.cons_append] at hq ⊢
  rw [skipValue, skip_whitespace_here (by decide)]
  simp only [show ¬ ch '"' = ch '{' by decide, show ¬ ch '"' = ch '[' by decide, if_false, if_true, hq, ok_bind, expect]
  rfl

theorem skipValue_number (n : ℕ) {v r : List UInt8} (hv : JsonNumber v) (hr : NumberEnds v r) :
    skipValue (n + 1) (v ++ r) = .ok r := by
  have hp := parse_json_number_spec.2 ⟨rfl, hv, hr⟩
  obtain ⟨c, t, rfl, hc⟩ := hv.head
  obtain ⟨_, _, he, hs, -⟩ := value_head (.number hv)
  obtain ⟨rfl, rfl⟩ := List.cons.inj he
  have hne : ∀ d, isNumberByte d = false → c ≠ d := by
    rintro d hd rfl
    rw [hv.bytes c List.mem_cons_self] at hd
    cases hd
  rw [List.cons_append] at hp ⊢
  rw [skipValue, skip_whitespace_here hs]
  simp only [if_neg (hne (ch '{') (by decide)), if_neg (hne (ch '[') (by decide)), if_neg (hne (ch '"') (by decide)),
    if_neg (hne (ch 't') (by decide)), if_neg (hne (ch 'f') (by decide)), if_neg (hne (ch 'n') (by decide))]
  rw [if_pos (by simpa using hc), hp]
  rfl

theorem elements_head {es : List UInt8} (h : Elements es) :
    ∃ w c t, es = w ++ c :: t ∧ Ws w ∧ isspace c = false ∧ c ≠ ch ']' := by
  cases h with
  | @last w v w' hw hv =>
    obtain ⟨c, t, rfl, hc⟩ := value_head hv
    exact ⟨w, c, t ++ w', by simp, hw, hc⟩
  | @more w v w' es hw hv =>
    obtain ⟨c, t, rfl, hc⟩ := value_head hv
    exact ⟨w, c, t ++ (w' ++ ch ',' :: es), by simp, hw, hc⟩

theorem members_head {ms : List UInt8} (h : Members ms) : ∃ w t, ms = w ++ ch '"' :: t ∧ Ws w := by
  cases h with
  | last hw => exact ⟨_, _, rfl, hw⟩
  | more hw => exact ⟨_, _, rfl, hw⟩

/-- A byte that is read after whitespace. -/
theorem parse_token_after {c : UInt8} (hc : isspace c = false) {w : List UInt8} (hw : Ws w) (r : List UInt8) :
    parse_token [c] (w ++ c :: r) = some r := (parse_token_iff hc).2 ⟨w, hw, by simp⟩

/-- The name of a member and the colon after it. -/
theorem skipMembers_name (n : ℕ) {w b x : List UInt8} (hw : Ws w) (hb : StringBody b) (hx : Ws x) (s : List UInt8) :
    skipMembers (n + 1) (w ++ (quoted b ++ (x ++ ch ':' :: s))) =
      skipValue n s >>= fun begin =>
        match parse_token [ch ','] begin with
        | some begin => skipMembers n begin
        | none => expect (parse_token [ch '}'] begin)
            ⟨begin, "expected object separator ',' or terminator '\x7d'"⟩ := by
  have hq : parse_doublequote_string_no_ws (quoted b ++ (x ++ ch ':' :: s)) =
      .ok (some ⟨b, b.contains (ch '\\'), x ++ ch ':' :: s⟩) :=
    parse_doublequote_string_no_ws_iff.2 ⟨by simp [quoted], hb, rfl⟩
  have hc : parse_token [ch ':'] (x ++ ch ':' :: s) = some s := parse_token_after (by decide) hx s
  have hs : Stops isspace (quoted b ++ (x ++ ch ':' :: s)) := stops_cons.2 (by decide)
  rw [skipMembers]
  simp only [skip_whitespace_eq hw hs, hq, hc, ok_bind, expect_some]

/-! ### Fuel for the length of what is read is enough -/

section
variable {n : ℕ} (ihv : ∀ v r, Value v → (JsonNumber v → NumberEnds v r) → v.length ≤ n → skipValue n (v ++ r) = .ok r)
  (ihe : ∀ es r, Elements es → es.length < n → skipElements n (es ++ ch ']' :: r) = .ok r)
  (ihm : ∀ ms r, Members ms → ms.length < n → skipMembers n (ms ++ ch '}' :: r) = .ok r)

include ihv in
/-- A value after whitespace, with something after it that is no part of a number. -/
theorem skipValue_after {w v r : List UInt8} (hw : Ws w) (hv : Value v) (hr : Stops isNumberByte r) (hlen : v.length ≤ n) :
    skipValue n (w ++ (v ++ r)) = .ok r := by
  have h := ihv v r hv (fun _ => numberEnds_of_stops hr) hlen
  obtain ⟨c, t, rfl, hc, -⟩ := value_head hv
  obtain ⟨n, rfl⟩ : ∃ k, n = k + 1 := ⟨n - 1, by simp at hlen; omega⟩
  rw [List.cons_append, skipValue_ws hw hc]
  exact h

include ihe ihm in
theorem skipValue_complete {v r : List UInt8} (hv : Value v) (hr : JsonNumber v → NumberEnds v r) (hlen : v.length ≤ n + 1) :
    skipValue (n + 1) (v ++ r) = .ok r := by
  cases hv with
  | number hn => exact skipValue_number n hn (hr hn)
  | true => rfl
  | false => rfl
  | null => rfl
  | string hb => exact skipValue_string n hb r
  | emptyArray hw =>
    rw [List.cons_append, List.append_assoc, skipValue_array]
    simp only [List.cons_append, List.nil_append, parse_token_after (show isspace (ch ']') = false by decide) hw]
  | @array es hes =>
    have ht : parse_token [ch ']'] (es ++ ch ']' :: r) = none := by
      obtain ⟨w, c, t, rfl, hw, hc, hne⟩ := elements_head hes
      rw [List.append_assoc, List.cons_append]
      exact parse_token_ne hw hc hne
    rw [List.cons_append, List.append_assoc, skipValue_array]
    simp only [List.cons_append, List.nil_append, ht]
    exact ihe es r hes (by simp at hlen; omega)
  | emptyObject hw =>
    rw [List.cons_append, List.append_assoc, skipValue_object]
    simp only [List.cons_append, List.nil_append, parse_token_after (show isspace (ch '}') = false by decide) hw]
  | @object ms hms =>
    have ht : parse_token [ch '}'] (ms ++ ch '}' :: r) = none := by
      obtain ⟨w, t, rfl, hw⟩ := members_head hms
      rw [List.append_assoc, List.cons_append]
      exact parse_token_ne hw (by decide) (by decide)
    rw [List.cons_append, List.append_assoc, skipValue_object]
    simp only [List.cons_append, List.nil_append, ht]
    exact ihm ms r hms (by simp at hlen; omega)

include ihv ihe in
theorem skipElements_complete {es : List UInt8} (hes : Elements es) (r : List UInt8) (hlen : es.length < n + 1) :
    skipElements (n + 1) (es ++ ch ']' :: r) = .ok r := by
  rw [skipElements]
  cases hes with
  | @last w v w' hw hv hw' =>
    have hend : Stops isNumberByte (w' ++ ch ']' :: r) := stops_after hw' (by decide) r
    have hclose : parse_token [ch ']'] (w' ++ ch ']' :: r) = some r := parse_token_after (by decide) hw' r
    simp only [List.append_assoc]
    rw [skipValue_after ihv hw hv hend (by simp at hlen; omega)]
    simp only [ok_bind, parse_token_ne hw' (show isspace (ch ']') = false by decide)
      (show ch ']' ≠ ch ',' by decide), hclose, expect]
  | @more w v w' es hw hv hw' hes =>
    have hend : Stops isNumberByte (w' ++ ch ',' :: (es ++ ch ']' :: r)) := stops_after hw' (by decide) _
    have hcomma : parse_token [ch ','] (w' ++ ch ',' :: (es ++ ch ']' :: r)) = some (es ++ ch ']' :: r) :=
      parse_token_after (by decide) hw' _
    simp only [List.append_assoc, List.cons_append]
    rw [skipValue_after ihv hw hv hend (by simp at hlen; omega)]
    simp only [ok_bind, hcomma]
    exact ihe es r hes (by simp at hlen; omega)

include ihv ihm in
theorem skipMembers_complete {ms : List UInt8} (hms : Members ms) (r : List UInt8) (hlen : ms.length < n + 1) :
    skipMembers (n + 1) (ms ++ ch '}' :: r) = .ok r := by
  cases hms with
  | @last w b x y v w' hw hb hx hy hv hw' =>
    have hend : Stops isNumberByte (w' ++ ch '}' :: r) := stops_after hw' (by decide) r
    have hclose : parse_token [ch '}'] (w' ++ ch '}' :: r) = some r := parse_token_after (by decide) hw' r
    simp only [List.append_assoc, List.cons_append]
    rw [skipMembers_name n hw hb hx, skipValue_after ihv hy hv hend (by simp at hlen; omega)]
    simp only [ok_bind, parse_token_ne hw' (show isspace (ch '}') = false by decide)
      (show ch '}' ≠ ch ',' by decide), hclose, expect]
  | @more w b x y v w' ms hw hb hx hy hv hw' hms =>
    have hend : Stops isNumberByte (w' ++ ch ',' :: (ms ++ ch '}' :: r)) := stops_after hw' (by decide) _
    have hcomma : parse_token [ch ','] (w' ++ ch ',' :: (ms ++ ch '}' :: r)) = some (ms ++ ch '}' :: r) :=
      parse_token_after (by decide) hw' _
    simp only [List.append_assoc, List.cons_append]
    rw [skipMembers_name n hw hb hx, skipValue_after ihv hy hv hend (by simp at hlen; omega)]
    simp only [ok_bind, hcomma]
    exact ihm ms r hms (by simp at hlen; omega)

end

theorem skip_complete (n : ℕ) :
    (∀ v r, Value v → (JsonNumber v → NumberEnds v r) → v.length ≤ n → skipValue n (v ++ r) = .ok r) ∧
    (∀ es r, Elements es → es.length < n → skipElements n (es ++ ch ']' :: r) = .ok r) ∧
    (∀ ms r, Members ms → ms.length < n → skipMembers n (ms ++ ch '}' :: r) = .ok r) := by
  induction n with
  | zero =>
    refine ⟨?_, fun _ _ _ h => by omega, fun _ _ _ h => by omega⟩
    intro v r hv _ hlen
    obtain ⟨c, t, rfl, -⟩ := value_head hv
    simp at hlen
  | succ n ih =>
    obtain ⟨ihv, ihe, ihm⟩ := ih
    exact ⟨fun _ _ => skipValue_complete ihe ihm, fun _ r hes => skipElements_complete ihv ihe hes r,
      fun _ r hms => skipMembers_complete ihv ihm hms r⟩

/-! ## Fuel -/

/-- A value is not empty. -/
theorem skipValue_shorter {n : ℕ} {s r : List UInt8} (h : skipValue n s = .ok r) : r.length < s.length := by
  obtain ⟨w, v, hs⟩ := (skip_sound n).1 s r h
  obtain ⟨c, t, hv, -⟩ := value_head hs.value
  rw [hs.split, hv]
  simp
  omega

theorem parse_token_shorter {token s r : List UInt8} (h : parse_token token s = some r) : r.length ≤ s.length := by
  obtain ⟨w, hs, -⟩ := skip_whitespace_split s
  rw [parse_token, parse_token_no_ws_iff] at h
  rw [hs, h]
  simp
  omega

theorem parse_doublequote_string_no_ws_shorter {s : List UInt8} {q : Quoted}
    (h : parse_doublequote_string_no_ws s = .ok (some q)) : q.rest.length < s.length := by
  rw [(parse_doublequote_string_no_ws_iff.1 h).1]
  simp
  omega

section
variable {n m : ℕ} {s : List UInt8}

theorem skipValue_fuel (ihe : ∀ t, 2 * t.length + 2 ≤ n → skipElements m t = skipElements n t)
    (ihm : ∀ t, 2 * t.length + 2 ≤ n → skipMembers m t = skipMembers n t) (hs : 2 * s.length ≤ n) :
    skipValue (m + 1) s = skipValue (n + 1) s := by
  rw [skipValue, skipValue]
  cases hskip : skip_whitespace s with
  | nil => rfl
  | cons c t =>
    have ht : t.length < s.length := by
      obtain ⟨w, hw, -⟩ := skip_whitespace_split s
      rw [hw, hskip]
      simp
      omega
    simp only [ihe t (by omega), ihm t (by omega)]

theorem skipElements_fuel (ihv : ∀ t, 2 * t.length + 1 ≤ n → skipValue m t = skipValue n t)
    (ihe : ∀ t, 2 * t.length + 2 ≤ n → skipElements m t = skipElements n t) (hs : 2 * s.length + 1 ≤ n) :
    skipElements (m + 1) s = skipElements (n + 1) s := by
  rw [skipElements, skipElements, ihv s hs]
  cases hv : skipValue n s with
  | error e => rfl
  | ok r =>
    have hr := skipValue_shorter hv
    simp only [ok_bind]
    cases ht : parse_token [ch ','] r with
    | none => rfl
    | some t =>
      have := parse_token_shorter ht
      exact ihe t (by omega)

theorem skipMembers_fuel (ihv : ∀ t, 2 * t.length + 1 ≤ n → skipValue m t = skipValue n t)
    (ihm : ∀ t, 2 * t.length + 2 ≤ n → skipMembers m t = skipMembers n t) (hs : 2 * s.length + 1 ≤ n) :
    skipMembers (m + 1) s = skipMembers (n + 1) s := by
  rw [skipMembers, skipMembers]
  have hb : (skip_whitespace s).length ≤ s.length := (List.dropWhile_sublist _).length_le
  cases hq : parse_doublequote_string_no_ws (skip_whitespace s) with
  | error e => rfl
  | ok oq =>
    rcases oq with _ | q
    · rfl
    have hlen := parse_doublequote_string_no_ws_shorter hq
    simp only [ok_bind, expect_some]
    cases hc : parse_token [ch ':'] q.rest with
    | none => rfl
    | some x =>
      have hx := parse_token_shorter hc
      simp only [ok_bind, expect_some]
      rw [ihv x (by omega)]
      cases hv : skipValue n x with
      | error e => rfl
      | ok r =>
        have hr := skipValue_shorter hv
        simp only [ok_bind]
        cases ht : parse_token [ch ','] r with
        | none => rfl
        | some t =>
          have := parse_token_shorter ht
          exact ihm t (by omega)

end

/-- The scanner's fuel never runs out, so more of it changes nothing. -/
theorem skip_fuel (n : ℕ) :
    (∀ m s, 2 * s.length + 1 ≤ n → n ≤ m → skipValue m s = skipValue n s) ∧
    (∀ m s, 2 * s.length + 2 ≤ n → n ≤ m → skipElements m s = skipElements n s) ∧
    (∀ m s, 2 * s.length + 2 ≤ n → n ≤ m → skipMembers m s = skipMembers n s) := by
  induction n with
  | zero => exact ⟨fun _ _ h => by omega, fun _ _ h => by omega, fun _ _ h => by omega⟩
  | succ n ih =>
    obtain ⟨ihv, ihe, ihm⟩ := ih
    have hpred : ∀ {m}, n + 1 ≤ m → ∃ k, m = k + 1 ∧ n ≤ k := fun {m} hm => ⟨m - 1, by omega, by omega⟩
    refine ⟨fun m s hs hm => ?_, fun m s hs hm => ?_, fun m s hs hm => ?_⟩
    · obtain ⟨m, rfl, hk⟩ := hpred hm
      exact skipValue_fuel (fun t ht => ihe m t ht hk) (fun t ht => ihm m t ht hk) (by omega)
    · obtain ⟨m, rfl, hk⟩ := hpred hm
      exact skipElements_fuel (fun t ht => ihv m t ht hk) (fun t ht => ihe m t ht hk) (by omega)
    · obtain ⟨m, rfl, hk⟩ := hpred hm
      exact skipMembers_fuel (fun t ht => ihv m t ht hk) (fun t ht => ihm m t ht hk) (by omega)

/-! ## The scanner and the grammar -/

/-- One value is skipped, whitespace before it included, and nothing after it. -/
theorem skip_json_value_iff {s r : List UInt8} : skip_json_value s = .ok r ↔ ∃ w v, Skips s r w v := by
  constructor
  · exact (skip_sound _).1 s r
  · rintro ⟨w, v, rfl, hw, hv, hr⟩
    have hval := (skip_complete (2 * (w ++ (v ++ r)).length + 1)).1 v r hv hr (by simp; omega)
    obtain ⟨c, t, rfl, hc, -⟩ := value_head hv
    rw [skip_json_value, List.cons_append, skipValue_ws hw hc]
    exact hval

/-- In a JSON text a value is followed by whitespace, by a comma or a closing
bracket, or by nothing, and then it is skipped whatever it is. -/
theorem skip_json_value_in_text {w v r : List UInt8} (hw : Ws w) (hv : Value v) (hr : Stops isNumberByte r) :
    skip_json_value (w ++ (v ++ r)) = .ok r :=
  skip_json_value_iff.2 ⟨w, v, rfl, hw, hv, fun _ => numberEnds_of_stops hr⟩

theorem validate_json_iff {s : List UInt8} : validate_json s = .ok () ↔ JsonText s := by
  unfold validate_json
  constructor
  · intro h
    obtain ⟨r, hskip, hend⟩ := bind_eq_ok.1 h
    obtain ⟨w, v, hs⟩ := skip_json_value_iff.1 hskip
    obtain ⟨w', hr, hw', -⟩ := skip_whitespace_split r
    simp only at hend
    split_ifs at hend with hne
    rw [not_not] at hne
    rw [hne, List.append_nil] at hr
    exact ⟨w, v, w', by rw [hs.split, hr], hs.ws, hs.value, hw'⟩
  · rintro ⟨w, v, w', rfl, hw, hv, hw'⟩
    have hstop : Stops isNumberByte w' := by
      rintro c t rfl
      exact isNumberByte_of_isspace (hw' c List.mem_cons_self)
    have hend : skip_whitespace w' = [] := by
      have := skip_whitespace_eq hw' (stops_nil isspace)
      rwa [List.append_nil] at this
    rw [skip_json_value_in_text hw hv hstop]
    simp only [ok_bind, hend]
    rfl

/-- `validate_json` accepts the JSON texts, and `skip_json_value` succeeds when
the text starts with a value, and leaves what follows that value. A number is
the longest one: what follows must not continue it. -/
theorem validate_and_skip :
    (∀ s, validate_json s = .ok () ↔ ∃ w v w', s = w ++ (v ++ w') ∧ Ws w ∧ Value v ∧ Ws w') ∧
    (∀ s r, skip_json_value s = .ok r ↔
      ∃ w v, s = w ++ (v ++ r) ∧ Ws w ∧ Value v ∧ (JsonNumber v → NumberEnds v r)) := by
  refine ⟨fun s => validate_json_iff, fun s r => skip_json_value_iff.trans ?_⟩
  constructor
  · rintro ⟨w, v, h⟩
    exact ⟨w, v, h.split, h.ws, h.value, h.ends⟩
  · rintro ⟨w, v, h1, h2, h3, h4⟩
    exact ⟨w, v, h1, h2, h3, h4⟩

end Dynd.Json
