import Dynd.JsonRoundTrip
/-!
# Documents that differ in escapes

Two documents that spell the characters of their string literals differently
are parsed side by side. Every scanner takes the same steps on both, and every
conversion sees the same text, except the one of `parse_number_json`, which is
given the literal as it is spelled.
-/
namespace Dynd.Json
open Lib Parse

/-! ## Spellings -/

/-- How a character may stand in a string literal. -/
inductive Spells : Char → List UInt8 → Prop where
  | raw {c : Char} : c ≠ '"' → c ≠ '\\' → Spells c (String.utf8EncodeChar c)
  | short {c : Char} {e b : UInt8} : e ∈ shortEscapes → unescapeShort e = some b → String.utf8EncodeChar c = [b] →
      Spells c [ch '\\', e]
  | hex4 {c : Char} {digits : List UInt8} : digits.length = 4 → (∀ d ∈ digits, isHexDigit d = true) →
      hexValue digits = c.val → Spells c (ch '\\' :: ch 'u' :: digits)
  | pair {c : Char} {lead trail : List UInt8} : lead.length = 4 → trail.length = 4 →
      (∀ d ∈ lead, isHexDigit d = true) → (∀ d ∈ trail, isHexDigit d = true) →
      Utf8.is_lead_surrogate (hexValue lead) = true → Utf8.is_trail_surrogate (hexValue trail) = true →
      c.val = ((hexValue lead <<< 10) + hexValue trail + StringEncodings.SURROGATE_OFFSET) →
      Spells c (ch '\\' :: ch 'u' :: (lead ++ ch '\\' :: ch 'u' :: trail))

/-- Two string bodies with the same characters. What is not respelled is the same in both. -/
inductive Respelled : List UInt8 → List UInt8 → Prop where
  | nil : Respelled [] []
  | char {c : Char} {x y s s' : List UInt8} : Spells c x → Spells c y → Respelled s s' → Respelled (x ++ s) (y ++ s')
  | plain {b : UInt8} {s s' : List UInt8} : b ≠ ch '"' → b ≠ ch '\\' → Respelled s s' → Respelled (b :: s) (b :: s')
  | short {e : UInt8} {s s' : List UInt8} : e ∈ shortEscapes → Respelled s s' →
      Respelled (ch '\\' :: e :: s) (ch '\\' :: e :: s')
  | hex4 {h s s' : List UInt8} : h.length = 4 → (∀ d ∈ h, isHexDigit d = true) → Respelled s s' →
      Respelled (ch '\\' :: ch 'u' :: (h ++ s)) (ch '\\' :: ch 'u' :: (h ++ s'))
  | hex8 {h s s' : List UInt8} : h.length = 8 → (∀ d ∈ h, isHexDigit d = true) → Respelled s s' →
      Respelled (ch '\\' :: ch 'U' :: (h ++ s)) (ch '\\' :: ch 'U' :: (h ++ s'))

/-- Two texts that differ inside of string literals only. -/
inductive SameText : List UInt8 → List UInt8 → Prop where
  | nil : SameText [] []
  | byte {c : UInt8} {s s' : List UInt8} : c ≠ ch '"' → SameText s s' → SameText (c :: s) (c :: s')
  | literal {b b' s s' : List UInt8} : Respelled b b' → SameText s s' →
      SameText (ch '"' :: (b ++ ch '"' :: s)) (ch '"' :: (b' ++ ch '"' :: s'))

theorem Respelled.symm {b b' : List UInt8} (h : Respelled b b') : Respelled b' b := by
  induction h with
  | nil => exact .nil
  | char hx hy _ ih => exact .char hy hx ih
  | plain h1 h2 _ ih => exact .plain h1 h2 ih
  | short he _ ih => exact .short he ih
  | hex4 hl hd _ ih => exact .hex4 hl hd ih
  | hex8 hl hd _ ih => exact .hex8 hl hd ih

theorem SameText.symm {s s' : List UInt8} (h : SameText s s') : SameText s' s := by
  induction h with
  | nil => exact .nil
  | byte hc _ ih => exact .byte hc ih
  | literal hb _ ih => exact .literal hb.symm ih

/-- No surrogate pair stands in a string body. -/
def NoPairs (body : List UInt8) : Prop :=
  ∀ u lead trail v, StringBody u → lead.length = 4 → trail.length = 4 → Utf8.is_lead_surrogate (hexValue lead) = true →
    Utf8.is_trail_surrogate (hexValue trail) = true → body ≠ u ++ ch '\\' :: ch 'u' :: (lead ++ ch '\\' :: ch 'u' :: (trail ++ v))

theorem NoPairs.tail {x s : List UInt8} (h : NoPairs (x ++ s)) (hx : ∀ u, StringBody u → StringBody (x ++ u)) : NoPairs s := by
  rintro u lead trail v hu hl ht hlead htrail rfl
  exact h (x ++ u) lead trail v (hx u hu) hl ht hlead htrail (List.append_assoc _ _ _).symm

theorem Spells.body {c : Char} {x : List UInt8} (h : Spells c x) : ∀ s, StringBody s → StringBody (x ++ s) := by
  intro s hs
  cases h with
  | raw hq hb => exact stringBody_plain (raw_bytes hq hb) hs
  | short he hb hc => exact .short he hs
  | hex4 hl hd hv => exact .hex4 hl hd hs
  | @pair lead trail hl ht hdl hdt hlead htrail hv =>
    have h := StringBody.hex4 hl hdl (StringBody.hex4 ht hdt hs)
    simpa using h

/-- Each spelling but a surrogate pair is unescaped to the character. -/
theorem Spells.escapes {c : Char} {x s : List UInt8} (h : Spells c x) (hp : NoPairs (x ++ s)) : Escapes c x := by
  cases h with
  | raw hq hb => exact .raw (raw_bytes hq hb)
  | short he hb hc => exact .short he hb hc
  | hex4 hl hd hv => exact .hex4 hl hd hv
  | @pair lead trail hl ht hdl hdt hlead htrail hv => exact absurd (by simp) (hp [] lead trail s .nil hl ht hlead htrail)

theorem Respelled.body {b b' : List UInt8} (h : Respelled b b') : StringBody b := by
  induction h with
  | nil => exact .nil
  | char hx _ _ ih => exact hx.body _ ih
  | plain h1 h2 _ ih => exact .plain h1 h2 ih
  | short he _ ih => exact .short he ih
  | hex4 hl hd _ ih => exact .hex4 hl hd ih
  | hex8 hl hd _ ih => exact .hex8 hl hd ih

theorem shortEscapes_unescape {e : UInt8} (h : e ∈ shortEscapes) : ∃ b, unescapeShort e = some b := by
  simp only [shortEscapes, List.mem_cons, List.not_mem_nil, or_false] at h
  rcases h with rfl | rfl | rfl | rfl | rfl | rfl | rfl | rfl <;> exact ⟨_, rfl⟩

/-- Both bodies stand for the same text, or neither can be unescaped. -/
theorem Respelled.text {b b' : List UInt8} (h : Respelled b b') (hp : NoPairs b) (hp' : NoPairs b') :
    Agree (fun t t' => t = t') (unescape_string b) (unescape_string b') := by
  induction h with
  | nil => exact agree_of_toOption rfl
  | @char c x y s s' hx hy _ ih =>
    rw [(hx.escapes hp).text, (hy.escapes hp').text]
    exact (ih (hp.tail hx.body) (hp'.tail hy.body)).map fun t t' ht => ht ▸ rfl
  | @plain b s s' h1 h2 _ ih =>
    have hb : ∀ u, StringBody u → StringBody ([b] ++ u) := fun u hu => .plain h1 h2 hu
    rw [unescape_plain h2, unescape_plain h2]
    exact (ih (NoPairs.tail (x := [b]) hp hb) (NoPairs.tail (x := [b]) hp' hb)).map fun t t' ht => ht ▸ rfl
  | @short e s s' he _ ih =>
    have hb : ∀ u, StringBody u → StringBody ([ch '\\', e] ++ u) := fun u hu => .short he hu
    obtain ⟨d, hd⟩ := shortEscapes_unescape he
    rw [unescape_short hd, unescape_short hd]
    exact (ih (NoPairs.tail (x := [ch '\\', e]) hp hb) (NoPairs.tail (x := [ch '\\', e]) hp' hb)).map fun t t' ht => ht ▸ rfl
  | @hex4 h s s' hl hd _ ih =>
    have hb : ∀ u, StringBody u → StringBody ((ch '\\' :: ch 'u' :: h) ++ u) := fun u hu => .hex4 hl hd hu
    rw [unescape_hex4 hl, unescape_hex4 hl]
    apply (agree_of_toOption rfl).bind
    rintro p p' - - rfl
    exact (ih (NoPairs.tail (x := ch '\\' :: ch 'u' :: h) hp hb) (NoPairs.tail (x := ch '\\' :: ch 'u' :: h) hp' hb)).map
      fun t t' ht => ht ▸ rfl
  | @hex8 h s s' hl hd _ ih =>
    have hb : ∀ u, StringBody u → StringBody ((ch '\\' :: ch 'U' :: h) ++ u) := fun u hu => .hex8 hl hd hu
    rw [unescape_hex8 hl, unescape_hex8 hl]
    apply (agree_of_toOption rfl).bind
    rintro p p' - - rfl
    exact (ih (NoPairs.tail (x := ch '\\' :: ch 'U' :: h) hp hb) (NoPairs.tail (x := ch '\\' :: ch 'U' :: h) hp' hb)).map
      fun t t' ht => ht ▸ rfl

/-! ## The scanners on two texts -/

theorem SameText.skip_whitespace {s s' : List UInt8} (h : SameText s s') :
    SameText (skip_whitespace s) (skip_whitespace s') := by
  have quote : isspace (ch '"') = false := by decide
  induction h with
  | nil => exact .nil
  | @byte c s s' hc h ih =>
    cases hs : isspace c with
    | true =>
      rw [Parse.skip_whitespace, Parse.skip_whitespace, List.dropWhile_cons_of_pos hs, List.dropWhile_cons_of_pos hs]
      exact ih
    | false =>
      rw [skip_whitespace_here hs, skip_whitespace_here hs]
      exact .byte hc h
  | literal hb h _ =>
    rw [skip_whitespace_here quote, skip_whitespace_here quote]
    exact .literal hb h

/-- What is read outside of string literals is the same on both sides. -/
theorem SameText.append {n r s' : List UInt8} (h : SameText (n ++ r) s') (hn : ∀ c ∈ n, c ≠ ch '"') :
    ∃ r', s' = n ++ r' ∧ SameText r r' := by
  induction n generalizing s' with
  | nil => exact ⟨s', rfl, h⟩
  | cons c n ih =>
    rw [List.forall_mem_cons] at hn
    generalize hs : c :: n ++ r = s at h
    cases h with
    | nil => cases hs
    | byte hc h =>
      obtain ⟨rfl, rfl⟩ := List.cons.inj hs
      obtain ⟨r', rfl, hr⟩ := ih h hn.2
      exact ⟨r', rfl, hr⟩
    | literal hb h => exact absurd (List.cons.inj hs).1 hn.1

/-- Both texts start with the same byte. -/
theorem SameText.stops {p : UInt8 → Bool} {r r' : List UInt8} (h : SameText r r') (hr : Stops p r) : Stops p r' := by
  cases h with
  | nil => exact hr
  | byte _ _ => exact stops_cons.2 (stops_cons.1 hr)
  | literal _ _ => exact stops_cons.2 (stops_cons.1 hr)

/-- The same answer, and related texts after it. -/
inductive SameScan {α : Type} : Option (α × List UInt8) → Option (α × List UInt8) → Prop where
  | none : SameScan none none
  | some (a : α) {r r' : List UInt8} : SameText r r' → SameScan (some (a, r)) (some (a, r'))

inductive SameRest : Option (List UInt8) → Option (List UInt8) → Prop where
  | none : SameRest none none
  | some {r r' : List UInt8} : SameText r r' → SameRest (some r) (some r')

theorem SameText.token_some {s s' r token : List UInt8} (h : SameText s s') (ht : ∀ c ∈ token, c ≠ ch '"')
    (hs : parse_token token s = some r) : ∃ r', parse_token token s' = some r' ∧ SameText r r' := by
  have h := h.skip_whitespace
  rw [parse_token, parse_token_no_ws_iff] at hs
  rw [hs] at h
  obtain ⟨r', hr', hrel⟩ := h.append ht
  exact ⟨r', by rw [parse_token, parse_token_no_ws_iff, hr'], hrel⟩

theorem SameText.token {s s' token : List UInt8} (h : SameText s s') (ht : ∀ c ∈ token, c ≠ ch '"') :
    SameRest (parse_token token s) (parse_token token s') := by
  cases hs : parse_token token s with
  | some r =>
    obtain ⟨r', hr', hrel⟩ := h.token_some ht hs
    rw [hr']
    exact .some hrel
  | none =>
    cases hs' : parse_token token s' with
    | none => exact .none
    | some r' =>
      obtain ⟨r, hr, -⟩ := h.symm.token_some ht hs'
      rw [hs] at hr
      cases hr

theorem numberByte_ne_quote {c : UInt8} (h : isNumberByte c = true) : c ≠ ch '"' := by
  rintro rfl
  cases h

/-- The scanner of numbers looks at one byte after the number. -/
theorem SameText.numberEnds {n r r' : List UInt8} (h : SameText r r') (hr : NumberEnds n r) : NumberEnds n r' := by
  rintro c t rfl u hu
  cases h with
  | byte _ _ => exact hr c _ rfl u hu
  | literal _ _ => exact hr _ _ rfl u hu

theorem SameText.number_some {s s' n r : List UInt8} (h : SameText s s') (hs : parse_json_number_no_ws s = some (n, r)) :
    ∃ r', parse_json_number_no_ws s' = some (n, r') ∧ SameText r r' := by
  obtain ⟨rfl, hn, hr⟩ := parse_json_number_spec.1 hs
  obtain ⟨r', rfl, hrel⟩ := h.append fun c hc => numberByte_ne_quote (hn.bytes c hc)
  exact ⟨r', parse_json_number_spec.2 ⟨rfl, hn, hrel.numberEnds hr⟩, hrel⟩

theorem SameText.number {s s' : List UInt8} (h : SameText s s') :
    SameScan (parse_json_number_no_ws s) (parse_json_number_no_ws s') := by
  cases hs : parse_json_number_no_ws s with
  | some x =>
    obtain ⟨r', hr', hrel⟩ := h.number_some hs
    rw [hr']
    exact .some _ hrel
  | none =>
    cases hs' : parse_json_number_no_ws s' with
    | none => exact .none
    | some x =>
      obtain ⟨r, hr, -⟩ := h.symm.number_some hs'
      rw [hs] at hr
      cases hr

/-- Two literals with the same characters, and related texts after them. -/
structure SameLiteral (q q' : Quoted) : Prop where
  str : Respelled q.str q'.str
  escaped : q.escaped = q.str.contains (ch '\\')
  escaped' : q'.escaped = q'.str.contains (ch '\\')
  rest : SameText q.rest q'.rest

inductive SameQuoted : Option Quoted → Option Quoted → Prop where
  | none : SameQuoted none none
  | some {q q' : Quoted} : SameLiteral q q' → SameQuoted (some q) (some q')

/-- A literal is read as a whole, in both texts or in none. -/
theorem SameText.quoted {s s' : List UInt8} (h : SameText s s') : ∃ o o', parse_doublequote_string_no_ws s = .ok o ∧
    parse_doublequote_string_no_ws s' = .ok o' ∧ SameQuoted o o' := by
  cases h with
  | nil => exact ⟨none, none, rfl, rfl, .none⟩
  | @byte c s s' hc h =>
    have hnone := fun t => parse_doublequote_string_no_ws_none (s := c :: t) (stops_cons.2 (by simpa using hc))
    exact ⟨none, none, hnone s, hnone s', .none⟩
  | @literal b b' s s' hb h =>
    refine ⟨some ⟨b, b.contains (ch '\\'), s⟩, some ⟨b', b'.contains (ch '\\'), s'⟩,
      parse_doublequote_string_no_ws_iff.2 ⟨rfl, hb.body, rfl⟩, parse_doublequote_string_no_ws_iff.2 ⟨rfl, hb.symm.body, rfl⟩,
      .some ⟨hb, rfl, rfl, h⟩⟩

theorem SameRest.expect {o o' : Option (List UInt8)} (h : SameRest o o') (e e' : parse_error) :
    Agree SameText (expect o e) (expect o' e') := by
  cases h with
  | none => exact .error _ _
  | some h => exact .ok h

theorem SameQuoted.expect {o o' : Option Quoted} (h : SameQuoted o o') (e e' : parse_error) :
    Agree SameLiteral (expect o e) (expect o' e') := by
  cases h with
  | none => exact .error _ _
  | some h => exact .ok h

theorem no_quote_of_all {t : List UInt8} (h : t.all (· != ch '"') = true) : ∀ c ∈ t, c ≠ ch '"' := by
  intro c hc
  exact bne_iff_ne.mp (List.all_eq_true.mp h c hc)

theorem trueToken_bytes : ∀ c ∈ trueToken, c ≠ ch '"' := no_quote_of_all (by decide)

theorem falseToken_bytes : ∀ c ∈ falseToken, c ≠ ch '"' := no_quote_of_all (by decide)

theorem nullToken_bytes : ∀ c ∈ nullToken, c ≠ ch '"' := no_quote_of_all (by decide)

/-- The tokens of one byte. -/
theorem SameText.byteToken {s s' : List UInt8} (h : SameText s s') {c : UInt8} (hc : c ≠ ch '"') :
    SameRest (parse_token [c] s) (parse_token [c] s') :=
  h.token (List.forall_mem_singleton.2 hc)

section
variable {ε ε' α β : Type} {R : α → β → Prop} {s s' : List UInt8} {other : Except ε α} {other' : Except ε' β}

/-- A token that is tried first. -/
theorem SameText.tryToken {token : List UInt8} {found : List UInt8 → Except ε α} {found' : List UInt8 → Except ε' β}
    (h : SameText s s') (ht : ∀ c ∈ token, c ≠ ch '"') (hfound : ∀ r r', SameText r r' → Agree R (found r) (found' r'))
    (hother : Agree R other other') :
    Agree R
      (match parse_token token s with
        | some r => found r
        | none => other)
      (match parse_token token s' with
        | some r => found' r
        | none => other') := by
  have hrest := h.token ht
  generalize parse_token token s = o at hrest
  generalize parse_token token s' = o' at hrest
  cases hrest with
  | some hr => exact hfound _ _ hr
  | none => exact hother

/-- A number that is tried first. -/
theorem SameText.tryNumber {found : List UInt8 → List UInt8 → Except ε α} {found' : List UInt8 → List UInt8 → Except ε' β}
    (h : SameText s s') (hfound : ∀ n r r', SameText r r' → Agree R (found n r) (found' n r')) (hother : Agree R other other') :
    Agree R
      (match parse_json_number_no_ws s with
        | some (n, r) => found n r
        | none => other)
      (match parse_json_number_no_ws s' with
        | some (n, r) => found' n r
        | none => other') := by
  have hnumber := h.number
  generalize parse_json_number_no_ws s = o at hnumber
  generalize parse_json_number_no_ws s' = o' at hnumber
  cases hnumber with
  | some n hr => exact hfound n _ _ hr
  | none => exact hother

end

/-! ### The skipping scanner with fuel, value by value -/

section
variable {n : ℕ} (ihv : ∀ s s', SameText s s' → Agree SameText (skipValue n s) (skipValue n s'))
  (ihe : ∀ s s', SameText s s' → Agree SameText (skipElements n s) (skipElements n s'))
  (ihm : ∀ s s', SameText s s' → Agree SameText (skipMembers n s) (skipMembers n s'))

include ihe ihm in
theorem skipValue_agree {s s' : List UInt8} (h : SameText s s') : Agree SameText (skipValue (n + 1) s) (skipValue (n + 1) s') := by
  rw [skipValue, skipValue]
  have hskip := h.skip_whitespace
  generalize Parse.skip_whitespace s = t at hskip
  generalize Parse.skip_whitespace s' = t' at hskip
  cases hskip with
  | nil => exact .error _ _
  | @byte c t t' hc ht =>
    have hct := SameText.byte hc ht
    simp only [if_neg hc]
    split_ifs
    · exact ht.tryToken (List.forall_mem_singleton.2 (by decide)) (fun _ _ hr => .ok hr) (ihm _ _ ht)
    · exact ht.tryToken (List.forall_mem_singleton.2 (by decide)) (fun _ _ hr => .ok hr) (ihe _ _ ht)
    · exact (hct.token trueToken_bytes).expect _ _
    · exact (hct.token falseToken_bytes).expect _ _
    · exact (hct.token nullToken_bytes).expect _ _
    · have hnumber := hct.number
      generalize parse_json_number_no_ws (c :: t) = o at hnumber
      generalize parse_json_number_no_ws (c :: t') = o' at hnumber
      cases hnumber with
      | none => exact .error _ _
      | some n hr => exact .ok hr
    · exact .error _ _
  | literal hb hr =>
    obtain ⟨o, o', ho, ho', hrel⟩ := (SameText.literal hb hr).quoted
    simp only [show ¬ ch '"' = ch '{' by decide, show ¬ ch '"' = ch '[' by decide, if_false, if_true, ho, ho', ok_bind]
    exact (hrel.expect _ _).bind fun q q' _ _ hq => .ok hq.rest

include ihv ihe in
theorem skipElements_agree {s s' : List UInt8} (h : SameText s s') :
    Agree SameText (skipElements (n + 1) s) (skipElements (n + 1) s') := by
  rw [skipElements, skipElements]
  apply (ihv s s' h).bind
  intro r r' _ _ hr
  exact hr.tryToken (List.forall_mem_singleton.2 (by decide)) ihe ((hr.byteToken (by decide)).expect _ _)

include ihv ihm in
theorem skipMembers_agree {s s' : List UInt8} (h : SameText s s') :
    Agree SameText (skipMembers (n + 1) s) (skipMembers (n + 1) s') := by
  rw [skipMembers, skipMembers]
  obtain ⟨o, o', ho, ho', hrel⟩ := h.skip_whitespace.quoted
  simp only [ho, ho', ok_bind]
  apply (hrel.expect _ _).bind
  intro q q' _ _ hq
  apply ((hq.rest.byteToken (c := ch ':') (by decide)).expect _ _).bind
  intro r r' _ _ hr
  apply (ihv r r' hr).bind
  intro t t' _ _ ht
  exact ht.tryToken (List.forall_mem_singleton.2 (by decide)) ihm ((ht.byteToken (by decide)).expect _ _)

end

theorem skip_agree (n : ℕ) :
    (∀ s s', SameText s s' → Agree SameText (skipValue n s) (skipValue n s')) ∧
    (∀ s s', SameText s s' → Agree SameText (skipElements n s) (skipElements n s')) ∧
    (∀ s s', SameText s s' → Agree SameText (skipMembers n s) (skipMembers n s')) := by
  induction n with
  | zero =>
    refine ⟨fun s s' _ => ?_, fun s s' _ => ?_, fun s s' _ => ?_⟩
    · rw [skipValue, skipValue]
      exact .error _ _
    · rw [skipElements, skipElements]
      exact .error _ _
    · rw [skipMembers, skipMembers]
      exact .error _ _
  | succ n ih =>
    obtain ⟨ihv, ihe, ihm⟩ := ih
    exact ⟨fun _ _ => skipValue_agree ihe ihm, fun _ _ => skipElements_agree ihv ihe, fun _ _ => skipMembers_agree ihv ihm⟩

/-- Skipping a value reads the same on both sides. -/
theorem SameText.skip_json_value {s s' : List UInt8} (h : SameText s s') :
    Agree SameText (skip_json_value s) (skip_json_value s') := by
  have h1 := (skip_fuel (2 * s.length + 1)).1 (max (2 * s.length + 1) (2 * s'.length + 1)) s le_rfl (le_max_left _ _)
  have h2 := (skip_fuel (2 * s'.length + 1)).1 (max (2 * s.length + 1) (2 * s'.length + 1)) s' le_rfl (le_max_right _ _)
  rw [Json.skip_json_value, Json.skip_json_value, ← h1, ← h2]
  exact (skip_agree _).1 s s' h

/-! ## Fuel -/

/-- A parser leaves no more text than it was given. -/
def Shrinks {α : Type} (parser : Parser α) : Prop := ∀ s v r, parser s = .ok (v, r) → r.length ≤ s.length

theorem shrinks_skip {α : Type} {parser : Parser α} (h : Shrinks parser) :
    Shrinks fun begin => parser (skip_whitespace begin) := by
  intro s v r hx
  exact (h _ v r hx).trans (List.dropWhile_sublist _).length_le

theorem number_shorter {s n r : List UInt8} (h : parse_json_number_no_ws s = some (n, r)) : r.length ≤ s.length := by
  obtain ⟨rfl, -⟩ := parse_json_number_spec.1 h
  simp

theorem fail_ne_ok {α : Type} {position : List UInt8} {message : String} {a : α} : ¬ fail position message = .ok a := by
  intro h
  cases h

/-- What is left after a result is no longer than `n`. -/
def Leaves {α : Type} (n : ℕ) (x : Except json_error (α × List UInt8)) : Prop := ∀ v r, x = .ok (v, r) → r.length ≤ n

section
variable {α : Type} {n : ℕ} {s : List UInt8}

theorem Leaves.ok {v : α} {r : List UInt8} (h : r.length ≤ n) : Leaves n (.ok (v, r)) := by
  intro w r' he
  obtain ⟨-, rfl⟩ := Prod.mk.inj (Except.ok.inj he)
  exact h

theorem Leaves.fail (position : List UInt8) (message : String) : Leaves n (fail position message : Except json_error (α × List UInt8)) :=
  fun _ _ h => absurd h fail_ne_ok

theorem Leaves.bind {β : Type} {x : Except json_error β} {f : β → Except json_error (α × List UInt8)}
    (h : ∀ b, x = .ok b → Leaves n (f b)) : Leaves n (x >>= f) := by
  intro v r he
  obtain ⟨b, hb, hf⟩ := bind_eq_ok.1 he
  exact h b hb v r hf

theorem Leaves.trans {m : ℕ} {x : Except json_error (α × List UInt8)} (h : Leaves n x) (hn : n ≤ m) : Leaves m x :=
  fun v r he => (h v r he).trans hn

/-- A token that is tried first. -/
theorem Leaves.token {token : List UInt8} {found : List UInt8 → Except json_error (α × List UInt8)}
    {other : Except json_error (α × List UInt8)} (hfound : ∀ b, b.length ≤ s.length → Leaves s.length (found b))
    (hother : Leaves s.length other) : Leaves s.length (match parse_token token s with
      | some b => found b
      | none => other) := by
  cases h : parse_token token s with
  | some b => exact hfound b (parse_token_shorter h)
  | none => exact hother

/-- A number that is tried first. -/
theorem Leaves.number {found : List UInt8 → List UInt8 → Except json_error (α × List UInt8)}
    {other : Except json_error (α × List UInt8)} (hfound : ∀ text b, b.length ≤ s.length → Leaves s.length (found text b))
    (hother : Leaves s.length other) : Leaves s.length (match parse_json_number_no_ws s with
      | some (text, b) => found text b
      | none => other) := by
  cases h : parse_json_number_no_ws s with
  | some x => exact hfound x.1 x.2 (number_shorter h)
  | none => exact hother

/-- The branch of every leaf for a string literal. -/
theorem Leaves.literal {read : Quoted → Except json_error α} {other : Except json_error (α × List UInt8)}
    (hother : Leaves s.length other) : Leaves s.length (scan (parse_doublequote_string_no_ws s) >>= fun o => match o with
      | some q => do
        let value ← read q
        return (value, q.rest)
      | none => other) := by
  refine .bind fun o ho => ?_
  cases o with
  | none => exact hother
  | some q => exact .bind fun w _ => .ok (parse_doublequote_string_no_ws_shorter (scan_eq_ok.1 ho)).le

end

theorem length_skip_whitespace (s : List UInt8) : (skip_whitespace s).length ≤ s.length := (List.dropWhile_sublist _).length_le

theorem shrinks_bool (errmode : assign_error_mode) : Shrinks (parse_bool_json errmode) := by
  intro s
  refine Leaves.token (fun b hb => .ok hb) (Leaves.token (fun b hb => .ok hb) (Leaves.token (fun b hb => ?_) ?_))
  · split_ifs
    · exact .fail _ _
    · exact .ok hb
  · refine Leaves.number (fun text b hb => ?_) (Leaves.literal (.fail _ _))
    split_ifs
    · exact .ok hb
    · exact .ok hb
    · exact .fail _ _

theorem shrinks_number {D : Type} (conv : List UInt8 → Except exception D) : Shrinks (parse_number_json conv) := by
  intro s
  exact Leaves.number (fun text b hb => .bind fun w _ => .ok hb) (Leaves.literal (.fail _ _))

theorem shrinks_string {D : Type} (set : List UInt8 → Except exception D) : Shrinks (parse_string_json set) := by
  intro s
  exact (Leaves.literal (.fail _ _)).trans (length_skip_whitespace s)

theorem shrinks_datetime {D : Type} (set : List UInt8 → Except exception D) : Shrinks (parse_datetime_json set) := by
  intro s
  refine Leaves.trans (.bind fun o ho => ?_) (length_skip_whitespace s)
  cases o with
  | none => exact .fail _ _
  | some q => exact .bind fun val _ => .bind fun w _ => .ok (parse_doublequote_string_no_ws_shorter (scan_eq_ok.1 ho)).le

theorem shrinks_option_bool : Shrinks parse_option_bool := by
  intro s
  refine Leaves.token (fun b hb => .ok hb) (Leaves.token (fun b hb => .ok hb) (Leaves.number (fun text b hb => ?_) (.fail _ _)))
  split_ifs
  · exact .ok hb
  · exact .ok hb
  · exact .fail _ _

theorem shrinks_option_number {D : Type} (conv : List UInt8 → Except exception D) : Shrinks (parse_option_number conv) := by
  intro s
  exact Leaves.number (fun text b hb => .bind fun w _ => .ok hb) (.fail _ _)

section
variable {ext : External} (errmode : assign_error_mode)

theorem shrinks_option_value (s : Scalar ext) : Shrinks (parse_option_value errmode s) := by
  cases s with
  | bool => exact shrinks_option_bool
  | int k => exact shrinks_option_number _
  | real id => exact shrinks_option_number _
  | text id => exact fun _ => Leaves.fail _ _

theorem shrinks_option (s : Scalar ext) : Shrinks (parse_option_json errmode s) := by
  intro b
  refine Leaves.trans ?_ (length_skip_whitespace b)
  exact Leaves.token (fun t ht => .bind fun w _ => .ok ht) (Leaves.literal (shrinks_option_value errmode s _))

theorem shrinks_scalar (s : Scalar ext) : Shrinks (parse_scalar_json errmode s) := by
  cases s with
  | bool => exact shrinks_bool errmode
  | int k => exact shrinks_number _
  | real id => exact shrinks_number _
  | text id =>
    rw [parse_scalar_json]
    cases ext.kind id with
    | string_kind => exact shrinks_string _
    | datetime_kind => exact shrinks_datetime _
    | type_kind => exact shrinks_datetime _

end

theorem scan_token_shorter {token s r : List UInt8} {e : parse_error} (h : scan (expect (parse_token token s) e) = .ok r) :
    r.length ≤ s.length :=
  parse_token_shorter (expect_eq_ok.1 (scan_eq_ok.1 h))

theorem parseComma_shorter {message : String} {last : Bool} {s r : List UInt8} (h : parseComma message last s = .ok r) :
    r.length ≤ s.length := by
  rw [parseComma] at h
  split_ifs at h
  · rw [Except.ok.inj h]
  · exact scan_token_shorter h

theorem shrinks_listLoop (message : String) (n : ℕ) {V : Fin n → Type} {el : (i : Fin n) → Parser (V i)}
    (h : ∀ i, Shrinks (el i)) : Shrinks (listLoop message n el) := by
  induction n with
  | zero =>
    intro s v r hx
    obtain ⟨-, rfl⟩ := Prod.mk.inj (Except.ok.inj hx)
    exact le_rfl
  | succ n ih =>
    intro s v r hx
    rw [listLoop] at hx
    obtain ⟨⟨v0, s1⟩, h0, h1⟩ := bind_eq_ok.1 hx
    obtain ⟨s2, hc, h2⟩ := bind_eq_ok.1 h1
    obtain ⟨⟨vs, s3⟩, hl, he⟩ := bind_eq_ok.1 h2
    obtain ⟨-, rfl⟩ := Prod.mk.inj (Except.ok.inj he)
    have a := h 0 s v0 s1 h0
    have b := parseComma_shorter hc
    have c := ih (fun i => h i.succ) s2 vs s3 hl
    omega

theorem shrinks_fixed_dim {D : Type} (n : ℕ) {el : Parser D} (h : Shrinks el) : Shrinks (parse_strided_dim_json n el) := by
  intro s v r hx
  obtain ⟨s1, h1, hx⟩ := bind_eq_ok.1 hx
  obtain ⟨⟨w, s2⟩, h2, hx⟩ := bind_eq_ok.1 hx
  obtain ⟨s3, h3, he⟩ := bind_eq_ok.1 hx
  obtain ⟨-, rfl⟩ := Prod.mk.inj (Except.ok.inj he)
  have a := scan_token_shorter h1
  have b := shrinks_listLoop _ n (fun _ => h) s1 w s2 h2
  have c := scan_token_shorter h3
  omega

theorem shrinks_varLoop {D : Type} {el : Parser D} (h : Shrinks el) (fuel : ℕ) : Shrinks (varLoop el fuel) := by
  induction fuel with
  | zero => exact fun _ _ _ hx => absurd hx fail_ne_ok
  | succ fuel ih =>
    intro s v r hx
    rw [varLoop] at hx
    obtain ⟨⟨v0, s1⟩, h0, hx⟩ := bind_eq_ok.1 hx
    have a := h s v0 s1 h0
    cases hc : parse_token [ch ','] s1 with
    | none =>
      simp only [hc] at hx
      obtain ⟨-, rfl⟩ := Prod.mk.inj (Except.ok.inj hx)
      exact a
    | some s2 =>
      simp only [hc] at hx
      obtain ⟨⟨vs, s3⟩, h3, he⟩ := bind_eq_ok.1 hx
      obtain ⟨-, rfl⟩ := Prod.mk.inj (Except.ok.inj he)
      have b := parse_token_shorter hc
      have c := ih s2 vs s3 h3
      dsimp only at *
      omega

/-- A comma is one byte at least. -/
theorem comma_shorter {s r : List UInt8} (h : parse_token [ch ','] s = some r) : r.length < s.length := by
  obtain ⟨w, -, rfl⟩ := (parse_token_iff (by decide)).1 h
  simp
  omega

/-- One round for each byte is enough. -/
theorem varLoop_fuel {D : Type} {el : Parser D} (h : Shrinks el) (fuel : ℕ) : ∀ m s, s.length + 1 ≤ fuel → fuel ≤ m →
    varLoop el m s = varLoop el fuel s := by
  induction fuel with
  | zero => exact fun _ _ h => by omega
  | succ fuel ih =>
    intro m s hs hm
    obtain ⟨m, rfl⟩ : ∃ k, m = k + 1 := ⟨m - 1, by omega⟩
    rw [varLoop, varLoop]
    cases h0 : el s with
    | error e => rfl
    | ok x =>
      have a := h s x.1 x.2 h0
      simp only [ok_bind]
      cases hc : parse_token [ch ','] x.2 with
      | none => rfl
      | some t =>
        have b := comma_shorter hc
        simp only [ih m t (by omega) (by omega)]

theorem shrinks_var_dim {D : Type} {el : Parser D} (h : Shrinks el) : Shrinks (parse_var_dim_json el) := by
  intro s v r hx
  obtain ⟨s1, h1, hx⟩ := bind_eq_ok.1 hx
  have a := scan_token_shorter h1
  cases hc : parse_token [ch ']'] s1 with
  | some s2 =>
    simp only [hc] at hx
    obtain ⟨-, rfl⟩ := Prod.mk.inj (Except.ok.inj hx)
    have b := parse_token_shorter hc
    omega
  | none =>
    simp only [hc] at hx
    obtain ⟨⟨w, s2⟩, h2, hx⟩ := bind_eq_ok.1 hx
    obtain ⟨s3, h3, he⟩ := bind_eq_ok.1 hx
    obtain ⟨-, rfl⟩ := Prod.mk.inj (Except.ok.inj he)
    have b := shrinks_varLoop h _ s1 w s2 h2
    have c := scan_token_shorter h3
    dsimp only at *
    omega

section
variable {n : ℕ} {V : Fin n → Type} {names : Fin n → List UInt8} {el : (i : Fin n) → Parser (V i)}

theorem shrinks_name : Shrinks parseName := by
  intro s v r hx
  obtain ⟨q, h1, hx⟩ := bind_eq_ok.1 hx
  obtain ⟨s2, h2, hx⟩ := bind_eq_ok.1 hx
  obtain ⟨name, -, he⟩ := bind_eq_ok.1 hx
  obtain ⟨-, rfl⟩ := Prod.mk.inj (Except.ok.inj he)
  obtain ⟨o, ho, hq⟩ := bind_eq_ok.1 (scan_eq_ok.1 h1)
  rw [expect_eq_ok.1 hq] at ho
  have a := parse_doublequote_string_no_ws_shorter ho
  have b := scan_token_shorter h2
  have c : (skip_whitespace s).length ≤ s.length := (List.dropWhile_sublist _).length_le
  omega

theorem shrinks_field (h : ∀ i, Shrinks (el i)) (data : (i : Fin n) → Option (V i)) (name : List UInt8) :
    Shrinks (parseField names el data name) := by
  intro s v r hx
  rw [parseField] at hx
  cases hf : get_field_index names name with
  | none =>
    simp only [hf] at hx
    obtain ⟨t, ht, he⟩ := map_eq_ok.1 hx
    obtain ⟨-, rfl⟩ := Prod.mk.inj he
    exact (skipValue_shorter (scan_eq_ok.1 ht)).le
  | some i =>
    simp only [hf] at hx
    obtain ⟨⟨w, t⟩, ht, he⟩ := map_eq_ok.1 hx
    obtain ⟨-, rfl⟩ := Prod.mk.inj he
    exact h i s w t ht

theorem shrinks_objectLoop (h : ∀ i, Shrinks (el i)) (fuel : ℕ) (data : (i : Fin n) → Option (V i)) :
    Shrinks (objectLoop names el fuel data) := by
  induction fuel generalizing data with
  | zero => exact fun _ _ _ hx => absurd hx fail_ne_ok
  | succ fuel ih =>
    intro s v r hx
    rw [objectLoop] at hx
    obtain ⟨⟨name, s1⟩, h1, hx⟩ := bind_eq_ok.1 hx
    obtain ⟨⟨d, s2⟩, h2, hx⟩ := bind_eq_ok.1 hx
    have a := shrinks_name s name s1 h1
    have b := shrinks_field h data name s1 d s2 h2
    cases hc : parse_token [ch ','] s2 with
    | none =>
      simp only [hc] at hx
      obtain ⟨-, rfl⟩ := Prod.mk.inj (Except.ok.inj hx)
      omega
    | some s3 =>
      simp only [hc] at hx
      have c := parse_token_shorter hc
      have e := ih d s3 v r hx
      omega

theorem objectLoop_fuel (h : ∀ i, Shrinks (el i)) (fuel : ℕ) : ∀ m data s, s.length + 1 ≤ fuel → fuel ≤ m →
    objectLoop names el m data s = objectLoop names el fuel data s := by
  induction fuel with
  | zero => exact fun _ _ _ h => by omega
  | succ fuel ih =>
    intro m data s hs hm
    obtain ⟨m, rfl⟩ : ∃ k, m = k + 1 := ⟨m - 1, by omega⟩
    rw [objectLoop, objectLoop]
    cases h1 : parseName s with
    | error e => rfl
    | ok x =>
      simp only [ok_bind]
      have a := shrinks_name s x.1 x.2 h1
      cases h2 : parseField names el data x.1 x.2 with
      | error e => rfl
      | ok y =>
        simp only [ok_bind]
        have b := shrinks_field h data x.1 x.2 y.1 y.2 h2
        cases hc : parse_token [ch ','] y.2 with
        | none => rfl
        | some t =>
          have c := comma_shorter hc
          exact ih m y.1 t (by omega) (by omega)

theorem shrinks_members (h : ∀ i, Shrinks (el i)) : Shrinks (parseMembers names el) := by
  intro s v r hx
  rw [parseMembers] at hx
  cases hc : parse_token [ch '}'] s with
  | some t =>
    simp only [hc] at hx
    obtain ⟨-, rfl⟩ := Prod.mk.inj (Except.ok.inj hx)
    exact parse_token_shorter hc
  | none =>
    simp only [hc] at hx
    obtain ⟨⟨d, s1⟩, h1, hx⟩ := bind_eq_ok.1 hx
    obtain ⟨s2, h2, he⟩ := bind_eq_ok.1 hx
    obtain ⟨-, rfl⟩ := Prod.mk.inj (Except.ok.inj he)
    have a := shrinks_objectLoop h _ _ s d s1 h1
    have b := scan_token_shorter h2
    dsimp only at *
    omega

theorem shrinks_struct (h : ∀ i, Shrinks (el i)) : Shrinks (parse_struct_json names el) := by
  intro s v r hx
  rw [parse_struct_json, parse_struct_json_from_object] at hx
  cases ho : parse_token [ch '{'] s with
  | some s1 =>
    simp only [ho] at hx
    obtain ⟨⟨d, s2⟩, h2, hx⟩ := bind_eq_ok.1 hx
    obtain ⟨w, -, he⟩ := bind_eq_ok.1 hx
    obtain ⟨-, rfl⟩ := Prod.mk.inj (Except.ok.inj he)
    have a := parse_token_shorter ho
    have b := shrinks_members h s1 d s2 h2
    dsimp only at *
    omega
  | none =>
    simp only [ho, parse_tuple_json_from_list] at hx
    cases hl : parse_token [ch '['] s with
    | none =>
      simp only [hl] at hx
      exact absurd hx fail_ne_ok
    | some s1 =>
      simp only [hl] at hx
      obtain ⟨⟨w, s2⟩, h2, hx⟩ := bind_eq_ok.1 hx
      obtain ⟨s3, h3, he⟩ := bind_eq_ok.1 hx
      obtain ⟨-, rfl⟩ := Prod.mk.inj (Except.ok.inj he)
      have a := parse_token_shorter hl
      have b := shrinks_listLoop _ n (fun i => shrinks_skip (h i)) s1 w s2 h2
      have c := scan_token_shorter h3
      dsimp only at *
      omega

end

/-- The parser of every type leaves no more than it was given, so the loops never run out of fuel. -/
theorem shrinks_value {ext : External} (errmode : assign_error_mode) (tp : Ty ext) : Shrinks (parse_json_value errmode tp) := by
  induction tp with
  | scalar s => exact shrinks_skip (shrinks_scalar errmode s)
  | string => exact shrinks_skip (shrinks_string _)
  | option s => exact shrinks_skip (shrinks_option errmode s)
  | fixed_dim n t ih => exact shrinks_skip (shrinks_fixed_dim n ih)
  | var_dim t ih => exact shrinks_skip (shrinks_var_dim ih)
  | struct n names types ih => exact shrinks_skip (shrinks_struct ih)

end Dynd.Json
