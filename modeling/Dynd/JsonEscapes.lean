import Dynd.JsonRespelling
/-!
# Escapes and the outcome of a parse

`parse_number_json` unescapes a literal and then converts the literal as it is
spelled, and `unescape_string` has no case for surrogate pairs. Where neither
matters (`ReadsAsMeant`), documents that differ in escapes parse to the same
value or both fail.
-/
namespace Dynd.Json
open Lib Parse

/-! ## Literals that are read as they are meant -/

/-- A literal here has no surrogate pair. -/
def TextMeant (begin : List UInt8) : Prop :=
  ∀ q, parse_doublequote_string_no_ws begin = .ok (some q) → NoPairs q.str

/-- A literal here has no surrogate pair, and its spelling converts as its text does. -/
def NumberMeant {D : Type} (string_to_number : List UInt8 → Except exception D) (begin : List UInt8) : Prop :=
  ∀ q, parse_doublequote_string_no_ws begin = .ok (some q) → NoPairs q.str ∧
    ∀ t, unescape_string q.str = .ok t → (string_to_number q.str).toOption = (string_to_number t).toOption

section
variable {ext : External} (errmode : assign_error_mode)

def ScalarMeant : Scalar ext → List UInt8 → Prop
  | .bool, begin => TextMeant begin
  | .int k, begin => NumberMeant (fun str => string_to_number k str errmode) begin
  | .real id, begin => NumberMeant (fun str => ext.string_to_real id str errmode) begin
  | .text _, begin => TextMeant (skip_whitespace begin)

/-- Each of the `n` values of a list that is read. -/
def ListMeant (message : String) : (n : ℕ) → {V : Fin n → Type} → ((i : Fin n) → Parser (V i)) →
    (Fin n → List UInt8 → Prop) → List UInt8 → Prop
  | 0, _, _, _, _ => True
  | n + 1, _, el, meant, begin => meant 0 begin ∧ ∀ v r r', el 0 begin = .ok (v, r) →
      parseComma message (n = 0) r = .ok r' → ListMeant message n (fun i => el i.succ) (fun i => meant i.succ) r'

/-- Each value that the loop reads in its first `fuel` rounds. -/
def VarMeant {D : Type} (el : Parser D) (meant : List UInt8 → Prop) : ℕ → List UInt8 → Prop
  | 0, _ => True
  | fuel + 1, begin => meant begin ∧ ∀ v r r', el begin = .ok (v, r) → parse_token [ch ','] r = some r' →
      VarMeant el meant fuel r'

section
variable {n : ℕ} {V : Fin n → Type} (names : Fin n → List UInt8) (el : (i : Fin n) → Parser (V i))
  (meant : Fin n → List UInt8 → Prop)

/-- A value that is skipped may be spelled in any way. -/
def FieldMeant (name begin : List UInt8) : Prop := ∀ i, get_field_index names name = some i → meant i begin

/-- Each name and each value that the loop reads in its first `fuel` rounds. -/
def ObjectMeant : ℕ → List UInt8 → Prop
  | 0, _ => True
  | fuel + 1, begin => TextMeant (skip_whitespace begin) ∧ ∀ name r, parseName begin = .ok (name, r) →
      FieldMeant names meant name r ∧ ∀ data x r', parseField names el data name r = .ok x →
        parse_token [ch ','] x.2 = some r' → ObjectMeant fuel r'

def StructMeant (begin : List UInt8) : Prop :=
  (∀ r, parse_token [ch '{'] begin = some r → ∀ fuel, ObjectMeant names el meant fuel r) ∧
  ∀ r, parse_token [ch '['] begin = some r →
    ListMeant "expected list item separator ','" n (fun i begin => el i (skip_whitespace begin))
      (fun i begin => meant i (skip_whitespace begin)) r

end

/-- No string literal that `parse_json_value` reads has a surrogate pair, and
each one that it reads for a number converts as its text does. Members that are
skipped do not count. -/
def ReadsAsMeant : Ty ext → List UInt8 → Prop
  | .scalar s, begin => ScalarMeant errmode s (skip_whitespace begin)
  | .string, begin => TextMeant (skip_whitespace (skip_whitespace begin))
  | .option _, begin => TextMeant (skip_whitespace (skip_whitespace begin))
  | .fixed_dim n t, begin => ∀ r, parse_token [ch '['] (skip_whitespace begin) = some r →
      ListMeant "array is too short, expected ',' list item separator" n (fun _ => parse_json_value errmode t)
        (fun _ => ReadsAsMeant t) r
  | .var_dim t, begin => ∀ r fuel, parse_token [ch '['] (skip_whitespace begin) = some r →
      VarMeant (parse_json_value errmode t) (ReadsAsMeant t) fuel r
  | .struct _ names types, begin =>
    StructMeant names (fun i => parse_json_value errmode (types i)) (fun i => ReadsAsMeant (types i)) (skip_whitespace begin)

end

/-! ## The parsers side by side -/

/-- The same value, and related texts after it. -/
def SameValue {α : Type} (x y : α × List UInt8) : Prop := x.1 = y.1 ∧ SameText x.2 y.2

/-- Two parsers of one type, where both texts are read as they are meant. -/
def SideBySide {α : Type} (parser : Parser α) (meant : List UInt8 → Prop) : Prop :=
  ∀ s s', SameText s s' → meant s → meant s' → Agree SameValue (parser s) (parser s')

theorem agree_fail {α β : Type} {R : α → β → Prop} {p p' : List UInt8} {m m' : String} :
    Agree R (fail p m) (fail p' m') := .error _ _

/-! ### Leaves -/

/-- The branch of every leaf for a string literal. -/
theorem SameText.leaf {α : Type} {s s' : List UInt8} {read read' : Quoted → Except json_error α}
    {other other' : Except json_error (α × List UInt8)} (h : SameText s s')
    (hread : ∀ q q', SameLiteral q q' → parse_doublequote_string_no_ws s = .ok (some q) →
      parse_doublequote_string_no_ws s' = .ok (some q') → Agree (fun a b => a = b) (read q) (read' q'))
    (hother : Agree SameValue other other') :
    Agree SameValue
      (scan (parse_doublequote_string_no_ws s) >>= fun o => match o with
        | some q => do
          let value ← read q
          return (value, q.rest)
        | none => other)
      (scan (parse_doublequote_string_no_ws s') >>= fun o => match o with
        | some q => do
          let value ← read' q
          return (value, q.rest)
        | none => other') := by
  obtain ⟨o, o', ho, ho', hrel⟩ := h.quoted
  rw [ho, ho']
  cases hrel with
  | none => exact hother
  | some hq =>
    apply (hread _ _ hq ho ho').bind
    rintro a b - - rfl
    exact .ok ⟨rfl, hq.rest⟩

/-- Both literals stand for one text, or for none. -/
theorem SameLiteral.text {q q' : Quoted} (h : SameLiteral q q') (hp : NoPairs q.str) (hp' : NoPairs q'.str) :
    Agree (fun t t' => t = t') q.text q'.text := by
  rw [Quoted.text_eq h.escaped, Quoted.text_eq h.escaped']
  exact h.str.text hp hp'

/-- A conversion of the text of both. -/
theorem SameLiteral.convert {D : Type} {q q' : Quoted} (h : SameLiteral q q') (hp : NoPairs q.str) (hp' : NoPairs q'.str)
    (set : List UInt8 → Except exception D) :
    Agree (fun a b => a = b) (do set (← q.text)) (do set (← q'.text)) := by
  apply (h.text hp hp').bind
  rintro t t' - - rfl
  exact agree_of_toOption rfl

theorem side_by_side_bool (errmode : assign_error_mode) : SideBySide (parse_bool_json errmode) TextMeant := by
  intro s s' h hs hs'
  refine h.tryToken trueToken_bytes (fun r r' hr => .ok ⟨rfl, hr⟩) ?_
  refine h.tryToken falseToken_bytes (fun r r' hr => .ok ⟨rfl, hr⟩) ?_
  refine h.tryToken nullToken_bytes (fun r r' hr => ?_) ?_
  · split_ifs
    · exact agree_fail
    · exact .ok ⟨rfl, hr⟩
  refine h.tryNumber (fun n r r' hr => ?_) ?_
  · split_ifs
    · exact .ok ⟨rfl, hr⟩
    · exact .ok ⟨rfl, hr⟩
    · exact agree_fail
  · refine h.leaf (fun q q' hq hq1 hq1' => ?_) agree_fail
    exact (hq.convert (hs q hq1) (hs' q' hq1') _).mapError _ _

/-- A number that both texts have in full. -/
theorem agree_number {D : Type} (conv : List UInt8 → Except exception D) (n : List UInt8) {r r' : List UInt8} (hr : SameText r r') :
    Agree SameValue (convert (conv n) >>= fun value => pure (value, r)) (convert (conv n) >>= fun value => pure (value, r')) := by
  apply (agree_of_toOption (x := convert (conv n)) rfl).bind
  rintro a b - - rfl
  exact .ok ⟨rfl, hr⟩

/-- The conversion of a number is given the spelling of the literal. -/
theorem side_by_side_number {D : Type} (conv : List UInt8 → Except exception D) :
    SideBySide (parse_number_json conv) (NumberMeant conv) := by
  intro s s' h hs hs'
  refine h.tryNumber (fun n r r' hr => agree_number conv n hr) ?_
  refine h.leaf (fun q q' hq hq1 hq1' => ?_) agree_fail
  obtain ⟨hp, hc⟩ := hs q hq1
  obtain ⟨hp', hc'⟩ := hs' q' hq1'
  have hread : ∀ q : Quoted, q.escaped = q.str.contains (ch '\\') → (if !q.escaped then conv q.str else do
      let _s ← unescape_string q.str
      conv q.str) = unescape_string q.str >>= fun _ => conv q.str := by
    intro q he
    split_ifs with h0
    · rw [unescape_of_plain (by simpa [he] using h0), ok_bind]
    · rfl
  rw [hread q hq.escaped, hread q' hq.escaped']
  apply Agree.mapError
  apply (hq.str.text hp hp').bind
  rintro t t' ht ht' rfl
  apply agree_of_toOption
  rw [hc t ht, hc' t ht']

theorem side_by_side_string {D : Type} (set : List UInt8 → Except exception D) :
    SideBySide (parse_string_json set) fun begin => TextMeant (skip_whitespace begin) := by
  intro s s' h hs hs'
  refine h.skip_whitespace.leaf (fun q q' hq hq1 hq1' => ?_) agree_fail
  exact (hq.convert (hs q hq1) (hs' q' hq1') _).mapError _ _

theorem side_by_side_datetime {D : Type} (set : List UInt8 → Except exception D) :
    SideBySide (parse_datetime_json set) fun begin => TextMeant (skip_whitespace begin) := by
  intro s s' h hs hs'
  obtain ⟨o, o', ho, ho', hrel⟩ := h.skip_whitespace.quoted
  rw [parse_datetime_json, parse_datetime_json]
  simp only [ho, ho']
  cases hrel with
  | none => exact agree_fail
  | @some q q' hq =>
    apply ((hq.text (hs q ho) (hs' q' ho')).mapError _ _).bind
    rintro t t' - - rfl
    have hset : Agree (fun a b => a = b) (convertAt (skip_whitespace s) (set t)) (convertAt (skip_whitespace s') (set t)) :=
      (agree_of_toOption rfl).mapError _ _
    apply hset.bind
    rintro a b - - rfl
    exact .ok ⟨rfl, hq.rest⟩

theorem side_by_side_option_bool : SideBySide parse_option_bool fun _ => True := by
  intro s s' h _ _
  refine h.tryToken trueToken_bytes (fun r r' hr => .ok ⟨rfl, hr⟩) ?_
  refine h.tryToken falseToken_bytes (fun r r' hr => .ok ⟨rfl, hr⟩) ?_
  refine h.tryNumber (fun n r r' hr => ?_) agree_fail
  split_ifs
  · exact .ok ⟨rfl, hr⟩
  · exact .ok ⟨rfl, hr⟩
  · exact agree_fail

theorem side_by_side_option_number {D : Type} (conv : List UInt8 → Except exception D) :
    SideBySide (parse_option_number conv) fun _ => True := by
  intro s s' h _ _
  exact h.tryNumber (fun n r r' hr => agree_number conv n hr) agree_fail

section
variable {ext : External} (errmode : assign_error_mode)

theorem side_by_side_option_value (s : Scalar ext) : SideBySide (parse_option_value errmode s) fun _ => True := by
  cases s with
  | bool => exact side_by_side_option_bool
  | int k => exact side_by_side_option_number _
  | real id => exact side_by_side_option_number _
  | text id => exact fun _ _ _ _ _ => agree_fail

theorem side_by_side_option (tp : Scalar ext) :
    SideBySide (parse_option_json errmode tp) fun begin => TextMeant (skip_whitespace begin) := by
  intro s s' h hs hs'
  have hskip := h.skip_whitespace
  refine hskip.tryToken nullToken_bytes (fun r r' hr => ?_) ?_
  · apply (agree_of_toOption (x := convert (assign_na tp)) rfl).bind
    rintro a b - - rfl
    exact .ok ⟨rfl, hr⟩
  · refine hskip.leaf (fun q q' hq hq1 hq1' => ?_) (side_by_side_option_value errmode tp _ _ hskip trivial trivial)
    exact (hq.convert (hs q hq1) (hs' q' hq1') _).mapError _ _

theorem side_by_side_scalar (tp : Scalar ext) : SideBySide (parse_scalar_json errmode tp) (ScalarMeant errmode tp) := by
  cases tp with
  | bool => exact side_by_side_bool errmode
  | int k => exact side_by_side_number _
  | real id => exact side_by_side_number _
  | text id =>
    rw [parse_scalar_json]
    cases ext.kind id with
    | string_kind => exact side_by_side_string _
    | datetime_kind => exact side_by_side_datetime _
    | type_kind => exact side_by_side_datetime _

end

/-! ### Lists -/

theorem parseComma_agree {message : String} {last : Bool} {s s' : List UInt8} (h : SameText s s') :
    Agree SameText (parseComma message last s) (parseComma message last s') := by
  rw [parseComma, parseComma]
  split_ifs
  · exact .ok h
  · exact ((h.byteToken (by decide)).expect _ _).mapError _ _

theorem side_by_side_listLoop (message : String) (n : ℕ) {V : Fin n → Type} {el : (i : Fin n) → Parser (V i)}
    {meant : Fin n → List UInt8 → Prop} (hel : ∀ i, SideBySide (el i) (meant i)) :
    SideBySide (listLoop message n el) (ListMeant message n el meant) := by
  induction n with
  | zero => exact fun s s' h _ _ => .ok ⟨rfl, h⟩
  | succ n ih =>
    intro s s' h hs hs'
    rw [listLoop, listLoop]
    apply (hel 0 s s' h hs.1 hs'.1).bind
    rintro ⟨v, r⟩ ⟨v', r'⟩ hv hv' ⟨rfl, hr⟩
    apply (parseComma_agree hr).bind
    intro t t' ht ht' hrel
    apply (ih (fun i => hel i.succ) t t' hrel (hs.2 v r t hv ht) (hs'.2 v r' t' hv' ht')).bind
    rintro ⟨vs, u⟩ ⟨vs', u'⟩ - - ⟨rfl, hu⟩
    exact .ok ⟨rfl, hu⟩

theorem expect_agree {s s' : List UInt8} (h : SameText s s') {c : UInt8} (hc : c ≠ ch '"') (e e' : parse_error) :
    Agree SameText (scan (expect (parse_token [c] s) e)) (scan (expect (parse_token [c] s') e')) :=
  ((h.byteToken hc).expect e e').mapError _ _

theorem side_by_side_fixed_dim {D : Type} (n : ℕ) {el : Parser D} {meant : List UInt8 → Prop} (hel : SideBySide el meant) :
    SideBySide (parse_strided_dim_json n el) fun begin => ∀ r, parse_token [ch '['] begin = some r →
      ListMeant "array is too short, expected ',' list item separator" n (fun _ => el) (fun _ => meant) r := by
  intro s s' h hs hs'
  apply (expect_agree h (by decide) _ _).bind
  intro r r' hr hr' hrel
  have hmeant := hs r (expect_eq_ok.1 (scan_eq_ok.1 hr))
  have hmeant' := hs' r' (expect_eq_ok.1 (scan_eq_ok.1 hr'))
  apply (side_by_side_listLoop _ n (fun _ => hel) r r' hrel hmeant hmeant').bind
  rintro ⟨v, t⟩ ⟨v', t'⟩ - - ⟨rfl, ht⟩
  apply (expect_agree ht (by decide) _ _).bind
  intro u u' _ _ hu
  exact .ok ⟨rfl, hu⟩

theorem side_by_side_varLoop {D : Type} {el : Parser D} {meant : List UInt8 → Prop} (hel : SideBySide el meant) (fuel : ℕ) :
    SideBySide (varLoop el fuel) (VarMeant el meant fuel) := by
  induction fuel with
  | zero => exact fun _ _ _ _ _ => agree_fail
  | succ fuel ih =>
    intro s s' h hs hs'
    rw [varLoop, varLoop]
    apply (hel s s' h hs.1 hs'.1).bind
    rintro ⟨v, r⟩ ⟨v', r'⟩ hv hv' ⟨rfl, hr⟩
    have hcomma := hr.byteToken (c := ch ',') (by decide)
    dsimp only
    cases ho : parse_token [ch ','] r with
    | none =>
      rw [ho] at hcomma
      generalize parse_token [ch ','] r' = o' at hcomma
      cases hcomma
      exact .ok ⟨rfl, hr⟩
    | some t =>
      rw [ho] at hcomma
      cases ho' : parse_token [ch ','] r' with
      | none =>
        rw [ho'] at hcomma
        cases hcomma
      | some t' =>
        rw [ho'] at hcomma
        cases hcomma with
        | some ht =>
          apply (ih t t' ht (hs.2 v r t hv ho) (hs'.2 v r' t' hv' ho')).bind
          rintro ⟨vs, u⟩ ⟨vs', u'⟩ - - ⟨rfl, hu⟩
          exact .ok ⟨rfl, hu⟩

/-- Both texts are given the fuel that is enough for either. -/
theorem side_by_side_var_dim {D : Type} {el : Parser D} {meant : List UInt8 → Prop} (hel : SideBySide el meant)
    (hshrinks : Shrinks el) : SideBySide (parse_var_dim_json el) fun begin => ∀ r fuel, parse_token [ch '['] begin = some r →
      VarMeant el meant fuel r := by
  intro s s' h hs hs'
  apply (expect_agree h (by decide) _ _).bind
  intro r r' hr hr' hrel
  have hclose := hrel.byteToken (c := ch ']') (by decide)
  generalize parse_token [ch ']'] r = o at hclose
  generalize parse_token [ch ']'] r' = o' at hclose
  cases hclose with
  | some ht => exact .ok ⟨rfl, ht⟩
  | none =>
    have hmeant := fun fuel => hs r fuel (expect_eq_ok.1 (scan_eq_ok.1 hr))
    have hmeant' := fun fuel => hs' r' fuel (expect_eq_ok.1 (scan_eq_ok.1 hr'))
    have hloop := side_by_side_varLoop hel (max (r.length + 1) (r'.length + 1)) r r' hrel (hmeant _) (hmeant' _)
    rw [varLoop_fuel hshrinks (r.length + 1) _ r le_rfl (le_max_left _ _),
      varLoop_fuel hshrinks (r'.length + 1) _ r' le_rfl (le_max_right _ _)] at hloop
    apply hloop.bind
    rintro ⟨v, t⟩ ⟨v', t'⟩ - - ⟨rfl, ht⟩
    apply (expect_agree ht (by decide) _ _).bind
    intro u u' _ _ hu
    exact .ok ⟨rfl, hu⟩

/-! ### Structs -/

section
variable {n : ℕ} {V : Fin n → Type} {names : Fin n → List UInt8} {el : (i : Fin n) → Parser (V i)}
  {meant : Fin n → List UInt8 → Prop}

theorem side_by_side_name : SideBySide parseName fun begin => TextMeant (skip_whitespace begin) := by
  intro s s' h hs hs'
  obtain ⟨o, o', ho, ho', hrel⟩ := h.skip_whitespace.quoted
  rw [parseName, parseName]
  simp only [ho, ho', ok_bind]
  cases hrel with
  | none => exact .error _ _
  | @some q q' hq =>
    apply (expect_agree hq.rest (c := ch ':') (by decide) _ _).bind
    intro r r' _ _ hr
    apply ((hq.text (hs q ho) (hs' q' ho')).mapError _ _).bind
    rintro t t' - - rfl
    exact .ok ⟨rfl, hr⟩

theorem parseField_agree (hel : ∀ i, SideBySide (el i) (meant i)) (data : (i : Fin n) → Option (V i)) (name : List UInt8) :
    SideBySide (parseField names el data name) (FieldMeant names meant name) := by
  intro s s' h hs hs'
  rw [parseField, parseField]
  cases hf : get_field_index names name with
  | none => exact (h.skip_json_value.mapError _ _).map fun _ _ hr => ⟨rfl, hr⟩
  | some i =>
    apply (hel i s s' h (hs i hf) (hs' i hf)).map
    rintro ⟨v, r⟩ ⟨v', r'⟩ ⟨rfl, hr⟩
    exact ⟨rfl, hr⟩

theorem side_by_side_objectLoop (hel : ∀ i, SideBySide (el i) (meant i)) (fuel : ℕ) (data : (i : Fin n) → Option (V i)) :
    SideBySide (objectLoop names el fuel data) (ObjectMeant names el meant fuel) := by
  induction fuel generalizing data with
  | zero => exact fun _ _ _ _ _ => agree_fail
  | succ fuel ih =>
    intro s s' h hs hs'
    rw [objectLoop, objectLoop]
    apply (side_by_side_name s s' h hs.1 hs'.1).bind
    rintro ⟨name, r⟩ ⟨name', r'⟩ hn hn' ⟨rfl, hr⟩
    obtain ⟨hfield, hnext⟩ := hs.2 name r hn
    obtain ⟨hfield', hnext'⟩ := hs'.2 name r' hn'
    apply (parseField_agree hel data name r r' hr hfield hfield').bind
    rintro ⟨d, t⟩ ⟨d', t'⟩ hd hd' ⟨rfl, ht⟩
    have hcomma := ht.byteToken (c := ch ',') (by decide)
    dsimp only
    cases ho : parse_token [ch ','] t with
    | none =>
      rw [ho] at hcomma
      generalize parse_token [ch ','] t' = o' at hcomma
      cases hcomma
      exact .ok ⟨rfl, ht⟩
    | some u =>
      rw [ho] at hcomma
      cases ho' : parse_token [ch ','] t' with
      | none =>
        rw [ho'] at hcomma
        cases hcomma
      | some u' =>
        rw [ho'] at hcomma
        cases hcomma with
        | some hu => exact ih d u u' hu (hnext data _ u hd ho) (hnext' data _ u' hd' ho')

theorem members_agree (hel : ∀ i, SideBySide (el i) (meant i)) (hshrinks : ∀ i, Shrinks (el i)) :
    SideBySide (parseMembers names el) fun begin => ∀ fuel, ObjectMeant names el meant fuel begin := by
  intro s s' h hs hs'
  rw [parseMembers, parseMembers]
  have hclose := h.byteToken (c := ch '}') (by decide)
  generalize parse_token [ch '}'] s = o at hclose
  generalize parse_token [ch '}'] s' = o' at hclose
  cases hclose with
  | some ht => exact .ok ⟨rfl, ht⟩
  | none =>
    have hloop := side_by_side_objectLoop hel (max (s.length + 1) (s'.length + 1)) (fun _ => none) s s' h (hs _) (hs' _)
    rw [objectLoop_fuel hshrinks (s.length + 1) _ _ s le_rfl (le_max_left _ _),
      objectLoop_fuel hshrinks (s'.length + 1) _ _ s' le_rfl (le_max_right _ _)] at hloop
    apply hloop.bind
    rintro ⟨d, t⟩ ⟨d', t'⟩ - - ⟨rfl, ht⟩
    apply (expect_agree ht (by decide) _ _).bind
    intro u u' _ _ hu
    exact .ok ⟨rfl, hu⟩

/-- Both objects have the same fields set. -/
theorem complete_agree (position position' : List UInt8) (data : (i : Fin n) → Option (V i)) :
    Agree (fun a b => a = b) (complete names position data) (complete names position' data) := by
  rw [complete, complete]
  split
  · exact .ok rfl
  · exact .error _ _

theorem side_by_side_struct (hel : ∀ i, SideBySide (el i) (meant i)) (hshrinks : ∀ i, Shrinks (el i)) :
    SideBySide (parse_struct_json names el) (StructMeant names el meant) := by
  intro s s' h hs hs'
  rw [parse_struct_json, parse_struct_json, parse_struct_json_from_object, parse_struct_json_from_object]
  have hopen := h.byteToken (c := ch '{') (by decide)
  cases ho : parse_token [ch '{'] s with
  | some r =>
    obtain ⟨r', ho', hr⟩ := h.token_some (no_quote_of_all (by decide)) ho
    rw [ho']
    apply (members_agree hel hshrinks r r' hr (hs.1 r ho) (hs'.1 r' ho')).bind
    rintro ⟨d, t⟩ ⟨d', t'⟩ - - ⟨rfl, ht⟩
    apply (complete_agree _ _ d).bind
    rintro v v' - - rfl
    exact .ok ⟨rfl, ht⟩
  | none =>
    rw [ho] at hopen
    generalize parse_token [ch '{'] s' = o' at hopen
    cases hopen
    rw [parse_tuple_json_from_list, parse_tuple_json_from_list]
    have hlist := h.byteToken (c := ch '[') (by decide)
    cases hl : parse_token [ch '['] s with
    | none =>
      rw [hl] at hlist
      generalize parse_token [ch '['] s' = o' at hlist
      cases hlist
      exact agree_fail
    | some r =>
      obtain ⟨r', hl', hr⟩ := h.token_some (no_quote_of_all (by decide)) hl
      rw [hl']
      have hskip : ∀ i, SideBySide (fun begin => el i (skip_whitespace begin)) (fun begin => meant i (skip_whitespace begin)) :=
        fun i t t' ht hm hm' => hel i _ _ ht.skip_whitespace hm hm'
      apply (side_by_side_listLoop _ n hskip r r' hr (hs.2 r hl) (hs'.2 r' hl')).bind
      rintro ⟨v, t⟩ ⟨v', t'⟩ - - ⟨rfl, ht⟩
      apply (expect_agree ht (by decide) _ _).bind
      intro u u' _ _ hu
      exact .ok ⟨rfl, hu⟩

end

/-! ## The outcome -/

section
variable {ext : External} (errmode : assign_error_mode)

theorem side_by_side_value (tp : Ty ext) : SideBySide (parse_json_value errmode tp) (ReadsAsMeant errmode tp) := by
  induction tp with
  | scalar s => exact fun t t' h hm hm' => side_by_side_scalar errmode s _ _ h.skip_whitespace hm hm'
  | string => exact fun t t' h hm hm' => side_by_side_string _ _ _ h.skip_whitespace hm hm'
  | option s => exact fun t t' h hm hm' => side_by_side_option errmode s _ _ h.skip_whitespace hm hm'
  | fixed_dim n t ih => exact fun s s' h hm hm' => side_by_side_fixed_dim n ih _ _ h.skip_whitespace hm hm'
  | var_dim t ih =>
    exact fun s s' h hm hm' => side_by_side_var_dim ih (shrinks_value errmode t) _ _ h.skip_whitespace hm hm'
  | struct n names types ih =>
    exact fun s s' h hm hm' =>
      side_by_side_struct ih (fun i => shrinks_value errmode (types i)) _ _ h.skip_whitespace hm hm'

/-- Two documents that differ in escapes, each read as it is meant: both are
rejected, or both are accepted with the same value. -/
theorem parse_json_respelled (tp : Ty ext) {json json' : List UInt8} (h : SameText json json')
    (hm : ReadsAsMeant errmode tp json) (hm' : ReadsAsMeant errmode tp json') :
    (parse_json errmode tp json).toOption = (parse_json errmode tp json').toOption := by
  have hagree : Agree (fun a b => a = b) (parse_json errmode tp json) (parse_json errmode tp json') := by
    apply (side_by_side_value errmode tp json json' h hm hm').bind
    rintro ⟨v, r⟩ ⟨v', r'⟩ - - ⟨rfl, hr⟩
    have hend := hr.skip_whitespace
    dsimp only
    generalize skip_whitespace r = t at hend
    generalize skip_whitespace r' = t' at hend
    cases hend with
    | nil => exact .ok rfl
    | byte _ _ => exact agree_fail
    | literal _ _ => exact agree_fail
  exact hagree.toOption_eq

end

/-- The shortest pair is twelve bytes long. -/
theorem noPairs_of_short {body : List UInt8} (h : body.length < 12) : NoPairs body := by
  rintro u lead trail v - hl ht - - rfl
  simp only [List.length_append, List.length_cons] at h
  omega

theorem respelled_text : SameText (['"', 'a', '"'].map ch) (['"', '\\', 'u', '0', '0', '6', '1', '"'].map ch) := by
  have hraw : Spells 'a' [ch 'a'] := .raw (by decide) (by decide)
  have hhex : Spells 'a' (ch '\\' :: ch 'u' :: [ch '0', ch '0', ch '6', ch '1']) := .hex4 rfl (List.all_eq_true.mp rfl) (by decide)
  exact .literal (.char hraw hhex .nil) .nil

theorem parse_json_respelled_a :
    (parse_json .fractional (.string : Ty External.none) (['"', 'a', '"'].map ch)).toOption =
      (parse_json .fractional (.string : Ty External.none) (['"', '\\', 'u', '0', '0', '6', '1', '"'].map ch)).toOption := by
  apply parse_json_respelled .fractional .string respelled_text
  · intro q hq
    obtain rfl := Option.some.inj (Except.ok.inj hq)
    exact noPairs_of_short (by decide)
  · intro q hq
    obtain rfl := Option.some.inj (Except.ok.inj hq)
    exact noPairs_of_short (by decide)

/-- `"12"` is an integer and `"1\u0032"` is not. -/
theorem escaped_number_rejected :
    ¬ (∀ (errmode : assign_error_mode) (tp : Ty External.none) (json json' : List UInt8), SameText json json' →
      (parse_json errmode tp json).toOption = (parse_json errmode tp json').toOption) := by
  intro h
  have hraw : Spells '2' [ch '2'] := .raw (by decide) (by decide)
  have hhex : Spells '2' (ch '\\' :: ch 'u' :: [ch '0', ch '0', ch '3', ch '2']) := .hex4 rfl (List.all_eq_true.mp rfl) (by decide)
  have hsame : SameText (['"', '1', '2', '"'].map ch) (['"', '1', '\\', 'u', '0', '0', '3', '2', '"'].map ch) :=
    .literal (.plain (by decide) (by decide) (.char hraw hhex .nil)) .nil
  have hread : (parse_json .fractional (.scalar (.int .int32) : Ty External.none) (['"', '1', '2', '"'].map ch)).toOption =
      some (12 : BitVec 32) := rfl
  have hfail : (parse_json .fractional (.scalar (.int .int32) : Ty External.none) (['"', '1', '\\', 'u', '0', '0', '3', '2', '"'].map ch)).toOption =
      none := rfl
  have heq := h .fractional (.scalar (.int .int32)) _ _ hsame
  rw [hread, hfail] at heq
  cases heq

end Dynd.Json
