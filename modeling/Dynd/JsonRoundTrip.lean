import Dynd.JsonLiterals
/-!
# Reading formatted JSON back

Formatter and parser meet on a text and the value it was formatted from:
`ReadsBack` says that the parser reads the text back to the value, whatever
follows it, exactly when a condition holds. It is carried through the type.
-/
namespace Dynd.Json
open Lib Parse

variable {α : Type}

@[simp] theorem scan_ok (a : α) : scan (.ok a) = .ok a := rfl

@[simp] theorem convert_ok (a : α) : convert (.ok a) = .ok a := rfl

@[simp] theorem convertAt_ok (position : List UInt8) (a : α) : convertAt position (.ok a) = .ok a := rfl

@[simp] theorem scan_error (e : parse_error) : scan (.error e : Except parse_error α) = .error (.parse e) := rfl

theorem scan_eq_ok {x : Except parse_error α} {a : α} : scan x = .ok a ↔ x = .ok a := by
  cases x <;> simp

/-- `parser` reads `text` back as `v` when `good` holds, and does not read it at all when not. -/
structure ReadsBack (parser : Parser α) (text : List UInt8) (v : α) (good : Prop) : Prop where
  reads : good → ∀ r, Stops isNumberByte r → parser (text ++ r) = .ok (v, r)
  only : ∀ r x, Stops isNumberByte r → parser (text ++ r) = .ok x → good

/-- A text that is always read back. -/
theorem ReadsBack.of_reads {parser : Parser α} {text : List UInt8} {v : α}
    (h : ∀ r, Stops isNumberByte r → parser (text ++ r) = .ok (v, r)) : ReadsBack parser text v True :=
  ⟨fun _ => h, fun _ _ _ _ => trivial⟩

/-- What formatted values start with. -/
def Opens (text : List UInt8) : Prop := ∃ c t, text = c :: t ∧ isspace c = false ∧ c ≠ ch ']'

theorem Opens.skip {text : List UInt8} (h : Opens text) (r : List UInt8) : skip_whitespace (text ++ r) = text ++ r := by
  obtain ⟨c, t, rfl, hc, -⟩ := h
  exact skip_whitespace_here hc _

theorem ReadsBack.skip {parser : Parser α} {text : List UInt8} {v : α} {good : Prop} (h : ReadsBack parser text v good)
    (ho : Opens text) : ReadsBack (fun begin => parser (skip_whitespace begin)) text v good := by
  constructor
  · intro hg r hr
    simp only [ho.skip]
    exact h.reads hg r hr
  · intro r x hr hx
    simp only [ho.skip] at hx
    exact h.only r x hr hx

/-! ## String literals -/

theorem eq_bytes {cp : UInt32} (h : cp.toNat < 65536) : cp = (cp >>> 8).toUInt8.toUInt32 * 256 + cp.toUInt8.toUInt32 := by
  apply UInt32.toNat_inj.1
  simp [Nat.shiftRight_eq_div_pow]
  omega

/-- Each character is printed as something that stands for it. -/
theorem print_escaped_spec (c : Char) : Escapes c (print_escaped_unicode_codepoint c.val) := by
  have h80 : (0x80 : UInt32).toNat = 128 := rfl
  rw [print_escaped_unicode_codepoint]
  by_cases hlt : c.val < 0x80
  · rw [if_pos hlt]
    rw [UInt32.lt_iff_toNat_lt, h80] at hlt
    refine .case (by decide) fun _ => ?_
    refine .case (by decide) fun _ => ?_
    refine .case (by decide) fun _ => ?_
    refine .case (by decide) fun _ => ?_
    refine .case (by decide) fun _ => ?_
    refine .case (by decide) fun hb => ?_
    refine .case (by decide) fun _ => ?_
    refine .case (by decide) fun hq => ?_
    split_ifs with hctl
    · exact .hexadecimal (eq_bytes (by omega))
    · exact .byte hlt hq hb
  · rw [if_neg hlt, Utf8.append_char, Option.getD_some]
    rw [UInt32.lt_iff_toNat_lt, h80] at hlt
    refine .raw (raw_bytes ?_ ?_)
    · rintro rfl
      exact hlt (by decide)
    · rintro rfl
      exact hlt (by decide)

/-- The characters of a literal, escaped. -/
def escaped (cs : List Char) : List UInt8 := cs.flatMap fun c => print_escaped_unicode_codepoint c.val

theorem encodedLoop_encode (cs : List Char) (n : ℕ) (h : (encode cs).length ≤ n) :
    encodedLoop n (encode cs) = escaped cs := by
  induction cs generalizing n with
  | nil =>
    rw [encode, List.flatMap_nil, encodedLoop.eq_def]
    rfl
  | cons c cs ih =>
    obtain ⟨b, trails, he, -⟩ := Utf8.utf8EncodeChar_complete c
    rw [encode_cons, List.length_append, he, List.length_cons] at h
    obtain ⟨n, rfl⟩ : ∃ k, n = k + 1 := ⟨n - 1, by omega⟩
    have hnext := StringEncodings.noerror_next_utf8_char c (encode cs)
    rw [encode_cons]
    rw [he, List.cons_append] at hnext ⊢
    rw [encodedLoop]
    · simp only [hnext, ih n (by omega)]
      rfl
    · intro hnil
      cases hnil

/-- A formatted string is read as a literal, whose text is the string. -/
theorem parse_encoded_string (cs : List Char) (r : List UInt8) : ∃ q : Quoted,
    parse_doublequote_string_no_ws (format_json_encoded_string (encode cs) ++ r) = .ok (some q) ∧
      q.text = .ok (encode cs) ∧ q.rest = r := by
  rw [format_json_encoded_string, encodedLoop_encode cs _ le_rfl]
  exact quoted_read print_escaped_spec cs r

/-! ## Scalars -/

theorem parse_token_other {c d : UInt8} (hd : isspace d = false) (hne : d ≠ c) (token r : List UInt8) :
    parse_token (c :: token) (d :: r) = none := by
  rw [parse_token, skip_whitespace_here hd, parse_token_no_ws, if_neg]
  rintro ⟨t, ht⟩
  exact hne (List.cons.inj ht).1.symm

theorem parse_token_self {c : UInt8} (hc : isspace c = false) (token r : List UInt8) :
    parse_token (c :: token) (c :: token ++ r) = some r :=
  (parse_token_here (stops_cons.2 hc)).2 rfl

theorem opens_intText (z : ℤ) : Opens (intText z) := value_head (.number (jsonNumber_intText z))

theorem opens_bool (v : Bool) : Opens (format_json_bool v) := by
  cases v
  · exact ⟨_, _, rfl, by decide, by decide⟩
  · exact ⟨_, _, rfl, by decide, by decide⟩

theorem opens_number (k : int_type_id) (x : k.Data) : Opens (format_json_number k x) := by
  rw [format_json_number, print_builtin_scalar_eq]
  exact opens_intText _

/-- Numbers start with a byte that no other value starts with. -/
theorem intText_head (z : ℤ) : ∃ c t, intText z = c :: t ∧ isspace c = false ∧ isNumberByte c = true := by
  obtain ⟨c, t, he, hs, -⟩ := opens_intText z
  exact ⟨c, t, he, hs, (jsonNumber_intText z).bytes c (by rw [he]; exact List.mem_cons_self)⟩

theorem parse_number_intText (z : ℤ) {r : List UInt8} (hr : Stops isNumberByte r) :
    parse_json_number_no_ws (intText z ++ r) = some (intText z, r) :=
  parse_json_number_spec.2 ⟨rfl, jsonNumber_intText z, numberEnds_of_stops hr⟩

theorem readsBack_bool (errmode : assign_error_mode) (v : Bool) :
    ReadsBack (parse_bool_json errmode) (format_json_bool v) v True := by
  apply ReadsBack.of_reads
  intro r _
  cases v with
  | true =>
    have h : parse_token trueToken (format_json_bool true ++ r) = some r := parse_token_self (by decide) _ r
    rw [parse_bool_json, h]
  | false =>
    have h1 : parse_token trueToken (format_json_bool false ++ r) = none :=
      parse_token_other (by decide) (by decide) _ _
    have h2 : parse_token falseToken (format_json_bool false ++ r) = some r := parse_token_self (by decide) _ r
    rw [parse_bool_json, h1, h2]

theorem readsBack_number (errmode : assign_error_mode) (k : int_type_id) (x : k.Data) :
    ReadsBack (parse_number_json fun str => string_to_number k str errmode) (format_json_number k x) x True := by
  apply ReadsBack.of_reads
  intro r hr
  rw [format_json_number, print_builtin_scalar_eq, parse_number_json, parse_number_intText _ hr]
  simp only [string_to_number_intText, convert_ok, ok_bind, pure_eq_ok]

theorem readsBack_string (errmode : assign_error_mode) (cs : List Char) :
    ReadsBack (parse_string_json (Parse.set_from_utf8_string errmode)) (format_json_encoded_string (encode cs))
      (encode cs) True := by
  apply ReadsBack.of_reads
  intro r _
  obtain ⟨q, hq, htext, rfl⟩ := parse_encoded_string cs r
  have hskip : skip_whitespace (format_json_encoded_string (encode cs) ++ q.rest) =
      format_json_encoded_string (encode cs) ++ q.rest := skip_whitespace_here (by decide) _
  rw [parse_string_json, hskip, hq]
  simp only [scan_ok, ok_bind, htext, set_from_utf8_string_encode, convertAt_ok, pure_eq_ok]

/-- A value that is no string and not null gets to the branches of an option. -/
theorem parse_option_value_eq (errmode : assign_error_mode) {ext : External} (s : Scalar ext) {c : UInt8}
    {t : List UInt8} (hc : isspace c = false) (hn : c ≠ ch 'n') (hq : c ≠ ch '"') :
    parse_option_json errmode s (c :: t) = parse_option_value errmode s (c :: t) := by
  have h1 : parse_token nullToken (c :: t) = none := parse_token_other hc hn _ _
  have h2 : parse_doublequote_string_no_ws (c :: t) = .ok none :=
    parse_doublequote_string_no_ws_none (stops_cons.2 (by simpa using hq))
  rw [parse_option_json, skip_whitespace_here hc, h1, h2]
  rfl

theorem parse_option_null (errmode : assign_error_mode) {ext : External} (s : Scalar ext) (r : List UInt8) :
    parse_option_json errmode s (nullToken ++ r) = (·, r) <$> convert (assign_na s) := by
  have hskip : skip_whitespace (nullToken ++ r) = nullToken ++ r := skip_whitespace_here (by decide) _
  have h1 : parse_token nullToken (nullToken ++ r) = some r := parse_token_self (by decide) _ r
  rw [parse_option_json, hskip, h1]
  cases convert (assign_na s) <;> rfl

theorem parse_option_bool_format (b : Bool) (r : List UInt8) :
    parse_option_bool (format_json_bool b ++ r) = .ok (some b, r) := by
  cases b with
  | true =>
    have h : parse_token trueToken (format_json_bool true ++ r) = some r := parse_token_self (by decide) _ r
    rw [parse_option_bool, h]
  | false =>
    have h1 : parse_token trueToken (format_json_bool false ++ r) = none :=
      parse_token_other (by decide) (by decide) _ _
    have h2 : parse_token falseToken (format_json_bool false ++ r) = some r := parse_token_self (by decide) _ r
    rw [parse_option_bool, h1, h2]

theorem readsBack_option_bool (errmode : assign_error_mode) {ext : External} (v : Option Bool) :
    ReadsBack (parse_option_json errmode (.bool : Scalar ext)) (format_json_option_bool v) v True := by
  apply ReadsBack.of_reads
  intro r _
  cases v with
  | none => exact parse_option_null errmode .bool r
  | some b =>
    refine Eq.trans ?_ (parse_option_bool_format b r)
    cases b with
    | true => exact parse_option_value_eq errmode .bool (by decide) (by decide) (by decide)
    | false => exact parse_option_value_eq errmode .bool (by decide) (by decide) (by decide)

theorem parse_option_number_eq {D : Type} (string_to_number : List UInt8 → Except exception D)
    {begin n r : List UInt8} (h : parse_json_number_no_ws begin = some (n, r)) :
    parse_option_number string_to_number begin = (·, r) <$> convert (string_to_number n) := by
  simp only [parse_option_number, h]
  cases string_to_number n with
  | ok v => rfl
  | error e => rfl

theorem readsBack_option_number (errmode : assign_error_mode) {ext : External} (k : int_type_id)
    (v : WithNA (intNA k)) :
    ReadsBack (parse_option_json errmode (.int k : Scalar ext)) (format_json_option_number k v) v True := by
  apply ReadsBack.of_reads
  intro r hr
  obtain ⟨x, hx⟩ := v
  unfold format_json_option_number
  split_ifs with havail
  · rw [format_json_number, print_builtin_scalar_eq]
    obtain ⟨c, t, he, hs, hc⟩ := intText_head (k.value x)
    have hnumber := parse_number_intText (k.value x) hr
    have hconv := string_to_number_intText k x errmode
    rw [he, List.cons_append] at hnumber ⊢
    rw [he] at hconv
    refine (parse_option_value_eq errmode (.int k) hs ?_ ?_).trans ?_
    · rintro rfl
      cases hc
    · rintro rfl
      cases hc
    · refine (parse_option_number_eq _ hnumber).trans ?_
      simp only [hconv, instantiate, dif_pos hx, map_ok]
      rfl
  · -- the only value that is not available is the missing value itself
    have hna : intNA k = some x := by
      rw [is_avail] at havail
      simpa using (not_not.1 (by simpa using havail) : some x = intNA k).symm
    refine (parse_option_null errmode (.int k) r).trans ?_
    have hassign : assign_na (.int k : Scalar ext) = .ok ⟨x, hx⟩ := by
      rw [assign_na, assignNA, dif_pos hx]
      congr 2
      exact Option.some.inj ((Option.some_get hx).trans hna)
    rw [hassign]
    rfl

/-! ## Lists -/

theorem separated_cons_cons (a b : List UInt8) (items : List (List UInt8)) :
    separated (a :: b :: items) = a ++ ch ',' :: separated (b :: items) := rfl

theorem stops_comma (s : List UInt8) : Stops isNumberByte (ch ',' :: s) := stops_cons.2 (by decide)

/-- The tokens of one byte. -/
theorem parse_byte {c : UInt8} (hc : isspace c = false) (s : List UInt8) : parse_token [c] (c :: s) = some s := parse_token_self hc [] s

theorem parse_comma (s : List UInt8) : parse_token [ch ','] (ch ',' :: s) = some s := parse_byte (by decide) s

theorem parse_bracket (s : List UInt8) : parse_token [ch '['] (ch '[' :: s) = some s := parse_byte (by decide) s

theorem parse_end_bracket (s : List UInt8) : parse_token [ch ']'] (ch ']' :: s) = some s := parse_byte (by decide) s

theorem parse_brace (s : List UInt8) : parse_token [ch '{'] (ch '{' :: s) = some s := parse_byte (by decide) s

theorem parse_end_brace (s : List UInt8) : parse_token [ch '}'] (ch '}' :: s) = some s := parse_byte (by decide) s

/-- A list of known length is read back when its items are. -/
theorem listLoop_readsBack (message : String) (n : ℕ) {V : Fin n → Type} {el : (i : Fin n) → Parser (V i)}
    {text : Fin n → List UInt8} {v : (i : Fin n) → V i} {good : Fin n → Prop}
    (h : ∀ i, ReadsBack (el i) (text i) (v i) (good i)) :
    ReadsBack (listLoop message n el) (separated (List.ofFn text)) v (∀ i, good i) := by
  induction n with
  | zero =>
    constructor
    · intro _ r _
      rw [listLoop]
      refine congrArg (fun f => Except.ok (f, r)) (funext fun i => i.elim0)
    · intro _ _ _ _ i
      exact i.elim0
  | succ n ih =>
    have tail := ih (fun i => h i.succ)
    cases n with
    | zero =>
      have htext : separated (List.ofFn text) = text 0 := by simp [List.ofFn_succ, separated]
      rw [htext]
      constructor
      · intro hg r hr
        rw [listLoop, (h 0).reads (hg 0) r hr]
        simp only [ok_bind, parseComma, decide_true, if_true, listLoop, pure_eq_ok]
        refine congrArg (fun f => Except.ok (f, r)) (funext fun i => ?_)
        refine Fin.cases rfl (fun j => j.elim0) i
      · intro r x hr hx i
        rw [listLoop] at hx
        obtain ⟨x0, hx0, -⟩ := bind_eq_ok.1 hx
        refine Fin.cases ((h 0).only r x0 hr hx0) (fun j => j.elim0) i
    | succ m =>
      have htext : separated (List.ofFn text) = text 0 ++ ch ',' :: separated (List.ofFn fun i => text i.succ) := by
        rw [List.ofFn_succ, List.ofFn_succ, separated_cons_cons]
      rw [htext]
      constructor
      · intro hg r hr
        rw [listLoop, List.append_assoc, List.cons_append, (h 0).reads (hg 0) _ (stops_comma _)]
        simp only [ok_bind, parseComma, Nat.succ_ne_zero, decide_false, Bool.false_eq_true, if_false, parse_comma,
          expect_some, scan_ok]
        rw [tail.reads (fun i => hg i.succ) r hr]
        simp only [ok_bind, pure_eq_ok]
        exact congrArg (fun f => Except.ok (f, r)) (Fin.cons_self_tail v)
      · intro r x hr hx
        rw [listLoop, List.append_assoc, List.cons_append] at hx
        obtain ⟨⟨x0, b⟩, hx0, hrest⟩ := bind_eq_ok.1 hx
        have hg := (h 0).only _ _ (stops_comma _) hx0
        rw [(h 0).reads hg _ (stops_comma _)] at hx0
        obtain ⟨-, rfl⟩ := Prod.mk.inj (Except.ok.inj hx0)
        simp only [parseComma, Nat.succ_ne_zero, decide_false, Bool.false_eq_true, if_false, parse_comma, expect_some,
          scan_ok, ok_bind] at hrest
        obtain ⟨y, hy, -⟩ := bind_eq_ok.1 hrest
        intro i
        exact Fin.cases hg (fun j => tail.only r y hr hy j) i

theorem stops_bracket (s : List UInt8) : Stops isNumberByte (ch ']' :: s) := stops_cons.2 (by decide)

theorem readsBack_fixed_dim {D : Type} {n : ℕ} {el : Parser D} {text : Fin n → List UInt8} {v : Fin n → D}
    {good : Fin n → Prop} (h : ∀ i, ReadsBack el (text i) (v i) (good i)) :
    ReadsBack (parse_strided_dim_json n el) (bracketed (List.ofFn text)) v (∀ i, good i) := by
  have hloop := listLoop_readsBack "array is too short, expected ',' list item separator" n h
  constructor
  · intro hg r _
    rw [parse_strided_dim_json, bracketed, List.cons_append, parse_bracket]
    simp only [expect_some, scan_ok, ok_bind, List.append_assoc, List.cons_append, List.nil_append]
    rw [hloop.reads hg _ (stops_bracket r)]
    simp only [ok_bind, parse_end_bracket, expect_some, scan_ok, pure_eq_ok]
  · intro r x _ hx
    rw [parse_strided_dim_json, bracketed, List.cons_append, parse_bracket] at hx
    simp only [expect_some, scan_ok, ok_bind, List.append_assoc, List.cons_append, List.nil_append] at hx
    obtain ⟨y, hy, -⟩ := bind_eq_ok.1 hx
    exact hloop.only _ y (stops_bracket r) hy

/-- The items of a var dim, with the closing bracket after them. -/
theorem varLoop_readsBack {D : Type} {el : Parser D} {text : D → List UInt8} {good : D → Prop} (fuel : ℕ)
    {vs : List D} (h : ∀ x ∈ vs, ReadsBack el (text x) x (good x)) (hne : vs ≠ []) (hlen : vs.length ≤ fuel)
    (r : List UInt8) :
    ((∀ x ∈ vs, good x) →
      varLoop el fuel (separated (vs.map text) ++ ch ']' :: r) = .ok (vs, ch ']' :: r)) ∧
    (∀ x, varLoop el fuel (separated (vs.map text) ++ ch ']' :: r) = .ok x → ∀ x ∈ vs, good x) := by
  have hcomma : parse_token [ch ','] (ch ']' :: r) = none := parse_token_other (by decide) (by decide) _ _
  induction fuel generalizing vs with
  | zero => exact absurd (List.eq_nil_of_length_eq_zero (by omega)) hne
  | succ fuel ih =>
    rcases vs with _ | ⟨v, _ | ⟨w, vs⟩⟩
    · exact absurd rfl hne
    · have hv := h v List.mem_cons_self
      simp only [List.map_cons, List.map_nil, separated]
      constructor
      · intro hg
        rw [varLoop, hv.reads (hg v List.mem_cons_self) _ (stops_bracket r)]
        simp only [ok_bind, hcomma, pure_eq_ok]
      · intro x hx
        rw [varLoop] at hx
        obtain ⟨y, hy, -⟩ := bind_eq_ok.1 hx
        rw [List.forall_mem_singleton]
        exact hv.only _ y (stops_bracket r) hy
    · obtain ⟨hv, hrest⟩ := List.forall_mem_cons.1 h
      obtain ⟨ihreads, ihonly⟩ := ih hrest (by simp) (by simpa using hlen)
      rw [List.map_cons, List.map_cons, separated_cons_cons, List.append_assoc, List.cons_append]
      rw [List.map_cons] at ihreads ihonly
      constructor
      · intro hg
        rw [List.forall_mem_cons] at hg
        rw [varLoop, hv.reads hg.1 _ (stops_comma _)]
        simp only [ok_bind, parse_comma]
        rw [ihreads hg.2]
        rfl
      · intro x hx
        rw [varLoop] at hx
        obtain ⟨⟨y, b⟩, hy, hnext⟩ := bind_eq_ok.1 hx
        have hg := hv.only _ _ (stops_comma _) hy
        rw [hv.reads hg _ (stops_comma _)] at hy
        obtain ⟨-, rfl⟩ := Prod.mk.inj (Except.ok.inj hy)
        simp only [parse_comma] at hnext
        obtain ⟨z, hz, -⟩ := bind_eq_ok.1 hnext
        rw [List.forall_mem_cons]
        exact ⟨hg, ihonly z hz⟩

theorem opens_separated {a : List UInt8} (ha : Opens a) (items : List (List UInt8)) : Opens (separated (a :: items)) := by
  obtain ⟨c, t, rfl, hc⟩ := ha
  cases items with
  | nil => exact ⟨c, t, rfl, hc⟩
  | cons b items => exact ⟨c, t ++ ch ',' :: separated (b :: items), rfl, hc⟩

theorem length_separated {items : List (List UInt8)} (h : ∀ a ∈ items, Opens a) : items.length ≤ (separated items).length := by
  induction items with
  | nil => exact Nat.zero_le _
  | cons a items ih =>
    obtain ⟨⟨c, t, rfl, -⟩, hrest⟩ := List.forall_mem_cons.1 h
    cases items with
    | nil => simp [separated]
    | cons b items =>
      have := ih hrest
      rw [separated_cons_cons]
      simp only [List.length_cons, List.length_append] at this ⊢
      omega

theorem readsBack_var_dim {D : Type} {el : Parser D} {text : D → List UInt8} {good : D → Prop} {vs : List D}
    (h : ∀ x ∈ vs, ReadsBack el (text x) x (good x)) (ho : ∀ x, Opens (text x)) :
    ReadsBack (parse_var_dim_json el) (bracketed (vs.map text)) vs (∀ x ∈ vs, good x) := by
  cases vs with
  | nil =>
    constructor
    · intro _ r _
      rw [parse_var_dim_json, bracketed, List.cons_append, parse_bracket]
      simp only [expect_some, scan_ok, ok_bind, List.map_nil, separated, List.nil_append, List.cons_append, parse_end_bracket,
        pure_eq_ok]
    · intro _ _ _ _ x hx
      cases hx
  | cons v vs =>
    -- the text of the items does not start with the closing bracket
    have hitems : ∀ r, parse_token [ch ']'] (separated ((v :: vs).map text) ++ ch ']' :: r) = none := by
      intro r
      obtain ⟨c, t, he, hc, hne⟩ := opens_separated (ho v) (vs.map text)
      rw [List.map_cons, he, List.cons_append]
      exact parse_token_other hc hne _ _
    have hfuel : ∀ r : List UInt8, (v :: vs).length ≤ (separated ((v :: vs).map text) ++ ch ']' :: r).length + 1 := by
      intro r
      have := @length_separated ((v :: vs).map text) (by
        intro a ha
        obtain ⟨x, -, rfl⟩ := List.mem_map.1 ha
        exact ho x)
      rw [List.length_map] at this
      rw [List.length_append]
      omega
    have hloop := fun r => varLoop_readsBack _ h (List.cons_ne_nil v vs) (hfuel r) r
    constructor
    · intro hg r _
      rw [parse_var_dim_json, bracketed, List.cons_append, parse_bracket]
      simp only [expect_some, scan_ok, ok_bind, List.append_assoc, List.cons_append, List.nil_append, hitems]
      rw [(hloop r).1 hg]
      simp only [ok_bind, parse_end_bracket, expect_some, scan_ok, pure_eq_ok]
    · intro r x _ hx
      rw [parse_var_dim_json, bracketed, List.cons_append, parse_bracket] at hx
      simp only [expect_some, scan_ok, ok_bind, List.append_assoc, List.cons_append, List.nil_append, hitems] at hx
      obtain ⟨y, hy, -⟩ := bind_eq_ok.1 hx
      exact (hloop r).2 y hy

/-! ## Structs -/

/-- A UTF-8 string that holds valid Unicode. -/
def IsUnicode (s : List UInt8) : Prop := ∃ cs : List Char, s = encode cs

section
variable {n : ℕ} {V : Fin n → Type} {names : Fin n → List UInt8} {el : (i : Fin n) → Parser (V i)}
  {text : Fin n → List UInt8} {v : (i : Fin n) → V i} {good : Fin n → Prop}

theorem parseName_member {name : List UInt8} (h : IsUnicode name) (s : List UInt8) :
    parseName (member name s) = .ok (name, s) := by
  obtain ⟨cs, rfl⟩ := h
  obtain ⟨q, hq, htext, hrest⟩ := parse_encoded_string cs (ch ':' :: s)
  have hcolon : parse_token [ch ':'] (ch ':' :: s) = some s := parse_byte (by decide) s
  have hskip : skip_whitespace (format_json_encoded_string (encode cs) ++ ch ':' :: s) =
      format_json_encoded_string (encode cs) ++ ch ':' :: s := skip_whitespace_here (by decide) _
  rw [parseName, member, hskip, hq]
  simp only [ok_bind, expect_some, scan_ok, hrest, hcolon, htext, convert_ok, pure_eq_ok]

theorem get_field_index_self (hinj : Function.Injective names) {i : Fin n} (hne : names i ≠ []) :
    get_field_index names (names i) = some i := by
  rw [get_field_index, if_pos (List.length_pos_of_ne_nil hne)]
  cases hf : (List.finRange n).find? fun j => names j = names i with
  | none =>
    have := List.find?_eq_none.1 hf i (List.mem_finRange i)
    simp at this
  | some j =>
    have hj : names j = names i := by simpa using List.find?_some hf
    rw [hinj hj]

theorem get_field_index_some {name : List UInt8} {i : Fin n} (h : get_field_index names name = some i) : names i ≠ [] := by
  rw [get_field_index] at h
  split_ifs at h with hpos
  have hname : names i = name := by simpa using List.find?_some h
  rw [hname]
  exact List.ne_nil_of_length_pos hpos

/-- The fields `is` set one after the other. -/
def setFields (v : (i : Fin n) → V i) (is : List (Fin n)) (data : (i : Fin n) → Option (V i)) :
    (i : Fin n) → Option (V i) :=
  is.foldl (fun data i => Function.update data i (some (v i))) data

theorem setFields_mem {is : List (Fin n)} {data : (i : Fin n) → Option (V i)} {i : Fin n}
    (h : i ∈ is ∨ data i = some (v i)) : setFields v is data i = some (v i) := by
  induction is generalizing data with
  | nil => exact h.resolve_left (by simp)
  | cons j is ih =>
    apply ih
    by_cases hij : i = j
    · subst hij
      exact .inr (Function.update_self i _ _)
    · rcases h with h | h
      · exact .inl ((List.mem_cons.1 h).resolve_left hij)
      · exact .inr ((Function.update_of_ne hij _ _).trans h)

theorem parseField_self (hinj : Function.Injective names) {i : Fin n} (hne : names i ≠ [])
    (data : (i : Fin n) → Option (V i)) (s : List UInt8) :
    parseField names el data (names i) s = (fun x => (Function.update data i (some x.1), x.2)) <$> el i s := by
  rw [parseField, get_field_index_self hinj hne]

/-- One member populates a field with a name, or none. -/
theorem parseField_populated {data data' : (i : Fin n) → Option (V i)} {name s r : List UInt8}
    (h : parseField names el data name s = .ok (data', r)) (i : Fin n) (hi : (data' i).isSome = true) :
    (data i).isSome = true ∨ names i ≠ [] := by
  rw [parseField] at h
  cases hf : get_field_index names name with
  | none =>
    simp only [hf] at h
    obtain ⟨x, -, he⟩ := map_eq_ok.1 h
    obtain ⟨rfl, -⟩ := Prod.mk.inj he
    exact .inl hi
  | some j =>
    simp only [hf] at h
    obtain ⟨x, -, he⟩ := map_eq_ok.1 h
    obtain ⟨rfl, -⟩ := Prod.mk.inj he
    by_cases hij : i = j
    · subst hij
      exact .inr (get_field_index_some hf)
    · rw [Function.update_of_ne hij] at hi
      exact .inl hi

theorem stops_brace (s : List UInt8) : Stops isNumberByte (ch '}' :: s) := stops_cons.2 (by decide)

theorem member_append (name value r : List UInt8) : member name value ++ r = member name (value ++ r) := by
  simp [member]

/-- The members of an object whose names are found, with the closing brace after them. -/
theorem objectLoop_readsBack (hinj : Function.Injective names) (hname : ∀ i, IsUnicode (names i))
    (hne : ∀ i, names i ≠ []) (h : ∀ i, ReadsBack (el i) (text i) (v i) (good i)) (fuel : ℕ) {is : List (Fin n)}
    (hnil : is ≠ []) (hlen : is.length ≤ fuel) (data : (i : Fin n) → Option (V i)) (r : List UInt8) :
    ((∀ i ∈ is, good i) → objectLoop names el fuel data
      (separated (is.map fun i => member (names i) (text i)) ++ ch '}' :: r) = .ok (setFields v is data, ch '}' :: r)) ∧
    (∀ x, objectLoop names el fuel data (separated (is.map fun i => member (names i) (text i)) ++ ch '}' :: r) = .ok x →
      ∀ i ∈ is, good i) := by
  have hcomma : parse_token [ch ','] (ch '}' :: r) = none := parse_token_other (by decide) (by decide) _ _
  induction fuel generalizing is data with
  | zero => exact absurd (List.eq_nil_of_length_eq_zero (by omega)) hnil
  | succ fuel ih =>
    rcases is with _ | ⟨i, _ | ⟨j, is⟩⟩
    · exact absurd rfl hnil
    · simp only [List.map_cons, List.map_nil, separated, member_append]
      rw [objectLoop, parseName_member (hname i)]
      simp only [ok_bind, parseField_self hinj (hne i)]
      constructor
      · intro hg
        rw [(h i).reads (hg i List.mem_cons_self) _ (stops_brace r)]
        simp only [map_ok, ok_bind, hcomma, pure_eq_ok]
        rfl
      · intro x hx
        obtain ⟨y, hy, -⟩ := bind_eq_ok.1 hx
        obtain ⟨z, hz, -⟩ := map_eq_ok.1 hy
        rw [List.forall_mem_singleton]
        exact (h i).only _ z (stops_brace r) hz
    · obtain ⟨ihreads, ihonly⟩ := @ih (j :: is) (by simp) (by simpa using hlen)
        (Function.update data i (some (v i)))
      rw [List.map_cons, List.map_cons, separated_cons_cons, List.append_assoc, List.cons_append, member_append]
      rw [List.map_cons] at ihreads ihonly
      rw [objectLoop, parseName_member (hname i)]
      simp only [ok_bind, parseField_self hinj (hne i)]
      constructor
      · intro hg
        rw [List.forall_mem_cons] at hg
        rw [(h i).reads hg.1 _ (stops_comma _)]
        simp only [map_ok, ok_bind, parse_comma]
        exact ihreads hg.2
      · intro x hx
        obtain ⟨⟨d, b⟩, hy, hrest⟩ := bind_eq_ok.1 hx
        obtain ⟨⟨w, b'⟩, hz, he⟩ := map_eq_ok.1 hy
        have hg := (h i).only _ _ (stops_comma _) hz
        rw [(h i).reads hg _ (stops_comma _)] at hz
        obtain ⟨rfl, rfl⟩ := Prod.mk.inj (Except.ok.inj hz)
        obtain ⟨rfl, rfl⟩ := Prod.mk.inj he
        simp only [parse_comma] at hrest
        rw [List.forall_mem_cons]
        exact ⟨hg, ihonly x hrest⟩

/-- Only a field with a name is ever populated. -/
theorem objectLoop_populated {fuel : ℕ} {data data' : (i : Fin n) → Option (V i)} {s r : List UInt8}
    (h : objectLoop names el fuel data s = .ok (data', r)) (i : Fin n) (hi : (data' i).isSome = true) :
    (data i).isSome = true ∨ names i ≠ [] := by
  induction fuel generalizing data s with
  | zero => cases h
  | succ fuel ih =>
    rw [objectLoop] at h
    obtain ⟨⟨name, s1⟩, -, h1⟩ := bind_eq_ok.1 h
    obtain ⟨⟨d, s2⟩, hd, h2⟩ := bind_eq_ok.1 h1
    cases hc : parse_token [ch ','] s2 with
    | none =>
      simp only [hc] at h2
      obtain ⟨rfl, -⟩ := Prod.mk.inj (Except.ok.inj h2)
      exact parseField_populated hd i hi
    | some s3 =>
      simp only [hc] at h2
      rcases ih h2 with hsome | hname
      · exact parseField_populated hd i hsome
      · exact .inr hname

theorem complete_iff {position : List UInt8} {data : (i : Fin n) → Option (V i)} {w : (i : Fin n) → V i} :
    complete names position data = .ok w ↔ ∀ i, data i = some (w i) := by
  rw [complete]
  constructor
  · intro h i
    split_ifs at h with hall
    rw [← Except.ok.inj h]
    simp
  · intro h
    rw [dif_pos fun i => by rw [h i]; rfl]
    refine congrArg Except.ok (funext fun i => ?_)
    simp only [h i, Option.get_some]

theorem complete_isSome {position : List UInt8} {data : (i : Fin n) → Option (V i)} {w : (i : Fin n) → V i}
    (h : complete names position data = .ok w) (i : Fin n) : (data i).isSome = true := by
  rw [complete_iff.1 h i]
  rfl

theorem opens_member (name value : List UInt8) : Opens (member name value) := ⟨_, _, rfl, by decide, by decide⟩

/-- Members do not start with the closing brace. -/
theorem parse_brace_members {items : List (List UInt8)} (h : items ≠ []) (hm : ∀ a ∈ items, ∃ name value, a = member name value)
    (r : List UInt8) : parse_token [ch '}'] (separated items ++ r) = none := by
  obtain ⟨a, items, rfl⟩ := List.exists_cons_of_ne_nil h
  obtain ⟨name, value, rfl⟩ := hm a List.mem_cons_self
  cases items with
  | nil => exact parse_token_other (by decide) (by decide) _ _
  | cons b items => exact parse_token_other (by decide) (by decide) _ _

/-- What follows the opening brace of an object with fields. -/
theorem parseMembers_readsBack (hinj : Function.Injective names) (hname : ∀ i, IsUnicode (names i)) (hn : n ≠ 0)
    (h : ∀ i, ReadsBack (el i) (text i) (v i) (good i)) (r : List UInt8) :
    ((∀ i, names i ≠ []) ∧ (∀ i, good i) →
      parseMembers names el (separated (List.ofFn fun i => member (names i) (text i)) ++ ch '}' :: r) =
        .ok (setFields v (List.finRange n) fun _ => none, r)) ∧
    (∀ data s, parseMembers names el (separated (List.ofFn fun i => member (names i) (text i)) ++ ch '}' :: r) =
      .ok (data, s) → (∀ i, (data i).isSome = true) → (∀ i, names i ≠ []) ∧ ∀ i, good i) := by
  rw [List.ofFn_eq_map]
  have hnil : List.finRange n ≠ [] := by
    intro hnil
    apply hn
    rw [← List.length_finRange (n := n), hnil, List.length_nil]
  have hitems := @parse_brace_members ((List.finRange n).map fun i => member (names i) (text i)) (by simpa using hnil)
    (by
      intro a ha
      obtain ⟨i, -, rfl⟩ := List.mem_map.1 ha
      exact ⟨_, _, rfl⟩) (ch '}' :: r)
  have hlen : (List.finRange n).length ≤
      (separated ((List.finRange n).map fun i => member (names i) (text i)) ++ ch '}' :: r).length + 1 := by
    have hl := @length_separated ((List.finRange n).map fun i => member (names i) (text i)) (by
      intro a ha
      obtain ⟨i, -, rfl⟩ := List.mem_map.1 ha
      exact opens_member _ _)
    rw [List.length_map] at hl
    rw [List.length_append]
    omega
  rw [parseMembers, hitems]
  simp only
  constructor
  · rintro ⟨hne, hg⟩
    rw [(objectLoop_readsBack hinj hname hne h _ hnil hlen _ r).1 fun i _ => hg i]
    simp only [ok_bind, parse_end_brace, expect_some, scan_ok, pure_eq_ok]
  · intro data s hx hsome
    obtain ⟨⟨d, b⟩, hd, hrest⟩ := bind_eq_ok.1 hx
    obtain ⟨b', -, he⟩ := bind_eq_ok.1 hrest
    obtain ⟨rfl, -⟩ := Prod.mk.inj (Except.ok.inj he)
    have hne : ∀ i, names i ≠ [] := fun i =>
      (objectLoop_populated hd i (hsome i)).resolve_left (by simp)
    exact ⟨hne, fun i => (objectLoop_readsBack hinj hname hne h _ hnil hlen _ r).2 _ hd i (List.mem_finRange i)⟩

theorem readsBack_object (hinj : Function.Injective names) (hname : ∀ i, IsUnicode (names i))
    (h : ∀ i, ReadsBack (el i) (text i) (v i) (good i)) :
    ReadsBack (parse_struct_json names el) (format_json_struct false names text) v
      ((∀ i, names i ≠ []) ∧ ∀ i, good i) := by
  have hparse : ∀ r, parse_struct_json names el (format_json_struct false names text ++ r) =
      (parseMembers names el (separated (List.ofFn fun i => member (names i) (text i)) ++ ch '}' :: r) >>= fun x => do
        let value ← complete names (skip_whitespace (format_json_struct false names text ++ r)) x.1
        return (value, x.2)) := by
    intro r
    have htext : format_json_struct false names text ++ r =
        ch '{' :: (separated (List.ofFn fun i => member (names i) (text i)) ++ ch '}' :: r) := by
      rw [format_json_struct, if_neg (by decide)]
      simp
    rw [htext, parse_struct_json, parse_struct_json_from_object, parse_brace]
  rcases eq_or_ne n 0 with hn | hn
  · subst hn
    constructor
    · intro _ r _
      have hempty : parseMembers names el (ch '}' :: r) = .ok (fun _ => none, r) := by
        rw [parseMembers, parse_end_brace]
      have hdone : ∀ position, complete names position (fun i : Fin 0 => (none : Option (V i))) = .ok v :=
        fun _ => complete_iff.2 fun i => i.elim0
      rw [hparse]
      simp only [List.ofFn_zero, separated, List.nil_append, hempty, ok_bind, hdone, pure_eq_ok]
    · intro _ _ _ _
      exact ⟨fun i => i.elim0, fun i => i.elim0⟩
  · constructor
    · intro hg r _
      rw [hparse, (parseMembers_readsBack hinj hname hn h r).1 hg]
      simp only [ok_bind]
      rw [complete_iff.2 fun i => setFields_mem (.inl (List.mem_finRange i))]
      rfl
    · intro r x _ hx
      rw [hparse] at hx
      obtain ⟨⟨data, s⟩, hd, hrest⟩ := bind_eq_ok.1 hx
      obtain ⟨w, hw, -⟩ := bind_eq_ok.1 hrest
      exact (parseMembers_readsBack hinj hname hn h r).2 data s hd (complete_isSome hw)

variable (names) in
theorem readsBack_list (h : ∀ i, ReadsBack (el i) (text i) (v i) (good i)) (ho : ∀ i, Opens (text i)) :
    ReadsBack (parse_struct_json names el) (format_json_struct true names text) v (∀ i, good i) := by
  have hloop := listLoop_readsBack "expected list item separator ','" n fun i => (h i).skip (ho i)
  have hbrace : ∀ s, parse_token [ch '{'] (ch '[' :: s) = none := fun s => parse_token_other (by decide) (by decide) _ _
  have htext : ∀ r, format_json_struct true names text ++ r = ch '[' :: (separated (List.ofFn text) ++ ch ']' :: r) := by
    intro r
    rw [format_json_struct, if_pos rfl, bracketed]
    simp
  constructor
  · intro hg r _
    rw [htext, parse_struct_json, parse_struct_json_from_object, hbrace, parse_tuple_json_from_list, parse_bracket]
    simp only
    rw [hloop.reads hg _ (stops_bracket r)]
    simp only [ok_bind, parse_end_bracket, expect_some, scan_ok, pure_eq_ok]
  · intro r x _ hx
    rw [htext, parse_struct_json, parse_struct_json_from_object, hbrace, parse_tuple_json_from_list, parse_bracket] at hx
    simp only at hx
    obtain ⟨y, hy, -⟩ := bind_eq_ok.1 hx
    exact hloop.only _ y (stops_bracket r) hy

end

/-! ## Every type -/

/-- Structs have distinct field names, of valid Unicode. -/
def Ty.WellNamed {ext : External} : Ty ext → Prop
  | scalar _ => True
  | string => True
  | option _ => True
  | fixed_dim _ t => t.WellNamed
  | var_dim t => t.WellNamed
  | struct n names types =>
    Function.Injective names ∧ (∀ i, IsUnicode (names i)) ∧ ∀ i : Fin n, (types i).WellNamed

/-- The elements of a var dim. -/
def elements {ext : External} {t : Ty ext} (data : (Ty.var_dim t).Data) : List t.Data := data

/-- The strings in the data hold valid Unicode. -/
def HoldsUnicode {ext : External} : (tp : Ty ext) → tp.Data → Prop
  | .scalar _, _ => True
  | .string, data => IsUnicode data
  | .option _, _ => True
  | .fixed_dim _ t, data => ∀ i, HoldsUnicode t (data i)
  | .var_dim t, data => ∀ x ∈ elements data, HoldsUnicode t x
  | .struct n _ types, data => ∀ i : Fin n, HoldsUnicode (types i) (data i)

/-- No struct in the data that is formatted as an object has a field with an empty name. -/
def NoEmptyName (struct_as_list : Bool) {ext : External} : (tp : Ty ext) → tp.Data → Prop
  | .scalar _, _ => True
  | .string, _ => True
  | .option _, _ => True
  | .fixed_dim _ t, data => ∀ i, NoEmptyName struct_as_list t (data i)
  | .var_dim t, data => ∀ x ∈ elements data, NoEmptyName struct_as_list t x
  | .struct n names types, data =>
    (struct_as_list = false → ∀ i, names i ≠ []) ∧ ∀ i : Fin n, NoEmptyName struct_as_list (types i) (data i)

theorem opens_format (struct_as_list : Bool) (tp : Ty External.none) (data : tp.Data) :
    Opens (format_json struct_as_list tp data) := by
  cases tp with
  | scalar s =>
    cases s with
    | bool => exact opens_bool _
    | int k => exact opens_number k _
    | real id => exact id.elim
    | text id => exact id.elim
  | string => exact ⟨_, _, rfl, by decide, by decide⟩
  | option s =>
    cases s with
    | bool =>
      cases data with
      | none => exact ⟨_, _, rfl, by decide, by decide⟩
      | some b => exact opens_bool b
    | int k =>
      simp only [format_json, format_json_option_number]
      split_ifs
      · exact opens_number k _
      · exact ⟨_, _, rfl, by decide, by decide⟩
    | real id => exact id.elim
    | text id => exact id.elim
  | fixed_dim n t => exact ⟨_, _, rfl, by decide, by decide⟩
  | var_dim t => exact ⟨_, _, rfl, by decide, by decide⟩
  | struct n names types =>
    simp only [format_json, format_json_struct]
    split_ifs
    · exact ⟨_, _, rfl, by decide, by decide⟩
    · exact ⟨_, _, rfl, by decide, by decide⟩

/-- On a formatted value, the parser of a type is the one behind its whitespace. -/
theorem readsBack_value (errmode : assign_error_mode) (struct_as_list : Bool) (tp : Ty External.none) (data : tp.Data)
    (hn : tp.WellNamed) (hu : HoldsUnicode tp data) :
    ReadsBack (parse_json_value errmode tp) (format_json struct_as_list tp data) data
      (NoEmptyName struct_as_list tp data) := by
  have ho := opens_format struct_as_list
  induction tp with
  | scalar s =>
    cases s with
    | bool => exact (readsBack_bool errmode data).skip (ho (.scalar .bool) data)
    | int k => exact (readsBack_number errmode k data).skip (ho (.scalar (.int k)) data)
    | real id => exact id.elim
    | text id => exact id.elim
  | string =>
    obtain ⟨cs, rfl⟩ := hu
    exact (readsBack_string errmode cs).skip (ho .string _)
  | option s =>
    cases s with
    | bool => exact (readsBack_option_bool errmode data).skip (ho (.option .bool) data)
    | int k => exact (readsBack_option_number errmode k data).skip (ho (.option (.int k)) data)
    | real id => exact id.elim
    | text id => exact id.elim
  | fixed_dim n t ih =>
    exact (readsBack_fixed_dim fun i => ih (data i) hn (hu i)).skip (ho (.fixed_dim n t) data)
  | var_dim t ih =>
    exact (readsBack_var_dim (fun x hx => ih x hn (hu x hx)) (ho t)).skip (ho (.var_dim t) data)
  | struct n names types ih =>
    obtain ⟨hinj, hname, htypes⟩ := hn
    have hfields := fun i => ih i (data i) (htypes i) (hu i)
    refine ReadsBack.skip ?_ (ho (.struct n names types) data)
    cases struct_as_list with
    | true =>
      have h := readsBack_list names hfields fun i => ho _ _
      exact ⟨fun hg => h.reads hg.2, fun r x hr hx => ⟨fun he => (Bool.noConfusion he), h.only r x hr hx⟩⟩
    | false =>
      have h := readsBack_object hinj hname hfields
      exact ⟨fun hg => h.reads ⟨hg.1 rfl, hg.2⟩, fun r x hr hx =>
        ⟨fun _ => (h.only r x hr hx).1, (h.only r x hr hx).2⟩⟩

theorem noEmptyName_of_parse {errmode : assign_error_mode} {struct_as_list : Bool} {tp : Ty External.none}
    {data data' : tp.Data} (hn : tp.WellNamed) (hu : HoldsUnicode tp data)
    (h : parse_json errmode tp (format_json struct_as_list tp data) = .ok data') : NoEmptyName struct_as_list tp data := by
  obtain ⟨x, hx, -⟩ := bind_eq_ok.1 h
  rw [← List.append_nil (format_json struct_as_list tp data)] at hx
  exact (readsBack_value errmode struct_as_list tp data hn hu).only [] x (stops_nil _) hx

/-- Formatted data is parsed back to itself, in every error mode, unless some
struct in it is formatted as an object and has a field with an empty name. -/
theorem parse_format_iff (errmode : assign_error_mode) (struct_as_list : Bool) (tp : Ty External.none) (data : tp.Data)
    (hn : tp.WellNamed) (hu : HoldsUnicode tp data) :
    parse_json errmode tp (format_json struct_as_list tp data) = .ok data ↔ NoEmptyName struct_as_list tp data := by
  constructor
  · exact noEmptyName_of_parse hn hu
  · intro hg
    have hx := (readsBack_value errmode struct_as_list tp data hn hu).reads hg [] (stops_nil _)
    rw [List.append_nil] at hx
    rw [parse_json, hx]
    rfl

/-- Structs of two strings. -/
def pairsType : Ty External.none := .var_dim (.struct 2 ![[ch 'a'], [ch 'b']] fun _ => .string)

def pairs : pairsType.Data := [fun i : Fin 2 => if i = 0 then encode ['"', 'é'] else encode []]

theorem parse_format_pairs :
    pairsType.WellNamed ∧ HoldsUnicode pairsType pairs ∧
      (parse_json .fractional pairsType (format_json false pairsType pairs) = .ok pairs ↔
        NoEmptyName false pairsType pairs) := by
  have hn : pairsType.WellNamed := by
    refine ⟨by decide, ?_, fun _ => trivial⟩
    intro i
    fin_cases i
    · exact ⟨['a'], by decide⟩
    · exact ⟨['b'], by decide⟩
  have hu : HoldsUnicode pairsType pairs := by
    intro x hx i
    obtain rfl := List.mem_singleton.1 hx
    fin_cases i
    · exact ⟨_, rfl⟩
    · exact ⟨_, rfl⟩
  exact ⟨hn, hu, parse_format_iff .fractional false pairsType pairs hn hu⟩

/-- A struct with one field, whose name is empty. -/
def emptyNameType : Ty External.none := .struct 1 (fun _ => []) fun _ => .scalar .bool

/-- `{"":true}` is not parsed back. -/
theorem parse_format_empty_name :
    ¬ (∀ (errmode : assign_error_mode) (struct_as_list : Bool) (tp : Ty External.none) (data : tp.Data),
      tp.WellNamed → HoldsUnicode tp data → parse_json errmode tp (format_json struct_as_list tp data) = .ok data) := by
  intro h
  have hn : emptyNameType.WellNamed :=
    ⟨Function.injective_of_subsingleton _, fun _ => ⟨[], rfl⟩, fun _ => trivial⟩
  have hu : HoldsUnicode emptyNameType fun _ => true := fun _ => trivial
  exact (noEmptyName_of_parse hn hu (h .fractional false emptyNameType (fun _ => true) hn hu)).1 rfl 0 rfl

end Dynd.Json
