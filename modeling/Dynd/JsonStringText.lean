import Dynd.JsonRespelling
/-!
# What a JSON string stands for

The grammar of JSON strings with the characters they denote: a character stands
for itself, is escaped, or, beyond the first 65536, is escaped as two code units
of UTF-16. The parser unescapes each unit by itself, so that it throws for a
pair and gives the text of every other string: `parse_string_json_denoted_iff`.
-/
namespace Dynd.Json
open Lib Parse

/-! ## The characters of a string -/

/-- The value of a hexadecimal digit. -/
def hexDigitValue (d : UInt8) : ℕ :=
  if isDigit d then d.toNat - 48 else if ch 'A' ≤ d && d ≤ ch 'F' then d.toNat - 55 else d.toNat - 87

/-- Four hexadecimal digits, and the number they are. -/
structure CodeUnit (digits : List UInt8) (n : ℕ) : Prop where
  length : digits.length = 4
  hex : ∀ d ∈ digits, isHexDigit d = true
  value : horner 16 0 (digits.map hexDigitValue) = n

/-- The escapes of one character. -/
def escapeMeanings : List (Char × Char) :=
  [('"', '"'), ('\\', '\\'), ('/', '/'), ('b', '\x08'), ('f', '\x0c'), ('n', '\n'), ('r', '\r'), ('t', '\t')]

/-- How the standard lets a character stand in a string. -/
inductive Written : Char → List UInt8 → Prop where
  | unescaped {c : Char} : ' ' ≤ c → c ≠ '"' → c ≠ '\\' → Written c (String.utf8EncodeChar c)
  | escape {e c : Char} : (e, c) ∈ escapeMeanings → Written c [ch '\\', ch e]
  | unit {c : Char} {digits : List UInt8} : CodeUnit digits c.toNat → Written c (ch '\\' :: ch 'u' :: digits)
  | pair {c : Char} {lead trail : List UInt8} {hi lo : ℕ} : hi < 0x400 → lo < 0x400 → CodeUnit lead (0xd800 + hi) →
      CodeUnit trail (0xdc00 + lo) → c.toNat = 0x10000 + 0x400 * hi + lo →
      Written c (ch '\\' :: ch 'u' :: (lead ++ ch '\\' :: ch 'u' :: trail))

/-- What stands between the quotes, and the text that it denotes. -/
inductive Denotes : List UInt8 → List Char → Prop where
  | nil : Denotes [] []
  | cons {c : Char} {x s : List UInt8} {cs : List Char} : Written c x → Denotes s cs → Denotes (x ++ s) (c :: cs)

/-! ## Code units -/

theorem hexStep_eq {d : UInt8} (hd : isHexDigit d = true) (cp : UInt32) : hexStep cp d = cp * 16 + UInt32.ofNat (hexDigitValue d) := by
  have hzero : ∀ b, isHexDigit b = true → hexStep 0 b = UInt32.ofNat (hexDigitValue b) := forall_byte (by decide +kernel)
  rw [← hzero d hd, hexStep, hexStep]
  simp only [isHexDigit, Bool.or_eq_true] at hd
  split_ifs with h1 h2 h3
  · rw [UInt32.zero_mul, UInt32.zero_add]
  · rw [UInt32.zero_mul, UInt32.zero_add]
  · rw [UInt32.zero_mul, UInt32.zero_add]
  · exact (hd.elim (fun h => h.elim h1 h2) h3).elim

theorem hexDigitValue_lt {d : UInt8} (hd : isHexDigit d = true) : hexDigitValue d < 16 := by
  have h : ∀ b, isHexDigit b = true → hexDigitValue b < 16 := forall_byte (by decide +kernel)
  exact h d hd

theorem foldl_hexStep {digits : List UInt8} (h : ∀ d ∈ digits, isHexDigit d = true) (v : ℕ) :
    digits.foldl hexStep (UInt32.ofNat v) = UInt32.ofNat (horner 16 v (digits.map hexDigitValue)) := by
  induction digits generalizing v with
  | nil => rfl
  | cons d digits ih =>
    obtain ⟨hd, h⟩ := List.forall_mem_cons.1 h
    have hstep : hexStep (UInt32.ofNat v) d = UInt32.ofNat (16 * v + hexDigitValue d) := by
      rw [hexStep_eq hd, UInt32.ofNat_add, UInt32.ofNat_mul, UInt32.mul_comm]
      rfl
    rw [List.foldl_cons, hstep, ih h, List.map_cons, horner_cons]

theorem CodeUnit.lt {digits : List UInt8} {n : ℕ} (h : CodeUnit digits n) : n < 0x10000 := by
  have hdigits : ∀ v ∈ digits.map hexDigitValue, v < 16 := by
    intro v hv
    obtain ⟨d, hd, rfl⟩ := List.mem_map.1 hv
    exact hexDigitValue_lt (h.hex d hd)
  have hlt : horner 16 0 (digits.map hexDigitValue) < (0 + 1) * 16 ^ (digits.map hexDigitValue).length := horner_lt hdigits
  rw [h.value, List.length_map, h.length] at hlt
  omega

theorem CodeUnit.hexValue {digits : List UInt8} {n : ℕ} (h : CodeUnit digits n) : (hexValue digits).toNat = n := by
  have hlt : n < UInt32.size := h.lt.trans (by decide)
  have hfold := foldl_hexStep h.hex 0
  rw [h.value] at hfold
  rw [Parse.hexValue]
  exact (congrArg UInt32.toNat hfold).trans (UInt32.toNat_ofNat_of_lt' hlt)

/-- Every way to write a character is one of those that the scanner knows. -/
theorem Written.spells {c : Char} {x : List UInt8} (h : Written c x) : Spells c x := by
  cases h with
  | unescaped _ hq hb => exact .raw hq hb
  | @escape e c he =>
    have hshort : ∀ p ∈ escapeMeanings, ch p.1 ∈ shortEscapes ∧ unescapeShort (ch p.1) = some p.2.val.toUInt8 ∧
      String.utf8EncodeChar p.2 = [p.2.val.toUInt8] := by decide
    obtain ⟨h1, h2, h3⟩ := hshort _ he
    exact .short h1 h2 h3
  | unit hd => exact .hex4 hd.length hd.hex (UInt32.toNat_inj.1 hd.hexValue)
  | @pair c lead trail hi lo hhi hlo hlead htrail hc =>
    have hleadv := hlead.hexValue
    have htrailv := htrail.hexValue
    refine .pair hlead.length htrail.length hlead.hex htrail.hex ?_ ?_ ?_
    · simp only [Utf8.is_lead_surrogate, Bool.and_eq_true, decide_eq_true_eq, UInt32.le_iff_toNat_le, hleadv]
      have h1 : (0xd800 : UInt32).toNat = 55296 := rfl
      have h2 : (0xdbff : UInt32).toNat = 56319 := rfl
      omega
    · simp only [Utf8.is_trail_surrogate, Bool.and_eq_true, decide_eq_true_eq, UInt32.le_iff_toNat_le, htrailv]
      have h1 : (0xdc00 : UInt32).toNat = 56320 := rfl
      have h2 : (0xdfff : UInt32).toNat = 57343 := rfl
      omega
    · apply UInt32.toNat_inj.1
      have hoff : StringEncodings.SURROGATE_OFFSET.toNat = 0xfca02400 := by decide
      have hten : 2 ^ ((10 : UInt32).toNat % 32) = 1024 := rfl
      rw [UInt32.toNat_add, UInt32.toNat_add, UInt32.toNat_shiftLeft, hleadv, htrailv, hoff, Nat.shiftLeft_eq, hten]
      have hval : c.val.toNat = 0x10000 + 0x400 * hi + lo := hc
      omega

theorem Denotes.body {b : List UInt8} {cs : List Char} (h : Denotes b cs) : StringBody b := by
  induction h with
  | nil => exact .nil
  | cons hc _ ih => exact hc.spells.body _ ih

/-- Without pairs the string is unescaped to its text. -/
theorem Denotes.unescape {b : List UInt8} {cs : List Char} (h : Denotes b cs) (hp : NoPairs b) : unescape_string b = .ok (encode cs) := by
  induction h with
  | nil =>
    rw [unescape_string]
    rfl
  | cons hc _ ih =>
    rw [(hc.spells.escapes hp).text, ih (hp.tail hc.spells.body), encode_cons]
    rfl

/-! ## Pairs -/

theorem append_error (x : Except exception (List UInt8)) (e : exception) :
    ∃ e', (x >>= fun bytes => (bytes ++ ·) <$> (Except.error e : Except exception (List UInt8))) = .error e' := by
  cases x with
  | error e' => exact ⟨e', rfl⟩
  | ok bytes => exact ⟨e, rfl⟩

/-- What cannot be unescaped is not saved by what stands before it. -/
theorem unescape_error {u : List UInt8} (hu : StringBody u) {s : List UInt8} (h : ∃ e, unescape_string s = .error e) :
    ∃ e, unescape_string (u ++ s) = .error e := by
  induction hu with
  | nil => exact h
  | plain _ hb _ ih =>
    obtain ⟨e, he⟩ := ih
    rw [List.cons_append, unescape_plain hb, he]
    exact ⟨e, rfl⟩
  | short hs _ ih =>
    obtain ⟨e, he⟩ := ih
    obtain ⟨d, hd⟩ := shortEscapes_unescape hs
    rw [List.cons_append, List.cons_append, unescape_short hd, he]
    exact ⟨e, rfl⟩
  | hex4 hl _ _ ih =>
    obtain ⟨e, he⟩ := ih
    rw [List.cons_append, List.cons_append, List.append_assoc, unescape_hex4 hl, he]
    exact append_error _ e
  | hex8 hl _ _ ih =>
    obtain ⟨e, he⟩ := ih
    rw [List.cons_append, List.cons_append, List.append_assoc, unescape_hex8 hl, he]
    exact append_error _ e

/-- A pair throws at its first half, which is no code point. -/
theorem pair_unescape_error {b : List UInt8} (h : ¬ NoPairs b) : ∃ e, unescape_string b = .error e := by
  simp only [NoPairs, not_forall, not_not] at h
  obtain ⟨u, lead, trail, v, hu, hl, -, hlead, -, rfl⟩ := h
  refine unescape_error hu ?_
  have hinvalid : ¬ (hexValue lead).isValidChar := by
    simp only [Utf8.is_lead_surrogate, Bool.and_eq_true, decide_eq_true_eq, UInt32.le_iff_toNat_le] at hlead
    have h1 : (0xd800 : UInt32).toNat = 55296 := rfl
    have h2 : (0xdbff : UInt32).toNat = 56319 := rfl
    rintro (hlow | ⟨hhigh, -⟩)
    · omega
    · omega
  rw [unescape_hex4 hl, append_utf8_codepoint, Utf8.append_invalid hinvalid]
  exact ⟨_, rfl⟩

/-! ## The string that is set -/

/-- A string literal of the standard is read as the text that it denotes exactly when it has no surrogate pair. -/
theorem parse_string_json_denoted_iff (errmode : assign_error_mode) {w b : List UInt8} {cs : List Char} (hw : Ws w) (hb : Denotes b cs)
    (r : List UInt8) : parse_string_json (Parse.set_from_utf8_string errmode) (w ++ (quoted b ++ r)) = .ok (encode cs, r) ↔ NoPairs b := by
  have hquote : w ++ (quoted b ++ r) = w ++ ch '"' :: (b ++ ch '"' :: r) := by
    rw [quoted, List.cons_append, List.append_assoc, List.singleton_append]
  have hskip : skip_whitespace (w ++ ch '"' :: (b ++ ch '"' :: r)) = ch '"' :: (b ++ ch '"' :: r) :=
    skip_whitespace_eq hw (stops_cons.2 (by decide))
  have hscan : parse_doublequote_string_no_ws (ch '"' :: (b ++ ch '"' :: r)) = .ok (some ⟨b, b.contains (ch '\\'), r⟩) :=
    parse_doublequote_string_no_ws_iff.2 ⟨rfl, hb.body, rfl⟩
  have htext : Quoted.text ⟨b, b.contains (ch '\\'), r⟩ = unescape_string b := Quoted.text_eq rfl
  rw [hquote, parse_string_json, hskip, hscan]
  simp only [scan_ok, ok_bind, htext]
  constructor
  · intro h
    by_contra hpairs
    obtain ⟨e, he⟩ := pair_unescape_error hpairs
    rw [he] at h
    cases h
  · intro hp
    rw [hb.unescape hp, ok_bind, set_from_utf8_string_encode]
    rfl

theorem parse_string_json_denoted_tab :
    parse_string_json (Parse.set_from_utf8_string .fractional) ([ch ' '] ++ (quoted (['a', '\\', 't'].map ch) ++ [])) =
      .ok (encode ['a', '\t'], []) := by
  have ha : Written 'a' (String.utf8EncodeChar 'a') := .unescaped (by decide) (by decide) (by decide)
  have ht : Written '\t' [ch '\\', ch 't'] := .escape (by decide)
  have hbytes : ['a', '\\', 't'].map ch = String.utf8EncodeChar 'a' ++ ([ch '\\', ch 't'] ++ []) := by decide
  have hb : Denotes (['a', '\\', 't'].map ch) ['a', '\t'] := hbytes ▸ .cons ha (.cons ht .nil)
  refine (parse_string_json_denoted_iff .fractional (by simp [Ws, isspace]) hb []).2 ?_
  intro u lead trail v _ _ _ _ _ h
  have hlen := congrArg List.length h
  simp at hlen
  omega

/-- A character beyond the first 65536, written as a pair. -/
theorem pair_rejected : Denotes (['\\', 'u', 'D', '8', '3', 'D', '\\', 'u', 'D', 'E', '0', '0'].map ch) [Char.ofNat 0x1f600] ∧
    parse_string_json (Parse.set_from_utf8_string .fractional)
      (quoted (['\\', 'u', 'D', '8', '3', 'D', '\\', 'u', 'D', 'E', '0', '0'].map ch)) ≠
        .ok (encode [Char.ofNat 0x1f600], []) := by
  constructor
  · have hlead : CodeUnit (['D', '8', '3', 'D'].map ch) (0xd800 + 0x3d) := ⟨rfl, by decide +kernel, by decide +kernel⟩
    have htrail : CodeUnit (['D', 'E', '0', '0'].map ch) (0xdc00 + 0x200) := ⟨rfl, by decide +kernel, by decide +kernel⟩
    exact .cons (.pair (by decide) (by decide) hlead htrail (by decide)) .nil
  · decide +kernel

end Dynd.Json
