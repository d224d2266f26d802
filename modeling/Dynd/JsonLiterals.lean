import Dynd.JsonFormatter
/-!
# The pieces of a string literal

A character of a literal stands for itself, or it is escaped. What prints every
character as a piece that stands for it (`Escapes`) prints literals that are
read back, whichever escapes it chooses: `quoted_read`.
-/
namespace Dynd.Json
open Lib Parse

/-! ## Pieces -/

theorem stringBody_plain {p s : List UInt8} (hp : ∀ b ∈ p, b ≠ ch '"' ∧ b ≠ ch '\\') (hs : StringBody s) :
    StringBody (p ++ s) := by
  induction p with
  | nil => exact hs
  | cons b p ih =>
    rw [List.forall_mem_cons] at hp
    exact .plain hp.1.1 hp.1.2 (ih hp.2)

/-- A piece of a literal that stands for the character `c`. -/
structure Escapes (c : Char) (p : List UInt8) : Prop where
  body : ∀ s, StringBody s → StringBody (p ++ s)
  text : ∀ s, unescape_string (p ++ s) = (String.utf8EncodeChar c ++ ·) <$> unescape_string s

theorem Escapes.short {c : Char} {e b : UInt8} (he : e ∈ shortEscapes) (hb : unescapeShort e = some b)
    (hc : String.utf8EncodeChar c = [b]) : Escapes c [ch '\\', e] := by
  constructor
  · intro s hs
    exact .short he hs
  · intro s
    rw [hc]
    exact unescape_short hb s

theorem Escapes.raw {c : Char} (h : ∀ b ∈ String.utf8EncodeChar c, b ≠ ch '"' ∧ b ≠ ch '\\') :
    Escapes c (String.utf8EncodeChar c) :=
  ⟨fun _ hs => stringBody_plain h hs, fun s => unescape_append_plain (fun b hb => (h b hb).2) s⟩

theorem Escapes.hex4 {c : Char} {digits : List UInt8} (hlen : digits.length = 4)
    (hd : ∀ d ∈ digits, isHexDigit d = true) (hv : hexValue digits = c.val) : Escapes c (ch '\\' :: ch 'u' :: digits) := by
  constructor
  · intro s hs
    exact .hex4 hlen hd hs
  · intro s
    have h := unescape_hex4 hlen s
    rw [hv, append_utf8_codepoint_char] at h
    exact h

theorem Escapes.hex8 {c : Char} {digits : List UInt8} (hlen : digits.length = 8)
    (hd : ∀ d ∈ digits, isHexDigit d = true) (hv : hexValue digits = c.val) : Escapes c (ch '\\' :: ch 'U' :: digits) := by
  constructor
  · intro s hs
    exact .hex8 hlen hd hs
  · intro s
    have h := unescape_hex8 hlen s
    rw [hv, append_utf8_codepoint_char] at h
    exact h

/-! ## Bytes -/

/-- Below `0x80` a character is one byte. -/
theorem utf8EncodeChar_ascii {c : Char} (h : c.val.toNat < 128) : String.utf8EncodeChar c = [c.val.toUInt8] := by
  have hb : c.val.toUInt8 = UInt8.ofNat c.val.toNat := by
    apply UInt8.toNat_inj.1
    rw [UInt32.toNat_toUInt8, UInt8.toNat_ofNat']
  rw [String.utf8EncodeChar, if_pos (by omega), hb]

/-- From `0x80` on its bytes are no ASCII characters. -/
theorem utf8EncodeChar_high {c : Char} (h : 128 ≤ c.val.toNat) : ∀ b ∈ String.utf8EncodeChar c, 128 ≤ b.toNat := by
  obtain ⟨b, trails, he, hc, hv, -⟩ := Utf8.utf8EncodeChar_complete c
  rw [he, List.forall_mem_cons]
  refine ⟨?_, fun d hd => ((Utf8.is_trail_iff d).1 (hc.trail d hd)).1⟩
  by_contra hlt
  have hL : Utf8.sequence_length b = 1 := by rw [Utf8.sequence_length_eq, if_pos (by omega)]
  have hnil : trails = [] := by
    have := hc.length
    exact List.eq_nil_of_length_eq_zero (by omega)
  rw [hnil, Utf8.seqValue, Utf8.payload, hL] at hv
  simp only [List.map_nil, horner_nil] at hv
  omega

/-- Raw characters are no quotes and no backslashes. -/
theorem raw_bytes {c : Char} (hq : c ≠ '"') (hb : c ≠ '\\') : ∀ b ∈ String.utf8EncodeChar c, b ≠ ch '"' ∧ b ≠ ch '\\' := by
  have q : (ch '"').toNat = 34 := rfl
  have bs : (ch '\\').toNat = 92 := rfl
  rcases Nat.lt_or_ge c.val.toNat 128 with hlt | hge
  · rw [utf8EncodeChar_ascii hlt, List.forall_mem_singleton]
    have cq : c.val.toNat ≠ 34 := fun h => hq (Char.ext (UInt32.toNat_inj.1 h))
    have cb : c.val.toNat ≠ 92 := fun h => hb (Char.ext (UInt32.toNat_inj.1 h))
    simp only [ne_eq, ← UInt8.toNat_inj, UInt32.toNat_toUInt8, q, bs]
    omega
  · intro b hmem
    have := utf8EncodeChar_high hge b hmem
    simp only [ne_eq, ← UInt8.toNat_inj, q, bs]
    omega

/-- A byte that is printed as it is. -/
theorem Escapes.byte {c : Char} (h : c.val.toNat < 128) (hq : c.val ≠ '"'.val) (hb : c.val ≠ '\\'.val) :
    Escapes c [c.val.toUInt8] := by
  rw [← utf8EncodeChar_ascii h]
  exact .raw (raw_bytes (fun he => hq (congrArg Char.val he)) fun he => hb (congrArg Char.val he))

/-- The short escape `e` of the byte `n`. -/
def IsShort (n : UInt32) (e : UInt8) : Prop := n.toNat < 128 ∧ e ∈ shortEscapes ∧ unescapeShort e = some n.toUInt8

instance (n : UInt32) (e : UInt8) : Decidable (IsShort n e) := inferInstanceAs (Decidable (_ ∧ _ ∧ _))

/-- One case of a printer. -/
theorem Escapes.case {c : Char} {n : UInt32} {e : UInt8} {other : List UInt8} (h : IsShort n e)
    (hother : c.val ≠ n → Escapes c other) : Escapes c (if c.val = n then [ch '\\', e] else other) := by
  obtain ⟨hn, he, hb⟩ := h
  split_ifs with hc
  · subst hc
    exact .short he hb (utf8EncodeChar_ascii hn)
  · exact hother hc

/-! ## Hexadecimal digits -/

/-- A statement about all bytes, one by one. -/
theorem forall_byte {p : UInt8 → Prop} (h : ∀ n < 256, p (UInt8.ofNat n)) (b : UInt8) : p b := by
  have hb := h b.toNat b.toNat_lt
  rwa [UInt8.ofNat_toNat] at hb

/-- The byte of a hexadecimal digit. -/
def hexDigit (n : ℕ) : UInt8 := if n < 10 then ch '0' + UInt8.ofNat n else ch 'a' + UInt8.ofNat (n - 10)

theorem hexDigit_spec : ∀ n < 16, isHexDigit (hexDigit n) = true := by decide

theorem hexStep_hexDigit {n : ℕ} (h : n < 16) (cp : UInt32) : hexStep cp (hexDigit n) = cp * 16 + UInt32.ofNat n := by
  interval_cases n <;> rfl

theorem hexadecimal_print_eq (b : UInt8) : hexadecimal_print b = [hexDigit (b.toNat / 16), hexDigit (b.toNat % 16)] := by
  revert b
  exact forall_byte (by decide +kernel)

theorem hexadecimal_print_digits (b : UInt8) : ∀ d ∈ hexadecimal_print b, isHexDigit d = true := by
  have hb := b.toNat_lt
  rw [hexadecimal_print_eq]
  simp only [List.mem_cons, List.not_mem_nil, or_false, forall_eq_or_imp, forall_eq]
  exact ⟨hexDigit_spec _ (by omega), hexDigit_spec _ (by omega)⟩

/-- Two digits after a code point. -/
theorem foldl_hexadecimal_print (cp : UInt32) (b : UInt8) : (hexadecimal_print b).foldl hexStep cp = cp * 256 + b.toUInt32 := by
  have hb := b.toNat_lt
  have hsplit : b.toUInt32 = UInt32.ofNat (b.toNat / 16) * 16 + UInt32.ofNat (b.toNat % 16) := by
    apply UInt32.toNat_inj.1
    simp
    omega
  rw [hexadecimal_print_eq, List.foldl_cons, List.foldl_cons, List.foldl_nil, hexStep_hexDigit (by omega), hexStep_hexDigit (by omega),
    hsplit]
  grind

/-- The four digits of two bytes. -/
theorem Escapes.hexadecimal {c : Char} {hi lo : UInt8} (h : c.val = hi.toUInt32 * 256 + lo.toUInt32) :
    Escapes c (ch '\\' :: ch 'u' :: (hexadecimal_print hi ++ hexadecimal_print lo)) := by
  refine .hex4 rfl (fun d hd => ?_) ?_
  · exact (List.mem_append.1 hd).elim (hexadecimal_print_digits _ d) (hexadecimal_print_digits _ d)
  · rw [hexValue, List.foldl_append, foldl_hexadecimal_print, foldl_hexadecimal_print, h, UInt32.zero_mul, UInt32.zero_add]

/-! ## Literals -/

section
variable {print : Char → List UInt8} (h : ∀ c, Escapes c (print c))
include h

/-- What stands between the quotes. -/
theorem escapes_flatMap (cs : List Char) :
    StringBody (cs.flatMap print) ∧ unescape_string (cs.flatMap print) = .ok (encode cs) := by
  induction cs with
  | nil =>
    refine ⟨.nil, ?_⟩
    rw [List.flatMap_nil, unescape_string]
    rfl
  | cons c cs ih =>
    obtain ⟨hbody, htext⟩ := ih
    rw [List.flatMap_cons, (h c).text, htext]
    exact ⟨(h c).body _ hbody, rfl⟩

/-- The literal is read, whatever follows it, and stands for the characters. -/
theorem quoted_read (cs : List Char) (r : List UInt8) : ∃ q : Quoted,
    parse_doublequote_string_no_ws (ch '"' :: (cs.flatMap print ++ [ch '"']) ++ r) = .ok (some q) ∧
      q.text = .ok (encode cs) ∧ q.rest = r := by
  obtain ⟨hbody, htext⟩ := escapes_flatMap h cs
  refine ⟨⟨cs.flatMap print, (cs.flatMap print).contains (ch '\\'), r⟩, ?_, ?_, rfl⟩
  · exact parse_doublequote_string_no_ws_iff.2 ⟨by simp, hbody, rfl⟩
  · rw [Quoted.text_eq rfl]
    exact htext

end

end Dynd.Json
