import Dynd.CodePoints
import Dynd.JsonLiterals
/-!
# Escaped strings

How a string is printed between quotes in messages and in type names: each
code point as a byte, as a short escape or by its hexadecimal digits. The
parser's string scanner reads what is printed, and unescaping gives the string
back: `print_escaped_utf8_string_read`.
-/
namespace Dynd.EscapedString
open Lib Parse Json

/-! ## The printer -/

/-- `hexadecimal_print` of an `unsigned short`: standard printing is in big-endian order. -/
def hexadecimal_print16 (value : UInt16) : List UInt8 :=
  hexadecimal_print (value >>> 8).toUInt8 ++ hexadecimal_print value.toUInt8

/-- `hexadecimal_print` of an `unsigned int`. -/
def hexadecimal_print32 (value : UInt32) : List UInt8 :=
  hexadecimal_print (value >>> 24).toUInt8 ++ hexadecimal_print (value >>> 16).toUInt8 ++
    hexadecimal_print (value >>> 8).toUInt8 ++ hexadecimal_print value.toUInt8

def print_escaped_unicode_codepoint (cp : UInt32) (single_quote : Bool) : List UInt8 :=
  if cp < 0x80 then
    if cp = 8 then [ch '\\', ch 'b']
    else if cp = 12 then [ch '\\', ch 'f']
    else if cp = 10 then [ch '\\', ch 'n']
    else if cp = 13 then [ch '\\', ch 'r']
    else if cp = 9 then [ch '\\', ch 't']
    else if cp = '\\'.val then [ch '\\', ch '\\']
    else if cp = '\''.val then (if single_quote then [ch '\\', ch '\''] else [ch '\''])
    else if cp = '"'.val then (if single_quote then [ch '"'] else [ch '\\', ch '"'])
    else if cp < 0x20 || cp = 0x7f then ch '\\' :: ch 'u' :: hexadecimal_print16 cp.toUInt16
    else [cp.toUInt8]
  else if cp < 0x10000 then ch '\\' :: ch 'u' :: hexadecimal_print16 cp.toUInt16
  else ch '\\' :: ch 'U' :: hexadecimal_print32 cp

/-- `while (str_begin < str_end)`; each round takes at least one byte. -/
def escapedLoop (single_quote : Bool) : ℕ → List UInt8 → Except Transcode.TranscodeError (List UInt8)
  | _, [] => .ok []
  | 0, _ => .ok []
  | n + 1, str => do
    let (cp, moved) ← Transcode.next_utf8 ⟨str, []⟩
    let rest ← escapedLoop single_quote n (str.drop moved)
    return print_escaped_unicode_codepoint cp single_quote ++ rest

def print_escaped_utf8_string (str : List UInt8) (single_quote : Bool) : Except Transcode.TranscodeError (List UInt8) := do
  let quote := if single_quote then ch '\'' else ch '"'
  let text ← escapedLoop single_quote str.length str
  return quote :: (text ++ [quote])

/-! ## Eight digits -/

theorem hexValue_print32 (cp : UInt32) : hexValue (hexadecimal_print32 cp) = cp := by
  rw [hexValue, hexadecimal_print32, List.foldl_append, List.foldl_append, List.foldl_append, foldl_hexadecimal_print,
    foldl_hexadecimal_print, foldl_hexadecimal_print, foldl_hexadecimal_print]
  have hcp := cp.toNat_lt
  apply UInt32.toNat_inj.1
  simp [Nat.shiftRight_eq_div_pow]
  omega

theorem print32_digits (value : UInt32) :
    (hexadecimal_print32 value).length = 8 ∧ ∀ d ∈ hexadecimal_print32 value, isHexDigit d = true := by
  refine ⟨rfl, fun d hd => ?_⟩
  rw [hexadecimal_print32, List.mem_append, List.mem_append, List.mem_append] at hd
  rcases hd with ((hd | hd) | hd) | hd <;> exact hexadecimal_print_digits _ d hd

/-! ## What is printed is read -/

theorem eq_bytes16 {cp : UInt32} (h : cp.toNat < 65536) :
    cp = (cp.toUInt16 >>> 8).toUInt8.toUInt32 * 256 + cp.toUInt16.toUInt8.toUInt32 := by
  apply UInt32.toNat_inj.1
  simp [Nat.shiftRight_eq_div_pow]
  omega

theorem escapes_print16 {c : Char} (h : c.val.toNat < 65536) : Escapes c (ch '\\' :: ch 'u' :: hexadecimal_print16 c.val.toUInt16) :=
  .hexadecimal (eq_bytes16 h)

theorem escapes_print32 (c : Char) : Escapes c (ch '\\' :: ch 'U' :: hexadecimal_print32 c.val) :=
  .hex8 (print32_digits _).1 (print32_digits _).2 (hexValue_print32 _)

/-- In double quotes each character is printed as something that stands for it. -/
theorem print_escaped_spec (c : Char) : Escapes c (print_escaped_unicode_codepoint c.val false) := by
  have h80 : (0x80 : UInt32).toNat = 128 := rfl
  have h10000 : (0x10000 : UInt32).toNat = 65536 := rfl
  rw [print_escaped_unicode_codepoint]
  by_cases hlt : c.val < 0x80
  · rw [if_pos hlt]
    rw [UInt32.lt_iff_toNat_lt, h80] at hlt
    refine .case (by decide) fun _ => ?_
    refine .case (by decide) fun _ => ?_
    refine .case (by decide) fun _ => ?_
    refine .case (by decide) fun _ => ?_
    refine .case (by decide) fun _ => ?_
    refine .case (by decide) fun hb => ?_
    by_cases hs : c.val = '\''.val
    · obtain rfl : c = '\'' := Char.ext hs
      exact .raw (raw_bytes (by decide) (by decide))
    · rw [if_neg hs]
      refine .case (by decide) fun hq => ?_
      split_ifs with hctl
      · exact escapes_print16 (by omega)
      · exact .byte hlt hq hb
  · rw [if_neg hlt]
    split_ifs with h
    · rw [UInt32.lt_iff_toNat_lt, h10000] at h
      exact escapes_print16 h
    · exact escapes_print32 c

/-- The text between the quotes. -/
def escaped (cs : List Char) : List UInt8 := cs.flatMap fun c => print_escaped_unicode_codepoint c.val false

theorem escapedLoop_encode (cs : List Char) (n : ℕ) (h : (encode cs).length ≤ n) : escapedLoop false n (encode cs) = .ok (escaped cs) := by
  induction cs generalizing n with
  | nil =>
    rw [encode, List.flatMap_nil, escapedLoop.eq_def]
    rfl
  | cons c cs ih =>
    obtain ⟨b, trails, he, -⟩ := Utf8.utf8EncodeChar_complete c
    rw [encode_cons, List.length_append, he, List.length_cons] at h
    obtain ⟨n, rfl⟩ : ∃ k, n = k + 1 := ⟨n - 1, by omega⟩
    have hnext := (Transcode.next_utf8_char (c := c) (r := ⟨encode (c :: cs), []⟩) (encode_cons c cs)).1
    have hdrop : (encode (c :: cs)).drop (String.utf8EncodeChar c).length = encode cs := by
      rw [encode_cons, List.drop_left]
    have hcons : encode (c :: cs) = b :: (trails ++ encode cs) := by rw [encode_cons, he, List.cons_append]
    rw [hcons] at hnext hdrop ⊢
    rw [escapedLoop]
    · simp only [hnext, ok_bind, hdrop, ih n (by omega)]
      rfl
    · exact List.cons_ne_nil _ _

/-- What is printed for a string is scanned in full, whatever comes after it, and the literal stands for the string. -/
theorem print_escaped_utf8_string_read (cs : List Char) (r : List UInt8) : ∃ text q,
    print_escaped_utf8_string (encode cs) false = .ok text ∧ parse_doublequote_string_no_ws (text ++ r) = .ok (some q) ∧
      q.rest = r ∧ q.text = .ok (encode cs) := by
  obtain ⟨q, hread, htext, hrest⟩ := quoted_read print_escaped_spec cs r
  refine ⟨ch '"' :: (escaped cs ++ [ch '"']), q, ?_, hread, hrest, htext⟩
  rw [print_escaped_utf8_string, escapedLoop_encode cs _ le_rfl]
  rfl

end Dynd.EscapedString
