import Dynd.Lib.EncodingForms
import Dynd.ParseScalar
/-!
# One code point at a time

The `next_*` and `append_*` functions of `string_encodings.cpp`, in the
checking modes and in `assign_error_nocheck`. Every decoder reads the encoding
of a character as that character, every encoder stores it.
-/
namespace Dynd.Transcode
open Lib Utf8 StringEncodings Parse

/-- What the functions throw, with the data the messages are printed from. -/
inductive TranscodeError where
  | string_decode_error (bytes : List UInt8) (encoding : string_encoding_t)
  | string_encode_error (cp : UInt32) (encoding : string_encoding_t)
  | invalid_code_point (cp : UInt32)
  | runtime_error (what : String)
deriving DecidableEq, Repr

/-! ## The decoders that check -/

abbrev CheckedDecoder := CharRange → Except TranscodeError (UInt32 × ℕ)

def next_ascii : CheckedDecoder := fun r =>
  let result := (r.mem.headD 0).toUInt32
  if result &&& 0x80 ≠ 0 then .error (.string_decode_error (r.mem.take 1) .ascii) else .ok (result, 1)

def next_ucs2 : CheckedDecoder := fun r =>
  let cp := uint16At r.mem
  if is_surrogate cp then .error (.string_decode_error (r.mem.take 2) .ucs_2) else .ok (cp, 2)

def next_utf8 : CheckedDecoder := fun r =>
  match validate_next r.bytes with
  | .ok (cp, it) => .ok (cp, r.bytes.length - it.length)
  | .error .NOT_ENOUGH_ROOM => .error (.runtime_error "Partial UTF8 character at end of buffer")
  -- cp is still 0
  | .error _ => .error (.string_encode_error 0 .utf_8)

def next_utf16 : CheckedDecoder := fun r =>
  let cp := uint16At r.mem
  if is_lead_surrogate cp then
    if 4 ≤ r.bytes.length then
      let trail_surrogate := uint16At (r.mem.drop 2)
      if is_trail_surrogate trail_surrogate then .ok ((cp <<< 10) + trail_surrogate + SURROGATE_OFFSET, 4)
      else .error (.string_decode_error (r.mem.take 4) .utf_16)
    else .error (.string_decode_error r.bytes .utf_16)
  else if is_trail_surrogate cp then .error (.string_decode_error (r.mem.take 2) .utf_16)
  else .ok (cp, 2)

def next_utf32 : CheckedDecoder := fun r =>
  let result := uint32At r.mem
  if !is_code_point_valid result then .error (.string_decode_error (r.mem.take 4) .utf_32) else .ok (result, 4)

/-! ## The encoders -/

/-- The bytes stored from the iterator on, and what is thrown after they are. -/
structure Stores where
  bytes : List UInt8
  thrown : Option TranscodeError
deriving DecidableEq, Repr

/-- An encoder is given the number of bytes from the iterator to `end`. -/
abbrev Encoder := ℕ → UInt32 → Stores

/-- `*it = static_cast<uint16_t>(x)` -/
def store16 (x : UInt32) : List UInt8 := [x.toUInt8, (x >>> 8).toUInt8]

def store32 (x : UInt32) : List UInt8 := store16 x ++ store16 (x >>> 16)

def too_large : TranscodeError := .runtime_error "Input too large to convert to destination string"

def append_ascii : Encoder := fun _ cp =>
  if cp &&& ~~~0x7f ≠ 0 then ⟨[], some (.string_encode_error cp .ascii)⟩ else ⟨[cp.toUInt8], none⟩

def noerror_append_ascii : Encoder := fun _ cp =>
  let cp := if cp &&& ~~~0x7f ≠ 0 then ERROR_SUBSTITUTE_CODEPOINT else cp
  ⟨[cp.toUInt8], none⟩

def append_ucs2 : Encoder := fun _ cp =>
  if cp &&& ~~~0xffff ≠ 0 || is_surrogate cp then ⟨[], some (.string_encode_error cp .ucs_2)⟩ else ⟨store16 cp, none⟩

def noerror_append_ucs2 : Encoder := fun _ cp =>
  let cp := if cp &&& ~~~0xffff ≠ 0 || is_surrogate cp then ERROR_SUBSTITUTE_CODEPOINT else cp
  ⟨store16 cp, none⟩

def append_utf8 : Encoder := fun room cp =>
  match append cp with
  | none => ⟨[], some (.invalid_code_point cp)⟩
  | some tmp =>
    -- through a temporary of 6 bytes where there may not be room
    if room ≥ 6 then ⟨tmp, none⟩ else if tmp.length ≤ room then ⟨tmp, none⟩ else ⟨[], some too_large⟩

def noerror_append_utf8 : Encoder := fun room cp =>
  match append cp with
  | none => ⟨[], some (.invalid_code_point cp)⟩
  | some tmp =>
    if room ≥ 6 then ⟨tmp, none⟩ else if tmp.length ≤ room then ⟨tmp, none⟩ else ⟨List.replicate room 0, none⟩

def LEAD_OFFSET : UInt32 := (0xd800 : UInt32) - ((0x10000 : UInt32) >>> 10)

def TRAIL_SURROGATE_MIN : UInt32 := 0xdc00

def append_utf16 : Encoder := fun room cp =>
  if cp > 0xffff then
    let lead := store16 ((cp >>> 10) + LEAD_OFFSET)
    -- ++it >= end
    if 2 ≥ room then ⟨lead, some too_large⟩ else ⟨lead ++ store16 ((cp &&& 0x3ff) + TRAIL_SURROGATE_MIN), none⟩
  else ⟨store16 cp, none⟩

def noerror_append_utf16 : Encoder := fun room cp =>
  if cp > 0xffff then
    -- it + 1 < end
    if 2 < room then ⟨store16 ((cp >>> 10) + LEAD_OFFSET) ++ store16 ((cp &&& 0x3ff) + TRAIL_SURROGATE_MIN), none⟩
    else ⟨List.replicate room 0, none⟩
  else ⟨store16 cp, none⟩

/-- `append_utf32`, and `noerror_append_utf32`. -/
def append_utf32 : Encoder := fun _ cp => ⟨store32 cp, none⟩

/-! ## The tables -/

def unchecked (next_fn : Decoder) : CheckedDecoder := fun r => .ok (next_fn r)

def get_next_unicode_codepoint_function (encoding : string_encoding_t) (errmode : assign_error_mode) :
    Except TranscodeError CheckedDecoder :=
  match encoding with
  | .ascii => .ok (if errmode ≠ .nocheck then next_ascii else unchecked noerror_next_ascii)
  | .ucs_2 => .ok (if errmode ≠ .nocheck then next_ucs2 else unchecked noerror_next_ucs2)
  | .utf_8 => .ok (if errmode ≠ .nocheck then next_utf8 else unchecked next_fn_utf8)
  | .utf_16 => .ok (if errmode ≠ .nocheck then next_utf16 else unchecked noerror_next_utf16)
  | .utf_32 => .ok (if errmode ≠ .nocheck then next_utf32 else unchecked noerror_next_utf32)
  | _ => .error (.runtime_error "get_next_unicode_codepoint_function: Unrecognized string encoding")

def get_append_unicode_codepoint_function (encoding : string_encoding_t) (errmode : assign_error_mode) :
    Except TranscodeError Encoder :=
  match encoding with
  | .ascii => .ok (if errmode ≠ .nocheck then append_ascii else noerror_append_ascii)
  | .ucs_2 => .ok (if errmode ≠ .nocheck then append_ucs2 else noerror_append_ucs2)
  | .utf_8 => .ok (if errmode ≠ .nocheck then append_utf8 else noerror_append_utf8)
  | .utf_16 => .ok (if errmode ≠ .nocheck then append_utf16 else noerror_append_utf16)
  | .utf_32 => .ok append_utf32
  | _ => .error (.runtime_error "get_append_unicode_codepoint_function: Unrecognized string encoding")

/-! ## What the encodings are -/

def encode_char : string_encoding_t → Char → List UInt8
  | .ascii, c | .latin1, c => [UInt8.ofNat c.toNat]
  | .ucs_2, c => le16 c.toNat
  | .utf_8, c => String.utf8EncodeChar c
  | .utf_16, c => utf16Char c
  | .utf_32, c => le32 c.toNat
  | .invalid, _ => []

/-- The encoding of a text. -/
def encode (encoding : string_encoding_t) (s : List Char) : List UInt8 := s.flatMap (encode_char encoding)

/-- The characters an encoding has. -/
def representable : string_encoding_t → Char → Prop
  | .ascii, c => c.toNat < 0x80
  | .latin1, c => c.toNat < 0x100
  | .ucs_2, c => c.toNat < 0x10000
  | .invalid, _ => False
  | _, _ => True

/-- The encodings string types can have. -/
def recognized : string_encoding_t → Bool
  | .latin1 | .invalid => false
  | _ => true

/-- The encoder stores something for the character. -/
def Storable (errmode : assign_error_mode) (encoding : string_encoding_t) (c : Char) : Prop :=
  errmode = .nocheck ∨ representable encoding c

/-- What it stores: a question mark for a character the encoding does not have. -/
def substituted : string_encoding_t → Char → Char
  | .ascii, c => if c.toNat < 0x80 then c else '?'
  | .ucs_2, c => if c.toNat < 0x10000 then c else '?'
  | _, c => c

/-- The encoding of a text of storable characters. -/
def transcoded (encoding : string_encoding_t) (s : List Char) : List UInt8 := encode encoding (s.map (substituted encoding))

/-! ## Numbers in the bits -/

/-- The bits that a mask of low bits leaves out are zero exactly below its bound. -/
theorem and_not_mask (x m : UInt32) (j : ℕ) (hm : m.toNat = 2 ^ j - 1) :
    x &&& ~~~m = 0 ↔ x.toNat < 2 ^ j := by
  have hmask : (x &&& m).toNat = x.toNat % 2 ^ j := by
    rw [UInt32.toNat_and, hm, Nat.and_two_pow_sub_one_eq_mod]
  constructor
  · intro h
    have hx : x = x &&& m := by
      have hsplit : x = (x &&& m) ||| (x &&& ~~~m) := by
        rw [← UInt32.toBitVec_inj]
        ext i hi
        simp only [UInt32.toBitVec_or, UInt32.toBitVec_and, UInt32.toBitVec_not, BitVec.getElem_or, BitVec.getElem_and,
          BitVec.getElem_not]
        cases x.toBitVec[i] <;> simp
      rw [h, UInt32.or_zero] at hsplit
      exact hsplit
    rw [hx, hmask]
    exact Nat.mod_lt _ (Nat.two_pow_pos j)
  · intro h
    have hx : x &&& m = x := by
      apply UInt32.toNat_inj.mp
      rw [hmask, Nat.mod_eq_of_lt h]
    rw [← hx, UInt32.and_assoc, UInt32.and_not_self, UInt32.and_zero]

theorem store16_eq (x : UInt32) : store16 x = le16 x.toNat := by
  have h : (x >>> 8).toNat = x.toNat / 256 := toNat_shiftRight x 8 (by decide)
  have hlo : x.toUInt8 = UInt8.ofNat x.toNat := by
    apply UInt8.toNat_inj.mp
    rw [UInt32.toNat_toUInt8, UInt8.toNat_ofNat']
  have hhi : (x >>> 8).toUInt8 = UInt8.ofNat (x.toNat / 256) := by
    apply UInt8.toNat_inj.mp
    rw [UInt32.toNat_toUInt8, UInt8.toNat_ofNat', h]
  rw [store16, le16, hlo, hhi]

theorem store32_eq (x : UInt32) : store32 x = le32 x.toNat := by
  have h : (x >>> 16).toNat = x.toNat / 65536 := toNat_shiftRight x 16 (by decide)
  rw [store32, le32, store16_eq, store16_eq, h]

theorem uint16At_le16 {n : ℕ} (h : n < 65536) (rest : List UInt8) : (uint16At (le16 n ++ rest)).toNat = n := by
  have hv := le16_value h
  have hlo := (UInt8.ofNat n).toNat_lt
  have hhi := (UInt8.ofNat (n / 256)).toNat_lt
  show ((UInt8.ofNat n).toUInt32 + ((UInt8.ofNat (n / 256)).toUInt32 <<< 8)).toNat = n
  rw [UInt32.toNat_add, UInt32.toNat_shiftLeft, UInt8.toNat_toUInt32, UInt8.toNat_toUInt32, Nat.shiftLeft_eq]
  have h8 : (8 : UInt32).toNat % 32 = 8 := rfl
  rw [h8]
  omega

theorem uint32At_le32 {n : ℕ} (h : n < 2 ^ 32) (rest : List UInt8) : (uint32At (le32 n ++ rest)).toNat = n := by
  have hlo : (uint16At (le32 n ++ rest)).toNat = n % 65536 := by
    have he : le32 n = le16 (n % 65536) ++ le16 (n / 65536) := by
      have h0 : UInt8.ofNat n = UInt8.ofNat (n % 65536) := by
        apply UInt8.toNat_inj.mp
        rw [UInt8.toNat_ofNat', UInt8.toNat_ofNat']
        omega
      have h1 : UInt8.ofNat (n / 256) = UInt8.ofNat (n % 65536 / 256) := by
        apply UInt8.toNat_inj.mp
        rw [UInt8.toNat_ofNat', UInt8.toNat_ofNat']
        omega
      rw [le32, le16, h0, h1]
      rfl
    rw [he, List.append_assoc]
    exact uint16At_le16 (by omega) _
  have hhi : (uint16At ((le32 n ++ rest).drop 2)).toNat = n / 65536 := uint16At_le16 (by omega) rest
  rw [uint32At, UInt32.toNat_add, UInt32.toNat_shiftLeft, hlo, hhi, Nat.shiftLeft_eq]
  have h16 : (16 : UInt32).toNat % 32 = 16 := rfl
  rw [h16]
  omega

theorem is_surrogate_iff (cp : UInt32) : is_surrogate cp = true ↔ 0xd800 ≤ cp.toNat ∧ cp.toNat ≤ 0xdfff := by
  simp [is_surrogate, UInt32.le_iff_toNat_le]

theorem is_lead_surrogate_iff (cp : UInt32) : is_lead_surrogate cp = true ↔ 0xd800 ≤ cp.toNat ∧ cp.toNat ≤ 0xdbff := by
  simp [is_lead_surrogate, UInt32.le_iff_toNat_le]

theorem is_trail_surrogate_iff (cp : UInt32) : is_trail_surrogate cp = true ↔ 0xdc00 ≤ cp.toNat ∧ cp.toNat ≤ 0xdfff := by
  simp [is_trail_surrogate, UInt32.le_iff_toNat_le]

/-! ## Decoding a character -/

section
variable {c : Char} {r : CharRange} {rest : List UInt8}

theorem next_ascii_char (hc : c.toNat < 0x80) (hr : r.mem = UInt8.ofNat c.toNat :: rest) :
    next_ascii r = .ok (c.val, 1) ∧ noerror_next_ascii r = (c.val, 1) := by
  have hcp : (r.mem.headD 0).toUInt32 = c.val := by
    apply UInt32.toNat_inj.mp
    rw [hr, List.headD_cons, UInt8.toNat_toUInt32, UInt8.toNat_ofNat']
    exact Nat.mod_eq_of_lt (by omega)
  have hhigh : c.val &&& 0x80 = 0 := by
    have hlow : c.val &&& ~~~0x7f = 0 := (and_not_mask c.val 0x7f 7 rfl).mpr hc
    rw [show (0x80 : UInt32) = ~~~0x7f &&& 0x80 by decide, ← UInt32.and_assoc, hlow, UInt32.zero_and]
  constructor
  · simp only [next_ascii, hcp, hhigh, ne_eq, not_true_eq_false, if_false]
  · simp only [noerror_next_ascii, hcp, hhigh, if_true]

theorem not_surrogate (c : Char) : is_surrogate c.val = false := by
  have := scalar_bounds c
  rw [← Bool.not_eq_true, is_surrogate_iff]
  exact this.2

theorem uint16At_char (hc : c.toNat < 0x10000) (hr : r.mem = le16 c.toNat ++ rest) : uint16At r.mem = c.val := by
  apply UInt32.toNat_inj.mp
  rw [hr]
  exact uint16At_le16 hc rest

theorem next_ucs2_char (hc : c.toNat < 0x10000) (hr : r.mem = le16 c.toNat ++ rest) :
    next_ucs2 r = .ok (c.val, 2) ∧ noerror_next_ucs2 r = (c.val, 2) := by
  simp [next_ucs2, noerror_next_ucs2, uint16At_char hc hr, not_surrogate]

theorem next_utf32_char (hr : r.mem = le32 c.toNat ++ rest) :
    next_utf32 r = .ok (c.val, 4) ∧ noerror_next_utf32 r = (c.val, 4) := by
  have hcp : uint32At r.mem = c.val := by
    apply UInt32.toNat_inj.mp
    rw [hr]
    exact uint32At_le32 (by have := scalar_bounds c; omega) rest
  have hvalid : is_code_point_valid c.val = true := (is_code_point_valid_iff _).mpr c.valid
  simp [next_utf32, noerror_next_utf32, hcp, hvalid]

theorem next_utf16_unit (hc : c.toNat < 0x10000) (hr : r.mem = le16 c.toNat ++ rest) :
    next_utf16 r = .ok (c.val, 2) ∧ noerror_next_utf16 r = (c.val, 2) := by
  have hcp := uint16At_char hc hr
  have hb := (scalar_bounds c).2
  have hval : c.val.toNat = c.toNat := rfl
  have hlead : is_lead_surrogate c.val = false := by
    rw [← Bool.not_eq_true, is_lead_surrogate_iff, hval]
    omega
  have htrail : is_trail_surrogate c.val = false := by
    rw [← Bool.not_eq_true, is_trail_surrogate_iff, hval]
    omega
  simp [next_utf16, noerror_next_utf16, hcp, hlead, htrail]

/-- A surrogate pair; only the function that checks looks whether it ends before `end`. -/
theorem next_utf16_pair (hc : 0x10000 ≤ c.toNat)
    (hr : r.mem = le16 (leadSurrogate c.toNat) ++ le16 (trailSurrogate c.toNat) ++ rest) :
    next_utf16 r = (if 4 ≤ r.bytes.length then .ok (c.val, 4) else .error (.string_decode_error r.bytes .utf_16)) ∧
      noerror_next_utf16 r = (c.val, 4) := by
  have hhi := (scalar_bounds c).1
  have hlr := leadSurrogate_range hc hhi
  have htr := trailSurrogate_range c.toNat
  have hlead : (uint16At r.mem).toNat = leadSurrogate c.toNat := by
    rw [hr, List.append_assoc]
    exact uint16At_le16 (by omega) _
  have htrail : (uint16At (r.mem.drop 2)).toNat = trailSurrogate c.toNat := by
    rw [hr]
    exact uint16At_le16 (by omega) rest
  have h1 : is_lead_surrogate (uint16At r.mem) = true := by
    rw [is_lead_surrogate_iff, hlead]
    exact hlr
  have h2 : is_trail_surrogate (uint16At (r.mem.drop 2)) = true := by
    rw [is_trail_surrogate_iff, htrail]
    exact htr
  have hcp : (uint16At r.mem <<< 10) + uint16At (r.mem.drop 2) + SURROGATE_OFFSET = c.val := by
    have hv := surrogates_value hc hhi
    have hoff : SURROGATE_OFFSET.toNat = 0xfca02400 := by decide
    have h10 : (10 : UInt32).toNat % 32 = 10 := rfl
    have hval : c.val.toNat = c.toNat := rfl
    apply UInt32.toNat_inj.mp
    rw [UInt32.toNat_add, UInt32.toNat_add, UInt32.toNat_shiftLeft, hlead, htrail, hoff, h10, Nat.shiftLeft_eq, hval]
    omega
  constructor
  · simp only [next_utf16, h1, if_true, h2, hcp]
  · simp only [noerror_next_utf16, h1, if_true, h2, hcp, if_pos (Nat.le_add_left 2 r.bytes.length)]

theorem next_utf8_char (hr : r.bytes = String.utf8EncodeChar c ++ rest) :
    next_utf8 r = .ok (c.val, (String.utf8EncodeChar c).length) ∧ next_fn_utf8 r = (c.val, (String.utf8EncodeChar c).length) := by
  constructor
  · simp [next_utf8, hr, validate_next_char]
  · simp [next_fn_utf8, hr, noerror_next_utf8_char]

end

/-- Every decoder reads the encoding of a character as that character. -/
theorem next_fn_char {encoding : string_encoding_t} {errmode : assign_error_mode} {next_fn : CheckedDecoder}
    (h : get_next_unicode_codepoint_function encoding errmode = .ok next_fn) {c : Char} (hc : representable encoding c)
    {r : CharRange} {rest : List UInt8} (hr : r.bytes = encode_char encoding c ++ rest) :
    next_fn r = .ok (c.val, (encode_char encoding c).length) := by
  have hmem : r.mem = encode_char encoding c ++ (rest ++ r.past) := by rw [CharRange.mem, hr, List.append_assoc]
  cases encoding <;> cases h
  case ascii =>
    obtain ⟨h1, h2⟩ := next_ascii_char hc hmem
    split_ifs
    · exact h1
    · exact congrArg Except.ok h2
  case ucs_2 =>
    obtain ⟨h1, h2⟩ := next_ucs2_char hc hmem
    split_ifs
    · exact h1
    · exact congrArg Except.ok h2
  case utf_8 =>
    obtain ⟨h1, h2⟩ := next_utf8_char hr
    split_ifs
    · exact h1
    · exact congrArg Except.ok h2
  case utf_16 =>
    by_cases hu : c.toNat < 0x10000
    · have he : encode_char .utf_16 c = le16 c.toNat := if_pos hu
      rw [he] at hmem ⊢
      obtain ⟨h1, h2⟩ := next_utf16_unit hu hmem
      split_ifs
      · exact h1
      · exact congrArg Except.ok h2
    · have he : encode_char .utf_16 c = le16 (leadSurrogate c.toNat) ++ le16 (trailSurrogate c.toNat) := if_neg hu
      rw [he] at hr hmem ⊢
      obtain ⟨h1, h2⟩ := next_utf16_pair (Nat.le_of_not_lt hu) hmem
      have hlen : 4 ≤ r.bytes.length := by
        rw [hr]
        simp
        omega
      rw [if_pos hlen] at h1
      split_ifs
      · exact h1
      · exact congrArg Except.ok h2
  case utf_32 =>
    obtain ⟨h1, h2⟩ := next_utf32_char hmem
    split_ifs
    · exact h1
    · exact congrArg Except.ok h2

/-! ## Storing a character -/

section
variable {c : Char} {room : ℕ}

theorem append_ascii_char (hc : c.toNat < 0x80) :
    append_ascii room c.val = ⟨[UInt8.ofNat c.toNat], none⟩ ∧ noerror_append_ascii room c.val = ⟨[UInt8.ofNat c.toNat], none⟩ := by
  have hlow : c.val &&& ~~~0x7f = 0 := (and_not_mask c.val 0x7f 7 rfl).mpr hc
  have hbyte : c.val.toUInt8 = UInt8.ofNat c.toNat := by
    apply UInt8.toNat_inj.mp
    rw [UInt32.toNat_toUInt8, UInt8.toNat_ofNat']
    rfl
  simp only [append_ascii, noerror_append_ascii, hlow, hbyte, ne_eq, not_true_eq_false, if_false, and_self]

theorem append_ascii_high (hc : ¬ c.toNat < 0x80) : append_ascii room c.val = ⟨[], some (.string_encode_error c.val .ascii)⟩ := by
  have hhigh : c.val &&& ~~~0x7f ≠ 0 := mt (and_not_mask c.val 0x7f 7 rfl).mp hc
  rw [append_ascii, if_pos hhigh]

theorem append_ucs2_char (hc : c.toNat < 0x10000) :
    append_ucs2 room c.val = ⟨le16 c.toNat, none⟩ ∧ noerror_append_ucs2 room c.val = ⟨le16 c.toNat, none⟩ := by
  have hlow : c.val &&& ~~~0xffff = 0 := (and_not_mask c.val 0xffff 16 rfl).mpr hc
  have hs : store16 c.val = le16 c.toNat := store16_eq c.val
  simp only [append_ucs2, noerror_append_ucs2, hlow, not_surrogate, hs, ne_eq, not_true_eq_false, decide_false, Bool.or_self,
    Bool.false_eq_true, if_false, and_self]

theorem append_ucs2_high (hc : ¬ c.toNat < 0x10000) :
    append_ucs2 room c.val = ⟨[], some (.string_encode_error c.val .ucs_2)⟩ := by
  have hhigh : c.val &&& ~~~0xffff ≠ 0 := mt (and_not_mask c.val 0xffff 16 rfl).mp hc
  rw [append_ucs2, decide_eq_true hhigh, Bool.true_or, if_pos rfl]

theorem noerror_append_ascii_high (hc : ¬ c.toNat < 0x80) :
    noerror_append_ascii room c.val = noerror_append_ascii room '?'.val := by
  have hhigh : c.val &&& ~~~0x7f ≠ 0 := mt (and_not_mask c.val 0x7f 7 rfl).mp hc
  rw [noerror_append_ascii, if_pos hhigh]
  rfl

theorem noerror_append_ucs2_high (hc : ¬ c.toNat < 0x10000) :
    noerror_append_ucs2 room c.val = noerror_append_ucs2 room '?'.val := by
  have hhigh : c.val &&& ~~~0xffff ≠ 0 := mt (and_not_mask c.val 0xffff 16 rfl).mp hc
  rw [noerror_append_ucs2, decide_eq_true hhigh, Bool.true_or, if_pos rfl]
  rfl

theorem append_utf8_char (hroom : (String.utf8EncodeChar c).length ≤ room) :
    append_utf8 room c.val = ⟨String.utf8EncodeChar c, none⟩ ∧ noerror_append_utf8 room c.val = ⟨String.utf8EncodeChar c, none⟩ := by
  simp only [append_utf8, noerror_append_utf8, append_char, hroom, if_true, ite_self, and_self]

theorem append_utf16_char (hroom : (utf16Char c).length ≤ room) :
    append_utf16 room c.val = ⟨utf16Char c, none⟩ ∧ noerror_append_utf16 room c.val = ⟨utf16Char c, none⟩ := by
  have hgt : c.val > 0xffff ↔ ¬ c.toNat < 0x10000 := by
    rw [gt_iff_lt, UInt32.lt_iff_toNat_lt, show (0xffff : UInt32).toNat = 65535 from rfl, show c.val.toNat = c.toNat from rfl]
    omega
  by_cases hu : c.toNat < 0x10000
  · have hs : store16 c.val = le16 c.toNat := store16_eq c.val
    simp [append_utf16, noerror_append_utf16, utf16Char, hgt, hu, hs]
  · have hlo := Nat.le_of_not_lt hu
    have hhi := (scalar_bounds c).1
    have hroom2 : 2 < room := by
      rw [length_utf16Char, if_neg hu] at hroom
      omega
    have hlead : store16 ((c.val >>> 10) + LEAD_OFFSET) = le16 (leadSurrogate c.toNat) := by
      have h10 : (c.val >>> 10).toNat = c.toNat / 1024 := toNat_shiftRight c.val 10 (by decide)
      have hoff : LEAD_OFFSET.toNat = 0xd7c0 := by decide
      rw [store16_eq, UInt32.toNat_add, h10, hoff, leadSurrogate_eq hlo hhi, Nat.mod_eq_of_lt (by omega)]
    have htrail : store16 ((c.val &&& 0x3ff) + TRAIL_SURROGATE_MIN) = le16 (trailSurrogate c.toNat) := by
      have hand : (c.val &&& 0x3ff).toNat = c.toNat % 1024 := by
        rw [UInt32.toNat_and]
        exact Nat.and_two_pow_sub_one_eq_mod c.toNat 10
      have hmin : TRAIL_SURROGATE_MIN.toNat = 0xdc00 := by decide
      rw [store16_eq, UInt32.toNat_add, hand, hmin, trailSurrogate_eq hlo, Nat.mod_eq_of_lt (by omega)]
    simp [append_utf16, noerror_append_utf16, utf16Char, hgt, hu, hlead, htrail, hroom2, Nat.not_le.mpr hroom2]

theorem append_utf32_char : append_utf32 room c.val = ⟨le32 c.toNat, none⟩ := by
  rw [append_utf32, store32_eq]
  rfl

end

theorem substituted_of_representable {encoding : string_encoding_t} {c : Char} (hc : representable encoding c) :
    substituted encoding c = c := by
  cases encoding with
  | ascii => exact if_pos hc
  | ucs_2 => exact if_pos hc
  | _ => rfl

theorem representable_substituted {encoding : string_encoding_t} (h : recognized encoding = true) (c : Char) :
    representable encoding (substituted encoding c) := by
  cases encoding with
  | ascii =>
    rw [substituted]
    split_ifs with hlow
    · exact hlow
    · show '?'.toNat < 0x80
      decide
  | ucs_2 =>
    rw [substituted]
    split_ifs with hlow
    · exact hlow
    · show '?'.toNat < 0x10000
      decide
  | utf_8 => trivial
  | utf_16 => trivial
  | utf_32 => trivial
  | latin1 => cases h
  | invalid => cases h

section
variable {encoding : string_encoding_t} {errmode : assign_error_mode} {append_fn : Encoder}
  (h : get_append_unicode_codepoint_function encoding errmode = .ok append_fn)
include h

/-- Every encoder stores the encoding of a character it has room for. -/
theorem append_fn_char {c : Char} (hc : representable encoding c) {room : ℕ}
    (hroom : (encode_char encoding c).length ≤ room) : append_fn room c.val = ⟨encode_char encoding c, none⟩ := by
  cases encoding <;> cases h
  case ascii =>
    obtain ⟨h1, h2⟩ := @append_ascii_char c room hc
    split_ifs
    · exact h1
    · exact h2
  case ucs_2 =>
    obtain ⟨h1, h2⟩ := @append_ucs2_char c room hc
    split_ifs
    · exact h1
    · exact h2
  case utf_8 =>
    obtain ⟨h1, h2⟩ := append_utf8_char hroom
    split_ifs
    · exact h1
    · exact h2
  case utf_16 =>
    obtain ⟨h1, h2⟩ := append_utf16_char hroom
    split_ifs
    · exact h1
    · exact h2
  case utf_32 => exact append_utf32_char

/-- A character the encoding does not have is refused by the encoders that check. -/
theorem append_fn_not_representable (hmode : errmode ≠ .nocheck) {c : Char} (hc : ¬ representable encoding c) (room : ℕ) :
    append_fn room c.val = ⟨[], some (.string_encode_error c.val encoding)⟩ := by
  cases encoding <;> cases h
  case ascii =>
    rw [if_pos hmode]
    exact append_ascii_high hc
  case ucs_2 =>
    rw [if_pos hmode]
    exact append_ucs2_high hc
  all_goals exact absurd trivial hc

/-- The encoders that do not check take it for a question mark. -/
theorem append_fn_substituted {c : Char} (hc : Storable errmode encoding c) (room : ℕ) :
    append_fn room c.val = append_fn room (substituted encoding c).val := by
  rcases hc with hmode | hc
  · cases encoding <;> cases h <;> simp only [substituted]
    · split_ifs with hmode' hlow hlow
      · exact absurd hmode hmode'
      · exact absurd hmode hmode'
      · rfl
      · exact noerror_append_ascii_high hlow
    · split_ifs with hmode' hlow hlow
      · exact absurd hmode hmode'
      · exact absurd hmode hmode'
      · rfl
      · exact noerror_append_ucs2_high hlow
  · rw [substituted_of_representable hc]

/-- No encoder stores more than it has room for when it has room for four bytes. -/
theorem append_fn_inside {room : ℕ} (hroom : 4 ≤ room) (cp : UInt32) : (append_fn room cp).bytes.length ≤ room := by
  have hutf8 : ∀ tmp, append cp = some tmp → tmp.length ≤ room := by
    intro tmp htmp
    unfold append at htmp
    split_ifs at htmp <;> cases htmp <;> simp <;> omega
  cases encoding <;> cases h
  case ascii => split_ifs <;> simp only [append_ascii, noerror_append_ascii] <;> split_ifs <;> simp <;> omega
  case ucs_2 => split_ifs <;> simp only [append_ucs2, noerror_append_ucs2] <;> split_ifs <;> simp [store16] <;> omega
  case utf_8 =>
    cases happ : append cp with
    | none => split_ifs <;> simp [append_utf8, noerror_append_utf8, happ]
    | some tmp =>
      have hle := hutf8 tmp happ
      split_ifs <;> simp [append_utf8, noerror_append_utf8, happ, hle]
  case utf_16 => split_ifs <;> simp only [append_utf16, noerror_append_utf16] <;> split_ifs <;> simp [store16] <;> omega
  case utf_32 =>
    simp [append_utf32, store32, store16]
    omega

end

/-! ## Texts -/

theorem encode_cons (encoding : string_encoding_t) (c : Char) (s : List Char) :
    encode encoding (c :: s) = encode_char encoding c ++ encode encoding s := List.flatMap_cons

theorem encode_append (encoding : string_encoding_t) (s t : List Char) :
    encode encoding (s ++ t) = encode encoding s ++ encode encoding t := List.flatMap_append

theorem transcoded_cons (encoding : string_encoding_t) (c : Char) (s : List Char) :
    transcoded encoding (c :: s) = encode_char encoding (substituted encoding c) ++ transcoded encoding s := by
  rw [transcoded, List.map_cons, encode_cons, transcoded]

theorem transcoded_append (encoding : string_encoding_t) (s t : List Char) :
    transcoded encoding (s ++ t) = transcoded encoding s ++ transcoded encoding t := by
  rw [transcoded, List.map_append, encode_append, transcoded, transcoded]

theorem transcoded_of_representable {encoding : string_encoding_t} {s : List Char} (hs : ∀ c ∈ s, representable encoding c) :
    transcoded encoding s = encode encoding s := by
  have hmap : s.map (substituted encoding) = s :=
    (List.map_congr_left fun c hc => substituted_of_representable (hs c hc)).trans (List.map_id' s)
  rw [transcoded, hmap]

theorem char_size_pos {encoding : string_encoding_t} (h : recognized encoding = true) : 0 < char_size encoding := by
  cases encoding <;> first | decide | cases h

/-- A character takes at least one unit, and four bytes at most. -/
theorem encode_char_length {encoding : string_encoding_t} (h : recognized encoding = true) (c : Char) :
    char_size encoding ≤ (encode_char encoding c).length ∧ (encode_char encoding c).length ≤ 4 := by
  cases encoding with
  | utf_8 =>
    rw [encode_char, String.length_utf8EncodeChar]
    exact ⟨c.utf8Size_pos, c.utf8Size_le_four⟩
  | utf_16 =>
    rw [encode_char, length_utf16Char, char_size]
    split_ifs <;> omega
  | ascii => exact ⟨le_refl 1, by simp [encode_char]⟩
  | ucs_2 => exact ⟨le_refl 2, by simp [encode_char]⟩
  | utf_32 => exact ⟨le_refl 4, le_refl 4⟩
  | latin1 => cases h
  | invalid => cases h

theorem encode_char_ne_nil {encoding : string_encoding_t} (h : recognized encoding = true) (c : Char) :
    encode_char encoding c ≠ [] := by
  intro he
  have hlen := (encode_char_length h c).1
  have hpos := char_size_pos h
  rw [he, List.length_nil] at hlen
  omega

theorem length_le_encode {encoding : string_encoding_t} (h : recognized encoding = true) (s : List Char) :
    s.length ≤ (encode encoding s).length := by
  induction s with
  | nil => exact Nat.zero_le _
  | cons c s ih =>
    have hlen := (encode_char_length h c).1
    have hpos := char_size_pos h
    rw [encode_cons, List.length_cons, List.length_append]
    omega

theorem recognized_next {encoding : string_encoding_t} (h : recognized encoding = true) (errmode : assign_error_mode) :
    ∃ next_fn, get_next_unicode_codepoint_function encoding errmode = .ok next_fn := by
  cases encoding <;> first | exact ⟨_, rfl⟩ | cases h

theorem recognized_append {encoding : string_encoding_t} (h : recognized encoding = true) (errmode : assign_error_mode) :
    ∃ append_fn, get_append_unicode_codepoint_function encoding errmode = .ok append_fn := by
  cases encoding <;> first | exact ⟨_, rfl⟩ | cases h

/-! ## One round of a conversion loop -/

inductive Round where
  | stored (moved : ℕ) (bytes : List UInt8)
  | threw (e : TranscodeError)
  | overrun
deriving DecidableEq, Repr

/-- `cp = next_fn(begin, end); append_fn(cp, dst, dst_end)`. The encoder is told of `room` bytes, and
`space` bytes are there; a store beyond them is an overrun. -/
def convert_next (next_fn : CheckedDecoder) (append_fn : Encoder) (r : CharRange) (room space : ℕ) : Round :=
  match next_fn r with
  | .error e => .threw e
  | .ok (cp, moved) =>
    let stores := append_fn room cp
    if stores.bytes.length > space then .overrun
    else match stores.thrown with
      | some e => .threw e
      | none => .stored moved stores.bytes

theorem convert_next_stored_le {next_fn : CheckedDecoder} {append_fn : Encoder} {r : CharRange} {room space moved : ℕ}
    {bytes : List UInt8} (h : convert_next next_fn append_fn r room space = .stored moved bytes) : bytes.length ≤ space := by
  unfold convert_next at h
  split at h
  · cases h
  · dsimp only at h
    split_ifs at h with hle
    split at h
    · cases h
    · cases h
      exact Nat.le_of_not_lt hle

section
variable {src_encoding dst_encoding : string_encoding_t} {errmode : assign_error_mode} {next_fn : CheckedDecoder}
  {append_fn : Encoder} (hnext : get_next_unicode_codepoint_function src_encoding errmode = .ok next_fn)
  (happend : get_append_unicode_codepoint_function dst_encoding errmode = .ok append_fn)
include happend

/-- A round in which a character is read stores it, or runs over the space there is. -/
theorem convert_next_storable (hd : recognized dst_encoding = true) {c : Char} {moved : ℕ} {r : CharRange}
    (hread : next_fn r = .ok (c.val, moved)) (hdst : Storable errmode dst_encoding c) {room space : ℕ}
    (hroom : (encode_char dst_encoding (substituted dst_encoding c)).length ≤ room) :
    convert_next next_fn append_fn r room space =
      if (encode_char dst_encoding (substituted dst_encoding c)).length ≤ space then
        .stored moved (encode_char dst_encoding (substituted dst_encoding c))
      else .overrun := by
  have hstores : append_fn room c.val = ⟨encode_char dst_encoding (substituted dst_encoding c), none⟩ := by
    rw [append_fn_substituted happend hdst]
    exact append_fn_char happend (representable_substituted hd c) hroom
  simp only [convert_next, hread, hstores]
  split_ifs with h1 h2 <;> first | rfl | omega

include hnext

theorem convert_next_not_representable (hmode : errmode ≠ .nocheck) {c : Char} (hsrc : representable src_encoding c)
    (hdst : ¬ representable dst_encoding c) {r : CharRange} {rest : List UInt8}
    (hr : r.bytes = encode_char src_encoding c ++ rest) (room space : ℕ) :
    convert_next next_fn append_fn r room space = .threw (.string_encode_error c.val dst_encoding) := by
  simp [convert_next, next_fn_char hnext hsrc hr, append_fn_not_representable happend hmode hdst]

omit hnext in
theorem convert_next_inside {room : ℕ} (hroom : 4 ≤ room) (r : CharRange) :
    convert_next next_fn append_fn r room room ≠ .overrun := by
  unfold convert_next
  split
  · simp
  · rename_i cp moved _
    have hle := append_fn_inside happend hroom cp
    rw [if_neg (by omega)]
    split <;> simp

end

end Dynd.Transcode
