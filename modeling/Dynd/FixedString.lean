import Dynd.StringAssign
/-!
# Fixed strings

A `fixed_string` is a buffer of a given size, filled up with zeros. The kernels
that assign to it convert code points until the source or the buffer ends; what
is read back ends at the first zero unit.
-/
namespace Dynd.Transcode
open Lib StringEncodings Parse

/-! ## The type -/

/-- The constructor throws for the other encodings. -/
structure fixed_string_type where
  stringsize : ℕ
  encoding : string_encoding_t
  known : recognized encoding = true

namespace fixed_string_type

def data_size (tp : fixed_string_type) : ℕ := tp.stringsize * char_size tp.encoding

/-- `while (ptr < ptr_max && *ptr != 0) ++ptr` with `const uint16_t *ptr`. -/
def units16_to_null : List UInt8 → List UInt8
  | a :: b :: rest => if uint16At [a, b] ≠ 0 then a :: b :: units16_to_null rest else []
  | _ => []

/-- The same with `const uint32_t *ptr`. -/
def units32_to_null : List UInt8 → List UInt8
  | a :: b :: c :: d :: rest => if uint32At [a, b, c, d] ≠ 0 then a :: b :: c :: d :: units32_to_null rest else []
  | _ => []

/-- `switch (string_encoding_char_size_table[m_encoding])` -/
def range_to_null (encoding : string_encoding_t) (data : List UInt8) : List UInt8 :=
  match char_size encoding with
  | 1 => data.takeWhile (· ≠ 0)
  | 2 => units16_to_null data
  | 4 => units32_to_null data
  | _ => []

def get_string_range (tp : fixed_string_type) (data : List UInt8) : CharRange :=
  let range := range_to_null tp.encoding data
  ⟨range, data.drop range.length⟩

end fixed_string_type

/-- `while (begin < end) { cp = next_fn(begin, end); ... }`, for at most `fuel` rounds. -/
def read_code_points (next_fn : CheckedDecoder) : ℕ → CharRange → Option (Except TranscodeError (List UInt32))
  | 0, _ => none
  | fuel + 1, r =>
    if r.bytes = [] then some (.ok [])
    else match next_fn r with
      | .error e => some (.error e)
      | .ok (cp, moved) => (read_code_points next_fn fuel (r.advance moved)).map fun cps => (cp :: ·) <$> cps

/-- The code points of the string in the buffer. -/
def fixed_string_type.read_back (tp : fixed_string_type) (errmode : assign_error_mode) (data : List UInt8) (fuel : ℕ) :
    Option (Except TranscodeError (List UInt32)) :=
  match get_next_unicode_codepoint_function tp.encoding errmode with
  | .error e => some (.error e)
  | .ok next_fn => read_code_points next_fn fuel (tp.get_string_range data)

/-! ## The kernels -/

/-- `append_fn(cp, dst, dst_end)`, where `moved` bytes were read for `cp`. -/
def append_next (append_fn : Encoder) (cp : UInt32) (moved room space : ℕ) : Round :=
  let stores := append_fn room cp
  if stores.bytes.length > space then .overrun
  else match stores.thrown with
    | some e => .threw e
    | none => .stored moved stores.bytes

/-- How the loop that fills a fixed buffer is left. -/
inductive FillExit where
  /-- A null code point of the source was read. -/
  | terminated (dst : OutBuffer)
  /-- `while (src_copy < src_end && dst < dst_end)` is false. -/
  | left (src : CharRange) (dst : OutBuffer)
  | threw (e : TranscodeError)
  | overrun
deriving DecidableEq, Repr

/-- The loop, for at most `fuel` rounds. `null_terminated` says that it looks whether the code point
is null: a fixed source ends there, a `string` goes on. -/
def fill_loop (next_fn : CheckedDecoder) (append_fn : Encoder) (null_terminated : Bool) :
    ℕ → CharRange → OutBuffer → Option FillExit
  | 0, _, _ => none
  | fuel + 1, src, dst =>
    if src.bytes = [] ∨ dst.room = 0 then some (.left src dst)
    else match next_fn src with
      | .error e => some (.threw e)
      | .ok (cp, moved) =>
        if null_terminated = true ∧ cp = 0 then some (.terminated dst)
        else match append_next append_fn cp moved dst.room dst.room with
          | .threw e => some (.threw e)
          | .overrun => some .overrun
          | .stored moved bytes => fill_loop next_fn append_fn null_terminated fuel (src.advance moved) (dst.append bytes)

/-- The buffer after the call. -/
inductive FixedStored where
  | done (data : List UInt8)
  | threw (e : TranscodeError)
  | overrun
deriving DecidableEq, Repr

/-- `memset(dst, 0, dst_end - dst)` -/
def OutBuffer.clear (b : OutBuffer) : List UInt8 := b.written ++ List.replicate b.room 0

def too_large_for_fixed : TranscodeError :=
  .runtime_error "Input string is too large to convert to destination fixed-size string"

/-- What follows the loop. -/
def finish (overflow_check : Bool) : FillExit → FixedStored
  | .threw e => .threw e
  | .overrun => .overrun
  | .terminated dst => .done dst.clear
  | .left src dst =>
    if src.bytes ≠ [] then if overflow_check then .threw too_large_for_fixed else .done dst.written
    else if dst.room > 0 then .done dst.clear
    else .done dst.written

structure fixed_string_assign_ck where
  next_fn : CheckedDecoder
  append_fn : Encoder
  dst_data_size : ℕ
  src_data_size : ℕ
  overflow_check : Bool

def make_fixed_string_assignment_kernel (dst_data_size : ℕ) (dst_encoding : string_encoding_t) (src_data_size : ℕ)
    (src_encoding : string_encoding_t) (errmode : assign_error_mode) : Except TranscodeError fixed_string_assign_ck := do
  let next_fn ← get_next_unicode_codepoint_function src_encoding errmode
  let append_fn ← get_append_unicode_codepoint_function dst_encoding errmode
  return ⟨next_fn, append_fn, dst_data_size, src_data_size, errmode ≠ .nocheck⟩

/-- `mem` is the memory from the source pointer on. -/
def fixed_string_assign_ck.single (ck : fixed_string_assign_ck) (mem : List UInt8) (fuel : ℕ) : Option FixedStored :=
  (fill_loop ck.next_fn ck.append_fn true fuel ⟨mem.take ck.src_data_size, mem.drop ck.src_data_size⟩
    ⟨[], ck.dst_data_size⟩).map (finish ck.overflow_check)

structure blockref_string_to_fixed_string_assign_ck where
  next_fn : CheckedDecoder
  append_fn : Encoder
  dst_data_size : ℕ
  overflow_check : Bool

def make_blockref_string_to_fixed_string_assignment_kernel (dst_data_size : ℕ)
    (dst_encoding src_encoding : string_encoding_t) (errmode : assign_error_mode) : Except TranscodeError blockref_string_to_fixed_string_assign_ck := do
  let next_fn ← get_next_unicode_codepoint_function src_encoding errmode
  let append_fn ← get_append_unicode_codepoint_function dst_encoding errmode
  return ⟨next_fn, append_fn, dst_data_size, errmode ≠ .nocheck⟩

/-- The source range is empty where the source string has `begin == NULL`. -/
def blockref_string_to_fixed_string_assign_ck.single (ck : blockref_string_to_fixed_string_assign_ck)
    (src : Option CharRange) (fuel : ℕ) : Option FixedStored :=
  (fill_loop ck.next_fn ck.append_fn false fuel (src.getD ⟨[], []⟩) ⟨[], ck.dst_data_size⟩).map (finish ck.overflow_check)

structure fixed_string_to_blockref_string_assign_ck where
  dst_encoding : string_encoding_t
  src_encoding : string_encoding_t
  src_element_size : ℕ
  next_fn : CheckedDecoder
  append_fn : Encoder

def make_fixed_string_to_blockref_string_assignment_kernel (dst_encoding : string_encoding_t) (src_element_size : ℕ)
    (src_encoding : string_encoding_t) (errmode : assign_error_mode) :
    Except TranscodeError fixed_string_to_blockref_string_assign_ck := do
  let next_fn ← get_next_unicode_codepoint_function src_encoding errmode
  let append_fn ← get_append_unicode_codepoint_function dst_encoding errmode
  return ⟨dst_encoding, src_encoding, src_element_size, next_fn, append_fn⟩

/-- The loop of `fixed_string_to_blockref_string_assign_ck`, for at most `fuel` rounds. -/
def assign_loop_to_null (next_fn : CheckedDecoder) (append_fn : Encoder) :
    ℕ → CharRange → OutBuffer → Option Converted
  | 0, _, _ => none
  | fuel + 1, src, b =>
    if src.bytes = [] then some (.done b)
    else match next_fn src with
      | .error e => some (.threw e)
      | .ok (cp, moved) =>
        if cp = 0 then some (.done b)
        else
          let b := b.ensure_room
          match append_next append_fn cp moved b.room b.room with
          | .threw e => some (.threw e)
          | .overrun => some .overrun
          | .stored moved bytes => assign_loop_to_null next_fn append_fn fuel (src.advance moved) (b.append bytes)

namespace fixed_string_to_blockref_string_assign_ck

def initial_size (ck : fixed_string_to_blockref_string_assign_ck) : ℕ :=
  (ck.src_element_size / char_size ck.src_encoding + 16) * char_size ck.dst_encoding * 1124 / 1024

def single (ck : fixed_string_to_blockref_string_assign_ck) (dst : Option (List UInt8)) (mem : List UInt8) (fuel : ℕ) :
    Option Assigned :=
  match dst with
  | some _ => some (.threw (.runtime_error "Cannot assign to an already initialized dynd string"))
  | none =>
    match assign_loop_to_null ck.next_fn ck.append_fn fuel ⟨mem.take ck.src_element_size, mem.drop ck.src_element_size⟩
      ⟨[], ck.initial_size⟩ with
    | none => none
    | some (.threw e) => some (.threw e)
    | some .overrun => some .overrun
    | some (.done b) => some (.done (some (b.resize b.written.length).written))

end fixed_string_to_blockref_string_assign_ck

/-! ## The text in a buffer -/

/-- What is read from the buffer: its text ends at a null character or with the buffer. -/
structure fixed_string_type.Reads (tp : fixed_string_type) (data : List UInt8) (s : List Char) : Prop where
  size : data.length = tp.data_size
  representable : ∀ c ∈ s, representable tp.encoding c
  no_null : '\x00' ∉ s
  bytes : ∃ rest, data = encode tp.encoding s ++ rest ∧ (rest = [] ∨ ∃ past, rest = encode_char tp.encoding '\x00' ++ past)

/-- The text fills the buffer, or zeros do after it. -/
structure fixed_string_type.Holds (tp : fixed_string_type) (data : List UInt8) (s : List Char) : Prop where
  size : data.length = tp.data_size
  representable : ∀ c ∈ s, representable tp.encoding c
  no_null : '\x00' ∉ s
  bytes : ∃ pad, data = encode tp.encoding s ++ List.replicate pad 0

/-! ## Storing in what is left of a buffer -/

theorem convert_next_eq {next_fn : CheckedDecoder} {append_fn : Encoder} {r : CharRange} {cp : UInt32} {moved : ℕ}
    (h : next_fn r = .ok (cp, moved)) (room space : ℕ) :
    convert_next next_fn append_fn r room space = append_next append_fn cp moved room space := by
  simp only [convert_next, h]
  rfl

theorem append_next_stored {append_fn : Encoder} {cp : UInt32} {moved room space n : ℕ} {bytes : List UInt8}
    (h : append_next append_fn cp moved room space = .stored n bytes) :
    n = moved ∧ bytes = (append_fn room cp).bytes ∧ bytes.length ≤ space := by
  unfold append_next at h
  dsimp only at h
  split_ifs at h with hle
  split at h
  · cases h
  · cases h
    exact ⟨rfl, rfl, Nat.le_of_not_lt hle⟩

section
variable {encoding : string_encoding_t} {errmode : assign_error_mode} {append_fn : Encoder}
  (h : get_append_unicode_codepoint_function encoding errmode = .ok append_fn)
include h

/-- A buffer that holds whole units has room for what any encoder stores, and whole units are left. -/
theorem append_fn_units {room : ℕ} (hroom : room ≠ 0) (hunits : char_size encoding ∣ room) (cp : UInt32) :
    (append_fn room cp).bytes.length ≤ room ∧ char_size encoding ∣ (append_fn room cp).bytes.length := by
  have hutf8 : ∀ tmp, Utf8.append cp = some tmp → tmp.length ≤ 6 := by
    intro tmp htmp
    unfold Utf8.append at htmp
    split_ifs at htmp <;> cases htmp <;> simp
  cases encoding <;> cases h <;> simp only [char_size] at hunits ⊢
  case ascii => split_ifs <;> simp only [append_ascii, noerror_append_ascii] <;> split_ifs <;> simp <;> omega
  case ucs_2 => split_ifs <;> simp only [append_ucs2, noerror_append_ucs2] <;> split_ifs <;> simp [store16] <;> omega
  case utf_8 =>
    refine ⟨?_, one_dvd _⟩
    cases happ : Utf8.append cp with
    | none => split_ifs <;> simp [append_utf8, noerror_append_utf8, happ]
    | some tmp =>
      have hle := hutf8 tmp happ
      split_ifs <;> simp only [append_utf8, noerror_append_utf8, happ] <;> split_ifs <;> simp <;> omega
  case utf_16 => split_ifs <;> simp only [append_utf16, noerror_append_utf16] <;> split_ifs <;> simp [store16] <;> omega
  case utf_32 =>
    simp [append_utf32, store32, store16]
    omega

/-- A character that takes more than is left is refused, or fills what is left with zeros. -/
theorem append_fn_cramped {c : Char} (hc : Storable errmode encoding c) {room : ℕ} (hroom : room ≠ 0)
    (hunits : char_size encoding ∣ room) (hlt : room < (encode_char encoding (substituted encoding c)).length) :
    if errmode = .nocheck then append_fn room c.val = ⟨List.replicate room 0, none⟩
    else (append_fn room c.val).thrown = some too_large := by
  cases encoding <;> cases h <;> simp only [char_size] at hunits
  case ascii =>
    simp [encode_char] at hlt
    omega
  case ucs_2 =>
    simp [encode_char] at hlt
    omega
  case utf_8 =>
    have hlen := c.utf8Size_le_four
    simp only [substituted, encode_char, String.length_utf8EncodeChar] at hlt
    have h6 : ¬ room ≥ 6 := by omega
    by_cases hmode : errmode = .nocheck
    · simp [hmode, noerror_append_utf8, Utf8.append_char, h6, Nat.not_le.mpr hlt]
    · simp [hmode, append_utf8, Utf8.append_char, h6, Nat.not_le.mpr hlt]
  case utf_16 =>
    simp only [substituted, encode_char, length_utf16Char] at hlt
    split_ifs at hlt with hlow
    · omega
    · have hgt : c.val > 0xffff := by
        rw [gt_iff_lt, UInt32.lt_iff_toNat_lt]
        exact Nat.lt_of_succ_le (Nat.le_of_not_lt hlow)
      have h2 : 2 ≥ room := by omega
      by_cases hmode : errmode = .nocheck
      · simp [hmode, noerror_append_utf16, hgt, Nat.not_lt.mpr h2]
      · simp [hmode, append_utf16, hgt, h2]
  case utf_32 =>
    simp [encode_char] at hlt
    omega

end

/-! ## Characters and what follows them -/

/-- A character is stored in whole units. -/
theorem encode_char_units {encoding : string_encoding_t} (h : recognized encoding = true) (c : Char) :
    char_size encoding ∣ (encode_char encoding c).length := by
  cases encoding with
  | utf_16 =>
    rw [encode_char, length_utf16Char]
    split_ifs <;> decide
  | utf_8 => exact one_dvd _
  | ascii => exact dvd_refl 1
  | ucs_2 => exact dvd_refl 2
  | utf_32 => exact dvd_refl 4
  | latin1 => cases h
  | invalid => cases h

theorem encode_char_append_ne_nil {encoding : string_encoding_t} (h : recognized encoding = true) (c : Char)
    (more : List UInt8) : encode_char encoding c ++ more ≠ [] :=
  List.append_ne_nil_of_left_ne_nil (encode_char_ne_nil h c) _

theorem null_notMem_cons {c : Char} {s : List Char} : '\x00' ∉ c :: s ↔ c ≠ '\x00' ∧ '\x00' ∉ s := by
  simp [eq_comm]

/-! ## The loop that fills a buffer -/

namespace OutBuffer

theorem room_append (b : OutBuffer) (bytes : List UInt8) : (b.append bytes).room = b.room - bytes.length := by
  simp only [room, append, List.length_append]
  omega

theorem written_append (b : OutBuffer) (bytes : List UInt8) : (b.append bytes).written = b.written ++ bytes := rfl

end OutBuffer

/-- The bytes at the beginning of `room` bytes, the others zero. -/
def padded (room : ℕ) (bytes : List UInt8) : List UInt8 := bytes ++ List.replicate (room - bytes.length) 0

theorem length_padded {room : ℕ} {bytes : List UInt8} (h : bytes.length ≤ room) : (padded room bytes).length = room := by
  simp only [padded, List.length_append, List.length_replicate]
  omega

theorem padded_append {room : ℕ} {a b : List UInt8} : padded room (a ++ b) = a ++ padded (room - a.length) b := by
  simp only [padded, List.append_assoc, List.length_append, Nat.sub_add_eq]

/-- The characters of the text that go into `room` bytes, up to the first that does not. -/
def fitting (encoding : string_encoding_t) : ℕ → List Char → List Char
  | _, [] => []
  | room, c :: s =>
    let size := (encode_char encoding (substituted encoding c)).length
    if size ≤ room then c :: fitting encoding (room - size) s else []

theorem fitting_prefix (encoding : string_encoding_t) (room : ℕ) (s : List Char) : fitting encoding room s <+: s := by
  induction s generalizing room with
  | nil => exact List.prefix_refl _
  | cons c s ih =>
    rw [fitting]
    split_ifs
    · exact (List.cons_prefix_cons).mpr ⟨rfl, ih _⟩
    · exact List.nil_prefix

theorem transcoded_fitting_le (encoding : string_encoding_t) (room : ℕ) (s : List Char) :
    (transcoded encoding (fitting encoding room s)).length ≤ room := by
  induction s generalizing room with
  | nil => exact Nat.zero_le _
  | cons c s ih =>
    rw [fitting]
    split_ifs with hfits
    · have := ih (room - (encode_char encoding (substituted encoding c)).length)
      rw [transcoded_cons, List.length_append]
      omega
    · exact Nat.zero_le _

section
variable {dst_encoding src_encoding : string_encoding_t} {errmode : assign_error_mode} {next_fn : CheckedDecoder}
  {append_fn : Encoder} {null_terminated : Bool}

section
variable {src : CharRange} {dst : OutBuffer} {cp : UInt32} {moved : ℕ} (hne : src.bytes ≠ []) (hroom : dst.room ≠ 0)
  (hread : next_fn src = .ok (cp, moved))
include hne hroom hread

/-- A round that stores. -/
theorem fill_loop_stored (hcp : ¬ (null_terminated = true ∧ cp = 0)) {bytes : List UInt8}
    (hstores : append_fn dst.room cp = ⟨bytes, none⟩) (hle : bytes.length ≤ dst.room) (fuel : ℕ) :
    fill_loop next_fn append_fn null_terminated (fuel + 1) src dst =
      fill_loop next_fn append_fn null_terminated fuel (src.advance moved) (dst.append bytes) := by
  have hround : append_next append_fn cp moved dst.room dst.room = .stored moved bytes := by
    simp only [append_next, hstores, Nat.not_lt.mpr hle, if_false]
  rw [fill_loop, if_neg (not_or.mpr ⟨hne, hroom⟩)]
  simp only [hread, if_neg hcp, hround]

/-- A round in which the encoder throws. -/
theorem fill_loop_threw (hcp : ¬ (null_terminated = true ∧ cp = 0)) {e : TranscodeError}
    (hthrown : (append_fn dst.room cp).thrown = some e) (hle : (append_fn dst.room cp).bytes.length ≤ dst.room) (fuel : ℕ) :
    fill_loop next_fn append_fn null_terminated (fuel + 1) src dst = some (.threw e) := by
  have hround : append_next append_fn cp moved dst.room dst.room = .threw e := by
    simp only [append_next, hthrown, Nat.not_lt.mpr hle, if_false]
  rw [fill_loop, if_neg (not_or.mpr ⟨hne, hroom⟩)]
  simp only [hread, if_neg hcp, hround]

end

/-- Nothing is stored into a buffer that is full. -/
theorem fill_loop_full {dst : OutBuffer} (hroom : dst.room = 0) (src : CharRange) (overflow_check : Bool) (fuel : ℕ) :
    (fill_loop next_fn append_fn null_terminated (fuel + 1) src dst).map (finish overflow_check) =
      some (if src.bytes ≠ [] ∧ overflow_check = true then .threw too_large_for_fixed else .done dst.written) := by
  rw [fill_loop, if_pos (.inr hroom), Option.map_some]
  by_cases hne : src.bytes = [] <;> cases overflow_check <;> simp [finish, hroom, hne]

/-- No round stores beyond the buffer, whatever the source is. -/
theorem fill_loop_inside (happend : get_append_unicode_codepoint_function dst_encoding errmode = .ok append_fn)
    (fuel : ℕ) (src : CharRange) (dst : OutBuffer) (hunits : char_size dst_encoding ∣ dst.room) :
    fill_loop next_fn append_fn null_terminated fuel src dst ≠ some .overrun := by
  induction fuel generalizing src dst with
  | zero => simp [fill_loop]
  | succ fuel ih =>
    rw [fill_loop]
    split_ifs with hend
    · simp
    · obtain ⟨_, hroom⟩ := not_or.mp hend
      split
      · simp
      · rename_i cp moved _
        obtain ⟨hle, hwhole⟩ := append_fn_units happend hroom hunits cp
        split_ifs
        · simp
        · split
          · simp
          · rename_i hover
            simp only [append_next, Nat.not_lt.mpr hle, if_false] at hover
            split at hover <;> cases hover
          · rename_i n bytes hstored
            obtain ⟨_, hbytes, _⟩ := append_next_stored hstored
            apply ih
            rw [OutBuffer.room_append, hbytes]
            exact Nat.dvd_sub hunits hwhole

/-! ### Texts -/

end

theorem representable_null {encoding : string_encoding_t} (h : recognized encoding = true) :
    representable encoding '\x00' := by
  cases encoding with
  | ascii => exact (show '\x00'.toNat < 0x80 by decide)
  | ucs_2 => exact (show '\x00'.toNat < 0x10000 by decide)
  | latin1 => cases h
  | invalid => cases h
  | _ => trivial

theorem val_ne_zero {c : Char} (h : c ≠ '\x00') : c.val ≠ 0 := fun hv => h (Char.ext hv)

section
variable {dst_encoding src_encoding : string_encoding_t} {errmode : assign_error_mode} {next_fn : CheckedDecoder}
  {append_fn : Encoder} {null_terminated : Bool} (hs : recognized src_encoding = true)
  (hnext : get_next_unicode_codepoint_function src_encoding errmode = .ok next_fn)
include hs hnext

/-- The text has ended: the source has, or its next character is null and the loop looks at that. -/
theorem fill_loop_end {rest : List UInt8}
    (hrest : rest = [] ∨ null_terminated = true ∧ ∃ more, rest = encode_char src_encoding '\x00' ++ more) (past : List UInt8)
    (dst : OutBuffer) (overflow_check : Bool) (fuel : ℕ) :
    (fill_loop next_fn append_fn null_terminated (fuel + 1) ⟨rest, past⟩ dst).map (finish overflow_check) =
      some (if rest ≠ [] ∧ dst.room = 0 ∧ overflow_check = true then .threw too_large_for_fixed else .done dst.clear) := by
  have hclear : dst.room = 0 → dst.clear = dst.written := by
    intro hroom
    rw [OutBuffer.clear, hroom, List.replicate_zero, List.append_nil]
  by_cases hroom : dst.room = 0
  · rw [fill_loop_full hroom, hclear hroom]
    simp [hroom]
  · rcases hrest with rfl | ⟨hterm, more, rfl⟩
    · rw [fill_loop, if_pos (.inl rfl)]
      simp [finish, hroom, Nat.pos_of_ne_zero hroom]
    · have hne : encode_char src_encoding '\x00' ++ more ≠ [] := encode_char_append_ne_nil hs _ _
      have hread : next_fn ⟨encode_char src_encoding '\x00' ++ more, past⟩ =
          .ok (0, (encode_char src_encoding '\x00').length) :=
        next_fn_char hnext (representable_null hs) rfl
      rw [fill_loop, if_neg (not_or.mpr ⟨hne, hroom⟩)]
      simp [hread, hterm, finish, hroom]

variable (happend : get_append_unicode_codepoint_function dst_encoding errmode = .ok append_fn) {c : Char}
  (hsrc : representable src_encoding c) (hnull : c ≠ '\x00') {dst : OutBuffer}
include happend hsrc hnull

/-- A character goes into the buffer. -/
theorem fill_loop_fits (hd : recognized dst_encoding = true) (hdst : Storable errmode dst_encoding c)
    (hfits : (encode_char dst_encoding (substituted dst_encoding c)).length ≤ dst.room) (more past : List UInt8) (fuel : ℕ) :
    fill_loop next_fn append_fn null_terminated (fuel + 1) ⟨encode_char src_encoding c ++ more, past⟩ dst =
      fill_loop next_fn append_fn null_terminated fuel ⟨more, past⟩
        (dst.append (encode_char dst_encoding (substituted dst_encoding c))) := by
  have hne : encode_char src_encoding c ++ more ≠ [] := encode_char_append_ne_nil hs c _
  have hpos := (encode_char_length hd (substituted dst_encoding c)).1
  have hsize := char_size_pos hd
  have hread : next_fn ⟨encode_char src_encoding c ++ more, past⟩ = .ok (c.val, (encode_char src_encoding c).length) :=
    next_fn_char hnext hsrc rfl
  have hstores : append_fn dst.room c.val = ⟨encode_char dst_encoding (substituted dst_encoding c), none⟩ := by
    rw [append_fn_substituted happend hdst]
    exact append_fn_char happend (representable_substituted hd c) hfits
  have hcp : ¬ (null_terminated = true ∧ c.val = 0) := fun h => val_ne_zero hnull h.2
  rw [fill_loop_stored hne (by omega) hread hcp hstores hfits, CharRange.advance, List.drop_left]

variable (hroom : dst.room ≠ 0)
include hroom

/-- A character that does not fit is refused, or the rest of the buffer becomes zero. -/
theorem fill_loop_cramped (hdst : Storable errmode dst_encoding c) (hunits : char_size dst_encoding ∣ dst.room)
    (hlt : dst.room < (encode_char dst_encoding (substituted dst_encoding c)).length) (more past : List UInt8)
    (overflow_check : Bool) (hcheck : errmode = .nocheck → overflow_check = false) (fuel : ℕ) :
    (fill_loop next_fn append_fn null_terminated (fuel + 2) ⟨encode_char src_encoding c ++ more, past⟩ dst).map
        (finish overflow_check) =
      some (if errmode = .nocheck then .done dst.clear else .threw too_large) := by
  have hne : encode_char src_encoding c ++ more ≠ [] := encode_char_append_ne_nil hs c _
  have hread : next_fn ⟨encode_char src_encoding c ++ more, past⟩ = .ok (c.val, (encode_char src_encoding c).length) :=
    next_fn_char hnext hsrc rfl
  have hcp : ¬ (null_terminated = true ∧ c.val = 0) := fun h => val_ne_zero hnull h.2
  have hcramped := append_fn_cramped happend hdst hroom hunits hlt
  split_ifs at hcramped ⊢ with hmode
  · have hfull : (dst.append (List.replicate dst.room 0)).room = 0 := by
      rw [OutBuffer.room_append, List.length_replicate, Nat.sub_self]
    rw [fill_loop_stored hne hroom hread hcp hcramped (by rw [List.length_replicate]), fill_loop_full hfull, hcheck hmode]
    simp [OutBuffer.clear, OutBuffer.append]
  · rw [fill_loop_threw hne hroom hread hcp hcramped (append_fn_units happend hroom hunits _).1]
    rfl

/-- A character the destination does not have is refused. -/
theorem fill_loop_refuses (hmode : errmode ≠ .nocheck) (hdst : ¬ representable dst_encoding c) (more past : List UInt8)
    (overflow_check : Bool) (fuel : ℕ) :
    (fill_loop next_fn append_fn null_terminated (fuel + 1) ⟨encode_char src_encoding c ++ more, past⟩ dst).map
        (finish overflow_check) =
      some (.threw (.string_encode_error c.val dst_encoding)) := by
  have hne : encode_char src_encoding c ++ more ≠ [] := encode_char_append_ne_nil hs c _
  have hread : next_fn ⟨encode_char src_encoding c ++ more, past⟩ = .ok (c.val, (encode_char src_encoding c).length) :=
    next_fn_char hnext hsrc rfl
  have hcp : ¬ (null_terminated = true ∧ c.val = 0) := fun h => val_ne_zero hnull h.2
  have hrefused := append_fn_not_representable happend hmode hdst dst.room
  rw [fill_loop_threw hne hroom hread hcp (congrArg Stores.thrown hrefused) (by rw [hrefused]; exact Nat.zero_le _)]
  rfl

end

/-- The text is taken whole into `room` bytes. Where the source goes on after it, the loop has to come
to the null character, for which there has to be room. -/
def Fits (encoding : string_encoding_t) (room : ℕ) (ended : Prop) (s : List Char) : Prop :=
  (∀ c ∈ s, representable encoding c) ∧ (encode encoding s).length ≤ room ∧ (ended ∨ (encode encoding s).length < room)

theorem fits_cons {encoding : string_encoding_t} {room : ℕ} {ended : Prop} {c : Char} {s : List Char} :
    Fits encoding room ended (c :: s) ↔
      representable encoding c ∧ (encode_char encoding c).length ≤ room ∧
        Fits encoding (room - (encode_char encoding c).length) ended s := by
  unfold Fits
  rw [List.forall_mem_cons, encode_cons, List.length_append]
  constructor
  · rintro ⟨⟨hc, hs⟩, hle, hend⟩
    exact ⟨hc, by omega, hs, by omega, hend.imp_right fun h => by omega⟩
  · rintro ⟨hc, hle, hs, hle', hend⟩
    exact ⟨⟨hc, hs⟩, by omega, hend.imp_right fun h => by omega⟩

section
variable {dst_encoding src_encoding : string_encoding_t} {errmode : assign_error_mode} {next_fn : CheckedDecoder}
  {append_fn : Encoder} {null_terminated : Bool} (hs : recognized src_encoding = true) (hd : recognized dst_encoding = true)
  (hnext : get_next_unicode_codepoint_function src_encoding errmode = .ok next_fn)
  (happend : get_append_unicode_codepoint_function dst_encoding errmode = .ok append_fn)
  (s : List Char) (hsrc : ∀ c ∈ s, representable src_encoding c) (hnull : '\x00' ∉ s) {rest : List UInt8}
  (hrest : rest = [] ∨ null_terminated = true ∧ ∃ more, rest = encode_char src_encoding '\x00' ++ more)
  (past : List UInt8) (dst : OutBuffer) (hunits : char_size dst_encoding ∣ dst.room) (fuel : ℕ) (hfuel : s.length < fuel)
include hs hd hnext happend hsrc hnull hrest hunits hfuel

/-- A mode that does not check stores the characters that fit, and zeros after them. -/
theorem fill_nocheck (hmode : errmode = .nocheck) :
    (fill_loop next_fn append_fn null_terminated fuel ⟨encode src_encoding s ++ rest, past⟩ dst).map (finish false) =
      some (.done (dst.written ++ padded dst.room (transcoded dst_encoding (fitting dst_encoding dst.room s)))) := by
  have hclear : ∀ b : OutBuffer, b.clear = b.written ++ padded b.room [] := fun _ => rfl
  induction s generalizing dst fuel with
  | nil =>
    obtain ⟨fuel, rfl⟩ := Nat.exists_eq_succ_of_ne_zero (Nat.ne_of_gt hfuel)
    rw [show encode src_encoding [] ++ rest = rest from rfl, fill_loop_end hs hnext hrest]
    simp [hclear, fitting, transcoded, encode]
  | cons c s ih =>
    rw [List.forall_mem_cons] at hsrc
    obtain ⟨hc, hnull⟩ := null_notMem_cons.mp hnull
    rw [List.length_cons] at hfuel
    obtain ⟨fuel, rfl⟩ : ∃ n, fuel = n + 2 := ⟨fuel - 2, by omega⟩
    have hpos := (encode_char_length hd (substituted dst_encoding c)).1
    have hsize := char_size_pos hd
    rw [encode_cons, List.append_assoc, fitting]
    by_cases hroom : dst.room = 0
    · rw [fill_loop_full hroom, if_neg (by simp), if_neg (by omega), hroom]
      simp [padded, transcoded, encode]
    · split_ifs with hfits
      · have hleft : char_size dst_encoding ∣ (dst.append (encode_char dst_encoding (substituted dst_encoding c))).room := by
          rw [OutBuffer.room_append]
          exact Nat.dvd_sub hunits (encode_char_units hd _)
        rw [fill_loop_fits hs hnext happend hsrc.1 hc hd (.inl hmode) hfits,
          ih hsrc.2 hnull _ hleft _ (by omega), transcoded_cons, padded_append, OutBuffer.room_append,
          OutBuffer.written_append, List.append_assoc]
      · rw [fill_loop_cramped hs hnext happend hsrc.1 hc hroom (.inl hmode) hunits (Nat.lt_of_not_le hfits) _ _
          false (fun _ => rfl), if_pos hmode, hclear]
        rfl

/-- A mode that checks stores the whole text, and zeros after it, or throws. -/
theorem fill_checked (hmode : errmode ≠ .nocheck) :
    (Fits dst_encoding dst.room (rest = []) s →
      (fill_loop next_fn append_fn null_terminated fuel ⟨encode src_encoding s ++ rest, past⟩ dst).map (finish true) =
        some (.done (dst.written ++ padded dst.room (encode dst_encoding s)))) ∧
    (¬ Fits dst_encoding dst.room (rest = []) s →
      ∃ e, (fill_loop next_fn append_fn null_terminated fuel ⟨encode src_encoding s ++ rest, past⟩ dst).map (finish true) =
        some (.threw e)) := by
  induction s generalizing dst fuel with
  | nil =>
    obtain ⟨fuel, rfl⟩ := Nat.exists_eq_succ_of_ne_zero (Nat.ne_of_gt hfuel)
    rw [show encode src_encoding [] ++ rest = rest from rfl, fill_loop_end hs hnext hrest]
    have hfits : Fits dst_encoding dst.room (rest = []) [] ↔ rest = [] ∨ dst.room ≠ 0 := by
      simp [Fits, encode, Nat.pos_iff_ne_zero]
    rw [hfits]
    constructor
    · intro h
      rw [if_neg (by tauto)]
      rfl
    · intro h
      exact ⟨too_large_for_fixed, by rw [if_pos (by tauto)]⟩
  | cons c s ih =>
    rw [List.forall_mem_cons] at hsrc
    obtain ⟨hc, hnull⟩ := null_notMem_cons.mp hnull
    rw [List.length_cons] at hfuel
    obtain ⟨fuel, rfl⟩ : ∃ n, fuel = n + 2 := ⟨fuel - 2, by omega⟩
    have hpos := (encode_char_length hd c).1
    have hsize := char_size_pos hd
    rw [fits_cons, encode_cons, List.append_assoc, encode_cons]
    by_cases hroom : dst.room = 0
    · rw [fill_loop_full hroom, if_pos ⟨encode_char_append_ne_nil hs c _, rfl⟩]
      exact ⟨fun h => absurd h.2.1 (by omega), fun _ => ⟨_, rfl⟩⟩
    · by_cases hdst : representable dst_encoding c
      · have hsame := substituted_of_representable hdst
        by_cases hfits : (encode_char dst_encoding c).length ≤ dst.room
        · have hleft : char_size dst_encoding ∣ (dst.append (encode_char dst_encoding c)).room := by
            rw [OutBuffer.room_append]
            exact Nat.dvd_sub hunits (encode_char_units hd c)
          have hrun := ih hsrc.2 hnull (dst.append (encode_char dst_encoding c)) hleft (fuel + 1) (by omega)
          rw [OutBuffer.room_append, OutBuffer.written_append, List.append_assoc] at hrun
          rw [fill_loop_fits hs hnext happend hsrc.1 hc hd (.inr hdst) (by rw [hsame]; exact hfits), hsame,
            padded_append]
          exact ⟨fun h => hrun.1 h.2.2, fun h => hrun.2 fun h' => h ⟨hdst, hfits, h'⟩⟩
        · rw [fill_loop_cramped hs hnext happend hsrc.1 hc hroom (.inr hdst) hunits
            (by rw [hsame]; exact Nat.lt_of_not_le hfits) _ _ true (fun h => absurd h hmode), if_neg hmode]
          exact ⟨fun h => absurd h.2.1 hfits, fun _ => ⟨_, rfl⟩⟩
      · rw [fill_loop_refuses hs hnext happend hsrc.1 hc hroom hmode hdst]
        exact ⟨fun h => absurd h.1 hdst, fun _ => ⟨_, rfl⟩⟩

end

/-! ## Reading a buffer -/

theorem uint16At_two {n : ℕ} (h : n < 65536) : (uint16At (le16 n)).toNat = n := by
  have := uint16At_le16 h []
  rwa [List.append_nil] at this

namespace fixed_string_type

theorem units16_to_null_unit {n : ℕ} (hpos : n ≠ 0) (h : n < 65536) (rest : List UInt8) :
    units16_to_null (le16 n ++ rest) = le16 n ++ units16_to_null rest := by
  have hne : uint16At (le16 n) ≠ 0 := by
    intro h0
    have hn := uint16At_two h
    rw [h0] at hn
    exact hpos hn.symm
  show (if uint16At (le16 n) ≠ 0 then _ else _) = _
  rw [if_pos hne]
  rfl

theorem units32_to_null_unit {n : ℕ} (hpos : n ≠ 0) (h : n < 2 ^ 32) (rest : List UInt8) :
    units32_to_null (le32 n ++ rest) = le32 n ++ units32_to_null rest := by
  have hne : uint32At (le32 n) ≠ 0 := by
    intro h0
    have hn := uint32At_le32 h []
    rw [List.append_nil, h0] at hn
    exact hpos hn.symm
  show (if uint32At (le32 n) ≠ 0 then _ else _) = _
  rw [if_pos hne]
  rfl

theorem units16_to_null_char {c : Char} (hc : c.toNat ≠ 0) (rest : List UInt8) :
    units16_to_null (utf16Char c ++ rest) = utf16Char c ++ units16_to_null rest := by
  have hhi := (scalar_bounds c).1
  unfold utf16Char
  split_ifs with hlow
  · exact units16_to_null_unit hc hlow rest
  · have hlo := Nat.le_of_not_lt hlow
    have hlead := leadSurrogate_range hlo hhi
    have htrail := trailSurrogate_range c.toNat
    rw [List.append_assoc, units16_to_null_unit (by omega) (by omega), units16_to_null_unit (by omega) (by omega),
      List.append_assoc]

theorem utf8EncodeChar_ne_zero {c : Char} (hc : c.toNat ≠ 0) : ∀ b ∈ String.utf8EncodeChar c, b ≠ 0 := by
  have hval : c.val.toNat = c.toNat := rfl
  have hne : ∀ n : ℕ, n % 256 ≠ 0 → UInt8.ofNat n ≠ 0 := by
    intro n hn h
    have := congrArg UInt8.toNat h
    rw [UInt8.toNat_ofNat'] at this
    exact hn this
  unfold String.utf8EncodeChar
  dsimp only
  rw [hval]
  split_ifs <;> simp only [List.forall_mem_cons, List.not_mem_nil, IsEmpty.forall_iff, implies_true, and_true]
  · exact hne _ (by omega)
  · exact ⟨hne _ (by omega), hne _ (by omega)⟩
  · exact ⟨hne _ (by omega), hne _ (by omega), hne _ (by omega)⟩
  · exact ⟨hne _ (by omega), hne _ (by omega), hne _ (by omega), hne _ (by omega)⟩

/-- In units of one byte no byte of a character is zero. -/
theorem encode_char_ne_zero {encoding : string_encoding_t} (hknown : recognized encoding = true)
    (hsize : char_size encoding = 1) {c : Char} (hrep : representable encoding c) (hc : c ≠ '\x00') :
    ∀ b ∈ encode_char encoding c, b ≠ 0 := by
  have hpos : c.toNat ≠ 0 := fun h => hc (Char.toNat_inj.mp h)
  cases encoding with
  | ascii =>
    have hlow : c.toNat < 0x80 := hrep
    rw [encode_char, List.forall_mem_singleton]
    intro h0
    have hn := congrArg UInt8.toNat h0
    rw [UInt8.toNat_ofNat', Nat.mod_eq_of_lt (by omega)] at hn
    exact hpos hn
  | utf_8 => exact utf8EncodeChar_ne_zero hpos
  | ucs_2 => cases hsize
  | utf_16 => cases hsize
  | utf_32 => cases hsize
  | latin1 => cases hknown
  | invalid => cases hknown

theorem range_to_null_char {encoding : string_encoding_t} (hknown : recognized encoding = true) {c : Char}
    (hrep : representable encoding c) (hc : c ≠ '\x00') (rest : List UInt8) :
    range_to_null encoding (encode_char encoding c ++ rest) = encode_char encoding c ++ range_to_null encoding rest := by
  have hpos : c.toNat ≠ 0 := fun h => hc (Char.toNat_inj.mp h)
  have hhi := (scalar_bounds c).1
  have hbytes := encode_char_ne_zero hknown
  cases encoding with
  | ascii => exact List.takeWhile_append_of_pos fun b hb => decide_eq_true (hbytes rfl hrep hc b hb)
  | utf_8 => exact List.takeWhile_append_of_pos fun b hb => decide_eq_true (hbytes rfl hrep hc b hb)
  | ucs_2 => exact units16_to_null_unit hpos hrep rest
  | utf_16 => exact units16_to_null_char hpos rest
  | utf_32 => exact units32_to_null_unit hpos (by omega) rest
  | latin1 => cases hknown
  | invalid => cases hknown

theorem range_to_null_null (encoding : string_encoding_t) (past : List UInt8) :
    range_to_null encoding (encode_char encoding '\x00' ++ past) = [] := by
  cases encoding <;> rfl

variable {tp : fixed_string_type} {data : List UInt8} {s : List Char}

/-- The range ends where the text does. -/
theorem Reads.range (h : tp.Reads data s) : (tp.get_string_range data).bytes = encode tp.encoding s := by
  obtain ⟨-, hrep, hnull, rest, rfl, hrest⟩ := h
  show range_to_null tp.encoding (encode tp.encoding s ++ rest) = encode tp.encoding s
  induction s with
  | nil =>
    rcases hrest with rfl | ⟨past, rfl⟩
    · unfold range_to_null
      split <;> rfl
    · exact range_to_null_null tp.encoding past
  | cons c s ih =>
    rw [List.forall_mem_cons] at hrep
    obtain ⟨hc, hnull⟩ := null_notMem_cons.mp hnull
    rw [encode_cons, List.append_assoc, range_to_null_char tp.known hrep.1 hc, ih hrep.2 hnull]

theorem read_code_points_encode {encoding : string_encoding_t} (hs : recognized encoding = true)
    {errmode : assign_error_mode} {next_fn : CheckedDecoder} (hnext : get_next_unicode_codepoint_function encoding errmode = .ok next_fn)
    (hrep : ∀ c ∈ s, Transcode.representable encoding c) (past : List UInt8) (fuel : ℕ) (hfuel : s.length < fuel) :
    read_code_points next_fn fuel ⟨encode encoding s, past⟩ = some (.ok (s.map Char.val)) := by
  induction s generalizing fuel with
  | nil =>
    obtain ⟨fuel, rfl⟩ := Nat.exists_eq_succ_of_ne_zero (Nat.ne_of_gt hfuel)
    rfl
  | cons c s ih =>
    obtain ⟨fuel, rfl⟩ := Nat.exists_eq_succ_of_ne_zero (Nat.ne_of_gt (Nat.zero_lt_of_lt hfuel))
    rw [List.forall_mem_cons] at hrep
    have hne : encode encoding (c :: s) ≠ [] := by
      rw [encode_cons]
      exact encode_char_append_ne_nil hs c _
    have hread : next_fn ⟨encode encoding (c :: s), past⟩ = .ok (c.val, (encode_char encoding c).length) :=
      next_fn_char hnext hrep.1 (encode_cons encoding c s)
    have hrest : (CharRange.mk (encode encoding (c :: s)) past).advance (encode_char encoding c).length =
        ⟨encode encoding s, past⟩ := by
      rw [CharRange.advance, encode_cons, List.drop_left]
    rw [read_code_points, if_neg hne]
    simp only [hread, hrest]
    rw [ih hrep.2 fuel (Nat.lt_of_succ_lt_succ hfuel)]
    rfl

/-- What is read back from a buffer is its text. -/
theorem Reads.read_back (h : tp.Reads data s) (errmode : assign_error_mode) {fuel : ℕ} (hfuel : data.length < fuel) :
    tp.read_back errmode data fuel = some (.ok (s.map Char.val)) := by
  obtain ⟨next_fn, hnext⟩ := recognized_next tp.known errmode
  have hrange : tp.get_string_range data = ⟨encode tp.encoding s, (tp.get_string_range data).past⟩ := by
    rw [← h.range]
  have hlen : s.length < fuel := by
    have h1 := length_le_encode tp.known s
    obtain ⟨rest, hdata, -⟩ := h.bytes
    rw [hdata, List.length_append] at hfuel
    omega
  rw [fixed_string_type.read_back, hnext]
  simp only
  rw [hrange]
  exact read_code_points_encode tp.known hnext h.representable _ fuel hlen

/-! ### What is stored -/

theorem encode_units {encoding : string_encoding_t} (h : recognized encoding = true) (s : List Char) :
    char_size encoding ∣ (encode encoding s).length := by
  induction s with
  | nil => exact dvd_zero _
  | cons c s ih =>
    rw [encode_cons, List.length_append]
    exact Nat.dvd_add (encode_char_units h c) ih

theorem encode_char_null {encoding : string_encoding_t} (h : recognized encoding = true) :
    encode_char encoding '\x00' = List.replicate (char_size encoding) 0 := by
  cases encoding <;> first | rfl | cases h

theorem encode_nulls {encoding : string_encoding_t} (h : recognized encoding = true) (k : ℕ) :
    encode encoding (List.replicate k '\x00') = List.replicate (k * char_size encoding) 0 := by
  induction k with
  | zero => simp [encode]
  | succ k ih =>
    rw [List.replicate_succ, encode_cons, ih, encode_char_null h, ← List.replicate_add, Nat.succ_mul, Nat.add_comm]

/-- The zeros up to the end of the buffer are null characters. -/
theorem Holds.nulls (h : tp.Holds data s) : ∃ k, data = encode tp.encoding (s ++ List.replicate k '\x00') := by
  obtain ⟨hsize, -, -, pad, rfl⟩ := h
  have hdata : char_size tp.encoding ∣ (encode tp.encoding s).length + pad := by
    rw [List.length_append, List.length_replicate] at hsize
    rw [hsize, data_size]
    exact dvd_mul_left _ _
  obtain ⟨k, rfl⟩ := (Nat.dvd_add_right (encode_units tp.known s)).mp hdata
  refine ⟨k, ?_⟩
  rw [encode_append, encode_nulls tp.known, Nat.mul_comm]

theorem Holds.reads (h : tp.Holds data s) : tp.Reads data s := by
  obtain ⟨k, rfl⟩ := h.nulls
  refine ⟨h.size, h.representable, h.no_null, encode tp.encoding (List.replicate k '\x00'), encode_append _ _ _, ?_⟩
  cases k with
  | zero => exact .inl rfl
  | succ k => exact .inr ⟨_, encode_cons _ _ _⟩

theorem holds_padded (hrep : ∀ c ∈ s, Transcode.representable tp.encoding c) (hnull : '\x00' ∉ s)
    (hle : (encode tp.encoding s).length ≤ tp.data_size) : tp.Holds (padded tp.data_size (encode tp.encoding s)) s :=
  ⟨length_padded hle, hrep, hnull, _, rfl⟩

/-- The buffer is as long as the type says, and the text is read back from it. -/
def Stores (tp : fixed_string_type) (data : List UInt8) (s : List Char) : Prop :=
  data.length = tp.data_size ∧
    ∀ errmode fuel, data.length < fuel → tp.read_back errmode data fuel = some (.ok (s.map Char.val))

theorem Holds.stores (h : tp.Holds data s) : tp.Stores data s := ⟨h.size, fun errmode _ => h.reads.read_back errmode⟩

/-- What a kernel makes of the text: a mode that checks stores all of it or throws, the other mode
stores the characters from its beginning on that fit, with question marks for those the encoding does
not have. `ended` says that the source ends with the text. -/
def Assigns (tp : fixed_string_type) (errmode : assign_error_mode) (ended : Prop) (s : List Char)
    (result : Option FixedStored) : Prop :=
  (errmode ≠ .nocheck →
    (Fits tp.encoding tp.data_size ended s → ∃ data, result = some (.done data) ∧ tp.Stores data s) ∧
    (¬ Fits tp.encoding tp.data_size ended s → ∃ e, result = some (.threw e))) ∧
  (errmode = .nocheck →
    ∃ data p, result = some (.done data) ∧ p <+: s ∧ tp.Stores data (p.map (substituted tp.encoding)))

end fixed_string_type

theorem substituted_ne_null {encoding : string_encoding_t} {c : Char} (hc : c ≠ '\x00') :
    substituted encoding c ≠ '\x00' := by
  unfold substituted
  split
  · split_ifs <;> first | exact hc | decide
  · split_ifs <;> first | exact hc | decide
  · exact hc

theorem fill_assigns {tp : fixed_string_type} {src_encoding : string_encoding_t} {errmode : assign_error_mode}
    {next_fn : CheckedDecoder} {append_fn : Encoder} {null_terminated : Bool} (hs : recognized src_encoding = true)
    (hnext : get_next_unicode_codepoint_function src_encoding errmode = .ok next_fn)
    (happend : get_append_unicode_codepoint_function tp.encoding errmode = .ok append_fn)
    {s : List Char} (hsrc : ∀ c ∈ s, representable src_encoding c) (hnull : '\x00' ∉ s) {rest : List UInt8}
    (hrest : rest = [] ∨ null_terminated = true ∧ ∃ more, rest = encode_char src_encoding '\x00' ++ more) (past : List UInt8)
    (fuel : ℕ) (hfuel : s.length < fuel) :
    tp.Assigns errmode (rest = []) s
      ((fill_loop next_fn append_fn null_terminated fuel ⟨encode src_encoding s ++ rest, past⟩ ⟨[], tp.data_size⟩).map
        (finish (decide (errmode ≠ .nocheck)))) := by
  have hroom : (⟨[], tp.data_size⟩ : OutBuffer).room = tp.data_size := rfl
  have hunits : char_size tp.encoding ∣ (⟨[], tp.data_size⟩ : OutBuffer).room := dvd_mul_left _ _
  constructor
  · intro hmode
    obtain ⟨hfits, hthrows⟩ := fill_checked hs tp.known hnext happend s hsrc hnull hrest past _ hunits fuel hfuel hmode
    rw [hroom] at hfits hthrows
    rw [decide_eq_true hmode]
    refine ⟨fun h => ⟨_, hfits h, ?_⟩, hthrows⟩
    exact (fixed_string_type.holds_padded h.1 hnull h.2.1).stores
  · intro hmode
    have hrun := fill_nocheck hs tp.known hnext happend s hsrc hnull hrest past _ hunits fuel hfuel hmode
    have hprefix := fitting_prefix tp.encoding tp.data_size s
    rw [hroom] at hrun
    rw [decide_eq_false (not_not.mpr hmode)]
    refine ⟨_, fitting tp.encoding tp.data_size s, hrun, hprefix, ?_⟩
    apply fixed_string_type.Holds.stores
    apply fixed_string_type.holds_padded
    · intro c hc
      obtain ⟨d, _, rfl⟩ := List.mem_map.mp hc
      exact representable_substituted tp.known d
    · intro hc
      obtain ⟨d, hd, h0⟩ := List.mem_map.mp hc
      exact substituted_ne_null (fun h => hnull (h ▸ hprefix.subset hd)) h0
    · exact transcoded_fitting_le tp.encoding tp.data_size s

/-! ## From a buffer to a string -/

section
variable {dst_encoding src_encoding : string_encoding_t} {errmode : assign_error_mode} {next_fn : CheckedDecoder}
  {append_fn : Encoder} (happend : get_append_unicode_codepoint_function dst_encoding errmode = .ok append_fn)
  (hnext : get_next_unicode_codepoint_function src_encoding errmode = .ok next_fn) (hs : recognized src_encoding = true)
  (hd : recognized dst_encoding = true)
include happend hnext hs hd

/-- The characters up to the first null one, or to the end, become their encoding for the destination. -/
theorem assign_loop_to_null_encode (s : List Char) (hsrc : ∀ c ∈ s, representable src_encoding c)
    (hdst : ∀ c ∈ s, Storable errmode dst_encoding c) (hnull : '\x00' ∉ s) {rest : List UInt8}
    (hrest : rest = [] ∨ ∃ more, rest = encode_char src_encoding '\x00' ++ more) (past : List UInt8) (b : OutBuffer)
    (hb : b.Ok) (fuel : ℕ) (hfuel : s.length < fuel) :
    ∃ b', assign_loop_to_null next_fn append_fn fuel ⟨encode src_encoding s ++ rest, past⟩ b = some (.done b') ∧
      b'.written = b.written ++ transcoded dst_encoding s := by
  induction s generalizing b fuel with
  | nil =>
    obtain ⟨fuel, rfl⟩ := Nat.exists_eq_succ_of_ne_zero (Nat.ne_of_gt hfuel)
    refine ⟨b, ?_, (List.append_nil _).symm⟩
    rw [show encode src_encoding [] ++ rest = rest from rfl]
    rcases hrest with rfl | ⟨more, rfl⟩
    · rfl
    · have hne : encode_char src_encoding '\x00' ++ more ≠ [] := encode_char_append_ne_nil hs _ _
      have hread : next_fn ⟨encode_char src_encoding '\x00' ++ more, past⟩ =
          .ok (0, (encode_char src_encoding '\x00').length) :=
        next_fn_char hnext (representable_null hs) rfl
      rw [assign_loop_to_null, if_neg hne]
      simp [hread]
  | cons c s ih =>
    obtain ⟨fuel, rfl⟩ := Nat.exists_eq_succ_of_ne_zero (Nat.ne_of_gt (Nat.zero_lt_of_lt hfuel))
    obtain ⟨hok, hroom, hsame⟩ := hb.ensure_room
    rw [List.forall_mem_cons] at hsrc hdst
    obtain ⟨hc, hnull⟩ := null_notMem_cons.mp hnull
    have hlen := (encode_char_length hd (substituted dst_encoding c)).2
    have happ : (b.ensure_room.append (encode_char dst_encoding (substituted dst_encoding c))).Ok := hok.append (by omega)
    obtain ⟨b', hloop, hwritten⟩ := ih hsrc.2 hdst.2 hnull _ happ fuel (Nat.lt_of_succ_lt_succ hfuel)
    refine ⟨b', ?_, ?_⟩
    · have hne : encode_char src_encoding c ++ (encode src_encoding s ++ rest) ≠ [] :=
        encode_char_append_ne_nil hs c _
      have hread : next_fn ⟨encode_char src_encoding c ++ (encode src_encoding s ++ rest), past⟩ =
          .ok (c.val, (encode_char src_encoding c).length) := next_fn_char hnext hsrc.1 rfl
      have hround : append_next append_fn c.val (encode_char src_encoding c).length b.ensure_room.room b.ensure_room.room =
          .stored (encode_char src_encoding c).length (encode_char dst_encoding (substituted dst_encoding c)) := by
        rw [← convert_next_eq hread, convert_next_storable happend hd hread hdst.1 (by omega), if_pos (by omega)]
      rw [encode_cons, List.append_assoc, assign_loop_to_null, if_neg hne]
      simp only [hread, if_neg (val_ne_zero hc), hround]
      rw [CharRange.advance, List.drop_left]
      exact hloop
    · rw [hwritten, transcoded_cons, ← List.append_assoc, OutBuffer.written_append, hsame]

end

/-- A fixed string becomes a string with its text. -/
theorem fixed_string_to_blockref_string_assigns (src : fixed_string_type) {dst_encoding : string_encoding_t}
    (hd : recognized dst_encoding = true) (errmode : assign_error_mode) {s : List Char} {data : List UInt8}
    (hreads : src.Reads data s) (hdst : ∀ c ∈ s, representable dst_encoding c) (past : List UInt8) {fuel : ℕ}
    (hfuel : s.length < fuel) :
    ∃ ck, make_fixed_string_to_blockref_string_assignment_kernel dst_encoding src.data_size src.encoding errmode = .ok ck ∧
      ck.single none (data ++ past) fuel = some (.done (some (encode dst_encoding s))) := by
  obtain ⟨next_fn, hnext⟩ := recognized_next src.known errmode
  obtain ⟨append_fn, happend⟩ := recognized_append hd errmode
  refine ⟨⟨dst_encoding, src.encoding, src.data_size, next_fn, append_fn⟩, ?_, ?_⟩
  · rw [make_fixed_string_to_blockref_string_assignment_kernel, hnext, happend]
    rfl
  · obtain ⟨hsize, hrep, hnull, rest, rfl, hrest⟩ := hreads
    have hok : (⟨[], fixed_string_to_blockref_string_assign_ck.initial_size
        ⟨dst_encoding, src.encoding, src.data_size, next_fn, append_fn⟩⟩ : OutBuffer).Ok := by
      have hpos := char_size_pos hd
      have hprod : 16 ≤ (src.data_size / char_size src.encoding + 16) * char_size dst_encoding :=
        le_trans (Nat.le_add_left 16 _) (Nat.le_mul_of_pos_right _ hpos)
      refine ⟨Nat.zero_le _, ?_⟩
      simp only [fixed_string_to_blockref_string_assign_ck.initial_size]
      omega
    obtain ⟨b, hloop, hwritten⟩ := assign_loop_to_null_encode happend hnext src.known hd s hrep
      (fun c hc => .inr (hdst c hc)) hnull hrest past _ hok fuel hfuel
    rw [List.nil_append, transcoded_of_representable hdst] at hwritten
    simp only [fixed_string_to_blockref_string_assign_ck.single]
    rw [← hsize] at hloop ⊢
    rw [List.take_left, List.drop_left, hloop]
    simp only [OutBuffer.resize, List.take_length, hwritten]

/-! ## The kernels that fill a buffer -/

/-- Assigning a text to a fixed string, from another fixed string or from a string. A mode that checks
throws, or what is read back is the text; the other mode stores a beginning of it. No byte is stored
outside the buffer, whatever the source is. -/
theorem fixed_string_assign_reads_back (dst : fixed_string_type) (errmode : assign_error_mode) :
    (∀ src : fixed_string_type, ∃ ck,
      make_fixed_string_assignment_kernel dst.data_size dst.encoding src.data_size src.encoding errmode = .ok ck ∧
      (∀ mem fuel, ck.single mem fuel ≠ some .overrun) ∧
      ∀ s data past fuel, src.Reads data s → data.length < fuel →
        dst.Assigns errmode (data = encode src.encoding s) s (ck.single (data ++ past) fuel)) ∧
    ∀ src_encoding, recognized src_encoding = true → ∃ ck,
      make_blockref_string_to_fixed_string_assignment_kernel dst.data_size dst.encoding src_encoding errmode = .ok ck ∧
      (∀ src fuel, ck.single src fuel ≠ some .overrun) ∧
      ∀ s src past fuel, src.getD ⟨[], []⟩ = ⟨encode src_encoding s, past⟩ → (∀ c ∈ s, representable src_encoding c) →
        '\x00' ∉ s → (encode src_encoding s).length < fuel → dst.Assigns errmode True s (ck.single src fuel) := by
  obtain ⟨append_fn, happend⟩ := recognized_append dst.known errmode
  have hunits : char_size dst.encoding ∣ (⟨[], dst.data_size⟩ : OutBuffer).room := dvd_mul_left _ _
  have hinside : ∀ next_fn null_terminated fuel src overflow_check,
      (fill_loop next_fn append_fn null_terminated fuel src ⟨[], dst.data_size⟩).map (finish overflow_check) ≠
        some .overrun := by
    intro next_fn null_terminated fuel src overflow_check h
    obtain ⟨filled, hrun, hover⟩ := Option.map_eq_some_iff.mp h
    cases filled with
    | overrun => exact fill_loop_inside happend fuel src _ hunits hrun
    | threw e => cases hover
    | terminated b => cases hover
    | left r b =>
      simp only [finish] at hover
      split_ifs at hover
  constructor
  · intro src
    obtain ⟨next_fn, hnext⟩ := recognized_next src.known errmode
    refine ⟨⟨next_fn, append_fn, dst.data_size, src.data_size, decide (errmode ≠ .nocheck)⟩, ?_, ?_, ?_⟩
    · rw [make_fixed_string_assignment_kernel, hnext, happend]
      rfl
    · exact fun mem fuel => hinside _ _ _ _ _
    · intro s data past fuel hreads hfuel
      have hlen := length_le_encode src.known s
      obtain ⟨hsize, hrep, hnull, rest, rfl, hrest⟩ := hreads
      have hended : (encode src.encoding s ++ rest = encode src.encoding s) = (rest = []) := by simp
      rw [List.length_append] at hfuel
      rw [hended, fixed_string_assign_ck.single, ← hsize, List.take_left, List.drop_left]
      exact fill_assigns src.known hnext happend hrep hnull (hrest.imp_right fun h => ⟨rfl, h⟩) past fuel (by omega)
  · intro src_encoding hs
    obtain ⟨next_fn, hnext⟩ := recognized_next hs errmode
    refine ⟨⟨next_fn, append_fn, dst.data_size, decide (errmode ≠ .nocheck)⟩, ?_, ?_, ?_⟩
    · rw [make_blockref_string_to_fixed_string_assignment_kernel, hnext, happend]
      rfl
    · exact fun src fuel => hinside _ _ _ _ _
    · intro s src past fuel hsrc hrep hnull hfuel
      have hlen := length_le_encode hs s
      rw [blockref_string_to_fixed_string_assign_ck.single, hsrc, ← List.append_nil (encode src_encoding s),
        ← eq_self ([] : List UInt8)]
      exact fill_assigns hs hnext happend hrep hnull (.inl rfl) past fuel (by omega)

/-- Two characters, one of them a surrogate pair, from 16-bit units into six bytes. -/
theorem fixed_string_assign_pair :
    ∃ ck data, make_fixed_string_assignment_kernel 6 .utf_8 8 .utf_16 .fractional = .ok ck ∧
      ck.single [0x41, 0x00, 0x3d, 0xd8, 0x00, 0xde, 0x00, 0x00] 9 = some (.done data) ∧
      (⟨6, .utf_8, rfl⟩ : fixed_string_type).Stores data ['A', '😀'] := by
  obtain ⟨ck, hck, _, htext⟩ := (fixed_string_assign_reads_back ⟨6, .utf_8, rfl⟩ .fractional).1 ⟨4, .utf_16, rfl⟩
  have hsrc : encode .utf_16 ['A', '😀'] = [0x41, 0x00, 0x3d, 0xd8, 0x00, 0xde] := by decide
  have hdst : (encode .utf_8 ['A', '😀']).length = 5 := by decide
  have hreads : (⟨4, .utf_16, rfl⟩ : fixed_string_type).Reads [0x41, 0x00, 0x3d, 0xd8, 0x00, 0xde, 0x00, 0x00] ['A', '😀'] :=
    ⟨rfl, fun _ _ => trivial, by decide, [0x00, 0x00], by rw [hsrc]; rfl, .inr ⟨[], rfl⟩⟩
  obtain ⟨hfits, _⟩ := (htext ['A', '😀'] _ [] 9 hreads (by decide)).1 (by decide)
  obtain ⟨data, hrun, hstores⟩ := hfits ⟨fun _ _ => trivial, by rw [hdst]; decide, .inr (by rw [hdst]; decide)⟩
  exact ⟨ck, data, hck, hrun, hstores⟩

end Dynd.Transcode
