import Dynd.Utf8
import Mathlib.Data.List.DropRight
/-!
# Decoding without errors

The `noerror_next_*` functions decode one code point and substitute `'?'` for
what is malformed. `decodeLoop` is the loop every caller runs over a string.
Which calls move forward inside the range, and which strings the loop gets
through, is `decoder_progress_iff`.
-/
namespace Dynd.StringEncodings
open Utf8

/-! ## The decoders -/

inductive string_encoding_t where
  | ascii
  | ucs_2
  | utf_8
  | utf_16
  | utf_32
  | latin1
  | invalid
deriving DecidableEq, Repr

/-- `string_encoding_char_size_table`, of the encodings it names. -/
def char_size : string_encoding_t → ℕ
  | .ascii => 1
  | .ucs_2 => 2
  | .utf_8 => 1
  | .utf_16 => 2
  | .utf_32 => 4
  | _ => 0

/-- The bytes from the iterator to `end`, and the memory that follows `end`. -/
structure CharRange where
  bytes : List UInt8
  past : List UInt8
deriving DecidableEq, Repr

namespace CharRange

def mem (r : CharRange) : List UInt8 := r.bytes ++ r.past

/-- The iterator moved by `n` bytes. -/
def advance (r : CharRange) (n : ℕ) : CharRange := ⟨r.bytes.drop n, r.past⟩

end CharRange

/-- The code point read, and by how many bytes the iterator moved. -/
abbrev Decoder := CharRange → UInt32 × ℕ

def ERROR_SUBSTITUTE_CODEPOINT : UInt32 := '?'.val

/-- `*reinterpret_cast<const uint16_t *>(it)` on a little-endian machine. -/
def uint16At : List UInt8 → UInt32
  | a :: b :: _ => a.toUInt32 + (b.toUInt32 <<< 8)
  | [a] => a.toUInt32
  | [] => 0

/-- `*reinterpret_cast<const uint32_t *>(it)`. -/
def uint32At (s : List UInt8) : UInt32 := uint16At s + (uint16At (s.drop 2) <<< 16)

def noerror_next_ascii (r : CharRange) : UInt32 × ℕ :=
  let result := (r.mem.headD 0).toUInt32
  (if result &&& 0x80 = 0 then result else ERROR_SUBSTITUTE_CODEPOINT, 1)

def noerror_next_ucs2 (r : CharRange) : UInt32 × ℕ :=
  let cp := uint16At r.mem
  (if is_surrogate cp then ERROR_SUBSTITUTE_CODEPOINT else cp, 2)

/-- The code point, and the range from the iterator after the call. -/
def noerror_next_utf8 (it : List UInt8) : UInt32 × List UInt8 :=
  let length := sequence_length (it.headD 0)
  if length = 0 then (ERROR_SUBSTITUTE_CODEPOINT, it)
  else
    match get_sequence length it with
    | .ok (cp, it) =>
      if is_code_point_valid cp then
        if !is_overlong_sequence cp length then (cp, it.tail) else (ERROR_SUBSTITUTE_CODEPOINT, it)
      else (ERROR_SUBSTITUTE_CODEPOINT, it)
    | .error (_, it) => (ERROR_SUBSTITUTE_CODEPOINT, it)

def SURROGATE_OFFSET : UInt32 := (0x10000 : UInt32) - ((0xd800 : UInt32) <<< 10) - 0xdc00

def noerror_next_utf16 (r : CharRange) : UInt32 × ℕ :=
  let cp := uint16At r.mem
  -- it_raw is now 2 bytes on
  if is_lead_surrogate cp then
    -- it_raw <= end_raw + 2
    if 2 ≤ r.bytes.length + 2 then
      let trail_surrogate := uint16At (r.mem.drop 2)
      if is_trail_surrogate trail_surrogate then ((cp <<< 10) + trail_surrogate + SURROGATE_OFFSET, 4)
      else (ERROR_SUBSTITUTE_CODEPOINT, 4)
    else (ERROR_SUBSTITUTE_CODEPOINT, 2)
  else if is_trail_surrogate cp then (ERROR_SUBSTITUTE_CODEPOINT, 2)
  else (cp, 2)

def noerror_next_utf32 (r : CharRange) : UInt32 × ℕ :=
  let result := uint32At r.mem
  (if !is_code_point_valid result then ERROR_SUBSTITUTE_CODEPOINT else result, 4)

/-- `noerror_next_utf8` as a decoder. -/
def next_fn_utf8 : Decoder := fun r =>
  let (cp, it) := noerror_next_utf8 r.bytes
  (cp, r.bytes.length - it.length)

/-- `get_next_unicode_codepoint_function(encoding, assign_error_nocheck)`, which
throws for an encoding it has no decoder for. -/
def get_next_unicode_codepoint_function : string_encoding_t → Option Decoder
  | .ascii => some noerror_next_ascii
  | .ucs_2 => some noerror_next_ucs2
  | .utf_8 => some next_fn_utf8
  | .utf_16 => some noerror_next_utf16
  | .utf_32 => some noerror_next_utf32
  | _ => none

/-! ## The loop -/

/-- `while (begin < end) { cp = next_fn(begin, end); ... }` for at most `fuel` rounds:
the code points it read and by how many bytes it left the range. -/
def decodeLoop (next_fn : Decoder) : ℕ → CharRange → Option (List UInt32 × ℕ)
  | 0, _ => none
  | fuel + 1, r =>
    if r.bytes = [] then some ([], 0)
    else
      let (cp, n) := next_fn r
      if n ≤ r.bytes.length then
        (decodeLoop next_fn fuel (r.advance n)).map fun (cps, past) => (cp :: cps, past)
      else some ([cp], n - r.bytes.length)

def Terminates (next_fn : Decoder) (r : CharRange) : Prop := ∃ fuel, (decodeLoop next_fn fuel r).isSome

/-- The loop ends, and ends at `end`. -/
def EndsAtEnd (next_fn : Decoder) (r : CharRange) : Prop :=
  ∃ fuel cps, decodeLoop next_fn fuel r = some (cps, 0)

/-- The call moves the iterator, and not beyond `end`. -/
def Progress (next_fn : Decoder) (r : CharRange) : Prop :=
  0 < (next_fn r).2 ∧ (next_fn r).2 ≤ r.bytes.length

section
variable {next_fn : Decoder} {P : List UInt8 → Prop}

theorem decodeLoop_empty {r : CharRange} (hnil : r.bytes = []) (fuel : ℕ) : decodeLoop next_fn (fuel + 1) r = some ([], 0) :=
  if_pos hnil

theorem decodeLoop_past {r : CharRange} (hne : r.bytes ≠ []) (hgt : r.bytes.length < (next_fn r).2) (fuel : ℕ) :
    decodeLoop next_fn (fuel + 1) r = some ([(next_fn r).1], (next_fn r).2 - r.bytes.length) :=
  (if_neg hne).trans (if_neg (Nat.not_le.2 hgt))

theorem decodeLoop_step {fuel : ℕ} {r : CharRange} (hne : r.bytes ≠ []) (hle : (next_fn r).2 ≤ r.bytes.length) :
    decodeLoop next_fn (fuel + 1) r =
      (decodeLoop next_fn fuel (r.advance (next_fn r).2)).map fun (cps, past) => ((next_fn r).1 :: cps, past) :=
  (if_neg hne).trans (if_pos hle)

/-- Calls that make progress and keep `P` lead the loop to `end`. -/
theorem endsAtEnd_of_invariant
    (step : ∀ r : CharRange, P r.bytes → r.bytes ≠ [] →
      Progress next_fn r ∧ P (r.bytes.drop (next_fn r).2)) :
    ∀ r : CharRange, P r.bytes → EndsAtEnd next_fn r := by
  suffices h : ∀ fuel : ℕ, ∀ r : CharRange, P r.bytes → r.bytes.length < fuel →
      ∃ cps, decodeLoop next_fn fuel r = some (cps, 0) from
    fun r hr => ⟨r.bytes.length + 1, h _ r hr (Nat.lt_succ_self _)⟩
  intro fuel
  induction fuel with
  | zero => intro r _ hlt; omega
  | succ fuel ih =>
    intro r hr hlt
    rcases eq_or_ne r.bytes [] with hnil | hne
    · exact ⟨[], decodeLoop_empty hnil fuel⟩
    · obtain ⟨⟨hpos, hle⟩, hP⟩ := step r hr hne
      have hlen : (r.bytes.drop (next_fn r).2).length < fuel := by
        rw [List.length_drop]
        omega
      obtain ⟨cps, hcps⟩ := ih (r.advance (next_fn r).2) hP hlen
      exact ⟨_, by rw [decodeLoop_step hne hle, hcps]; rfl⟩

/-- A loop whose calls all move the iterator ends somewhere. -/
theorem terminates_of_moves (move : ∀ r : CharRange, r.bytes ≠ [] → 0 < (next_fn r).2) (r : CharRange) :
    Terminates next_fn r := by
  suffices h : ∀ fuel : ℕ, ∀ r : CharRange, r.bytes.length < fuel → (decodeLoop next_fn fuel r).isSome from
    ⟨r.bytes.length + 1, h _ r (Nat.lt_succ_self _)⟩
  intro fuel
  induction fuel with
  | zero => intro r hlt; omega
  | succ fuel ih =>
    intro r hlt
    rcases eq_or_ne r.bytes [] with hnil | hne
    · rw [decodeLoop_empty hnil]
      rfl
    · have hpos := move r hne
      rcases Nat.lt_or_ge r.bytes.length (next_fn r).2 with hgt | hle
      · rw [decodeLoop_past hne hgt]
        rfl
      · rw [decodeLoop_step hne hle, Option.isSome_map]
        apply ih
        show (r.bytes.drop (next_fn r).2).length < fuel
        rw [List.length_drop]
        omega

/-- A loop that stays in non-empty ranges never ends. -/
theorem not_terminates_of_invariant (step : ∀ r : CharRange, P r.bytes →
      r.bytes ≠ [] ∧ (next_fn r).2 ≤ r.bytes.length ∧ P (r.bytes.drop (next_fn r).2))
    (r : CharRange) (hr : P r.bytes) : ¬ Terminates next_fn r := by
  rintro ⟨fuel, h⟩
  induction fuel generalizing r with
  | zero => cases h
  | succ fuel ih =>
    obtain ⟨hne, hle, hP⟩ := step r hr
    rw [decodeLoop_step hne hle, Option.isSome_map] at h
    exact ih (r.advance _) hP h

/-- A loop that stays in non-empty ranges until it leaves the range does not end at `end`. -/
theorem not_endsAtEnd_of_invariant (step : ∀ r : CharRange, P r.bytes →
      r.bytes ≠ [] ∧ ((next_fn r).2 ≤ r.bytes.length → P (r.bytes.drop (next_fn r).2)))
    (r : CharRange) (hr : P r.bytes) : ¬ EndsAtEnd next_fn r := by
  rintro ⟨fuel, cps, h⟩
  induction fuel generalizing r cps with
  | zero => cases h
  | succ fuel ih =>
    obtain ⟨hne, hP⟩ := step r hr
    rcases Nat.lt_or_ge r.bytes.length (next_fn r).2 with hgt | hle
    · rw [decodeLoop_past hne hgt, Option.some.injEq, Prod.mk.injEq] at h
      omega
    · rw [decodeLoop_step hne hle] at h
      obtain ⟨⟨cps', past⟩, h', he⟩ := Option.map_eq_some_iff.1 h
      obtain ⟨rfl, rfl⟩ := Prod.mk.inj he
      exact ih (r.advance _) (hP hle) cps' h'

theorem EndsAtEnd.terminates {r : CharRange} (h : EndsAtEnd next_fn r) : Terminates next_fn r := by
  obtain ⟨fuel, cps, h⟩ := h
  exact ⟨fuel, by rw [h]; rfl⟩

end

/-! ## UTF-8 -/

/-- What the loop gets through: characters, and sequences cut short by what follows them. -/
inductive Decodable8 : List UInt8 → Prop
  | nil : Decodable8 []
  | char (c : Char) {rest : List UInt8} : Decodable8 rest → Decodable8 (String.utf8EncodeChar c ++ rest)
  | cut {b : UInt8} {trails rest : List UInt8} :
      Cut b trails rest → Decodable8 rest → Decodable8 (b :: (trails ++ rest))

theorem noerror_next_utf8_lead {b : UInt8} (h : sequence_length b = 0) (s : List UInt8) :
    noerror_next_utf8 (b :: s) = (ERROR_SUBSTITUTE_CODEPOINT, b :: s) := by
  simp [noerror_next_utf8, h]

/-- A character is decoded, and the iterator is behind it. -/
theorem noerror_next_utf8_char (c : Char) (rest : List UInt8) :
    noerror_next_utf8 (String.utf8EncodeChar c ++ rest) = (c.val, rest) := by
  obtain ⟨b, trails, he, hc, hv, ho⟩ := utf8EncodeChar_complete c
  obtain ⟨cp, hcp, hget⟩ := get_sequence_complete hc rest
  have hne : sequence_length b ≠ 0 := by have := hc.length; omega
  obtain rfl : cp = c.val := UInt32.toNat_inj.1 (hcp.trans hv)
  have hvalid : is_code_point_valid c.val = true := (is_code_point_valid_iff _).2 c.valid
  simp only [he, noerror_next_utf8, List.cons_append, List.headD_cons, if_neg hne, hget, hvalid, if_true, ho,
    Bool.not_false, List.tail_cons]

theorem noerror_next_utf8_cut {b : UInt8} {trails rest : List UInt8} (h : Cut b trails rest) :
    noerror_next_utf8 (b :: (trails ++ rest)) = (ERROR_SUBSTITUTE_CODEPOINT, rest) := by
  obtain ⟨err, hget⟩ := get_sequence_cut h
  have hne : sequence_length b ≠ 0 := by have := h.length; omega
  simp only [noerror_next_utf8, List.headD_cons, if_neg hne, hget]

/-- A complete sequence that is no character leaves the iterator on its last byte, a trail byte. -/
theorem noerror_next_utf8_bad {b : UInt8} {trails : List UInt8} (h : Complete b trails)
    (hbad : ∀ c : Char, String.utf8EncodeChar c ≠ b :: trails) (rest : List UInt8) :
    ∃ init t, trails = init ++ [t] ∧ is_trail t = true ∧
      noerror_next_utf8 (b :: (trails ++ rest)) = (ERROR_SUBSTITUTE_CODEPOINT, t :: rest) := by
  obtain ⟨cp, hcp, hget⟩ := get_sequence_complete h rest
  have hne : sequence_length b ≠ 0 := by have := h.length; omega
  have hno : is_code_point_valid cp = false ∨ is_overlong_sequence cp (sequence_length b) = true := by
    by_contra hcon
    simp only [not_or, Bool.not_eq_false, Bool.not_eq_true] at hcon
    exact hbad ⟨cp, (is_code_point_valid_iff cp).1 hcon.1⟩ (eq_utf8EncodeChar h _ hcp.symm hcon.2)
  have hnext : noerror_next_utf8 (b :: (trails ++ rest)) = (ERROR_SUBSTITUTE_CODEPOINT, trails.getLastD b :: rest) := by
    simp only [noerror_next_utf8, List.headD_cons, if_neg hne, hget]
    rcases hno with hno | hno <;> simp [hno]
  rcases List.eq_nil_or_concat trails with rfl | ⟨init, t, rfl⟩
  · -- one byte is always a character
    exfalso
    have hL := h.length
    have hb := sequence_length_eq b
    have hlt : cp.toNat < 128 := by
      rw [hcp]
      simp only [seqValue, payload, ← hL, List.map_nil, Lib.horner_nil, List.length_nil, Nat.zero_add] at hb ⊢
      split_ifs at hb <;> omega
    rcases hno with hno | hno
    · have := (is_code_point_valid_iff cp).2 (.inl (by omega))
      simp [this] at hno
    · rw [is_overlong_sequence_iff, ← hL] at hno
      simp only [List.length_nil] at hno
      omega
  · refine ⟨init, t, by simp, h.trail t (by simp), ?_⟩
    rw [hnext]
    simp

/-- The four things a call can meet. -/
theorem noerror_next_utf8_cases (b : UInt8) (s : List UInt8) :
    (sequence_length b = 0 ∧ noerror_next_utf8 (b :: s) = (ERROR_SUBSTITUTE_CODEPOINT, b :: s)) ∨
    (∃ c rest, b :: s = String.utf8EncodeChar c ++ rest ∧ noerror_next_utf8 (b :: s) = (c.val, rest)) ∨
    (∃ trails rest, s = trails ++ rest ∧ Cut b trails rest ∧
      noerror_next_utf8 (b :: s) = (ERROR_SUBSTITUTE_CODEPOINT, rest)) ∨
    (∃ init t rest, s = init ++ t :: rest ∧ sequence_length b ≠ 0 ∧ is_trail t = true ∧
      noerror_next_utf8 (b :: s) = (ERROR_SUBSTITUTE_CODEPOINT, t :: rest)) := by
  rcases eq_or_ne (sequence_length b) 0 with h0 | hne
  · exact .inl ⟨h0, noerror_next_utf8_lead h0 s⟩
  · obtain ⟨trails, rest, rfl, h | h⟩ := complete_or_cut b s hne
    · rcases Classical.em (∃ c : Char, String.utf8EncodeChar c = b :: trails) with ⟨c, hc⟩ | hbad
      · have he : b :: (trails ++ rest) = String.utf8EncodeChar c ++ rest := by rw [hc]; rfl
        exact .inr (.inl ⟨c, rest, he, by rw [he, noerror_next_utf8_char]⟩)
      · obtain ⟨init, t, rfl, ht, hn⟩ := noerror_next_utf8_bad h (not_exists.1 hbad) rest
        exact .inr (.inr (.inr ⟨init, t, rest, by simp, hne, ht, hn⟩))
    · exact .inr (.inr (.inl ⟨trails, rest, rfl, h, noerror_next_utf8_cut h⟩))

theorem sequence_length_trail {t : UInt8} (h : is_trail t = true) : sequence_length t = 0 := by
  rw [is_trail_iff] at h
  rw [sequence_length_eq, if_neg (by omega), if_pos (by omega)]

theorem Decodable8.lead {b : UInt8} {s : List UInt8} (h : Decodable8 (b :: s)) : sequence_length b ≠ 0 := by
  generalize hs : b :: s = l at h
  cases h with
  | nil => cases hs
  | char c _ =>
    obtain ⟨b', trails, he, hc, -, -⟩ := utf8EncodeChar_complete c
    rw [he, List.cons_append, List.cons.injEq] at hs
    rw [hs.1, ← hc.length]
    omega
  | cut hcut _ =>
    rw [List.cons.injEq] at hs
    have := hcut.length
    rw [hs.1]
    omega

theorem drop_moved {s init rest : List UInt8} (h : s = init ++ rest) : s.drop (s.length - rest.length) = rest := by
  subst h
  simp

/-- After any call the iterator is at a suffix of the range. -/
theorem noerror_next_utf8_suffix (s : List UInt8) (hne : s ≠ []) :
    ∃ init, s = init ++ (noerror_next_utf8 s).2 ∧ (init = [] ↔ sequence_length (s.headD 0) = 0) := by
  rcases s with _ | ⟨b, s⟩
  · exact absurd rfl hne
  · rw [List.headD_cons]
    rcases noerror_next_utf8_cases b s with ⟨h0, h⟩ | ⟨c, rest, he, h⟩ | ⟨trails, rest, rfl, hc, h⟩ |
      ⟨init, t, rest, rfl, h0, -, h⟩ <;> rw [h]
    · exact ⟨[], rfl, by simp [h0]⟩
    · obtain ⟨b', trails, hb, hc, -, -⟩ := utf8EncodeChar_complete c
      rw [hb] at he
      have hL := hc.length
      rw [← (List.cons.inj he).1] at hL
      exact ⟨b' :: trails, he, by simp; omega⟩
    · have := hc.length
      exact ⟨b :: trails, rfl, by simp; omega⟩
    · exact ⟨b :: init, rfl, by simp [h0]⟩

theorem next_utf8_progress_iff (r : CharRange) (hne : r.bytes ≠ []) :
    Progress next_fn_utf8 r ↔ sequence_length (r.bytes.headD 0) ≠ 0 := by
  obtain ⟨init, hs, hinit⟩ := noerror_next_utf8_suffix r.bytes hne
  have hlen := congrArg List.length hs
  rw [List.length_append] at hlen
  have hmove : (next_fn_utf8 r).2 = init.length := by
    show r.bytes.length - (noerror_next_utf8 r.bytes).2.length = init.length
    omega
  rw [Progress, hmove, ne_eq, ← hinit, ← ne_eq, ← List.length_pos_iff]
  exact ⟨And.left, fun h => ⟨h, by omega⟩⟩

theorem next_utf8_drop (r : CharRange) (hne : r.bytes ≠ []) :
    r.bytes.drop (next_fn_utf8 r).2 = (noerror_next_utf8 r.bytes).2 := by
  obtain ⟨init, hs, -⟩ := noerror_next_utf8_suffix r.bytes hne
  exact drop_moved hs

/-- The loop gets through a string exactly when it is decodable; otherwise it hangs. -/
theorem utf8_loop (r : CharRange) :
    (Decodable8 r.bytes → EndsAtEnd next_fn_utf8 r) ∧ (¬ Decodable8 r.bytes → ¬ Terminates next_fn_utf8 r) := by
  constructor
  · refine endsAtEnd_of_invariant (P := Decodable8) ?_ r
    intro r hr hne
    rw [next_utf8_drop r hne, next_utf8_progress_iff r hne]
    rcases hs : r.bytes with _ | ⟨b, s⟩
    · exact absurd hs hne
    · rw [hs] at hr
      refine ⟨hr.lead, ?_⟩
      generalize he : b :: s = l at hr
      cases hr with
      | nil => cases he
      | char c hrest => rwa [noerror_next_utf8_char]
      | cut hcut hrest => rwa [noerror_next_utf8_cut hcut]
  · refine not_terminates_of_invariant (P := fun s => ¬ Decodable8 s) ?_ r
    intro r hr
    have hne : r.bytes ≠ [] := by
      intro h
      rw [h] at hr
      exact hr .nil
    refine ⟨hne, Nat.sub_le _ _, ?_⟩
    rw [next_utf8_drop r hne]
    rcases hs : r.bytes with _ | ⟨b, s⟩
    · exact absurd hs hne
    · rw [hs] at hr
      rcases noerror_next_utf8_cases b s with ⟨-, h⟩ | ⟨c, rest, he, h⟩ | ⟨trails, rest, rfl, hc, h⟩ |
        ⟨init, t, rest, rfl, -, ht, h⟩ <;> rw [h]
      · exact hr
      · rw [he] at hr
        exact fun hrest => hr (.char c hrest)
      · exact fun hrest => hr (.cut hc hrest)
      · exact fun hrest => hrest.lead (sequence_length_trail ht)

/-! ## UTF-16 -/

/-- The 16-bit units of a string. -/
def units16 : List UInt8 → List UInt32
  | a :: b :: s => uint16At [a, b] :: units16 s
  | _ => []

/-- How many units at the end of the string are lead surrogates. -/
def leadsAtEnd (units : List UInt32) : ℕ := (units.rtakeWhile is_lead_surrogate).length

theorem leadsAtEnd_of_all {units : List UInt32} (h : ∀ u ∈ units, is_lead_surrogate u = true) :
    leadsAtEnd units = units.length := by
  rw [leadsAtEnd, List.rtakeWhile_eq_self_iff.2 h]

theorem leadsAtEnd_cons (u : UInt32) (units : List UInt32)
    (h : ¬ (is_lead_surrogate u = true ∧ ∀ v ∈ units, is_lead_surrogate v = true)) :
    leadsAtEnd (u :: units) = leadsAtEnd units := by
  unfold leadsAtEnd List.rtakeWhile
  rw [List.reverse_cons, List.takeWhile_append]
  split_ifs with hall
  · have hu : is_lead_surrogate u = false := by
      rw [← Bool.not_eq_true]
      refine fun hu => h ⟨hu, fun v hv => ?_⟩
      have := List.takeWhile_eq_self_iff.1 ((List.takeWhile_prefix _).eq_of_length hall)
      exact this v (List.mem_reverse.2 hv)
    rw [List.takeWhile_cons_of_neg (by simp [hu]), List.append_nil,
      (List.takeWhile_prefix is_lead_surrogate).eq_of_length hall]
  · rfl

/-- A pair that starts with a lead surrogate does not change the parity. -/
theorem even_leadsAtEnd_pair {u : UInt32} (hu : is_lead_surrogate u = true) (v : UInt32) (units : List UInt32) :
    Even (leadsAtEnd (u :: v :: units)) ↔ Even (leadsAtEnd units) := by
  by_cases hall : ∀ w ∈ units, is_lead_surrogate w = true
  · by_cases hv : is_lead_surrogate v = true
    · rw [leadsAtEnd_of_all (by simpa [hu, hv] using hall), leadsAtEnd_of_all hall, List.length_cons,
        List.length_cons, Nat.even_add_one, Nat.even_add_one, not_not]
    · rw [leadsAtEnd_cons u _ (by simp [hv]), leadsAtEnd_cons v _ (by simp [hv])]
  · rw [leadsAtEnd_cons u _ (fun h => hall fun w hw => h.2 w (List.mem_cons_of_mem _ hw)),
      leadsAtEnd_cons v _ (fun h => hall h.2)]

theorem next_utf16_moved (r : CharRange) :
    (noerror_next_utf16 r).2 = if is_lead_surrogate (uint16At r.mem) then 4 else 2 := by
  unfold noerror_next_utf16
  simp only [if_pos (Nat.le_add_left 2 r.bytes.length)]
  split_ifs <;> rfl

/-- A string of whole units starts with a unit. -/
theorem exists_unit {s : List UInt8} (hne : s ≠ []) (hu : 2 ∣ s.length) : ∃ a b t, s = a :: b :: t ∧ 2 ∣ t.length := by
  rcases s with _ | ⟨a, _ | ⟨b, t⟩⟩
  · exact absurd rfl hne
  · simp at hu
  · simp only [List.length_cons] at hu
    exact ⟨a, b, t, rfl, by omega⟩

theorem next_utf16_progress_iff (r : CharRange) (hne : r.bytes ≠ []) (hu : 2 ∣ r.bytes.length) :
    Progress noerror_next_utf16 r ↔ ¬ (r.bytes.length = 2 ∧ is_lead_surrogate (uint16At r.bytes) = true) := by
  obtain ⟨a, b, t, hs, ht⟩ := exists_unit hne hu
  have hmem : uint16At r.mem = uint16At r.bytes := by rw [CharRange.mem, hs]; rfl
  rw [Progress, next_utf16_moved, hmem, hs]
  simp only [List.length_cons]
  split_ifs with h
  · simp only [h, and_true]
    omega
  · simp [h]

/-- A call that stays inside the string keeps the parity of its last lead surrogates. -/
theorem next_utf16_parity (r : CharRange) (hne : r.bytes ≠ []) (hu : 2 ∣ r.bytes.length)
    (hle : (noerror_next_utf16 r).2 ≤ r.bytes.length) :
    2 ∣ (r.bytes.drop (noerror_next_utf16 r).2).length ∧
      (Even (leadsAtEnd (units16 (r.bytes.drop (noerror_next_utf16 r).2))) ↔ Even (leadsAtEnd (units16 r.bytes))) := by
  obtain ⟨a, b, t, hs, ht⟩ := exists_unit hne hu
  have hmem : uint16At r.mem = uint16At [a, b] := by rw [CharRange.mem, hs]; rfl
  rw [next_utf16_moved, hmem, hs] at hle ⊢
  split_ifs at hle ⊢ with h
  · obtain ⟨c, d, t', rfl, ht'⟩ := exists_unit (s := t) (by rintro rfl; simp at hle) ht
    exact ⟨ht', (even_leadsAtEnd_pair h _ _).symm⟩
  · refine ⟨ht, ?_⟩
    have : units16 (a :: b :: t) = uint16At [a, b] :: units16 t := rfl
    rw [this, leadsAtEnd_cons _ _ (fun hc => h hc.1)]
    rfl

/-- The loop leaves the string exactly when an odd number of lead surrogates ends it. -/
theorem utf16_loop (r : CharRange) (hu : 2 ∣ r.bytes.length) :
    EndsAtEnd noerror_next_utf16 r ↔ Even (leadsAtEnd (units16 r.bytes)) := by
  constructor
  · intro hend
    by_contra hodd
    refine not_endsAtEnd_of_invariant (P := fun s => 2 ∣ s.length ∧ ¬ Even (leadsAtEnd (units16 s)))
      ?_ r ⟨hu, hodd⟩ hend
    rintro r ⟨hu, hodd⟩
    have hne : r.bytes ≠ [] := by
      intro h
      rw [h] at hodd
      exact hodd (by decide)
    refine ⟨hne, fun hle => ?_⟩
    obtain ⟨h1, h2⟩ := next_utf16_parity r hne hu hle
    exact ⟨h1, by rwa [h2]⟩
  · intro heven
    refine endsAtEnd_of_invariant (P := fun s => 2 ∣ s.length ∧ Even (leadsAtEnd (units16 s)))
      ?_ r ⟨hu, heven⟩
    rintro r ⟨hu, heven⟩ hne
    have hp : Progress noerror_next_utf16 r := by
      rw [next_utf16_progress_iff r hne hu]
      rintro ⟨hl, hlead⟩
      obtain ⟨a, b, t, hs, ht⟩ := exists_unit hne hu
      rw [hs] at hl hlead heven
      obtain rfl : t = [] := List.length_eq_zero_iff.1 (by simpa using hl)
      have hall : ∀ u ∈ units16 [a, b], is_lead_surrogate u = true := by
        intro u hu
        obtain rfl := List.mem_singleton.1 hu
        exact hlead
      have hone : leadsAtEnd (units16 [a, b]) = 1 := leadsAtEnd_of_all hall
      rw [hone] at heven
      exact absurd heven (by decide)
    obtain ⟨h1, h2⟩ := next_utf16_parity r hne hu hp.2
    exact ⟨hp, h1, h2.2 heven⟩

theorem next_utf16_moves (r : CharRange) : 0 < (noerror_next_utf16 r).2 := by
  rw [next_utf16_moved]
  split_ifs <;> decide

/-! ## Fixed-width encodings -/

/-- A decoder that always moves by the width of its units makes progress and
gets through every string of whole units. -/
theorem fixedWidth_loop (next_fn : Decoder) {w : ℕ} (hw : 0 < w) (h : ∀ r, (next_fn r).2 = w) (r : CharRange)
    (hu : w ∣ r.bytes.length) : (r.bytes ≠ [] → Progress next_fn r) ∧ EndsAtEnd next_fn r := by
  have hp : ∀ r : CharRange, w ∣ r.bytes.length → r.bytes ≠ [] → Progress next_fn r := by
    intro r hu hne
    rw [Progress, h]
    exact ⟨hw, Nat.le_of_dvd (List.length_pos_iff.2 hne) hu⟩
  refine ⟨hp r hu, endsAtEnd_of_invariant (P := fun s => w ∣ s.length) (fun r hu hne => ⟨hp r hu hne, ?_⟩) r hu⟩
  rw [h, List.length_drop]
  exact Nat.dvd_sub hu (dvd_refl w)

/-! ## Every decoder -/

/-- The ranges on which one call makes progress. -/
def GoodCall (encoding : string_encoding_t) (s : List UInt8) : Prop :=
  match encoding with
  | .utf_8 => sequence_length (s.headD 0) ≠ 0
  | .utf_16 => ¬ (s.length = 2 ∧ is_lead_surrogate (uint16At s) = true)
  | _ => True

/-- The strings the loop gets through. -/
def GoodString (encoding : string_encoding_t) (s : List UInt8) : Prop :=
  match encoding with
  | .utf_8 => Decodable8 s
  | .utf_16 => Even (leadsAtEnd (units16 s))
  | _ => True

/-- One call moves the iterator forward inside the range exactly when the lead
byte is valid and no lead surrogate is the last unit. The loop ends at `end`
exactly on the good strings, and hangs exactly on UTF-8 that is not decodable. -/
theorem decoder_progress_iff (encoding : string_encoding_t) (next_fn : Decoder)
    (h : get_next_unicode_codepoint_function encoding = some next_fn) (r : CharRange)
    (hu : char_size encoding ∣ r.bytes.length) :
    (r.bytes ≠ [] → (Progress next_fn r ↔ GoodCall encoding r.bytes)) ∧
    (EndsAtEnd next_fn r ↔ GoodString encoding r.bytes) ∧
    (Terminates next_fn r ↔ (encoding = .utf_8 → Decodable8 r.bytes)) := by
  cases encoding with
  | ascii =>
    obtain rfl := Option.some.inj h
    obtain ⟨hp, hl⟩ := fixedWidth_loop noerror_next_ascii (by decide) (fun _ => rfl) r hu
    exact ⟨fun hne => iff_of_true (hp hne) trivial, iff_of_true hl trivial, iff_of_true hl.terminates (by simp)⟩
  | ucs_2 =>
    obtain rfl := Option.some.inj h
    obtain ⟨hp, hl⟩ := fixedWidth_loop noerror_next_ucs2 (by decide) (fun _ => rfl) r hu
    exact ⟨fun hne => iff_of_true (hp hne) trivial, iff_of_true hl trivial, iff_of_true hl.terminates (by simp)⟩
  | utf_8 =>
    obtain rfl := Option.some.inj h
    obtain ⟨h1, h2⟩ := utf8_loop r
    refine ⟨next_utf8_progress_iff r, ⟨fun hend => ?_, h1⟩, fun hterm _ => ?_, fun hd => (h1 (hd rfl)).terminates⟩
    · exact not_imp_not.1 h2 hend.terminates
    · exact not_imp_not.1 h2 hterm
  | utf_16 =>
    obtain rfl := Option.some.inj h
    exact ⟨fun hne => next_utf16_progress_iff r hne hu, utf16_loop r hu,
      iff_of_true (terminates_of_moves (fun r _ => next_utf16_moves r) r) (by simp)⟩
  | utf_32 =>
    obtain rfl := Option.some.inj h
    obtain ⟨hp, hl⟩ := fixedWidth_loop noerror_next_utf32 (by decide) (fun _ => rfl) r hu
    exact ⟨fun hne => iff_of_true (hp hne) trivial, iff_of_true hl trivial, iff_of_true hl.terminates (by simp)⟩
  | latin1 => cases h
  | invalid => cases h

/-- The lead byte `0x80` stops the UTF-8 decoder for good; a last lead surrogate
takes the UTF-16 decoder two bytes beyond `end`. -/
theorem decoder_stuck :
    ¬ (∀ encoding next_fn, get_next_unicode_codepoint_function encoding = some next_fn → ∀ r : CharRange,
      char_size encoding ∣ r.bytes.length → r.bytes ≠ [] → Progress next_fn r ∧ Terminates next_fn r) ∧
    ¬ Progress noerror_next_utf16 ⟨[0x00, 0xd8], []⟩ := by
  refine ⟨fun h => ?_, ?_⟩
  · have h80 := (h .utf_8 next_fn_utf8 rfl ⟨[0x80], []⟩ (by decide) (by decide)).1.1
    exact absurd h80 (by decide)
  · exact fun h => absurd h.2 (by decide)

/-- A lone trail byte, decoded as UTF-8. -/
theorem decoder_progress_lone_trail :
    ([0x80] ≠ ([] : List UInt8) → (Progress next_fn_utf8 ⟨[0x80], []⟩ ↔ GoodCall .utf_8 [0x80])) ∧
    (EndsAtEnd next_fn_utf8 ⟨[0x80], []⟩ ↔ GoodString .utf_8 [0x80]) ∧
    (Terminates next_fn_utf8 ⟨[0x80], []⟩ ↔ (string_encoding_t.utf_8 = .utf_8 → Decodable8 [0x80])) :=
  decoder_progress_iff .utf_8 next_fn_utf8 rfl ⟨[0x80], []⟩ (by decide)

end Dynd.StringEncodings
