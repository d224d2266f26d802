import Dynd.Lib.Except
import Dynd.StringIter
/-!
# What a string iterator delivers

A strided iterator delivers its data. The transcoding iterator reads the
characters that start before byte `size` of the data, and its buffer is
taken to end at twice its address. `string_iter_delivers_iff` says for which
texts that comes to the whole text and stays inside the buffer.
-/
namespace Dynd.Transcode
open Lib StringEncodings Parse

/-! ## The strided iterator -/

section
variable (data : Option (List UInt8)) (dim_size data_stride : ℕ)

/-- The iterator with its data pointer at `p`. -/
def stridedAt (p : Option ℕ) : dim_iter := .strided ⟨data, dim_size, data_stride, p⟩

/-- A strided iterator over data of `dim_size` elements delivers the data. -/
theorem strided_delivers (hsize : (data.getD []).length = dim_size * data_stride) :
    (stridedAt data dim_size data_stride none).calls.Delivers (stridedAt data dim_size data_stride none) (data.getD []) := by
  have hall : ∀ p, strided_dim_iter.elements ⟨data, dim_size, data_stride, p⟩ 0 dim_size = data.getD [] := by
    intro p
    simp only [strided_dim_iter.elements, Nat.zero_mul, List.drop_zero]
    exact List.take_of_length_le (le_of_eq hsize)
  have hfirst : (stridedAt data dim_size data_stride none).calls.next (stridedAt data dim_size data_stride none) =
      some (true, data.getD [], stridedAt data dim_size data_stride (data.map fun _ => 0)) := by
    rw [← hall none]
    rfl
  have hlater : ∀ p, (stridedAt data dim_size data_stride none).calls.next (stridedAt data dim_size data_stride (some p)) =
      some (false, [], stridedAt data dim_size data_stride (some p)) := fun _ => rfl
  -- before the first call nothing is delivered, after it everything
  apply ChunkIterator.delivers_of_invariant (fun s d => ∃ p, s = stridedAt data dim_size data_stride p ∧
    ∀ d', d = some d' → d' = if p.isSome then data.getD [] else [])
  · exact ⟨none, rfl, fun d' hd' => (Option.some.inj hd').symm⟩
  · rintro s d ⟨p, rfl, hd⟩
    cases p with
    | none =>
      refine ⟨true, data.getD [], _, hfirst, ⟨_, rfl, ?_⟩, ?_⟩
      · intro d' hd'
        obtain ⟨d₀, h0, rfl⟩ := Option.map_eq_some_iff.mp hd'
        rw [hd d₀ h0]
        cases data <;> rfl
      · intro d' hd'
        rw [hd d' hd']
        rfl
    | some p =>
      refine ⟨false, [], _, hlater p, ⟨some p, rfl, ?_⟩, ?_⟩
      · intro d' hd'
        obtain ⟨d₀, h0, rfl⟩ := Option.map_eq_some_iff.mp hd'
        rw [hd d₀ h0, List.append_nil]
      · intro d' hd'
        rw [hd d' hd', List.append_nil]
        rfl
  · rintro s d i ⟨p, rfl, hd⟩ _
    by_cases hi : i < dim_size
    · refine ⟨strided_dim_iter.elements ⟨data, dim_size, data_stride, p⟩ i (dim_size - i),
        stridedAt data dim_size data_stride (some (i * data_stride)), ?_, ⟨some (i * data_stride), rfl, ?_⟩⟩
      · simp [dim_iter.calls, dim_iter.seek, stridedAt, strided_dim_iter.seek, hi, Except.toOption]
      · intro d' hd'
        split_ifs at hd' with h0
        obtain rfl := Option.some.inj hd'
        rw [h0]
        exact hall p
    · refine ⟨[], stridedAt data dim_size data_stride none, ?_, ⟨none, rfl, ?_⟩⟩
      · simp [dim_iter.calls, dim_iter.seek, stridedAt, strided_dim_iter.seek, hi, Except.toOption]
      · intro d' hd'
        split_ifs at hd' with h0
        exact (Option.some.inj hd').symm
  · rintro s d ⟨p, _, hd⟩
    rw [hd d rfl]
    cases p.isSome
    · exact List.nil_prefix
    · exact List.prefix_refl _

end

/-! ## One character at a time -/

section
variable {mem : List UInt8} {n o : ℕ}

theorem view_mem (ho : o ≤ n) (hn : n ≤ mem.length) : (view mem n o).mem = mem.drop o := by
  have hlen : o ≤ (mem.take n).length := by
    rw [List.length_take]
    omega
  show (mem.take n).drop o ++ mem.drop n = mem.drop o
  rw [← List.drop_append_of_le_length hlen, List.take_append_drop]

theorem view_bytes (mem : List UInt8) (n o : ℕ) : (view mem n o).bytes = (mem.drop o).take (n - o) := List.drop_take

theorem view_advance (k : ℕ) : (view mem n o).advance k = view mem n (o + k) := by
  simp only [CharRange.advance, view, List.drop_drop]

theorem view_bytes_ne_nil (hn : n ≤ mem.length) : (view mem n o).bytes ≠ [] ↔ o < n := by
  rw [← List.length_pos_iff, view_bytes, List.length_take, List.length_drop]
  omega

end

/-- The decoder reads this character even when the range ends inside it. -/
def reads_past_end (encoding : string_encoding_t) (errmode : assign_error_mode) (c : Char) : Prop :=
  match encoding with
  | .ucs_2 | .utf_32 => True
  | .utf_16 => errmode = .nocheck ∨ c.toNat < 0x10000
  | _ => False

section
variable {encoding : string_encoding_t} {errmode : assign_error_mode} {next_fn : CheckedDecoder}
  (hnext : get_next_unicode_codepoint_function encoding errmode = .ok next_fn)
  {mem rest : List UInt8} {n o : ℕ} {c : Char} (hmem : mem.drop o = encode_char encoding c ++ rest) (ho : o < n)
  (hn : n ≤ mem.length) (hc : representable encoding c)
include hnext hmem ho hn hc

/-- A character that starts before `end` is read when it ends there too, or when the decoder does not mind. -/
theorem next_fn_view (h : o + (encode_char encoding c).length ≤ n ∨ reads_past_end encoding errmode c) :
    next_fn (view mem n o) = .ok (c.val, (encode_char encoding c).length) := by
  rcases h with hwhole | hpast
  · have hbytes : (view mem n o).bytes =
        encode_char encoding c ++ rest.take (n - o - (encode_char encoding c).length) := by
      rw [view_bytes, hmem, List.take_append, List.take_of_length_le (by omega)]
    exact next_fn_char hnext hc hbytes
  · have hm : (view mem n o).mem = encode_char encoding c ++ rest := by rw [view_mem (by omega) hn, hmem]
    cases encoding with
    | ucs_2 =>
      cases hnext
      obtain ⟨h1, h2⟩ := next_ucs2_char hc hm
      split_ifs
      · exact h1
      · exact congrArg Except.ok h2
    | utf_32 =>
      cases hnext
      obtain ⟨h1, h2⟩ := next_utf32_char hm
      split_ifs
      · exact h1
      · exact congrArg Except.ok h2
    | utf_16 =>
      cases hnext
      by_cases hu : c.toNat < 0x10000
      · have he : encode_char .utf_16 c = le16 c.toNat := if_pos hu
        rw [he] at hm ⊢
        obtain ⟨h1, h2⟩ := next_utf16_unit hu hm
        split_ifs
        · exact h1
        · exact congrArg Except.ok h2
      · have he : encode_char .utf_16 c = le16 (leadSurrogate c.toNat) ++ le16 (trailSurrogate c.toNat) := if_neg hu
        rw [he] at hm ⊢
        obtain ⟨_, h2⟩ := next_utf16_pair (Nat.le_of_not_lt hu) hm
        have hmode : errmode = .nocheck := hpast.resolve_right hu
        rw [if_neg (not_not_intro hmode)]
        exact congrArg Except.ok h2
    | ascii => cases hpast
    | utf_8 => cases hpast
    | latin1 => cases hpast
    | invalid => cases hpast

/-- Otherwise the decoder throws, where units are longer than a byte. -/
theorem next_fn_view_throws (hw : 1 < char_size encoding)
    (h : ¬ (o + (encode_char encoding c).length ≤ n ∨ reads_past_end encoding errmode c)) :
    ∃ e, next_fn (view mem n o) = .error e := by
  rw [not_or] at h
  obtain ⟨hcut, hpast⟩ := h
  cases encoding with
  | utf_16 =>
    cases hnext
    simp only [reads_past_end, not_or] at hpast
    have he : encode_char .utf_16 c = le16 (leadSurrogate c.toNat) ++ le16 (trailSurrogate c.toNat) := if_neg hpast.2
    have hm : (view mem n o).mem = encode_char .utf_16 c ++ rest := by rw [view_mem (by omega) hn, hmem]
    rw [he] at hm hcut
    obtain ⟨h1, _⟩ := next_utf16_pair (Nat.le_of_not_lt hpast.2) hm
    have hlen : ¬ 4 ≤ (view mem n o).bytes.length := by
      rw [view_bytes, List.length_take]
      simp only [List.length_append, length_le16] at hcut
      omega
    rw [if_neg hlen] at h1
    rw [if_pos hpast.1]
    exact ⟨_, h1⟩
  | ucs_2 => exact absurd trivial hpast
  | utf_32 => exact absurd trivial hpast
  | ascii => exact absurd hw (by decide)
  | utf_8 => exact absurd hw (by decide)
  | latin1 => exact absurd hw (by decide)
  | invalid => exact absurd hw (by decide)

end

/-! ## The loop -/

/-- Every character of the text, which starts at byte `o`, starts before byte `n` and is read. -/
def ReadThrough (encoding : string_encoding_t) (errmode : assign_error_mode) (n : ℕ) : ℕ → List Char → Prop
  | _, [] => True
  | o, c :: s => o < n ∧ (o + (encode_char encoding c).length ≤ n ∨ reads_past_end encoding errmode c) ∧
      ReadThrough encoding errmode n (o + (encode_char encoding c).length) s

theorem drop_after {encoding : string_encoding_t} {mem past : List UInt8} {o : ℕ} {c : Char} {s : List Char}
    (hmem : mem.drop o = encode encoding (c :: s) ++ past) :
    mem.drop (o + (encode_char encoding c).length) = encode encoding s ++ past := by
  rw [← List.drop_drop, hmem, encode_cons, List.append_assoc, List.drop_left]

section
variable {data_encoding iter_encoding : string_encoding_t} {errmode : assign_error_mode} {next_fn : CheckedDecoder}
  {append_fn : Encoder} (hnext : get_next_unicode_codepoint_function data_encoding errmode = .ok next_fn)
  (happend : get_append_unicode_codepoint_function iter_encoding errmode = .ok append_fn)
  (hi : recognized iter_encoding = true) {mem past : List UInt8} {n buf_size space : ℕ} (hn : n ≤ mem.length)
  (hbuf : space + 5 ≤ buf_size)
include hnext happend hi hn hbuf

/-- The end of the buffer never stops the loop: a store beyond the buffer comes first. -/
theorem buffer_loop_cons {c : Char} {rest out : List UInt8} {o moved : ℕ} (hmem : mem.drop o = encode_char data_encoding c ++ rest)
    (ho : o < n) (hc : representable data_encoding c) (hic : Storable errmode iter_encoding c)
    (hread : o + (encode_char data_encoding c).length ≤ n ∨ reads_past_end data_encoding errmode c)
    (hout : out.length ≤ space) (fuel : ℕ) :
    buffer_loop next_fn append_fn buf_size space (fuel + 1) (view mem n o) moved out =
      if out.length + (encode_char iter_encoding (substituted iter_encoding c)).length ≤ space then
        buffer_loop next_fn append_fn buf_size space fuel (view mem n (o + (encode_char data_encoding c).length))
          (moved + (encode_char data_encoding c).length) (out ++ encode_char iter_encoding (substituted iter_encoding c))
      else some .overrun := by
  have hlen := (encode_char_length hi (substituted iter_encoding c)).2
  have hgo : (view mem n o).bytes ≠ [] ∧ out.length + 5 ≤ buf_size :=
    ⟨(view_bytes_ne_nil hn).mpr ho, by omega⟩
  have hround : convert_next next_fn append_fn (view mem n o) (buf_size - out.length) (space - out.length) = _ :=
    convert_next_storable happend hi (next_fn_view hnext hmem ho hn hc hread) hic (by omega)
  have hiff : (encode_char iter_encoding (substituted iter_encoding c)).length ≤ space - out.length ↔
      out.length + (encode_char iter_encoding (substituted iter_encoding c)).length ≤ space := by omega
  rw [buffer_loop, if_pos hgo]
  simp only [hround, hiff, view_advance]
  split_ifs <;> rfl

omit hnext happend hi hbuf in
theorem buffer_loop_end {out : List UInt8} {o moved : ℕ} (ho : n ≤ o) (fuel : ℕ) :
    buffer_loop next_fn append_fn buf_size space (fuel + 1) (view mem n o) moved out = some (.done moved out) := by
  have hstop : ¬ ((view mem n o).bytes ≠ [] ∧ out.length + 5 ≤ buf_size) := by
    rw [view_bytes_ne_nil hn]
    omega
  rw [buffer_loop, if_neg hstop]

variable (s : List Char) (hdata : ∀ c ∈ s, representable data_encoding c) (hiter : ∀ c ∈ s, Storable errmode iter_encoding c)
  {o : ℕ} (hmem : mem.drop o = encode data_encoding s ++ past) (hend : n ≤ o + (encode data_encoding s).length) (moved : ℕ)
  (out : List UInt8) (fuel : ℕ) (hfuel : s.length < fuel)
include hdata hiter hmem hend hfuel

/-- A text that is read through and fits is transcoded in one call. -/
theorem buffer_loop_reads (hread : ReadThrough data_encoding errmode n o s)
    (hfit : out.length + (transcoded iter_encoding s).length ≤ space) :
    buffer_loop next_fn append_fn buf_size space fuel (view mem n o) moved out =
      some (.done (moved + (encode data_encoding s).length) (out ++ transcoded iter_encoding s)) := by
  induction s generalizing o moved out fuel with
  | nil =>
    obtain ⟨fuel, rfl⟩ := Nat.exists_eq_succ_of_ne_zero (Nat.ne_of_gt hfuel)
    rw [buffer_loop_end hn (by simpa [encode] using hend)]
    simp [encode, transcoded]
  | cons c s ih =>
    obtain ⟨fuel, rfl⟩ := Nat.exists_eq_succ_of_ne_zero (Nat.ne_of_gt (Nat.zero_lt_of_lt hfuel))
    obtain ⟨ho, hc, hrest⟩ := hread
    rw [List.forall_mem_cons] at hdata hiter
    rw [encode_cons, List.length_append] at hend
    have hfirst : out.length + (encode_char iter_encoding (substituted iter_encoding c)).length ≤ space := by
      rw [transcoded_cons, List.length_append] at hfit
      omega
    have hchar : mem.drop o = encode_char data_encoding c ++ (encode data_encoding s ++ past) := by
      rw [hmem, encode_cons, List.append_assoc]
    rw [buffer_loop_cons hnext happend hi hn hbuf hchar ho hdata.1 hiter.1 hc (by omega) fuel, if_pos hfirst]
    have hfit' : (out ++ encode_char iter_encoding (substituted iter_encoding c)).length +
        (transcoded iter_encoding s).length ≤ space := by
      rw [List.length_append]
      rw [transcoded_cons, List.length_append] at hfit
      omega
    rw [ih hdata.2 hiter.2 (drop_after hmem) (by omega) _ _ fuel (Nat.lt_of_succ_lt_succ hfuel) hrest hfit']
    rw [encode_cons, transcoded_cons, List.length_append, Nat.add_assoc, List.append_assoc]

/-- Otherwise the call fails, or stops behind a beginning of the text that is not all of it. -/
theorem buffer_loop_stops (hw : 1 < char_size data_encoding ∨ o + (encode data_encoding s).length ≤ n) (hout : out.length ≤ space)
    (hbad : ¬ (ReadThrough data_encoding errmode n o s ∧ out.length + (transcoded iter_encoding s).length ≤ space)) :
    (∃ e, buffer_loop next_fn append_fn buf_size space fuel (view mem n o) moved out = some (.threw e)) ∨
    buffer_loop next_fn append_fn buf_size space fuel (view mem n o) moved out = some .overrun ∨
    ∃ s₁ s₂, s = s₁ ++ s₂ ∧ s₂ ≠ [] ∧ n ≤ o + (encode data_encoding s₁).length ∧
      buffer_loop next_fn append_fn buf_size space fuel (view mem n o) moved out =
        some (.done (moved + (encode data_encoding s₁).length) (out ++ transcoded iter_encoding s₁)) := by
  induction s generalizing o moved out fuel with
  | nil => exact absurd ⟨trivial, by simpa [encode, transcoded] using hout⟩ hbad
  | cons c s ih =>
    obtain ⟨fuel, rfl⟩ := Nat.exists_eq_succ_of_ne_zero (Nat.ne_of_gt (Nat.zero_lt_of_lt hfuel))
    rw [List.forall_mem_cons] at hdata hiter
    have hchar : mem.drop o = encode_char data_encoding c ++ (encode data_encoding s ++ past) := by
      rw [hmem, encode_cons, List.append_assoc]
    by_cases ho : o < n
    · by_cases hc : o + (encode_char data_encoding c).length ≤ n ∨ reads_past_end data_encoding errmode c
      · rw [buffer_loop_cons hnext happend hi hn hbuf hchar ho hdata.1 hiter.1 hc hout fuel]
        split_ifs with hfit
        · have hrest : ¬ (ReadThrough data_encoding errmode n (o + (encode_char data_encoding c).length) s ∧
              (out ++ encode_char iter_encoding (substituted iter_encoding c)).length + (transcoded iter_encoding s).length ≤ space) := by
            rintro ⟨h1, h2⟩
            apply hbad
            refine ⟨⟨ho, hc, h1⟩, ?_⟩
            rw [transcoded_cons, List.length_append]
            rw [List.length_append] at h2
            omega
          rw [encode_cons, List.length_append] at hend hw
          rcases ih hdata.2 hiter.2 (drop_after hmem) (by omega) _ _ fuel (Nat.lt_of_succ_lt_succ hfuel)
            (by omega) (by rw [List.length_append]; omega) hrest with h | h | ⟨s₁, s₂, rfl, hne, hstop, h⟩
          · exact .inl h
          · exact .inr (.inl h)
          · refine .inr (.inr ⟨c :: s₁, s₂, rfl, hne, ?_, ?_⟩)
            · rw [encode_cons, List.length_append]
              omega
            · rw [h, encode_cons, transcoded_cons, List.length_append, Nat.add_assoc, List.append_assoc]
        · exact .inr (.inl rfl)
      · have hwide : 1 < char_size data_encoding := by
          apply hw.resolve_right
          rw [encode_cons, List.length_append]
          intro hle
          exact hc (.inl (by omega))
        obtain ⟨e, he⟩ := next_fn_view_throws hnext hchar ho hn hdata.1 hwide hc
        have hgo : (view mem n o).bytes ≠ [] ∧ out.length + 5 ≤ buf_size :=
          ⟨(view_bytes_ne_nil hn).mpr ho, by omega⟩
        have hround : ∀ room space, convert_next next_fn append_fn (view mem n o) room space = .threw e := by
          intro room space
          simp only [convert_next, he]
        refine .inl ⟨e, ?_⟩
        rw [buffer_loop, if_pos hgo]
        simp only [hround]
    · refine .inr (.inr ⟨[], c :: s, rfl, List.cons_ne_nil _ _, ?_, ?_⟩)
      · simpa [encode] using Nat.le_of_not_lt ho
      · rw [buffer_loop_end hn (Nat.le_of_not_lt ho)]
        simp [encode, transcoded]

end

/-! ## Which texts are read through -/

theorem length_encode_append (encoding : string_encoding_t) (s t : List Char) :
    (encode encoding (s ++ t)).length = (encode encoding s).length + (encode encoding t).length := by
  rw [encode_append, List.length_append]

theorem length_transcoded_append (encoding : string_encoding_t) (s t : List Char) :
    (transcoded encoding (s ++ t)).length = (transcoded encoding s).length + (transcoded encoding t).length := by
  rw [transcoded_append, List.length_append]

theorem length_encode_singleton (encoding : string_encoding_t) (c : Char) :
    (encode encoding [c]).length = (encode_char encoding c).length := by
  simp [encode]

theorem char_size_dvd (encoding : string_encoding_t) (hr : recognized encoding = true) (s : List Char) :
    char_size encoding ∣ (encode encoding s).length := by
  induction s with
  | nil => exact dvd_zero _
  | cons c s ih =>
    rw [encode_cons, List.length_append]
    apply Dvd.dvd.add _ ih
    cases encoding with
    | ascii => exact one_dvd _
    | utf_8 => exact one_dvd _
    | ucs_2 => exact dvd_refl 2
    | utf_32 => exact dvd_refl 4
    | utf_16 =>
      rw [encode_char, length_utf16Char]
      split_ifs <;> decide
    | latin1 => cases hr
    | invalid => cases hr

/-- It is made of whole units. -/
theorem transcoded_whole {encoding : string_encoding_t} (hr : recognized encoding = true) (s : List Char) :
    (transcoded encoding s).take ((transcoded encoding s).length / char_size encoding * char_size encoding) =
      transcoded encoding s := by
  have hdvd : char_size encoding ∣ (transcoded encoding s).length := char_size_dvd encoding hr _
  rw [Nat.div_mul_cancel hdvd, List.take_length]

section
variable {encoding : string_encoding_t} {errmode : assign_error_mode} {n : ℕ}

theorem readThrough_whole (hr : recognized encoding = true) (s : List Char) (o : ℕ)
    (h : o + (encode encoding s).length ≤ n) : ReadThrough encoding errmode n o s := by
  induction s generalizing o with
  | nil => trivial
  | cons c s ih =>
    have hlen := (encode_char_length hr c).1
    have hpos := char_size_pos hr
    rw [encode_cons, List.length_append] at h
    exact ⟨by omega, .inl (by omega), ih _ (by omega)⟩

/-- It comes down to the last character. -/
theorem readThrough_snoc (hr : recognized encoding = true) (s : List Char) (c : Char) (o : ℕ) :
    ReadThrough encoding errmode n o (s ++ [c]) ↔ o + (encode encoding s).length < n ∧
      (o + (encode encoding s).length + (encode_char encoding c).length ≤ n ∨ reads_past_end encoding errmode c) := by
  induction s generalizing o with
  | nil => simp [ReadThrough, encode]
  | cons d s ih =>
    have hlen := (encode_char_length hr d).1
    have hpos := char_size_pos hr
    rw [List.cons_append, ReadThrough, ih, encode_cons, List.length_append, ← Nat.add_assoc]
    constructor
    · exact fun h => h.2.2
    · exact fun h => ⟨by have := h.1; omega, .inl (by have := h.1; omega), h⟩

end

/-- The texts that are read through when the range ends after as many bytes as the text has units:
single bytes, a single unit, and in the mode that does not check a surrogate pair with at most one
unit before it. -/
def ReadToEnd (encoding : string_encoding_t) (errmode : assign_error_mode) (s : List Char) : Prop :=
  char_size encoding = 1 ∨ (encode encoding s).length / char_size encoding = 1 ∨
    (encoding = .utf_16 ∧ errmode = .nocheck ∧ (encode encoding s).length / char_size encoding ≤ 3 ∧
      ∃ c, s.getLast? = some c ∧ 0x10000 ≤ c.toNat)

theorem readThrough_iff {encoding : string_encoding_t} (hr : recognized encoding = true) (errmode : assign_error_mode)
    {s : List Char} (hne : s ≠ []) :
    ReadThrough encoding errmode ((encode encoding s).length / char_size encoding) 0 s ↔ ReadToEnd encoding errmode s := by
  obtain ⟨init, c, rfl⟩ := (List.eq_nil_or_concat s).resolve_left hne
  rw [List.concat_eq_append, readThrough_snoc hr, ReadToEnd, length_encode_append, length_encode_singleton, Nat.zero_add,
    List.getLast?_concat]
  have hdvd := char_size_dvd encoding hr init
  cases encoding with
  | ascii =>
    simp only [char_size, encode_char, List.length_singleton, true_or, iff_true, Nat.div_one]
    omega
  | utf_8 =>
    have hpos := (encode_char_length hr c).1
    simp only [char_size, true_or, iff_true, Nat.div_one] at hpos ⊢
    omega
  | ucs_2 =>
    simp only [char_size, encode_char, length_le16, reads_past_end, or_true, and_true, reduceCtorEq, false_and, or_false,
      OfNat.ofNat_ne_one, false_or] at hdvd ⊢
    omega
  | utf_32 =>
    simp only [char_size, encode_char, length_le32, reads_past_end, or_true, and_true, reduceCtorEq, false_and, or_false,
      OfNat.ofNat_ne_one, false_or] at hdvd ⊢
    omega
  | utf_16 =>
    simp only [char_size, encode_char, length_utf16Char, reads_past_end, OfNat.ofNat_ne_one, false_or, true_and,
      Option.some.injEq, exists_eq_left'] at hdvd ⊢
    by_cases hu : c.toNat < 0x10000
    · simp only [hu, if_true, or_true, and_true, Nat.not_le.mpr hu, and_false, or_false]
      omega
    · simp only [hu, if_false, or_false, Nat.le_of_not_lt hu, and_true]
      by_cases hm : errmode = .nocheck
      · simp only [hm, or_true, and_true, true_and]
        omega
      · simp only [hm, or_false, false_and]
        omega
  | latin1 => cases hr
  | invalid => cases hr

/-! ## The transcoding iterator -/

section
variable {data_encoding iter_encoding : string_encoding_t} (hd : recognized data_encoding = true)
  (hi : recognized iter_encoding = true) {errmode : assign_error_mode} {next_fn : CheckedDecoder} {append_fn : Encoder}
  (hnext : get_next_unicode_codepoint_function data_encoding errmode = .ok next_fn)
  (happend : get_append_unicode_codepoint_function iter_encoding errmode = .ok append_fn) (s : List Char)
  (hdata : ∀ c ∈ s, representable data_encoding c) (hiter : ∀ c ∈ s, Storable errmode iter_encoding c) (past : List UInt8)
  (buf : MallocPtr) (space : ℕ)

/-- The iterator that `make_string_iter` makes for the text `s`, at byte `o`. -/
def transcodeAt (data_encoding iter_encoding : string_encoding_t) (next_fn : CheckedDecoder) (append_fn : Encoder)
    (s : List Char) (past : List UInt8) (buf : MallocPtr) (space o : ℕ) : transcode_string_iter where
  data := encode data_encoding s
  past := past
  buf := buf
  space := space
  var_encoding := is_variable_length_string_encoding data_encoding
  index := o
  size := (encode data_encoding s).length / char_size data_encoding
  charsize := char_size iter_encoding
  buffer_end := buf.address + space
  next_fn := next_fn
  append_fn := append_fn

/-- Twice the address is behind the buffer's end. -/
theorem MallocPtr.end_behind (buf : MallocPtr) (space : ℕ) : space + 5 ≤ buf.address + space := by
  have h1 := buf.nonnull
  have h2 := Nat.le_of_dvd h1 buf.aligned
  omega

theorem size_le_length (encoding : string_encoding_t) (s : List Char) :
    (encode encoding s).length / char_size encoding ≤ (encode encoding s).length := Nat.div_le_self _ _

include hd in
theorem size_pos (hne : s ≠ []) : 0 < (encode data_encoding s).length / char_size data_encoding := by
  cases s with
  | nil => exact absurd rfl hne
  | cons c t =>
    have hlen := (encode_char_length hd c).1
    apply Nat.div_pos _ (char_size_pos hd)
    rw [encode_cons, List.length_append]
    omega

theorem size_le_memory (encoding : string_encoding_t) (s : List Char) (past : List UInt8) :
    (encode encoding s).length / char_size encoding ≤ (encode encoding s ++ past).length := by
  have hsize := size_le_length encoding s
  rw [List.length_append]
  omega

/-- At or behind `size` nothing is left. -/
theorem next_behind {o : ℕ} (ho : (encode data_encoding s).length / char_size data_encoding ≤ o) :
    (transcodeAt data_encoding iter_encoding next_fn append_fn s past buf space o).next =
      .ok (false, [], transcodeAt data_encoding iter_encoding next_fn append_fn s past buf space o) := by
  have hge : ¬ o < (encode data_encoding s).length / char_size data_encoding := by omega
  rw [transcode_string_iter.next]
  exact if_neg hge

include hd hi hnext happend hdata hiter

/-- From the start of a character whose text is read through and fits, one call transcodes the rest. -/
theorem next_reads (s₁ s₂ : List Char) (hs : s = s₁ ++ s₂)
    (ho : (encode data_encoding s₁).length < (encode data_encoding s).length / char_size data_encoding)
    (hread : ReadThrough data_encoding errmode ((encode data_encoding s).length / char_size data_encoding)
      (encode data_encoding s₁).length s₂)
    (hfit : (transcoded iter_encoding s).length ≤ space) :
    (transcodeAt data_encoding iter_encoding next_fn append_fn s past buf space (encode data_encoding s₁).length).next =
      .ok (true, transcoded iter_encoding s₂,
        transcodeAt data_encoding iter_encoding next_fn append_fn s past buf space (encode data_encoding s).length) := by
  have hmem : (encode data_encoding s ++ past).drop (encode data_encoding s₁).length = encode data_encoding s₂ ++ past := by
    rw [hs, encode_append, List.append_assoc]
    exact List.drop_left
  have hlen : (encode data_encoding s₁).length + (encode data_encoding s₂).length = (encode data_encoding s).length := by
    rw [hs, length_encode_append]
  have hfit₂ : (transcoded iter_encoding s₂).length ≤ space := by
    rw [hs, length_transcoded_append] at hfit
    omega
  have hsize := size_le_length data_encoding s
  have hfuel := length_le_encode hd s₂
  have hloop := buffer_loop_reads hnext happend hi (size_le_memory data_encoding s past) (buf.end_behind space) s₂
    (fun c hc => hdata c (by rw [hs]; exact List.mem_append_right _ hc))
    (fun c hc => hiter c (by rw [hs]; exact List.mem_append_right _ hc)) hmem (by omega) 0 []
    ((encode data_encoding s).length + 1) (by omega) hread (by rw [List.length_nil]; omega)
  rw [transcode_string_iter.next]
  simp only [transcodeAt, if_pos ho, hloop, List.nil_append, transcoded_whole hi, Nat.zero_add, hlen]

variable (hend : ReadToEnd data_encoding errmode s) (hfit : (transcoded iter_encoding s).length ≤ space)
include hend hfit

theorem seek_start (hne : s ≠ []) (o : ℕ) :
    (transcodeAt data_encoding iter_encoding next_fn append_fn s past buf space o).seek 0 =
      .ok (transcoded iter_encoding s,
        transcodeAt data_encoding iter_encoding next_fn append_fn s past buf space (encode data_encoding s).length) := by
  have hread := (readThrough_iff hd errmode hne).mpr hend
  have hstart := next_reads hd hi hnext happend s hdata hiter past buf space [] s rfl
    (size_pos hd s hne) hread hfit
  have hback : Prod.snd <$> (transcodeAt data_encoding iter_encoding next_fn append_fn s past buf space 0).next =
      .ok (transcoded iter_encoding s,
        transcodeAt data_encoding iter_encoding next_fn append_fn s past buf space (encode data_encoding s).length) :=
    congrArg (Functor.map Prod.snd) hstart
  rw [transcode_string_iter.seek]
  split_ifs
  · exact hback
  · rw [transcode_string_iter.seek_fixed_encoding, Nat.zero_mul]
    exact hback

/-- An element of a fixed size encoding other than the first: data of single bytes, or nothing is left. -/
theorem seek_element (hfixed : is_variable_length_string_encoding data_encoding = false) (o : ℕ) {i : ℕ} (h0 : i ≠ 0) :
    ∃ chunk o', (transcodeAt data_encoding iter_encoding next_fn append_fn s past buf space o).seek i =
        .ok (chunk, transcodeAt data_encoding iter_encoding next_fn append_fn s past buf space o') ∧
      (encode data_encoding s).length / char_size data_encoding ≤ o' := by
  have hseek : (transcodeAt data_encoding iter_encoding next_fn append_fn s past buf space o).seek i =
      Prod.snd <$> (transcodeAt data_encoding iter_encoding next_fn append_fn s past buf space (i * char_size iter_encoding)).next := by
    rw [transcode_string_iter.seek, transcode_string_iter.seek_fixed_encoding]
    exact if_neg (Bool.eq_false_iff.mp hfixed)
  have hpos : 0 < i * char_size iter_encoding := Nat.mul_pos (Nat.pos_of_ne_zero h0) (char_size_pos hi)
  by_cases hbehind : (encode data_encoding s).length / char_size data_encoding ≤ i * char_size iter_encoding
  · refine ⟨[], i * char_size iter_encoding, ?_, hbehind⟩
    rw [hseek, next_behind s past buf space hbehind]
    rfl
  · have hinside := Nat.lt_of_not_le hbehind
    -- a unit of more than a byte ends the text at once
    have hascii : data_encoding = .ascii := by
      rcases hend with hone | hone | ⟨rfl, _⟩
      · cases data_encoding <;> simp_all [char_size, is_variable_length_string_encoding, recognized]
      · omega
      · cases hfixed
    subst hascii
    have hlen : ∀ t : List Char, (encode .ascii t).length = t.length := by
      intro t
      simp [encode, encode_char, List.length_flatMap]
    have hsplit : s = s.take (i * char_size iter_encoding) ++ s.drop (i * char_size iter_encoding) := (List.take_append_drop _ s).symm
    have htake : (encode .ascii (s.take (i * char_size iter_encoding))).length = i * char_size iter_encoding := by
      rw [hlen, List.length_take]
      rw [hlen, char_size, Nat.div_one] at hinside
      omega
    have hread : ReadThrough .ascii errmode ((encode .ascii s).length / char_size .ascii)
        (encode .ascii (s.take (i * char_size iter_encoding))).length (s.drop (i * char_size iter_encoding)) := by
      apply readThrough_whole hd
      rw [← length_encode_append, ← hsplit, char_size, Nat.div_one]
    have hnext' := next_reads hd hi hnext happend s hdata hiter past buf space _ _ hsplit (by rw [htake]; exact hinside) hread hfit
    rw [htake] at hnext'
    refine ⟨transcoded iter_encoding (s.drop (i * char_size iter_encoding)), (encode .ascii s).length, ?_, size_le_length .ascii s⟩
    rw [hseek, hnext']
    rfl

/-- A text that is read through and fits is delivered. -/
theorem transcode_delivers (hne : s ≠ []) :
    (dim_iter.calls (.transcode (transcodeAt data_encoding iter_encoding next_fn append_fn s past buf space 0))).Delivers
      (.transcode (transcodeAt data_encoding iter_encoding next_fn append_fn s past buf space 0)) (transcoded iter_encoding s) := by
  have hread := (readThrough_iff hd errmode hne).mpr hend
  have hpos := size_pos hd s hne
  have hsize := size_le_length data_encoding s
  have hstart := next_reads hd hi hnext happend s hdata hiter past buf space [] s rfl hpos hread hfit
  -- the byte the iterator is at starts a character of a text read through, or nothing is left
  apply ChunkIterator.delivers_of_invariant (fun x d => ∃ o,
    x = .transcode (transcodeAt data_encoding iter_encoding next_fn append_fn s past buf space o) ∧
    ((o = 0 ∧ d = some []) ∨ ((encode data_encoding s).length / char_size data_encoding ≤ o ∧
      ∀ d', d = some d' → d' = transcoded iter_encoding s)))
  · exact ⟨0, rfl, .inl ⟨rfl, rfl⟩⟩
  · rintro x d ⟨o, rfl, ⟨rfl, rfl⟩ | ⟨ho, htext⟩⟩
    · refine ⟨true, transcoded iter_encoding s, _, ?_, ⟨_, rfl, .inr ⟨hsize, ?_⟩⟩, ?_⟩
      · exact congrArg Except.toOption (congrArg (Functor.map _) hstart)
      · rintro d' h
        exact (Option.some.inj h).symm
      · rintro d' h
        obtain rfl := Option.some.inj h
        rfl
    · refine ⟨false, [], _, ?_, ⟨o, rfl, .inr ⟨ho, ?_⟩⟩, ?_⟩
      · exact congrArg Except.toOption (congrArg (Functor.map _) (next_behind s past buf space ho))
      · rintro d' h
        obtain ⟨d₀, h0, rfl⟩ := Option.map_eq_some_iff.mp h
        rw [htext d₀ h0, List.append_nil]
      · rintro d' h
        rw [htext d' h, List.append_nil]
  · rintro x d i ⟨o, rfl, _⟩ hseek
    by_cases h0 : i = 0
    · subst h0
      have hback := seek_start hd hi hnext happend s hdata hiter past buf space hend hfit hne o
      refine ⟨transcoded iter_encoding s, _, ?_, ⟨_, rfl, .inr ⟨hsize, ?_⟩⟩⟩
      · exact congrArg Except.toOption (congrArg (Functor.map _) hback)
      · rintro d' h
        exact (Option.some.inj h).symm
    · have hflag : (!is_variable_length_string_encoding data_encoding) = true := hseek.resolve_left h0
      have hfixed : is_variable_length_string_encoding data_encoding = false := by simpa using hflag
      obtain ⟨chunk, o', hmoved, ho'⟩ :=
        seek_element hd hi hnext happend s hdata hiter past buf space hend hfit hfixed o h0
      refine ⟨chunk, _, ?_, ⟨o', rfl, .inr ⟨ho', ?_⟩⟩⟩
      · exact congrArg Except.toOption (congrArg (Functor.map _) hmoved)
      · rintro d' h
        rw [if_neg h0] at h
        cases h
  · rintro x d ⟨o, rfl, ⟨_, hd'⟩ | ⟨_, htext⟩⟩
    · obtain rfl := Option.some.inj hd'
      exact List.nil_prefix
    · rw [htext d rfl]

omit hend hfit

/-- Any other text is not: the first call fails, or stops for good behind a beginning of it. -/
theorem transcode_not_delivers (hne : s ≠ [])
    (hbad : ¬ (ReadToEnd data_encoding errmode s ∧ (transcoded iter_encoding s).length ≤ space)) :
    ¬ (dim_iter.calls (.transcode (transcodeAt data_encoding iter_encoding next_fn append_fn s past buf space 0))).Delivers
      (.transcode (transcodeAt data_encoding iter_encoding next_fn append_fn s past buf space 0)) (transcoded iter_encoding s) := by
  have hpos := size_pos hd s hne
  have hsize := size_le_length data_encoding s
  have hfuel := length_le_encode hd s
  have hwide : 1 < char_size data_encoding ∨
      0 + (encode data_encoding s).length ≤ (encode data_encoding s).length / char_size data_encoding := by
    have hunit := char_size_pos hd
    by_cases h1 : char_size data_encoding = 1
    · rw [h1, Nat.div_one]
      omega
    · exact .inl (by omega)
  have hbad' : ¬ (ReadThrough data_encoding errmode ((encode data_encoding s).length / char_size data_encoding) 0 s ∧
      ([] : List UInt8).length + (transcoded iter_encoding s).length ≤ space) := by
    rw [readThrough_iff hd errmode hne, List.length_nil, Nat.zero_add]
    exact hbad
  have hmem : (encode data_encoding s ++ past).drop 0 = encode data_encoding s ++ past := List.drop_zero
  rcases buffer_loop_stops hnext happend hi (size_le_memory data_encoding s past) (buf.end_behind space) s hdata hiter
    hmem (by omega) 0 [] ((encode data_encoding s).length + 1) (by omega) hwide (Nat.zero_le _) hbad'
    with ⟨e, h⟩ | h | ⟨s₁, s₂, hs, hne₂, hstop, h⟩
  · have hcall : (transcodeAt data_encoding iter_encoding next_fn append_fn s past buf space 0).next = .error (.threw e) := by
      rw [transcode_string_iter.next]
      simp only [transcodeAt, if_pos hpos, h]
    apply ChunkIterator.not_delivers_of_fails
    exact congrArg Except.toOption (congrArg (Functor.map _) hcall)
  · have hcall : (transcodeAt data_encoding iter_encoding next_fn append_fn s past buf space 0).next = .error .overrun := by
      rw [transcode_string_iter.next]
      simp only [transcodeAt, if_pos hpos, h]
    apply ChunkIterator.not_delivers_of_fails
    exact congrArg Except.toOption (congrArg (Functor.map _) hcall)
  · have hcall : (transcodeAt data_encoding iter_encoding next_fn append_fn s past buf space 0).next =
        .ok (true, transcoded iter_encoding s₁,
          transcodeAt data_encoding iter_encoding next_fn append_fn s past buf space (encode data_encoding s₁).length) := by
      rw [transcode_string_iter.next]
      simp only [transcodeAt, if_pos hpos, h, List.nil_append, transcoded_whole hi, Nat.zero_add]
    rw [Nat.zero_add] at hstop
    refine ChunkIterator.not_delivers_of_ends (congrArg Except.toOption (congrArg (Functor.map _) hcall))
      (congrArg Except.toOption (congrArg (Functor.map _) (next_behind s past buf space hstop))) ?_
    intro heq
    have hlen : (transcoded iter_encoding s).length = (transcoded iter_encoding s₁).length + (transcoded iter_encoding s₂).length := by
      rw [hs, length_transcoded_append]
    have hmore : s₂.length ≤ (transcoded iter_encoding s₂).length := by
      simpa [transcoded] using length_le_encode hi (s₂.map (substituted iter_encoding))
    have hpos₂ := List.length_pos_iff.mpr hne₂
    have hsame := congrArg List.length heq
    omega

end

/-! ## Making an iterator -/

section
variable {data_encoding iter_encoding : string_encoding_t} (hd : recognized data_encoding = true)
  (hi : recognized iter_encoding = true) (errmode : assign_error_mode) (s : List Char)
  (hdata : ∀ c ∈ s, representable data_encoding c) (hiter : ∀ c ∈ s, Storable errmode iter_encoding c) (past : List UInt8)
include hd hi hdata hiter

theorem copy_string_text : copy_string iter_encoding data_encoding ⟨encode data_encoding s, past⟩ errmode =
    .ok (transcoded iter_encoding s) := by
  obtain ⟨next_fn, hnext⟩ := recognized_next hd errmode
  obtain ⟨append_fn, happend⟩ := recognized_append hi errmode
  have hfuel := length_le_encode hd s
  obtain ⟨b, hloop, hwritten⟩ := assign_loop_encode happend hnext hd hi s hdata hiter past _
    (initial_ok ⟨iter_encoding, data_encoding, next_fn, append_fn, false⟩ hi ⟨encode data_encoding s, past⟩)
    ((encode data_encoding s).length + 1) (by omega)
  rw [List.nil_append] at hwritten
  have hmake : make_blockref_string_assignment_kernel iter_encoding data_encoding false errmode =
      .ok ⟨iter_encoding, data_encoding, next_fn, append_fn, false⟩ := by
    rw [make_blockref_string_assignment_kernel, hnext, happend]
    rfl
  rw [copy_string, hmake]
  simp only [Except.mapError, ok_bind, blockref_string_assign_ck.single, Bool.not_false, if_true, hloop,
    OutBuffer.resize, hwritten, List.take_length, Option.getD_some]

end

/-- A strided iterator over whole units delivers them. -/
theorem make_strided_string_iter_delivers {encoding : string_encoding_t} {data : List UInt8} (hdvd : char_size encoding ∣ data.length) :
    (make_strided_string_iter encoding data).calls.Delivers (make_strided_string_iter encoding data) data := by
  have hlen : data.length / char_size encoding * char_size encoding = data.length := Nat.div_mul_cancel hdvd
  rw [make_strided_string_iter]
  split_ifs with h0
  · have hnil : data = [] := by
      rw [h0, Nat.zero_mul] at hlen
      exact List.length_eq_zero_iff.mp hlen.symm
    subst hnil
    exact strided_delivers none 0 0 rfl
  · exact strided_delivers (some data) _ _ hlen.symm

/-- When the iterator hands out the text: no text at all, one encoding, a copy that fits the buffer, or a
transcoding that fits it and whose units are single bytes or end at once. -/
def HandsOut (iter_encoding data_encoding : string_encoding_t) (errmode : assign_error_mode) (s : List Char) (buffer_max_mem : ℕ) :
    Prop :=
  iter_encoding ≠ .invalid ∧ (s = [] ∨ iter_encoding = data_encoding ∨ recognized iter_encoding = true ∧
    ((is_variable_length_string_encoding iter_encoding = false ∧
        (encode data_encoding s).length / char_size data_encoding ≤ buffer_max_mem / char_size iter_encoding) ∨
      (ReadToEnd data_encoding errmode s ∧
        (transcoded iter_encoding s).length ≤ buffer_max_mem / char_size iter_encoding * char_size iter_encoding)))

/-- The iterator over a text delivers its encoding, and stays inside its buffer, exactly then. -/
theorem string_iter_delivers_iff {data_encoding : string_encoding_t} (hd : recognized data_encoding = true)
    (iter_encoding : string_encoding_t) (errmode : assign_error_mode) (s : List Char)
    (hdata : ∀ c ∈ s, representable data_encoding c) (hiter : ∀ c ∈ s, Storable errmode iter_encoding c) (past : List UInt8)
    (buffer_max_mem : ℕ) (buf : MallocPtr) :
    (∃ it, make_string_iter iter_encoding data_encoding ⟨encode data_encoding s, past⟩ buffer_max_mem buf errmode = .ok it ∧
      it.calls.Delivers it (transcoded iter_encoding s)) ↔
    HandsOut iter_encoding data_encoding errmode s buffer_max_mem := by
  have hunit := Nat.ne_of_gt (char_size_pos hd)
  by_cases hinvalid : iter_encoding = .invalid
  · simp [make_string_iter, hinvalid, HandsOut, throw_eq_error, error_bind]
  by_cases hne : s = []
  · subst hne
    have hempty : (stridedAt none 0 0 none).calls.Delivers (stridedAt none 0 0 none) [] := strided_delivers none 0 0 rfl
    have hmake : make_string_iter iter_encoding data_encoding ⟨encode data_encoding [], past⟩ buffer_max_mem buf errmode =
        .ok (stridedAt none 0 0 none) := by
      simp [make_string_iter, hinvalid, hunit, encode, make_empty_dim_iter, stridedAt]
    exact iff_of_true ⟨_, hmake, hempty⟩ ⟨hinvalid, .inl rfl⟩
  have hpos := Nat.ne_of_gt (size_pos hd s hne)
  by_cases hsame : iter_encoding = data_encoding
  · subst hsame
    have hdvd := Nat.div_mul_cancel (char_size_dvd iter_encoding hd s)
    have hmake : make_string_iter iter_encoding iter_encoding ⟨encode iter_encoding s, past⟩ buffer_max_mem buf errmode =
        .ok (stridedAt (some (encode iter_encoding s)) ((encode iter_encoding s).length / char_size iter_encoding)
          (char_size iter_encoding) none) := by
      simp [make_string_iter, hinvalid, hunit, hpos, stridedAt]
    refine iff_of_true ⟨_, hmake, ?_⟩ ⟨hinvalid, .inr (.inl rfl)⟩
    rw [transcoded_of_representable hdata]
    exact strided_delivers (some (encode iter_encoding s)) _ _ hdvd.symm
  by_cases hi : recognized iter_encoding = true
  · have hsize := Nat.ne_of_gt (char_size_pos hi)
    by_cases hcopy : is_variable_length_string_encoding iter_encoding = false ∧
        (encode data_encoding s).length / char_size data_encoding ≤ buffer_max_mem / char_size iter_encoding
    · have hmake : make_string_iter iter_encoding data_encoding ⟨encode data_encoding s, past⟩ buffer_max_mem buf errmode =
          .ok (make_strided_string_iter iter_encoding (transcoded iter_encoding s)) := by
        simp [make_string_iter, hinvalid, hunit, hpos, hsame, hsize, hcopy, copy_string_text hd hi errmode s hdata hiter past]
      exact iff_of_true ⟨_, hmake, make_strided_string_iter_delivers (char_size_dvd iter_encoding hi _)⟩
        ⟨hinvalid, .inr (.inr ⟨hi, .inl hcopy⟩)⟩
    · obtain ⟨next_fn, hnext⟩ := recognized_next hd errmode
      obtain ⟨append_fn, happend⟩ := recognized_append hi errmode
      have hmake : make_string_iter iter_encoding data_encoding ⟨encode data_encoding s, past⟩ buffer_max_mem buf errmode =
          .ok (.transcode (transcodeAt data_encoding iter_encoding next_fn append_fn s past buf
            (buffer_max_mem / char_size iter_encoding * char_size iter_encoding) 0)) := by
        have hcopy' : (!is_variable_length_string_encoding iter_encoding &&
            decide ((encode data_encoding s).length / char_size data_encoding ≤ buffer_max_mem / char_size iter_encoding)) = false := by
          simpa using hcopy
        simp only [make_string_iter, hinvalid, hunit, hpos, hsame, hsize, hcopy', hnext, happend, if_false, pure_eq_ok,
          ok_bind, Except.mapError, Bool.false_eq_true]
        rfl
      constructor
      · rintro ⟨it, hit, hdel⟩
        obtain rfl := Except.ok.inj (hit.symm.trans hmake)
        refine ⟨hinvalid, .inr (.inr ⟨hi, .inr ?_⟩)⟩
        by_contra hbad
        exact transcode_not_delivers hd hi hnext happend s hdata hiter past buf _ hne hbad hdel
      · rintro ⟨_, hnil | hsame' | ⟨_, hcopy' | ⟨hend, hfit⟩⟩⟩
        · exact absurd hnil hne
        · exact absurd hsame' hsame
        · exact absurd hcopy' hcopy
        · exact ⟨_, hmake, transcode_delivers hd hi hnext happend s hdata hiter past buf _ hend hfit hne⟩
  · have hzero : char_size iter_encoding = 0 := by
      cases iter_encoding <;> first | rfl | exact absurd rfl hi
    simp [make_string_iter, hinvalid, hunit, hpos, hsame, hzero, hne, hi, HandsOut]

/-- `A` and a character outside the first plane, from UTF-8 to UTF-16. -/
theorem string_iter_delivers_iff_pair :
    ∃ it, make_string_iter .utf_16 .utf_8 ⟨[0x41, 0xf0, 0x9f, 0x98, 0x80], []⟩ 64 ⟨16, by decide, by decide⟩ .fractional = .ok it ∧
      it.calls.Delivers it [0x41, 0x00, 0x3d, 0xd8, 0x00, 0xde] := by
  have hsrc : encode .utf_8 ['A', '😀'] = [0x41, 0xf0, 0x9f, 0x98, 0x80] := by decide
  have hdst : transcoded .utf_16 ['A', '😀'] = [0x41, 0x00, 0x3d, 0xd8, 0x00, 0xde] := by decide
  have hgood : HandsOut .utf_16 .utf_8 .fractional ['A', '😀'] 64 := by
    refine ⟨by decide, .inr (.inr ⟨rfl, .inr ⟨.inl rfl, ?_⟩⟩)⟩
    rw [hdst]
    decide
  have hiff := @string_iter_delivers_iff .utf_8 rfl .utf_16 .fractional ['A', '😀'] (fun _ _ => trivial)
    (fun _ _ => .inr trivial) [] 64 ⟨16, by decide, by decide⟩
  rw [hsrc, hdst] at hiff
  exact hiff.mpr hgood

/-- Of two characters in UCS-2 only the first arrives. -/
theorem ucs2_cut_short : ¬ ∀ iter_encoding data_encoding errmode s past buffer_max_mem buf, iter_encoding ≠ .invalid →
    (∀ c ∈ s, representable data_encoding c) → (∀ c ∈ s, representable iter_encoding c) →
      ∃ it, make_string_iter iter_encoding data_encoding ⟨encode data_encoding s, past⟩ buffer_max_mem buf errmode = .ok it ∧
        it.calls.Delivers it (encode iter_encoding s) := by
  intro h
  obtain ⟨it, hit, hdel⟩ := h .utf_8 .ucs_2 .fractional ['A', 'B'] [] 64 ⟨16, by decide, by decide⟩ (by decide)
    (by simp [representable]) (by simp [representable])
  have hmake : ∃ it, make_string_iter .utf_8 .ucs_2 ⟨encode .ucs_2 ['A', 'B'], []⟩ 64 ⟨16, by decide, by decide⟩ .fractional =
      .ok it ∧ ∃ it', it.calls.next it = some (true, [0x41], it') ∧ it.calls.next it' = some (false, [], it') :=
    ⟨_, rfl, _, rfl, rfl⟩
  obtain ⟨it₀, h0, it', hfirst, hlater⟩ := hmake
  obtain rfl := Except.ok.inj (hit.symm.trans h0)
  exact ChunkIterator.not_delivers_of_ends hfirst hlater (by decide) hdel

end Dynd.Transcode
