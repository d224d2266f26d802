import Dynd.CodePoints
/-!
# Assigning a string to a string

`blockref_string_assign_ck`: the code points of the source go one by one into
memory of the destination's memory block, which is made larger on the way and
cut to what was written in the end.
-/
namespace Dynd.Transcode
open StringEncodings Parse

/-! ## The kernel -/

/-- The memory handed out for the destination: what is written from `dst_begin` to `dst_current`, and
the number of bytes to `dst_end`. -/
structure OutBuffer where
  written : List UInt8
  capacity : ℕ
deriving DecidableEq, Repr

namespace OutBuffer

/-- The allocator's `resize`, which keeps the bytes that fit. -/
def resize (b : OutBuffer) (size_bytes : ℕ) : OutBuffer := ⟨b.written.take size_bytes, size_bytes⟩

/-- `if (dst_end - dst_current >= 8)`, and the `resize` where it is not. -/
def ensure_room (b : OutBuffer) : OutBuffer :=
  if b.capacity - b.written.length ≥ 8 then b else b.resize (2 * b.capacity)

def room (b : OutBuffer) : ℕ := b.capacity - b.written.length

def append (b : OutBuffer) (bytes : List UInt8) : OutBuffer := { b with written := b.written ++ bytes }

end OutBuffer

inductive Converted where
  | done (b : OutBuffer)
  | threw (e : TranscodeError)
  | overrun
deriving DecidableEq, Repr

/-- `while (src_begin < src_end)`, for at most `fuel` rounds. -/
def assign_loop (next_fn : CheckedDecoder) (append_fn : Encoder) : ℕ → CharRange → OutBuffer → Option Converted
  | 0, _, _ => none
  | fuel + 1, src, b =>
    if src.bytes = [] then some (.done b)
    else
      let b := b.ensure_room
      match convert_next next_fn append_fn src b.room b.room with
      | .threw e => some (.threw e)
      | .overrun => some .overrun
      | .stored moved bytes => assign_loop next_fn append_fn fuel (src.advance moved) (b.append bytes)

structure blockref_string_assign_ck where
  dst_encoding : string_encoding_t
  src_encoding : string_encoding_t
  next_fn : CheckedDecoder
  append_fn : Encoder
  /-- `m_dst_arrmeta->blockref == m_src_arrmeta->blockref` -/
  same_blockref : Bool

def make_blockref_string_assignment_kernel (dst_encoding src_encoding : string_encoding_t) (same_blockref : Bool)
    (errmode : assign_error_mode) : Except TranscodeError blockref_string_assign_ck := do
  let next_fn ← get_next_unicode_codepoint_function src_encoding errmode
  let append_fn ← get_append_unicode_codepoint_function dst_encoding errmode
  return ⟨dst_encoding, src_encoding, next_fn, append_fn, same_blockref⟩

/-- The destination after the call, `none` for a string that has `begin == NULL`. -/
inductive Assigned where
  | done (dst : Option (List UInt8))
  | threw (e : TranscodeError)
  | overrun
deriving DecidableEq, Repr

namespace blockref_string_assign_ck

/-- The bytes allocated first. No string in memory is so long that this leaves `intptr_t`. -/
def initial_size (ck : blockref_string_assign_ck) (src : CharRange) : ℕ :=
  (src.bytes.length / char_size ck.src_encoding + 16) * char_size ck.dst_encoding * 1124 / 1024

def single (ck : blockref_string_assign_ck) (dst : Option (List UInt8)) (src : Option CharRange) (fuel : ℕ) :
    Option Assigned :=
  match dst, src with
  | some _, _ => some (.threw (.runtime_error "Cannot assign to an already initialized dynd string"))
  | none, none => some (.done none)
  | none, some src =>
    if !ck.same_blockref then
      match assign_loop ck.next_fn ck.append_fn fuel src ⟨[], ck.initial_size src⟩ with
      | none => none
      | some (.threw e) => some (.threw e)
      | some .overrun => some .overrun
      | some (.done b) => some (.done (some (b.resize b.written.length).written))
    else if ck.dst_encoding = ck.src_encoding then some (.done (some src.bytes))
    else some (.threw (.runtime_error "Attempted to reference source data when changing string encoding"))

end blockref_string_assign_ck

/-! ## The loop -/

/-- What every round finds: no more written than handed out, and never less than eight bytes handed out. -/
structure OutBuffer.Ok (b : OutBuffer) : Prop where
  inside : b.written.length ≤ b.capacity
  large : 8 ≤ b.capacity

namespace OutBuffer
variable {b : OutBuffer}

theorem Ok.ensure_room (h : b.Ok) : b.ensure_room.Ok ∧ 8 ≤ b.ensure_room.room ∧ b.ensure_room.written = b.written := by
  have h1 := h.inside
  have h2 := h.large
  unfold OutBuffer.ensure_room
  split_ifs with hroom
  · exact ⟨h, hroom, rfl⟩
  · have htake : b.written.take (2 * b.capacity) = b.written := List.take_of_length_le (by omega)
    refine ⟨⟨?_, ?_⟩, ?_, htake⟩
    · simp only [resize, htake]
      omega
    · simp only [resize]
      omega
    · simp only [room, resize, htake]
      omega

theorem Ok.append (h : b.Ok) {bytes : List UInt8} (hb : bytes.length ≤ b.room) : (b.append bytes).Ok := by
  have h1 := h.inside
  unfold OutBuffer.room at hb
  refine ⟨?_, h.large⟩
  simp only [OutBuffer.append, List.length_append]
  omega

end OutBuffer

section
variable {dst_encoding src_encoding : string_encoding_t} {errmode : assign_error_mode} {next_fn : CheckedDecoder}
  {append_fn : Encoder} (happend : get_append_unicode_codepoint_function dst_encoding errmode = .ok append_fn)
include happend

/-- No round stores beyond the memory handed out, whatever the source is. -/
theorem assign_loop_inside (fuel : ℕ) (src : CharRange) (b : OutBuffer) (hb : b.Ok) :
    assign_loop next_fn append_fn fuel src b ≠ some .overrun := by
  induction fuel generalizing src b with
  | zero => simp [assign_loop]
  | succ fuel ih =>
    obtain ⟨hok, hroom, _⟩ := hb.ensure_room
    have hin : convert_next next_fn append_fn src b.ensure_room.room b.ensure_room.room ≠ .overrun :=
      convert_next_inside happend (by omega) src
    rw [assign_loop]
    split_ifs
    · simp
    · dsimp only
      split
      · simp
      · rename_i hover
        exact absurd hover hin
      · rename_i moved bytes hstored
        apply ih
        apply hok.append
        exact convert_next_stored_le hstored

variable (hnext : get_next_unicode_codepoint_function src_encoding errmode = .ok next_fn)
include hnext

/-- One round reads one character, and leaves what comes after it. -/
theorem assign_loop_cons (hs : recognized src_encoding = true) (hd : recognized dst_encoding = true) {c : Char} {s : List Char}
    (hsrc : representable src_encoding c) (hdst : Storable errmode dst_encoding c) (past : List UInt8) {b : OutBuffer} (hb : b.Ok)
    (fuel : ℕ) :
    assign_loop next_fn append_fn (fuel + 1) ⟨encode src_encoding (c :: s), past⟩ b =
      assign_loop next_fn append_fn fuel ⟨encode src_encoding s, past⟩
        (b.ensure_room.append (encode_char dst_encoding (substituted dst_encoding c))) := by
  obtain ⟨_, hroom, _⟩ := hb.ensure_room
  have hne : encode src_encoding (c :: s) ≠ [] := by
    rw [encode_cons]
    exact List.append_ne_nil_of_left_ne_nil (encode_char_ne_nil hs c) _
  have hlen := (encode_char_length hd (substituted dst_encoding c)).2
  have hread : next_fn ⟨encode src_encoding (c :: s), past⟩ = .ok (c.val, (encode_char src_encoding c).length) :=
    next_fn_char hnext hsrc (encode_cons src_encoding c s)
  have hround : convert_next next_fn append_fn ⟨encode src_encoding (c :: s), past⟩ b.ensure_room.room b.ensure_room.room =
      .stored (encode_char src_encoding c).length (encode_char dst_encoding (substituted dst_encoding c)) := by
    rw [convert_next_storable happend hd hread hdst (by omega), if_pos (by omega)]
  rw [assign_loop, if_neg hne]
  simp only [hround]
  rw [CharRange.advance, encode_cons, List.drop_left]

/-- The encoding of a text becomes its encoding for the destination. -/
theorem assign_loop_encode (hs : recognized src_encoding = true) (hd : recognized dst_encoding = true) (s : List Char)
    (hsrc : ∀ c ∈ s, representable src_encoding c) (hdst : ∀ c ∈ s, Storable errmode dst_encoding c) (past : List UInt8)
    (b : OutBuffer) (hb : b.Ok) (fuel : ℕ) (hfuel : s.length < fuel) :
    ∃ b', assign_loop next_fn append_fn fuel ⟨encode src_encoding s, past⟩ b = some (.done b') ∧
      b'.written = b.written ++ transcoded dst_encoding s := by
  induction s generalizing b fuel with
  | nil =>
    obtain ⟨fuel, rfl⟩ := Nat.exists_eq_succ_of_ne_zero (Nat.ne_of_gt hfuel)
    exact ⟨b, rfl, (List.append_nil _).symm⟩
  | cons c s ih =>
    obtain ⟨fuel, rfl⟩ := Nat.exists_eq_succ_of_ne_zero (Nat.ne_of_gt (Nat.zero_lt_of_lt hfuel))
    obtain ⟨hok, hroom, hsame⟩ := hb.ensure_room
    rw [List.forall_mem_cons] at hsrc hdst
    have hlen := (encode_char_length hd (substituted dst_encoding c)).2
    have happ : (b.ensure_room.append (encode_char dst_encoding (substituted dst_encoding c))).Ok := hok.append (by omega)
    obtain ⟨b', hloop, hwritten⟩ := ih hsrc.2 hdst.2 _ happ fuel (Nat.lt_of_succ_lt_succ hfuel)
    refine ⟨b', ?_, ?_⟩
    · rw [assign_loop_cons happend hnext hs hd hsrc.1 hdst.1 past hb]
      exact hloop
    · rw [hwritten, transcoded_cons, ← List.append_assoc]
      simp only [OutBuffer.append, hsame]

/-- A text with a character the destination does not have is refused. -/
theorem assign_loop_refuses (hmode : errmode ≠ .nocheck) (hs : recognized src_encoding = true)
    (hd : recognized dst_encoding = true) (s : List Char) (hsrc : ∀ c ∈ s, representable src_encoding c)
    (hdst : ∃ c ∈ s, ¬ representable dst_encoding c) (past : List UInt8) (b : OutBuffer) (hb : b.Ok) (fuel : ℕ)
    (hfuel : s.length < fuel) :
    ∃ c ∈ s, assign_loop next_fn append_fn fuel ⟨encode src_encoding s, past⟩ b =
      some (.threw (.string_encode_error c.val dst_encoding)) := by
  induction s generalizing b fuel with
  | nil => simp at hdst
  | cons c s ih =>
    obtain ⟨fuel, rfl⟩ := Nat.exists_eq_succ_of_ne_zero (Nat.ne_of_gt (Nat.zero_lt_of_lt hfuel))
    obtain ⟨hok, hroom, hsame⟩ := hb.ensure_room
    rw [List.forall_mem_cons] at hsrc
    by_cases hc : representable dst_encoding c
    · have hrest : ∃ c ∈ s, ¬ representable dst_encoding c := by simpa [hc] using hdst
      have hlen := (encode_char_length hd (substituted dst_encoding c)).2
      have happ : (b.ensure_room.append (encode_char dst_encoding (substituted dst_encoding c))).Ok := hok.append (by omega)
      obtain ⟨c', hc', hloop⟩ := ih hsrc.2 hrest _ happ fuel (Nat.lt_of_succ_lt_succ hfuel)
      refine ⟨c', List.mem_cons_of_mem _ hc', ?_⟩
      rw [assign_loop_cons happend hnext hs hd hsrc.1 (.inr hc) past hb]
      exact hloop
    · refine ⟨c, List.mem_cons_self, ?_⟩
      have hne : encode src_encoding (c :: s) ≠ [] := by
        rw [encode_cons]
        exact List.append_ne_nil_of_left_ne_nil (encode_char_ne_nil hs c) _
      have hround : convert_next next_fn append_fn ⟨encode src_encoding (c :: s), past⟩ b.ensure_room.room b.ensure_room.room =
          .threw (.string_encode_error c.val dst_encoding) :=
        convert_next_not_representable hnext happend hmode hsrc.1 hc (encode_cons src_encoding c s) _ _
      rw [assign_loop, if_neg hne]
      simp only [hround]

end

/-! ## The kernel -/

/-- The padding makes the first allocation large enough for any round. -/
theorem initial_ok (ck : blockref_string_assign_ck) (hd : recognized ck.dst_encoding = true) (src : CharRange) :
    (⟨[], ck.initial_size src⟩ : OutBuffer).Ok := by
  refine ⟨Nat.zero_le _, ?_⟩
  have hpos := char_size_pos hd
  have hprod : 16 ≤ (src.bytes.length / char_size ck.src_encoding + 16) * char_size ck.dst_encoding :=
    le_trans (Nat.le_add_left 16 _) (Nat.le_mul_of_pos_right _ hpos)
  simp only [blockref_string_assign_ck.initial_size]
  omega

/-- In a mode that checks, the kernel between the encodings of string types turns the encoding of a
text into its other encoding, refuses a text the destination does not have, and stores nothing beyond
the memory handed out, whatever the source is. Two encodings with one memory block are refused, and
there is no kernel for the other encodings. -/
theorem blockref_string_assign_transcodes (dst_encoding src_encoding : string_encoding_t) (errmode : assign_error_mode)
    (hmode : errmode ≠ .nocheck) (same_blockref : Bool) :
    (recognized dst_encoding = true → recognized src_encoding = true →
      ∃ ck, make_blockref_string_assignment_kernel dst_encoding src_encoding same_blockref errmode = .ok ck ∧
        (∀ s past fuel, (∀ c ∈ s, representable src_encoding c) → (encode src_encoding s).length < fuel →
          (same_blockref = true → dst_encoding = src_encoding) →
          ((∀ c ∈ s, representable dst_encoding c) →
            ck.single none (some ⟨encode src_encoding s, past⟩) fuel = some (.done (some (encode dst_encoding s)))) ∧
          ((∃ c ∈ s, ¬ representable dst_encoding c) →
            ∃ e, ck.single none (some ⟨encode src_encoding s, past⟩) fuel = some (.threw e))) ∧
        (same_blockref = true → dst_encoding ≠ src_encoding →
          ∀ src fuel, ∃ e, ck.single none (some src) fuel = some (.threw e)) ∧
        ∀ dst src fuel, ck.single dst src fuel ≠ some .overrun) ∧
    (¬ (recognized dst_encoding = true ∧ recognized src_encoding = true) →
      ∃ e, make_blockref_string_assignment_kernel dst_encoding src_encoding same_blockref errmode = .error e) := by
  constructor
  · intro hd hs
    obtain ⟨next_fn, hnext⟩ := recognized_next hs errmode
    obtain ⟨append_fn, happend⟩ := recognized_append hd errmode
    refine ⟨⟨dst_encoding, src_encoding, next_fn, append_fn, same_blockref⟩, ?_, ?_, ?_, ?_⟩
    · rw [make_blockref_string_assignment_kernel, hnext, happend]
      rfl
    · intro s past fuel hsrc hfuel hblock
      have hlen : s.length < fuel := lt_of_le_of_lt (length_le_encode hs s) hfuel
      cases same_blockref with
      | true =>
        obtain rfl := hblock rfl
        constructor
        · intro _
          simp [blockref_string_assign_ck.single]
        · rintro ⟨c, hc, hrep⟩
          exact absurd (hsrc c hc) hrep
      | false =>
        have hok := initial_ok ⟨dst_encoding, src_encoding, next_fn, append_fn, false⟩ hd ⟨encode src_encoding s, past⟩
        constructor
        · intro hdst
          obtain ⟨b, hloop, hwritten⟩ :=
            assign_loop_encode happend hnext hs hd s hsrc (fun c hc => .inr (hdst c hc)) past _ hok fuel hlen
          rw [List.nil_append, transcoded_of_representable hdst] at hwritten
          simp only [blockref_string_assign_ck.single, Bool.not_false, if_true, hloop, OutBuffer.resize, hwritten,
            List.take_length]
        · intro hdst
          obtain ⟨c, _, hloop⟩ := assign_loop_refuses happend hnext hmode hs hd s hsrc hdst past _ hok fuel hlen
          refine ⟨.string_encode_error c.val dst_encoding, ?_⟩
          simp only [blockref_string_assign_ck.single, Bool.not_false, if_true, hloop]
    · rintro rfl hne src fuel
      refine ⟨.runtime_error "Attempted to reference source data when changing string encoding", ?_⟩
      simp only [blockref_string_assign_ck.single, Bool.not_true, Bool.false_eq_true, if_false, if_neg hne]
    · intro dst src fuel
      unfold blockref_string_assign_ck.single
      split
      · simp
      · simp
      · rename_i src
        have hok := initial_ok ⟨dst_encoding, src_encoding, next_fn, append_fn, same_blockref⟩ hd src
        have hin : assign_loop next_fn append_fn fuel src _ ≠ some .overrun := assign_loop_inside happend fuel src _ hok
        split_ifs
        · split
          · simp
          · simp
          · rename_i hover
            exact absurd hover hin
          · simp
        · simp
        · simp
  · intro hrec
    cases src_encoding <;> cases dst_encoding <;> first | exact ⟨_, rfl⟩ | exact absurd ⟨rfl, rfl⟩ hrec

/-- `A` and a character outside the first plane, from UTF-8 to UTF-16. -/
theorem blockref_string_assign_transcodes_pair :
    ∃ ck, make_blockref_string_assignment_kernel .utf_16 .utf_8 false .fractional = .ok ck ∧
      ck.single none (some ⟨[0x41, 0xf0, 0x9f, 0x98, 0x80], []⟩) 6 = some (.done (some [0x41, 0x00, 0x3d, 0xd8, 0x00, 0xde])) := by
  obtain ⟨ck, hck, htext, _⟩ :=
    (blockref_string_assign_transcodes .utf_16 .utf_8 .fractional (by decide) false).1 rfl rfl
  refine ⟨ck, hck, ?_⟩
  have hsrc : encode .utf_8 ['A', '😀'] = [0x41, 0xf0, 0x9f, 0x98, 0x80] := by decide
  have hdst : encode .utf_16 ['A', '😀'] = [0x41, 0x00, 0x3d, 0xd8, 0x00, 0xde] := by decide
  rw [← hsrc, ← hdst]
  exact (htext ['A', '😀'] [] 6 (fun _ _ => trivial) (by rw [hsrc]; decide) (fun h => absurd h (by decide))).1
    (fun _ _ => trivial)

/-- There is no kernel that reads Latin-1, not even for the empty text. -/
theorem latin1_not_assigned : ¬ ∀ dst_encoding src_encoding errmode, errmode ≠ .nocheck → dst_encoding ≠ .invalid →
    src_encoding ≠ .invalid → ∀ s, (∀ c ∈ s, representable src_encoding c) → (∀ c ∈ s, representable dst_encoding c) →
      ∃ ck fuel, make_blockref_string_assignment_kernel dst_encoding src_encoding false errmode = .ok ck ∧
        ck.single none (some ⟨encode src_encoding s, []⟩) fuel = some (.done (some (encode dst_encoding s))) := by
  intro h
  obtain ⟨ck, fuel, hck, _⟩ := h .utf_8 .latin1 .fractional (by decide) (by decide) (by decide) [] (by simp) (by simp)
  cases hck

end Dynd.Transcode
