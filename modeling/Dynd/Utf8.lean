import Dynd.Bytes
import Dynd.Lib.Except
import Dynd.Lib.Horner
/-!
# UTF-8 sequences

The functions of the bundled `utf8` library that the string decoders use. An
iterator is the list of the bytes from it to `end`. Encoding a character is
`String.utf8EncodeChar`; `validate_next_char` and `eq_utf8EncodeChar` say
that the library reads exactly those sequences.
-/
namespace Dynd.Utf8

inductive utf_error where
  | NOT_ENOUGH_ROOM
  | INVALID_LEAD
  | INCOMPLETE_SEQUENCE
  | OVERLONG_SEQUENCE
  | INVALID_CODE_POINT
deriving DecidableEq, Repr

/-! ## The library -/

def is_trail (oc : UInt8) : Bool := oc >>> 6 = 0x2

def is_lead_surrogate (cp : UInt32) : Bool := 0xd800 ≤ cp && cp ≤ 0xdbff

def is_trail_surrogate (cp : UInt32) : Bool := 0xdc00 ≤ cp && cp ≤ 0xdfff

def is_surrogate (cp : UInt32) : Bool := 0xd800 ≤ cp && cp ≤ 0xdfff

def is_code_point_valid (cp : UInt32) : Bool := cp ≤ 0x10ffff && !is_surrogate cp

def sequence_length (lead : UInt8) : ℕ :=
  if lead < 0x80 then 1
  else if lead >>> 5 = 0x6 then 2
  else if lead >>> 4 = 0xe then 3
  else if lead >>> 3 = 0x1e then 4
  else 0

def is_overlong_sequence (cp : UInt32) (length : ℕ) : Bool :=
  if cp < 0x80 then length ≠ 1
  else if cp < 0x800 then length ≠ 2
  else if cp < 0x10000 then length ≠ 3
  else false

/-- The error code, or the code point; and where the iterator is after the call. -/
abbrev Seq := Except (utf_error × List UInt8)

/-- `increase_safely`, with the byte it moved to. -/
def increase_safely : List UInt8 → Seq (UInt8 × List UInt8)
  | _ :: c :: it => if is_trail c then .ok (c, c :: it) else .error (.INCOMPLETE_SEQUENCE, c :: it)
  | _ => .error (.NOT_ENOUGH_ROOM, [])

def get_sequence_1 : List UInt8 → Seq (UInt32 × List UInt8)
  | [] => .error (.NOT_ENOUGH_ROOM, [])
  | b :: it => .ok (b.toUInt32, b :: it)

def get_sequence_2 : List UInt8 → Seq (UInt32 × List UInt8)
  | [] => .error (.NOT_ENOUGH_ROOM, [])
  | b :: it => do
    let code_point := b.toUInt32
    let (c, it) ← increase_safely (b :: it)
    return (((code_point <<< 6) &&& 0x7ff) + (c.toUInt32 &&& 0x3f), it)

def get_sequence_3 : List UInt8 → Seq (UInt32 × List UInt8)
  | [] => .error (.NOT_ENOUGH_ROOM, [])
  | b :: it => do
    let code_point := b.toUInt32
    let (c, it) ← increase_safely (b :: it)
    let code_point := ((code_point <<< 12) &&& (0xffff : UInt32)) + ((c.toUInt32 <<< 6) &&& 0xfff)
    let (d, it) ← increase_safely it
    return (code_point + (d.toUInt32 &&& 0x3f), it)

def get_sequence_4 : List UInt8 → Seq (UInt32 × List UInt8)
  | [] => .error (.NOT_ENOUGH_ROOM, [])
  | b :: it => do
    let code_point := b.toUInt32
    let (c, it) ← increase_safely (b :: it)
    let code_point := ((code_point <<< 18) &&& (0x1fffff : UInt32)) + ((c.toUInt32 <<< 12) &&& 0x3ffff)
    let (d, it) ← increase_safely it
    let code_point := code_point + ((d.toUInt32 <<< 6) &&& 0xfff)
    let (e, it) ← increase_safely it
    return (code_point + (e.toUInt32 &&& 0x3f), it)

/-- The `switch (length)` of `validate_next` and `noerror_next_utf8`. -/
def get_sequence (length : ℕ) (it : List UInt8) : Seq (UInt32 × List UInt8) :=
  match length with
  | 1 => get_sequence_1 it
  | 2 => get_sequence_2 it
  | 3 => get_sequence_3 it
  | 4 => get_sequence_4 it
  | _ => .error (.INVALID_LEAD, it)

/-- `validate_next`: on failure it puts the iterator back. -/
def validate_next (it : List UInt8) : Except utf_error (UInt32 × List UInt8) :=
  let length := sequence_length (it.headD 0)
  match get_sequence length it with
  | .error (err, _) => .error err
  | .ok (cp, it) =>
    if is_code_point_valid cp then
      if !is_overlong_sequence cp length then .ok (cp, it.tail) else .error .OVERLONG_SEQUENCE
    else .error .INVALID_CODE_POINT

/-- `utf8::append`: the bytes it writes, or `invalid_code_point`. -/
def append (cp : UInt32) : Option (List UInt8) :=
  if !is_code_point_valid cp then none
  else if cp < 0x80 then some [cp.toUInt8]
  else if cp < 0x800 then some [((cp >>> 6) ||| 0xc0).toUInt8, ((cp &&& 0x3f) ||| 0x80).toUInt8]
  else if cp < 0x10000 then
    some [((cp >>> 12) ||| 0xe0).toUInt8, (((cp >>> 6) &&& 0x3f) ||| 0x80).toUInt8,
      ((cp &&& 0x3f) ||| 0x80).toUInt8]
  else
    some [((cp >>> 18) ||| 0xf0).toUInt8, (((cp >>> 12) &&& 0x3f) ||| 0x80).toUInt8,
      (((cp >>> 6) &&& 0x3f) ||| 0x80).toUInt8, ((cp &&& 0x3f) ||| 0x80).toUInt8]

/-! ## Bytes and code points as numbers -/

theorem is_trail_iff (c : UInt8) : is_trail c = true ↔ 128 ≤ c.toNat ∧ c.toNat < 192 := by
  have e : (6 : UInt8).toNat % 8 = 6 := rfl
  have h2 : (2 : UInt8).toNat = 2 := rfl
  rw [is_trail, decide_eq_true_eq, ← UInt8.toNat_inj, UInt8.toNat_shiftRight, e, h2,
    Nat.shiftRight_eq_div_pow]
  omega

/-- The five kinds of lead byte. -/
theorem sequence_length_eq (b : UInt8) : sequence_length b =
    if b.toNat < 128 then 1 else if b.toNat < 192 then 0 else if b.toNat < 224 then 2
    else if b.toNat < 240 then 3 else if b.toNat < 248 then 4 else 0 := by
  have hb := b.toNat_lt
  have e5 : (5 : UInt8).toNat % 8 = 5 := rfl
  have e4 : (4 : UInt8).toNat % 8 = 4 := rfl
  have e3 : (3 : UInt8).toNat % 8 = 3 := rfl
  have h80 : (0x80 : UInt8).toNat = 128 := rfl
  have h6 : (0x6 : UInt8).toNat = 6 := rfl
  have he : (0xe : UInt8).toNat = 14 := rfl
  have h1e : (0x1e : UInt8).toNat = 30 := rfl
  simp only [sequence_length, UInt8.lt_iff_toNat_lt, ← UInt8.toNat_inj, UInt8.toNat_shiftRight, e5,
    e4, e3, h80, h6, he, h1e, Nat.shiftRight_eq_div_pow]
  split_ifs <;> omega

theorem is_code_point_valid_iff (cp : UInt32) : is_code_point_valid cp = true ↔ cp.isValidChar := by
  have h1 : (0x10ffff : UInt32).toNat = 0x10ffff := rfl
  have h2 : (0xd800 : UInt32).toNat = 0xd800 := rfl
  have h3 : (0xdfff : UInt32).toNat = 0xdfff := rfl
  simp only [is_code_point_valid, is_surrogate, Bool.and_eq_true, Bool.not_eq_true', Bool.and_eq_false_iff,
    decide_eq_true_eq, decide_eq_false_iff_not, UInt32.le_iff_toNat_le, h1, h2, h3, UInt32.isValidChar,
    Nat.isValidChar]
  omega

/-- The shortest sequence for a code point. -/
theorem is_overlong_sequence_iff (cp : UInt32) (length : ℕ) :
    is_overlong_sequence cp length = true ↔
      (cp.toNat < 0x80 ∧ length ≠ 1) ∨ (0x80 ≤ cp.toNat ∧ cp.toNat < 0x800 ∧ length ≠ 2) ∨
        (0x800 ≤ cp.toNat ∧ cp.toNat < 0x10000 ∧ length ≠ 3) := by
  have h1 : (0x80 : UInt32).toNat = 0x80 := rfl
  have h2 : (0x800 : UInt32).toNat = 0x800 := rfl
  have h3 : (0x10000 : UInt32).toNat = 0x10000 := rfl
  simp only [is_overlong_sequence, UInt32.lt_iff_toNat_lt, h1, h2, h3]
  split_ifs <;> simp <;> omega

/-- The low bits of a shifted number. -/
theorem toNat_shift_mask (x k m : UInt32) (j : ℕ) (hk : k.toNat < 32) (hm : m.toNat = 2 ^ j - 1) :
    ((x <<< k) &&& m).toNat = x.toNat * 2 ^ k.toNat % 2 ^ 32 % 2 ^ j := by
  rw [UInt32.toNat_and, UInt32.toNat_shiftLeft, hm, Nat.and_two_pow_sub_one_eq_mod, Nat.mod_eq_of_lt hk,
    Nat.shiftLeft_eq]

theorem toNat_low6 (x : UInt32) : (x &&& 0x3f).toNat = x.toNat % 64 := by
  rw [UInt32.toNat_and]
  exact Nat.and_two_pow_sub_one_eq_mod _ 6

/-! ## One sequence -/

/-- The bits a lead byte contributes. -/
def payload (b : UInt8) : ℕ :=
  match sequence_length b with
  | 1 => b.toNat
  | 2 => b.toNat % 32
  | 3 => b.toNat % 16
  | 4 => b.toNat % 8
  | _ => 0

/-- The code point of a lead byte and its trail bytes. -/
def seqValue (b : UInt8) (trails : List UInt8) : ℕ :=
  Lib.horner 64 (payload b) (trails.map (·.toNat % 64))

/-- `b` and `trails` are a sequence of the length that `b` announces. -/
structure Complete (b : UInt8) (trails : List UInt8) : Prop where
  trail : ∀ c ∈ trails, is_trail c = true
  length : trails.length + 1 = sequence_length b

/-- `b` and `trails` are a sequence that `rest`, which follows, cuts short. -/
structure Cut (b : UInt8) (trails rest : List UInt8) : Prop where
  trail : ∀ c ∈ trails, is_trail c = true
  length : trails.length + 1 < sequence_length b
  stop : ∀ c ∈ rest.head?, is_trail c = false

theorem sequence_length_le (b : UInt8) : sequence_length b ≤ 4 := by
  rw [sequence_length_eq]
  split_ifs <;> omega

/-- At most `n` trail bytes from the front of `s`: fewer only if something else follows them. -/
theorem split_trails (n : ℕ) (s : List UInt8) : ∃ trails rest, s = trails ++ rest ∧
    (∀ c ∈ trails, is_trail c = true) ∧ trails.length ≤ n ∧
    (trails.length = n ∨ ∀ c ∈ rest.head?, is_trail c = false) := by
  induction n generalizing s with
  | zero => exact ⟨[], s, rfl, by simp, le_rfl, .inl rfl⟩
  | succ n ih =>
    cases s with
    | nil => exact ⟨[], [], rfl, by simp, by simp, .inr (by simp)⟩
    | cons c s =>
      cases hc : is_trail c with
      | false => exact ⟨[], c :: s, rfl, by simp, by simp, .inr (by simpa using hc)⟩
      | true =>
        obtain ⟨trails, rest, rfl, h1, h2, h3⟩ := ih s
        refine ⟨c :: trails, rest, rfl, by simpa [hc] using h1, by simpa using h2, ?_⟩
        simpa using h3

/-- After a valid lead byte comes a complete sequence or one that is cut. -/
theorem complete_or_cut (b : UInt8) (s : List UInt8) (hb : sequence_length b ≠ 0) :
    ∃ trails rest, s = trails ++ rest ∧ (Complete b trails ∨ Cut b trails rest) := by
  obtain ⟨trails, rest, rfl, h1, h2, h3⟩ := split_trails (sequence_length b - 1) s
  refine ⟨trails, rest, rfl, ?_⟩
  rcases h3 with h3 | h3
  · exact .inl ⟨h1, by omega⟩
  · rcases Nat.lt_or_ge (trails.length + 1) (sequence_length b) with hlt | hge
    · exact .inr ⟨h1, hlt, h3⟩
    · exact .inl ⟨h1, by omega⟩

theorem increase_safely_trail (b c : UInt8) (s : List UInt8) (h : is_trail c = true) :
    increase_safely (b :: c :: s) = .ok (c, c :: s) := by
  simp [increase_safely, h]

theorem increase_safely_stop (b : UInt8) (s : List UInt8) (h : ∀ c ∈ s.head?, is_trail c = false) :
    ∃ err, increase_safely (b :: s) = .error (err, s) := by
  cases s with
  | nil => exact ⟨_, rfl⟩
  | cons c s =>
    have hc := h c rfl
    exact ⟨.INCOMPLETE_SEQUENCE, by simp [increase_safely, hc]⟩

/-- A cut sequence fails, with the iterator where the trail bytes stop. -/
theorem get_sequence_cut {b : UInt8} {trails rest : List UInt8} (h : Cut b trails rest) :
    ∃ err, get_sequence (sequence_length b) (b :: (trails ++ rest)) = .error (err, rest) := by
  obtain ⟨h1, h2, h3⟩ := h
  have hle := sequence_length_le b
  rcases trails with _ | ⟨c, _ | ⟨d, _ | ⟨e, trails⟩⟩⟩
  all_goals simp only [List.length_nil, List.length_cons] at h2
  · obtain ⟨err, he⟩ := increase_safely_stop b rest h3
    have hL : sequence_length b = 2 ∨ sequence_length b = 3 ∨ sequence_length b = 4 := by omega
    rcases hL with hL | hL | hL <;>
      exact ⟨err, by simp [hL, get_sequence, get_sequence_2, get_sequence_3, get_sequence_4, he]⟩
  · obtain ⟨err, he⟩ := increase_safely_stop c rest h3
    have hc := increase_safely_trail b c rest (h1 c (by simp))
    have hL : sequence_length b = 3 ∨ sequence_length b = 4 := by omega
    rcases hL with hL | hL <;>
      exact ⟨err, by simp [hL, get_sequence, get_sequence_3, get_sequence_4, hc, he]⟩
  · obtain ⟨err, he⟩ := increase_safely_stop d rest h3
    have hc := increase_safely_trail b c (d :: rest) (h1 c (by simp))
    have hd := increase_safely_trail c d rest (h1 d (by simp))
    have hL : sequence_length b = 4 := by omega
    exact ⟨err, by simp [hL, get_sequence, get_sequence_4, hc, hd, he]⟩
  · omega

/-- A complete sequence gives its value, with the iterator on its last byte. -/
theorem get_sequence_complete {b : UInt8} {trails : List UInt8} (h : Complete b trails) (rest : List UInt8) :
    ∃ cp : UInt32, cp.toNat = seqValue b trails ∧
      get_sequence (sequence_length b) (b :: (trails ++ rest)) = .ok (cp, trails.getLastD b :: rest) := by
  obtain ⟨h1, h2⟩ := h
  have hle := sequence_length_le b
  have hb := b.toNat_lt
  rcases trails with _ | ⟨c, _ | ⟨d, _ | ⟨e, _ | ⟨f, trails⟩⟩⟩⟩
  all_goals simp only [List.length_nil, List.length_cons] at h2
  · refine ⟨b.toUInt32, ?_, by simp [← h2, get_sequence, get_sequence_1]⟩
    simp [seqValue, payload, ← h2]
  · have hc := increase_safely_trail b c rest (h1 c (by simp))
    refine ⟨_, ?_, by simp [← h2, get_sequence, get_sequence_2, hc]; rfl⟩
    rw [UInt32.toNat_add, toNat_low6, toNat_shift_mask _ 6 _ 11 (by decide) rfl]
    simp only [seqValue, payload, ← h2, UInt8.toNat_toUInt32, List.map_cons, List.map_nil, Lib.horner_cons,
      Lib.horner_nil, show (6 : UInt32).toNat = 6 from rfl]
    omega
  · have hc := increase_safely_trail b c (d :: rest) (h1 c (by simp))
    have hd := increase_safely_trail c d rest (h1 d (by simp))
    refine ⟨_, ?_, by simp [← h2, get_sequence, get_sequence_3, hc, hd]; rfl⟩
    rw [UInt32.toNat_add, UInt32.toNat_add, toNat_low6, toNat_shift_mask _ 12 _ 16 (by decide) rfl,
      toNat_shift_mask _ 6 _ 12 (by decide) rfl]
    simp only [seqValue, payload, ← h2, UInt8.toNat_toUInt32, List.map_cons, List.map_nil, Lib.horner_cons,
      Lib.horner_nil, show (6 : UInt32).toNat = 6 from rfl, show (12 : UInt32).toNat = 12 from rfl]
    omega
  · have hc := increase_safely_trail b c (d :: e :: rest) (h1 c (by simp))
    have hd := increase_safely_trail c d (e :: rest) (h1 d (by simp))
    have he := increase_safely_trail d e rest (h1 e (by simp))
    refine ⟨_, ?_, by simp [← h2, get_sequence, get_sequence_4, hc, hd, he]; rfl⟩
    rw [UInt32.toNat_add, UInt32.toNat_add, UInt32.toNat_add, toNat_low6,
      toNat_shift_mask _ 18 _ 21 (by decide) rfl, toNat_shift_mask _ 12 _ 18 (by decide) rfl,
      toNat_shift_mask _ 6 _ 12 (by decide) rfl]
    simp only [seqValue, payload, ← h2, UInt8.toNat_toUInt32, List.map_cons, List.map_nil, Lib.horner_cons,
      Lib.horner_nil, show (6 : UInt32).toNat = 6 from rfl, show (12 : UInt32).toNat = 12 from rfl,
      show (18 : UInt32).toNat = 18 from rfl]
    omega
  · omega

/-! ## Sequences and characters -/

theorem isTrail_ofNat (n : ℕ) : is_trail (UInt8.ofNat (n % 64 + 128)) = true := by
  rw [is_trail_iff, UInt8.toNat_ofNat']
  omega

/-- A character's encoding is a complete sequence, the shortest one for its code point. -/
theorem utf8EncodeChar_complete (c : Char) : ∃ b trails, String.utf8EncodeChar c = b :: trails ∧
    Complete b trails ∧ seqValue b trails = c.val.toNat ∧
    is_overlong_sequence c.val (sequence_length b) = false := by
  have hv : c.val.toNat < 0x110000 := by
    have := c.valid
    simp only [UInt32.isValidChar, Nat.isValidChar] at this
    omega
  have hov := is_overlong_sequence_iff c.val
  simp only [String.utf8EncodeChar]
  generalize c.val.toNat = v at hv hov ⊢
  split_ifs with h1 h2 h3
  · have hL : sequence_length (UInt8.ofNat v) = 1 := by
      rw [sequence_length_eq, UInt8.toNat_ofNat', if_pos (by omega)]
    refine ⟨_, _, rfl, ⟨by simp, by simp [hL]⟩, ?_, ?_⟩
    · simp [seqValue, payload, hL]
      omega
    · rw [hL, ← Bool.not_eq_true, hov]
      omega
  · have hL : sequence_length (UInt8.ofNat (v / 64 % 32 + 192)) = 2 := by
      rw [sequence_length_eq, UInt8.toNat_ofNat']
      split_ifs <;> omega
    refine ⟨_, _, rfl, ⟨by simp only [List.forall_mem_cons, isTrail_ofNat]; simp,
      by simp only [List.length_cons, List.length_nil, hL]⟩, ?_, ?_⟩
    · simp only [seqValue, payload, hL, List.map_cons, List.map_nil, Lib.horner_cons, Lib.horner_nil,
        UInt8.toNat_ofNat']
      omega
    · rw [hL, ← Bool.not_eq_true, hov]
      omega
  · have hL : sequence_length (UInt8.ofNat (v / 4096 % 16 + 224)) = 3 := by
      rw [sequence_length_eq, UInt8.toNat_ofNat']
      split_ifs <;> omega
    refine ⟨_, _, rfl, ⟨by simp only [List.forall_mem_cons, isTrail_ofNat]; simp,
      by simp only [List.length_cons, List.length_nil, hL]⟩, ?_, ?_⟩
    · simp only [seqValue, payload, hL, List.map_cons, List.map_nil, Lib.horner_cons, Lib.horner_nil,
        UInt8.toNat_ofNat']
      omega
    · rw [hL, ← Bool.not_eq_true, hov]
      omega
  · have hL : sequence_length (UInt8.ofNat (v / 262144 % 8 + 240)) = 4 := by
      rw [sequence_length_eq, UInt8.toNat_ofNat']
      split_ifs <;> omega
    refine ⟨_, _, rfl, ⟨by simp only [List.forall_mem_cons, isTrail_ofNat]; simp,
      by simp only [List.length_cons, List.length_nil, hL]⟩, ?_, ?_⟩
    · simp only [seqValue, payload, hL, List.map_cons, List.map_nil, Lib.horner_cons, Lib.horner_nil,
        UInt8.toNat_ofNat']
      omega
    · rw [hL, ← Bool.not_eq_true, hov]
      omega

/-- A character's encoding is decoded, and the iterator is behind it. -/
theorem validate_next_char (c : Char) (rest : List UInt8) :
    validate_next (String.utf8EncodeChar c ++ rest) = .ok (c.val, rest) := by
  obtain ⟨b, trails, he, hc, hv, ho⟩ := utf8EncodeChar_complete c
  obtain ⟨cp, hcp, hget⟩ := get_sequence_complete hc rest
  obtain rfl : cp = c.val := UInt32.toNat_inj.1 (hcp.trans hv)
  have hvalid : is_code_point_valid c.val = true := (is_code_point_valid_iff _).2 c.valid
  simp only [he, validate_next, List.cons_append, List.headD_cons, hget, hvalid, if_true, ho, Bool.not_false,
    List.tail_cons]

/-- A lead byte is determined by the length it announces and its payload. -/
theorem lead_inj {b b' : UInt8} (hb : sequence_length b ≠ 0) (hL : sequence_length b = sequence_length b')
    (hp : payload b = payload b') : b = b' := by
  have h1 := b.toNat_lt
  have h2 := b'.toNat_lt
  apply UInt8.toNat_inj.1
  unfold payload at hp
  rw [← hL] at hp
  have e1 := sequence_length_eq b
  have e2 := sequence_length_eq b'
  rw [← hL] at e2
  have hle := sequence_length_le b
  generalize sequence_length b = L at *
  have : L = 1 ∨ L = 2 ∨ L = 3 ∨ L = 4 := by omega
  rcases this with rfl | rfl | rfl | rfl <;> simp only at hp <;> split_ifs at e1 e2 <;> omega

/-- A trail byte is determined by its low six bits. -/
theorem trails_of_low {l : List UInt8} (h : ∀ c ∈ l, is_trail c = true) :
    (l.map (·.toNat % 64)).map (fun n => UInt8.ofNat (n + 128)) = l := by
  rw [List.map_map]
  refine (List.map_congr_left fun c hc => ?_).trans (List.map_id l)
  have h1 := (is_trail_iff c).1 (h c hc)
  apply UInt8.toNat_inj.1
  simp only [Function.comp, UInt8.toNat_ofNat', id]
  omega

theorem low_lt (l : List UInt8) : ∀ d ∈ l.map (·.toNat % 64), d < 64 := by
  intro d hd
  obtain ⟨c, _, rfl⟩ := List.mem_map.1 hd
  exact Nat.mod_lt _ (by omega)

/-- A complete sequence is determined by its length and its value. -/
theorem complete_inj {b b' : UInt8} {trails trails' : List UInt8} (h : Complete b trails)
    (h' : Complete b' trails') (hL : sequence_length b = sequence_length b')
    (hv : seqValue b trails = seqValue b' trails') : b :: trails = b' :: trails' := by
  have hlen : trails.length = trails'.length := by
    have := h.length
    have := h'.length
    omega
  obtain ⟨hp, ht⟩ := Lib.horner_inj (by simpa using hlen) (low_lt _) (low_lt _) hv
  have hb := lead_inj (by have := h.length; omega) hL hp
  rw [hb, ← trails_of_low h.trail, ht, trails_of_low h'.trail]

/-- Three bytes hold less than `0x10000`. -/
theorem seqValue_lt {b : UInt8} {trails : List UInt8} (h : Complete b trails) (hL : sequence_length b ≤ 3) :
    seqValue b trails < 0x10000 := by
  have h1 := Lib.horner_lt (v := payload b) (low_lt trails)
  have h2 := h.length
  rw [List.length_map] at h1
  have hb := b.toNat_lt
  have hp : sequence_length b = 1 ∧ payload b < 256 ∨ sequence_length b = 2 ∧ payload b < 32 ∨
      sequence_length b = 3 ∧ payload b < 16 := by
    have : sequence_length b = 1 ∨ sequence_length b = 2 ∨ sequence_length b = 3 := by omega
    rcases this with hL | hL | hL
    · exact .inl ⟨hL, by simp only [payload, hL]; omega⟩
    · exact .inr (.inl ⟨hL, by simp only [payload, hL]; omega⟩)
    · exact .inr (.inr ⟨hL, by simp only [payload, hL]; omega⟩)
  refine lt_of_lt_of_le h1 ?_
  rcases hp with ⟨hL, hp⟩ | ⟨hL, hp⟩ | ⟨hL, hp⟩
  · have : trails.length = 0 := by omega
    rw [this]
    omega
  · have : trails.length = 1 := by omega
    rw [this]
    omega
  · have : trails.length = 2 := by omega
    rw [this]
    omega

/-- The shortest complete sequence for a character is its encoding. -/
theorem eq_utf8EncodeChar {b : UInt8} {trails : List UInt8} (h : Complete b trails) (c : Char)
    (hv : seqValue b trails = c.val.toNat) (ho : is_overlong_sequence c.val (sequence_length b) = false) :
    String.utf8EncodeChar c = b :: trails := by
  obtain ⟨b', trails', he, h', hv', ho'⟩ := utf8EncodeChar_complete c
  rw [he]
  have h1 := seqValue_lt h
  have h2 := seqValue_lt h'
  have hL := h.length
  have hL' := h'.length
  have hle := sequence_length_le b
  have hle' := sequence_length_le b'
  rw [← Bool.not_eq_true, is_overlong_sequence_iff] at ho ho'
  exact complete_inj h' h (by omega) (hv'.trans hv.symm)

/-- A tag above the bits of `x` is added to it. -/
theorem toUInt8_or_tag {x m : UInt32} (i a : ℕ) (hx : x.toNat < 2 ^ i) (hm : m.toNat = 2 ^ i * a) :
    (x ||| m).toUInt8 = UInt8.ofNat (x.toNat + m.toNat) := by
  apply UInt8.toNat_inj.1
  rw [UInt32.toNat_toUInt8, UInt32.toNat_or, UInt8.toNat_ofNat', Nat.or_comm, hm,
    ← Nat.two_pow_add_eq_or_of_lt hx, Nat.add_comm]

theorem toNat_shiftRight (x k : UInt32) (hk : k.toNat < 32) : (x >>> k).toNat = x.toNat / 2 ^ k.toNat := by
  rw [UInt32.toNat_shiftRight, Nat.mod_eq_of_lt hk, Nat.shiftRight_eq_div_pow]

/-- `append` writes the encoding of a character. -/
theorem append_char (c : Char) : append c.val = some (String.utf8EncodeChar c) := by
  have hvalid : is_code_point_valid c.val = true := (is_code_point_valid_iff _).2 c.valid
  have hv : c.val.toNat < 0x110000 := by
    have := c.valid
    simp only [UInt32.isValidChar, Nat.isValidChar] at this
    omega
  have e6 : (c.val >>> 6).toNat = c.val.toNat / 64 := toNat_shiftRight _ 6 (by decide)
  have e12 : (c.val >>> 12).toNat = c.val.toNat / 4096 := toNat_shiftRight _ 12 (by decide)
  have e18 : (c.val >>> 18).toNat = c.val.toNat / 262144 := toNat_shiftRight _ 18 (by decide)
  have low : ∀ x : UInt32, ((x &&& 0x3f) ||| 0x80).toUInt8 = UInt8.ofNat (x.toNat % 64 + 128) := by
    intro x
    rw [toUInt8_or_tag 6 2 (by rw [toNat_low6]; omega) rfl, toNat_low6]
    rfl
  have h1 : (0x80 : UInt32).toNat = 0x80 := rfl
  have h2 : (0x800 : UInt32).toNat = 0x800 := rfl
  have h3 : (0x10000 : UInt32).toNat = 0x10000 := rfl
  simp only [append, hvalid, Bool.not_true, Bool.false_eq_true, if_false, UInt32.lt_iff_toNat_lt, h1, h2, h3,
    String.utf8EncodeChar, low, e6, e12]
  split_ifs
  all_goals try omega
  · rw [show c.val.toUInt8 = UInt8.ofNat c.val.toNat from
      UInt8.toNat_inj.1 (by rw [UInt32.toNat_toUInt8, UInt8.toNat_ofNat'])]
  · rw [toUInt8_or_tag 5 6 (by rw [e6]; omega) rfl, e6, Nat.mod_eq_of_lt (by omega : c.val.toNat / 64 < 32)]
    rfl
  · rw [toUInt8_or_tag 4 14 (by rw [e12]; omega) rfl, e12, Nat.mod_eq_of_lt (by omega : c.val.toNat / 4096 < 16)]
    rfl
  · rw [toUInt8_or_tag 3 30 (by rw [e18]; omega) rfl, e18, Nat.mod_eq_of_lt (by omega : c.val.toNat / 262144 < 8)]
    rfl

theorem append_invalid {cp : UInt32} (h : ¬ cp.isValidChar) : append cp = none := by
  have : is_code_point_valid cp = false := by rw [← Bool.not_eq_true, is_code_point_valid_iff]; exact h
  simp [append, this]

end Dynd.Utf8
