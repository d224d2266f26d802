import Dynd.DateUtil
import Dynd.Lib.Strided
import Dynd.PodMemoryBlock
/-!
# Dates to text

`date_strftime_kernel_extra` gives `strftime` a buffer of the memory block of
the destination string, three times at most and each time twice as large. A
return value of 0 stands for a buffer that is too small and for a text that is
empty, and after the third one the buffer becomes the string as it is.

`text_iff`: the string is the text just when the text is not empty and the
third buffer holds it.

`strftime` is a parameter: what it writes for a format and a date is `text`,
and what it leaves of a buffer that is too small is anything.
-/
namespace Dynd.Strftime
open Lib PodMemoryBlock Gregorian

/-- `struct tm`; `memset` leaves 0 in the rest. -/
@[ext] structure tm where
  tm_sec : ℤ
  tm_min : ℤ
  tm_hour : ℤ
  tm_mday : ℤ
  tm_mon : ℤ
  tm_year : ℤ
  tm_wday : ℤ
  tm_yday : ℤ
  tm_isdst : ℤ

/-- `date_ymd::get_day_of_year` -/
def get_day_of_year (x : date_ymd) : ℤ :=
  if x.isValid then
    (date_ymd.month_starts (date_ymd.is_leap_year x.year.toInt)).getD (x.month.toInt - 1).toNat 0 + x.day.toInt - 1
  else -1

def ymd_to_struct_tm (days : Int32) (ymd : date_ymd) : tm :=
  -- 1970-01-04 is Sunday
  let tm_wday := (days.toInt - 3).tmod 7
  { tm_sec := 0
    tm_min := 0
    tm_hour := 0
    tm_mday := ymd.day.toInt
    tm_mon := ymd.month.toInt - 1
    tm_year := ymd.year.toInt - 1900
    tm_wday := if tm_wday < 0 then tm_wday + 7 else tm_wday
    tm_yday := get_day_of_year ymd
    tm_isdst := 0 }

/-- What `strftime` returns, and the memory and `errno` it leaves. -/
structure Formatted where
  len : ℕ
  errno : ℤ
  heap : Heap

/-- `strftime(s, maxsize, format, tm)` -/
abbrev strftime : Type := Heap → ℕ → ℕ → List UInt8 → tm → Formatted

/-- The allocator's exceptions, and the kernel's own. -/
inductive exception where
  | memory (e : Thrown)
  | runtime_error (what : List UInt8)

/-- A run is undefined (`none`), throws, or returns. -/
abbrev Run (α : Type) : Type := ExceptT exception Option α

/-- `string_type_data` -/
structure string_data where
  first : ℕ
  last : ℕ

/-- A call of the allocator. -/
def call : Outcome → Run (State × string_data)
  | .returns s out_begin out_end => pure (s, ⟨out_begin, out_end⟩)
  | .throws _ e => throw (.memory e)
  | .undefined => none

/-- The kernel: the size of the format and the format. -/
structure date_strftime_kernel_extra where
  format_size : ℕ
  format : List UInt8

section
variable (strftime : strftime) (malloc : Heap → ℕ → Option Malloced) (e : date_strftime_kernel_extra)

def errorText : List UInt8 :=
  "error in strftime with format string \"".toUTF8.toList ++ e.format ++ "\" to strftime".toUTF8.toList

/-- The attempts that are left, with a buffer of `str_size` bytes. -/
def attemptLoop (tm_val : tm) : ℕ → ℕ → State → string_data → Run (State × string_data)
  | 0, _, s, dst_d => pure (s, dst_d)
  | attempts + 1, str_size, s, dst_d =>
    let r := strftime s.heap dst_d.first str_size e.format tm_val
    if 0 < r.len then call (resize .pod malloc r.len dst_d.first dst_d.last { s with heap := r.heap })
    else if r.errno ≠ 0 then throw (.runtime_error (errorText e))
    else
      call (resize .pod malloc (str_size * 2) dst_d.first dst_d.last { s with heap := r.heap }) >>= fun x =>
        attemptLoop tm_val attempts (str_size * 2) x.1 x.2

/-- Call strftime, growing the string buffer if needed so it fits. -/
def format_date (date : Int32) (s : State) : Run (State × string_data) :=
  let tm_val := ymd_to_struct_tm date (date_ymd.set_from_days date)
  let str_size := e.format_size + 16
  call (allocate .pod malloc str_size 1 s) >>= fun x => attemptLoop strftime malloc e tm_val 3 str_size x.1 x.2

/-- The memory block, and the strings of the destination by their addresses. -/
structure World where
  block : State
  dst : ℤ → string_data

def single_unary (dst : ℤ) (date : Int32) (w : World) : Run World :=
  format_date strftime malloc e date w.block >>= fun x =>
    pure ⟨x.1, Function.update w.dst dst x.2⟩

/-- `src` is the source by addresses. -/
def strided_unary (dst dst_stride : ℤ) (src : ℤ → Int32) (src0 src0_stride : ℤ) (count : ℕ) (w : World) : Run World :=
  strided (fun p w => single_unary strftime malloc e p.1 (src p.2) w) (dst, src0) (dst_stride, src0_stride) count w

end

/-! ## The contract of `strftime` -/

/-- `text` is the text of a format and a date. -/
structure Conforms (text : List UInt8 → tm → List UInt8) (strftime : strftime) : Prop where
  fits : ∀ h s maxsize format tm_val, (text format tm_val).length < maxsize →
    (strftime h s maxsize format tm_val).len = (text format tm_val).length ∧
    (strftime h s maxsize format tm_val).heap.read s (text format tm_val).length = text format tm_val
  too_small : ∀ h s maxsize format tm_val, maxsize ≤ (text format tm_val).length →
    (strftime h s maxsize format tm_val).len = 0
  errno : ∀ h s maxsize format tm_val, (strftime h s maxsize format tm_val).errno = 0
  chunks : ∀ h s maxsize format tm_val, (strftime h s maxsize format tm_val).heap.chunks = h.chunks
  frame : ∀ h s maxsize format tm_val x, x < s ∨ s + maxsize ≤ x → (strftime h s maxsize format tm_val).heap.byte x = h.byte x

/-- `malloc` fails, or answers with memory that is not in use. -/
def Answers (malloc : Heap → ℕ → Option Malloced) : Prop := ∀ h n r, malloc h n = some r → h.Fresh r.address n

/-- The calendar's `struct tm` of a date: January 1, 1970 is a Thursday. -/
noncomputable def calendar_tm (x : date_ymd) : tm where
  tm_sec := 0
  tm_min := 0
  tm_hour := 0
  tm_mday := x.day.toInt
  tm_mon := x.month.toInt - 1
  tm_year := x.year.toInt - 1900
  tm_wday := (x.number + 4) % 7
  tm_yday := x.number - dayNumber 1970 x.year.toInt 1 1
  tm_isdst := 0

/-- The bytes of a string of the destination. -/
def World.string (w : World) (dst : ℤ) : List UInt8 :=
  w.block.heap.read (w.dst dst).first ((w.dst dst).last - (w.dst dst).first)

/-- The kernel throws, or it returns and the strings are the texts. -/
def TextsOrThrows (x : Run World) (count : ℕ) (dst : ℕ → ℤ) (texts : ℕ → List UInt8) : Prop :=
  ∃ r, x = some r ∧ ∀ w, r = .ok w → ∀ i < count, w.string (dst i) = texts i

/-! ## Dates -/

theorem get_day_of_year_eq {x : date_ymd} (h : x.isValid = true) :
    get_day_of_year x = x.number - dayNumber 1970 x.year.toInt 1 1 := by
  have hvalid := (date_ymd.isValid_iff x).1 h
  have hmonth := hvalid.month
  have hstart := @date_ymd.month_starts_eq x.year.toInt (x.month.toInt - 1).toNat (by omega)
  rw [show ((x.month.toInt - 1).toNat : ℤ) + 1 = x.month.toInt by omega] at hstart
  have hfirst : daysBeforeMonth x.year.toInt 1 = 0 := by rw [daysBeforeMonth, Finset.Ico_self, Finset.sum_empty]
  rw [get_day_of_year, if_pos h, hstart, date_ymd.number, dayNumber, dayNumber, hfirst]
  omega

theorem struct_tm_of_date {x : date_ymd} (h : x.isValid = true) :
    ymd_to_struct_tm x.toDays (date_ymd.set_from_days x.toDays) = calendar_tm x := by
  have hweekday : (let tm_wday := (x.number - 3).tmod 7; if tm_wday < 0 then tm_wday + 7 else tm_wday) =
      (x.number + 4) % 7 := by
    dsimp only
    rcases le_total 3 x.number with hle | hle
    · rw [Int.tmod_eq_emod_of_nonneg (by omega)]
      split_ifs <;> omega
    · rw [tmod_of_nonpos (by omega)]
      split_ifs <;> omega
  rw [date_ymd.set_from_days_toDays h, ymd_to_struct_tm, date_ymd.toDays_eq h, hweekday, get_day_of_year_eq h]
  rfl

/-! ## The buffer -/

section
variable {s s' : State} {r : Region} {rest : List Region} {h' : Heap}

/-- What is written to the newest region changes none of the others. -/
theorem written_inv (hi : Inv .pod s (r :: rest)) (hc : h'.chunks = s.heap.chunks)
    (hframe : ∀ x, x < r.start ∨ r.start + r.size ≤ x → h'.byte x = s.heap.byte x) (written : ℕ → Option UInt8)
    (hw : ∀ i < r.size, Holds .pod (written i) (h'.byte (r.start + i))) :
    Inv .pod { s with heap := h' } ({ r with written := written } :: rest) := by
  refine hi.of_same h' hc rfl fun r' hr' => ?_
  rcases List.mem_cons.mp hr' with rfl | hr'
  · have hr := hi.sound r List.mem_cons_self
    exact ⟨(Heap.inside_congr hc).mpr hr.inside, hr.aligned, hw⟩
  · have hr := hi.sound r' (List.mem_cons_of_mem r hr')
    have hapart : Apart r.start r.size r'.start r'.size := (List.pairwise_cons.mp hi.disjoint).1 r' hr'
    refine hr.of_bytes ((Heap.inside_congr hc).mpr hr.inside) fun i hn => hframe _ ?_
    by_contra hx
    push Not at hx
    exact hapart.ne (i := r'.start + i - r.start) (by omega) hn (by omega)

/-- A region that is not empty and ends where the next one would start is in a chunk. -/
theorem begin_ne_zero (hi : Inv .pod s (r :: rest)) (hend : r.start + r.size = s.emb.m_memory_current) (hpos : 0 < r.size) :
    s.emb.m_memory_begin ≠ 0 := by
  intro hb
  rcases hi.linked.newest with ⟨_, hcurrent, _⟩ | ⟨hlast, _⟩
  · omega
  · exact absurd hb (hi.linked.handles _ (List.mem_of_getLast? hlast)).1

theorem hand_out_current {a n b l : ℕ} (h : hand_out .pod a n s = .returns s' b l) : l = s'.emb.m_memory_current := by
  cases h
  rfl

theorem allocate_current {malloc : Heap → ℕ → Option Malloced} {n alignment b l : ℕ}
    (h : allocate .pod malloc n alignment s = .returns s' b l) : l = s'.emb.m_memory_current := by
  unfold allocate at h
  dsimp only at h
  split_ifs at h
  · split at h
    · cases h
    · exact hand_out_current h
  · exact hand_out_current h

theorem resize_current {malloc : Heap → ℕ → Option Malloced} {n a z b l : ℕ}
    (h : resize .pod malloc n a z s = .returns s' b l) : l = s'.emb.m_memory_current := by
  unfold resize at h
  dsimp only [zero_fill] at h
  split_ifs at h
  · cases h
    rfl
  · cases h
    rfl
  · split at h
    · cases h
    · split at h
      · cases h
      · cases h
        rfl

/-- The region just given out, and what is kept of it. -/
structure Newest (s : State) (r : Region) (rest : List Region) : Prop where
  inv : Inv .pod s (r :: rest)
  last : LastEnds s.emb (r :: rest)
  current : r.start + r.size = s.emb.m_memory_current
  unaligned : r.alignment = 1

theorem allocate_newest {malloc : Heap → ℕ → Option Malloced} (hm : Mallocs malloc 1) (hi : Inv .pod s rest) (n : ℕ) :
    ∃ s' start, allocate .pod malloc n 1 s = .returns s' start (start + n) ∧ Newest s' (.blank start n 1) rest := by
  obtain ⟨s', start, he, hi', hl'⟩ := allocate_spec (k := 0) hm hi n
  exact ⟨s', start, he, hi', hl', allocate_current he, rfl⟩

theorem Newest.resize {malloc : Heap → ℕ → Option Malloced} (hm : Mallocs malloc 1) (h : Newest s r rest) (hpos : 0 < r.size)
    (n : ℕ) : ∃ s' start, resize .pod malloc n r.start (r.start + r.size) s = .returns s' start (start + n) ∧
      Newest s' (r.resized start n) rest := by
  rcases resize_spec (h.unaligned.symm ▸ hm) h.inv h.last n with ⟨hb, _⟩ | ⟨s', start, he, hi', hl', _⟩
  · exact absurd hb (begin_ne_zero h.inv h.current hpos)
  · exact ⟨s', start, he, hi', hl', resize_current he, h.unaligned⟩

theorem Newest.write (h : Newest s r rest) (hc : h'.chunks = s.heap.chunks)
    (hframe : ∀ x, x < r.start ∨ r.start + r.size ≤ x → h'.byte x = s.heap.byte x) (written : ℕ → Option UInt8)
    (hw : ∀ i < r.size, Holds .pod (written i) (h'.byte (r.start + i))) :
    Newest { s with heap := h' } { r with written := written } rest where
  inv := written_inv h.inv hc hframe written hw
  last hb r' rest' heq := by
    cases heq
    exact h.last hb r rest rfl
  current := h.current
  unaligned := h.unaligned

end

/-! ## The attempts -/

/-- A region that was written with a text. -/
structure Is (r : Region) (text : List UInt8) : Prop where
  size : r.size = text.length
  written : ∀ i < r.size, r.written i = text[i]?

/-- What is read is written. -/
theorem holds_of_read {h : Heap} {a : ℕ} {bytes : List UInt8} (hread : h.read a bytes.length = bytes) (i : ℕ) :
    Holds .pod bytes[i]? (h.byte (a + i)) := by
  cases hget : bytes[i]? with
  | none => exact fun hkind => absurd hkind (by decide)
  | some b =>
    have hi : i < bytes.length := (List.getElem?_eq_some_iff.mp hget).1
    have hbyte : (h.read a bytes.length)[i]? = some (h.byte (a + i)) := by
      rw [Heap.read, List.getElem?_map, List.getElem?_range hi, Option.map_some]
    rw [hread, hget] at hbyte
    exact (Option.some.inj hbyte).symm

/-- One of the buffers holds a text of this length, and the text is not empty. -/
def Fits (len attempts str_size : ℕ) : Prop := 0 < len ∧ ∃ i < attempts, len < 2 ^ i * str_size

theorem fits_succ {len attempts str_size : ℕ} :
    Fits len (attempts + 1) str_size ↔ (0 < len ∧ len < str_size) ∨ Fits len attempts (str_size * 2) := by
  have hdouble : ∀ i, 2 ^ (i + 1) * str_size = 2 ^ i * (str_size * 2) := fun i => by ring
  constructor
  · rintro ⟨hpos, i, hi, hlt⟩
    cases i with
    | zero => exact .inl ⟨hpos, by omega⟩
    | succ i => exact .inr ⟨hpos, i, Nat.lt_of_succ_lt_succ hi, hdouble i ▸ hlt⟩
  · rintro (⟨hpos, hlt⟩ | ⟨hpos, i, hi, hlt⟩)
    · exact ⟨hpos, 0, Nat.succ_pos attempts, by omega⟩
    · exact ⟨hpos, i + 1, Nat.succ_lt_succ hi, (hdouble i).symm ▸ hlt⟩

/-- What becomes of a buffer: the text, or the buffer that is one too many,
which begins with the byte `v` that a failed call leaves. -/
structure Became (text : List UInt8) (v : Option UInt8) (attempts str_size : ℕ) (r r' : Region) : Prop where
  fits : Fits text.length attempts str_size → Is r' text
  grown : ¬ Fits text.length attempts str_size → r'.size = 2 ^ attempts * str_size ∧
    (text ≠ [] → r'.written 0 = if attempts = 0 then r.written 0 else v)

section
variable {text : List UInt8 → tm → List UInt8} {strftime : strftime} {malloc : Heap → ℕ → Option Malloced}
  {e : date_strftime_kernel_extra} {tm_val : tm} {v : Option UInt8} {rest : List Region}

theorem attemptLoop_succ (attempts str_size : ℕ) (s : State) (dst_d : string_data) :
    attemptLoop strftime malloc e tm_val (attempts + 1) str_size s dst_d =
      if 0 < (strftime s.heap dst_d.first str_size e.format tm_val).len then
        call (resize .pod malloc (strftime s.heap dst_d.first str_size e.format tm_val).len dst_d.first dst_d.last
          { s with heap := (strftime s.heap dst_d.first str_size e.format tm_val).heap })
      else if (strftime s.heap dst_d.first str_size e.format tm_val).errno ≠ 0 then throw (.runtime_error (errorText e))
      else
        call (resize .pod malloc (str_size * 2) dst_d.first dst_d.last
          { s with heap := (strftime s.heap dst_d.first str_size e.format tm_val).heap }) >>= fun x =>
            attemptLoop strftime malloc e tm_val attempts (str_size * 2) x.1 x.2 := rfl

theorem attemptLoop_spec (hc : Conforms text strftime) (hm : Mallocs malloc 1)
    (hv : ∀ h s maxsize, 0 < maxsize → maxsize ≤ (text e.format tm_val).length →
      Holds .pod v ((strftime h s maxsize e.format tm_val).heap.byte s)) :
    ∀ (attempts str_size : ℕ) (s : State) (r : Region), Newest s r rest → r.size = str_size → 0 < str_size →
    ∃ s' r', attemptLoop strftime malloc e tm_val attempts str_size s ⟨r.start, r.start + r.size⟩ =
        pure (s', ⟨r'.start, r'.start + r'.size⟩) ∧ Newest s' r' rest ∧
      Became (text e.format tm_val) v attempts str_size r r'
  | 0, str_size, s, r, h, hsize, _ => by
    refine ⟨s, r, rfl, h, fun hfits => ?_, fun _ => ⟨?_, fun _ => rfl⟩⟩
    · obtain ⟨-, i, hi, -⟩ := hfits
      exact absurd hi (Nat.not_lt_zero i)
    · rw [pow_zero, one_mul, hsize]
  | attempts + 1, str_size, s, r, h, hsize, hpos => by
    have hchunks := hc.chunks s.heap r.start str_size e.format tm_val
    have hframe : ∀ x, x < r.start ∨ r.start + r.size ≤ x →
        (strftime s.heap r.start str_size e.format tm_val).heap.byte x = s.heap.byte x := by
      rw [hsize]
      exact hc.frame s.heap r.start str_size e.format tm_val
    rw [attemptLoop_succ]
    dsimp only
    by_cases hnow : 0 < (text e.format tm_val).length ∧ (text e.format tm_val).length < str_size
    · obtain ⟨hlen, hread⟩ := hc.fits s.heap r.start str_size e.format tm_val hnow.2
      obtain ⟨s', start, he, h'⟩ := (h.write hchunks hframe (fun i => (text e.format tm_val)[i]?)
        fun i _ => holds_of_read hread i).resize hm (hsize.symm ▸ hpos) (text e.format tm_val).length
      dsimp only at he
      rw [hlen, if_pos hnow.1, he]
      refine ⟨s', _, rfl, h', fun _ => ⟨rfl, fun i hi => ?_⟩, fun hfits => ?_⟩
      · have hi' : i < (text e.format tm_val).length := hi
        change (if i < min r.size (text e.format tm_val).length then _ else none) = _
        rw [if_pos (by omega)]
      · exact absurd (fits_succ.mpr (.inl hnow)) hfits
    · -- the call fails, or its text is empty
      have hlen : (strftime s.heap r.start str_size e.format tm_val).len = 0 := by
        rcases Nat.lt_or_ge (text e.format tm_val).length str_size with hlt | hge
        · rw [(hc.fits s.heap r.start str_size e.format tm_val hlt).1]
          omega
        · exact hc.too_small s.heap r.start str_size e.format tm_val hge
      have hfirst : ∀ i < r.size, Holds .pod (if i = 0 ∧ text e.format tm_val ≠ [] then v else none)
          ((strftime s.heap r.start str_size e.format tm_val).heap.byte (r.start + i)) := by
        intro i _
        split_ifs with hi
        · obtain ⟨rfl, hne⟩ := hi
          have hlength := List.length_pos_iff.mpr hne
          exact hv s.heap r.start str_size hpos (by omega)
        · exact fun hkind => absurd hkind (by decide)
      obtain ⟨s', start, he, h'⟩ := (h.write hchunks hframe _ hfirst).resize hm (hsize.symm ▸ hpos) (str_size * 2)
      dsimp only at he
      rw [hlen, if_neg (lt_irrefl 0), hc.errno, if_neg (by simp), he]
      obtain ⟨s'', r'', hloop, h'', hfits, hgrown⟩ := attemptLoop_spec hc hm hv attempts (str_size * 2) s' _ h' rfl (by omega)
      refine ⟨s'', r'', hloop, h'', fun hf => hfits ?_, fun hf => ?_⟩
      · exact (fits_succ.mp hf).resolve_left hnow
      · obtain ⟨hsize'', hfirst''⟩ := hgrown fun hf' => hf (fits_succ.mpr (.inr hf'))
        refine ⟨by rw [hsize'', pow_succ]; ring, fun hne => ?_⟩
        rw [hfirst'' hne, if_neg (Nat.succ_ne_zero attempts)]
        split_ifs with h0
        · change (if 0 < min r.size (str_size * 2) then _ else none) = _
          rw [if_pos (by omega)]
          exact if_pos ⟨rfl, hne⟩
        · rfl

theorem fits_three {len str_size : ℕ} : Fits len 3 str_size ↔ 0 < len ∧ len < 4 * str_size := by
  constructor
  · rintro ⟨hpos, i, hi, hlt⟩
    have hpow : 2 ^ i * str_size ≤ 2 ^ 2 * str_size := Nat.mul_le_mul_right _ (Nat.pow_le_pow_right (by decide) (by omega))
    exact ⟨hpos, by omega⟩
  · rintro ⟨hpos, hlt⟩
    exact ⟨hpos, 2, by decide, hlt⟩

theorem format_date_spec (hc : Conforms text strftime) (hm : Mallocs malloc 1) {date : Int32}
    (htm : ymd_to_struct_tm date (date_ymd.set_from_days date) = tm_val)
    (hv : ∀ h s maxsize, 0 < maxsize → maxsize ≤ (text e.format tm_val).length →
      Holds .pod v ((strftime h s maxsize e.format tm_val).heap.byte s))
    {s : State} (hi : Inv .pod s rest) :
    ∃ s' r r', format_date strftime malloc e date s = pure (s', ⟨r'.start, r'.start + r'.size⟩) ∧ Inv .pod s' (r' :: rest) ∧
      Became (text e.format tm_val) v 3 (e.format_size + 16) r r' := by
  obtain ⟨s₁, start, he, h⟩ := allocate_newest hm hi (e.format_size + 16)
  obtain ⟨s', r', hloop, h', hbecame⟩ := attemptLoop_spec hc hm hv 3 (e.format_size + 16) s₁ _ h rfl (Nat.succ_pos _)
  refine ⟨s', _, r', ?_, h'.inv, hbecame⟩
  unfold format_date
  dsimp only
  rw [htm, he]
  exact hloop

end

/-! ## Strings of the destination -/

section
variable {r : Region} {h : Heap} {text : List UInt8} {v : UInt8} {str_size : ℕ}

theorem Is.read (h' : Is r text) (hr : r.Sound .pod h) : h.read r.start r.size = text := by
  refine List.ext_getElem ((Heap.length_read _ _ _).trans h'.size) fun i hi hi' => ?_
  have hsize : i < r.size := h'.size ▸ hi'
  have hwritten := hr.holds i hsize
  rw [h'.written i hsize, List.getElem?_eq_getElem hi'] at hwritten
  have hbyte : h.byte (r.start + i) = text[i] := hwritten
  rw [← hbyte]
  simp [Heap.read]

/-- A buffer that grew past the attempts is not the text, when failed calls
leave another first byte. -/
theorem Became.read_ne {r₀ : Region} (h' : Became text (some v) 3 str_size r₀ r) (hfits : ¬ Fits text.length 3 str_size)
    (hpos : 0 < str_size) (hv : ∀ h : 0 < text.length, text[0] ≠ v) (hr : r.Sound .pod h) : h.read r.start r.size ≠ text := by
  intro hread
  obtain ⟨hsize, hfirst⟩ := h'.grown hfits
  have hlength : r.size = text.length := by rw [← hread, Heap.length_read]
  have hne : text ≠ [] := List.ne_nil_of_length_pos (by omega)
  have hholds := hr.holds 0 (by omega)
  rw [hfirst hne, if_neg (by decide)] at hholds
  have hbyte : h.byte (r.start + 0) = v := hholds
  have hget : (h.read r.start r.size)[0]? = some v := by
    rw [Heap.read, List.getElem?_map, List.getElem?_range (by omega), Option.map_some, hbyte]
  rw [hread, List.getElem?_eq_getElem (by omega)] at hget
  exact hv (by omega) (Option.some.inj hget)

end

/-! ## The kernels -/

section
variable {text : List UInt8 → tm → List UInt8} {strftime : strftime} {malloc : Heap → ℕ → Option Malloced}
  {e : date_strftime_kernel_extra}

/-- A string of the destination is a region of the block. -/
def Placed (w : World) (regions : List Region) (dst : ℤ) (P : Region → Prop) : Prop :=
  ∃ r ∈ regions, w.dst dst = ⟨r.start, r.start + r.size⟩ ∧ P r

theorem Placed.string {w : World} {regions : List Region} {dst : ℤ} {P : Region → Prop} (h : Placed w regions dst P)
    (hi : Inv .pod w.block regions) :
    ∃ r, P r ∧ r.Sound .pod w.block.heap ∧ w.string dst = w.block.heap.read r.start r.size := by
  obtain ⟨r, hr, hdst, hP⟩ := h
  refine ⟨r, hP, hi.sound r hr, ?_⟩
  rw [World.string, hdst, Nat.add_sub_cancel_left]

/-- The region a date became. -/
def Formed (text : List UInt8 → tm → List UInt8) (v : Option UInt8) (e : date_strftime_kernel_extra) (tm_val : tm)
    (r : Region) : Prop :=
  ∃ r₀, Became (text e.format tm_val) v 3 (e.format_size + 16) r₀ r

theorem single_unary_spec (hc : Conforms text strftime) (hm : Mallocs malloc 1) {v : Option UInt8} {tm_val : tm} {date : Int32}
    (htm : ymd_to_struct_tm date (date_ymd.set_from_days date) = tm_val)
    (hv : ∀ h s maxsize, 0 < maxsize → maxsize ≤ (text e.format tm_val).length →
      Holds .pod v ((strftime h s maxsize e.format tm_val).heap.byte s))
    (dst : ℤ) {w : World} {regions : List Region} (hi : Inv .pod w.block regions) :
    ∃ w' r, single_unary strftime malloc e dst date w = pure w' ∧ Inv .pod w'.block (r :: regions) ∧
      w'.dst dst = ⟨r.start, r.start + r.size⟩ ∧ (∀ a, a ≠ dst → w'.dst a = w.dst a) ∧ Formed text v e tm_val r := by
  obtain ⟨s', r₀, r, he, hi', hr⟩ := format_date_spec hc hm htm hv hi
  refine ⟨⟨s', Function.update w.dst dst ⟨r.start, r.start + r.size⟩⟩, r, ?_, hi', Function.update_self _ _ _,
    fun a ha => Function.update_of_ne ha _ _, r₀, hr⟩
  unfold single_unary
  rw [he]
  rfl

theorem strided_unary_succ (dst dst_stride : ℤ) (src : ℤ → Int32) (src0 src0_stride : ℤ) (count : ℕ) (w : World) :
    strided_unary strftime malloc e dst dst_stride src src0 src0_stride (count + 1) w =
      single_unary strftime malloc e dst (src src0) w >>=
        strided_unary strftime malloc e (dst + dst_stride) dst_stride src (src0 + src0_stride) src0_stride count := rfl

/-- The strings stand apart from one another, so a later one leaves an earlier
one as it is. -/
theorem strided_unary_spec (hc : Conforms text strftime) (hm : Mallocs malloc 1) {v : tm → Option UInt8}
    (hv : ∀ tm_val h s maxsize, 0 < maxsize → maxsize ≤ (text e.format tm_val).length →
      Holds .pod (v tm_val) ((strftime h s maxsize e.format tm_val).heap.byte s))
    (src : ℤ → Int32) {dst_stride : ℤ} (src0_stride : ℤ) :
    ∀ (count : ℕ) (dst src0 : ℤ) (date : ℕ → date_ymd) (w : World) (regions : List Region), Inv .pod w.block regions →
    (∀ i < count, (date i).isValid = true ∧ src (src0 + i * src0_stride) = (date i).toDays) →
    (count ≤ 1 ∨ dst_stride ≠ 0) →
    ∃ w' regions', strided_unary strftime malloc e dst dst_stride src src0 src0_stride count w = pure w' ∧
      Inv .pod w'.block regions' ∧ regions ⊆ regions' ∧
      (∀ a, (∀ i < count, a ≠ dst + i * dst_stride) → w'.dst a = w.dst a) ∧
      ∀ i < count, Placed w' regions' (dst + i * dst_stride) (Formed text (v (calendar_tm (date i))) e (calendar_tm (date i)))
  | 0, dst, src0, date, w, regions, hi, _, _ =>
    ⟨w, regions, rfl, hi, fun _ h => h, fun _ _ => rfl, fun i h => absurd h (Nat.not_lt_zero i)⟩
  | count + 1, dst, src0, date, w, regions, hi, hdate, hdst => by
    obtain ⟨hvalid, hsrc⟩ := hdate 0 (Nat.succ_pos count)
    rw [Nat.cast_zero, zero_mul, add_zero] at hsrc
    have htm := struct_tm_of_date hvalid
    rw [← hsrc] at htm
    obtain ⟨w₁, r, he₁, hi₁, hdst₁, hother₁, hr⟩ := single_unary_spec hc hm htm (hv _) dst hi
    have hnext : ∀ (p s : ℤ) (i : ℕ), p + s + i * s = p + (i + 1 : ℕ) * s := fun p s i => by push_cast; ring
    obtain ⟨w', regions', he', hi', hsub, hother', hplaced⟩ := strided_unary_spec hc hm hv src src0_stride count
      (dst + dst_stride) (src0 + src0_stride) (fun i => date (i + 1)) w₁ (r :: regions) hi₁
      (fun i hlt => by rw [hnext]; exact hdate (i + 1) (Nat.succ_lt_succ hlt)) (hdst.imp_left fun h => by omega)
    refine ⟨w', regions', ?_, hi', fun x hx => hsub (List.mem_cons_of_mem r hx), fun a ha => ?_, fun i hlt => ?_⟩
    · rw [strided_unary_succ, he₁]
      exact he'
    · rw [hother' a fun i hlt => by rw [hnext]; exact ha (i + 1) (Nat.succ_lt_succ hlt)]
      refine hother₁ a ?_
      have h0 := ha 0 (Nat.succ_pos count)
      rwa [Nat.cast_zero, zero_mul, add_zero] at h0
    · cases i with
      | zero =>
        refine ⟨r, hsub List.mem_cons_self, ?_, hr⟩
        rw [Nat.cast_zero, zero_mul, add_zero, hother' dst fun j hlt heq => ?_, hdst₁]
        rcases hdst with hone | hne
        · omega
        · rw [hnext] at heq
          have hzero : ((j + 1 : ℕ) : ℤ) * dst_stride = 0 := by omega
          rcases Int.mul_eq_zero.mp hzero with h0 | h0
          · omega
          · exact hne h0
      | succ i =>
        have hspec := hplaced i (Nat.lt_of_succ_lt_succ hlt)
        rwa [hnext] at hspec

end

/-! ## When `malloc` fails -/

/-- `malloc` where it answers, and other memory where it does not. -/
def answered (malloc : Heap → ℕ → Option Malloced) (h : Heap) (n : ℕ) : Option Malloced := (malloc h n).orElse fun _ => bump 1 h n

theorem mallocs_answered {malloc : Heap → ℕ → Option Malloced} (ha : Answers malloc) : Mallocs (answered malloc) 1 := by
  intro h n
  unfold answered
  cases hr : malloc h n with
  | none =>
    obtain ⟨r, he, hf, hd⟩ := mallocs_bump Nat.one_pos h n
    exact ⟨r, he, hf, hd⟩
  | some r => exact ⟨r, rfl, ha h n r hr, Nat.one_dvd _⟩

/-- A run that throws, or comes to what another one does. -/
def ThrowsOr {α : Type} (x y : Run α) : Prop := (∃ e, x = throw e) ∨ x = y

section
variable {α β : Type} {strftime : strftime} {malloc : Heap → ℕ → Option Malloced} {e : date_strftime_kernel_extra}

theorem ThrowsOr.bind {x y : Run α} {f g : α → Run β} (hx : ThrowsOr x y) (hf : ∀ a, ThrowsOr (f a) (g a)) :
    ThrowsOr (x >>= f) (y >>= g) := by
  rcases hx with ⟨e, rfl⟩ | rfl
  · exact .inl ⟨e, rfl⟩
  · rcases x with _ | (e | a)
    · exact .inr rfl
    · exact .inl ⟨e, rfl⟩
    · exact hf a

theorem append_memory_answered (n : ℕ) (s : State) :
    (∃ s', append_memory malloc n s = .error s') ∨ append_memory malloc n s = append_memory (answered malloc) n s := by
  unfold append_memory answered
  cases malloc s.heap n with
  | none => exact .inl ⟨_, rfl⟩
  | some r => exact .inr rfl

theorem allocate_answered (n alignment : ℕ) (s : State) :
    ThrowsOr (call (allocate .pod malloc n alignment s)) (call (allocate .pod (answered malloc) n alignment s)) := by
  unfold allocate
  dsimp only
  split_ifs
  · rcases @append_memory_answered malloc
      (max (s.emb.m_total_allocated_capacity - ((s.emb.m_memory_end : ℤ) - s.emb.m_memory_current)) n).toNat
      { s with emb.m_total_allocated_capacity :=
        s.emb.m_total_allocated_capacity - ((s.emb.m_memory_end : ℤ) - s.emb.m_memory_current) } with ⟨s', h⟩ | h
    · rw [h]
      exact .inl ⟨_, rfl⟩
    · rw [h]
      exact .inr rfl
  · exact .inr rfl

theorem resize_answered (n a z : ℕ) (s : State) :
    ThrowsOr (call (resize .pod malloc n a z s)) (call (resize .pod (answered malloc) n a z s)) := by
  unfold resize
  dsimp only
  split_ifs
  · exact .inr rfl
  · exact .inr rfl
  · exact .inr rfl
  · rcases @append_memory_answered malloc (max s.emb.m_total_allocated_capacity n).toNat s with ⟨s', h⟩ | h
    · rw [h]
      exact .inl ⟨_, rfl⟩
    · rw [h]
      exact .inr rfl

theorem attemptLoop_answered (tm_val : tm) : ∀ (attempts str_size : ℕ) (s : State) (dst_d : string_data),
    ThrowsOr (attemptLoop strftime malloc e tm_val attempts str_size s dst_d)
      (attemptLoop strftime (answered malloc) e tm_val attempts str_size s dst_d)
  | 0, _, _, _ => .inr rfl
  | attempts + 1, str_size, s, dst_d => by
    rw [attemptLoop_succ, attemptLoop_succ]
    split_ifs
    · exact resize_answered _ _ _ _
    · exact .inr rfl
    · exact (resize_answered _ _ _ _).bind fun x => attemptLoop_answered tm_val attempts (str_size * 2) x.1 x.2

theorem single_unary_answered (dst : ℤ) (date : Int32) (w : World) :
    ThrowsOr (single_unary strftime malloc e dst date w) (single_unary strftime (answered malloc) e dst date w) :=
  ((allocate_answered _ _ _).bind fun x => attemptLoop_answered _ 3 _ x.1 x.2).bind fun _ => .inr rfl

theorem strided_unary_answered (src : ℤ → Int32) (dst_stride src0_stride : ℤ) : ∀ (count : ℕ) (dst src0 : ℤ) (w : World),
    ThrowsOr (strided_unary strftime malloc e dst dst_stride src src0 src0_stride count w)
      (strided_unary strftime (answered malloc) e dst dst_stride src src0 src0_stride count w)
  | 0, _, _, _ => .inr rfl
  | count + 1, dst, src0, w => by
    rw [strided_unary_succ, strided_unary_succ]
    exact (single_unary_answered dst (src src0) w).bind
      (strided_unary_answered src dst_stride src0_stride count (dst + dst_stride) (src0 + src0_stride))

theorem ThrowsOr.texts {x y : Run World} {count : ℕ} {dst : ℕ → ℤ} {texts : ℕ → List UInt8} (h : ThrowsOr x y)
    (hy : TextsOrThrows y count dst texts) : TextsOrThrows x count dst texts := by
  rcases h with ⟨e, rfl⟩ | rfl
  · exact ⟨.error e, rfl, fun w hw => absurd hw (by simp)⟩
  · exact hy

end

/-! ## A `strftime` for every text -/

/-- It ends the text with a NUL, and leaves one byte in a buffer that is too small. -/
def writes (text : List UInt8 → tm → List UInt8) : strftime := fun h s maxsize format tm_val =>
  let bytes := text format tm_val
  if bytes.length < maxsize then
    { len := bytes.length
      errno := 0
      heap := { h with byte := fun x => if s ≤ x ∧ x ≤ s + bytes.length then bytes.getD (x - s) 0 else h.byte x } }
  else if maxsize = 0 then ⟨0, 0, h⟩
  else ⟨0, 0, h.store s (bytes.headD 0 + 1)⟩

theorem conforms_writes (text : List UInt8 → tm → List UInt8) : Conforms text (writes text) where
  fits h s maxsize format tm_val hlt := by
    unfold writes
    dsimp only
    rw [if_pos hlt]
    refine ⟨rfl, List.ext_getElem (Heap.length_read _ _ _) fun i hi hi' => ?_⟩
    simp only [Heap.read, List.getElem_map, List.getElem_range]
    rw [if_pos (by omega), Nat.add_sub_cancel_left, List.getD_eq_getElem _ _ hi']
  too_small h s maxsize format tm_val hle := by
    unfold writes
    dsimp only
    rw [if_neg (Nat.not_lt.mpr hle)]
    split_ifs <;> rfl
  errno h s maxsize format tm_val := by
    unfold writes
    dsimp only
    split_ifs <;> rfl
  chunks h s maxsize format tm_val := by
    unfold writes
    dsimp only
    split_ifs <;> rfl
  frame h s maxsize format tm_val x hx := by
    unfold writes
    dsimp only
    split_ifs
    · exact if_neg (by omega)
    · rfl
    · exact if_neg (by omega)

theorem writes_leaves (text : List UInt8 → tm → List UInt8) (format : List UInt8) (tm_val : tm) (h : Heap) (s maxsize : ℕ)
    (hpos : 0 < maxsize) (hle : maxsize ≤ (text format tm_val).length) :
    Holds .pod (some ((text format tm_val).headD 0 + 1)) ((writes text h s maxsize format tm_val).heap.byte s) := by
  unfold writes
  dsimp only
  rw [if_neg (Nat.not_lt.mpr hle), if_neg (by omega)]
  exact if_pos rfl

theorem reachable_made : ∃ s, Reachable Made (Step .pod) ⟨s, []⟩ := by
  have hm : Mallocs (bump 1) 1 := mallocs_bump Nat.one_pos
  exact ⟨_, .init ⟨bump 1, 0, ⟨fun _ => 0, []⟩, hm, rfl, rfl⟩⟩

/-! ## The result -/

/-- The text is not empty, and shorter than the third buffer. -/
def Holdable (text : List UInt8 → tm → List UInt8) (format : List UInt8) (x : date_ymd) : Prop :=
  0 < (text format (calendar_tm x)).length ∧ (text format (calendar_tm x)).length < 4 * (format.length + 16)

/-- What a kernel does with every `strftime`, `malloc` and memory block there can be. -/
def Always (text : List UInt8 → tm → List UInt8) (run : strftime → (Heap → ℕ → Option Malloced) → World → Run World)
    (count : ℕ) (dst : ℕ → ℤ) (texts : ℕ → List UInt8) : Prop :=
  ∀ (strftime : strftime) (malloc : Heap → ℕ → Option Malloced) (w : World) (regions : List Region),
    Conforms text strftime → Answers malloc → Reachable Made (Step .pod) ⟨w.block, regions⟩ →
    TextsOrThrows (run strftime malloc w) count dst texts

theorem ne_succ (b : UInt8) : b ≠ b + 1 := by
  intro h
  have hnat := congrArg UInt8.toNat h
  have hone : (1 : UInt8).toNat = 1 := rfl
  rw [UInt8.toNat_add, hone] at hnat
  have hlt := b.toNat_lt
  omega

theorem strided_texts_iff (text : List UInt8 → tm → List UInt8) (format : List UInt8) (count : ℕ) (dst dst_stride : ℤ)
    (src : ℤ → Int32) (src0 src0_stride : ℤ) (date : ℕ → date_ymd)
    (hdate : ∀ i < count, (date i).isValid = true ∧ src (src0 + i * src0_stride) = (date i).toDays)
    (hdst : count ≤ 1 ∨ dst_stride ≠ 0) :
    Always text (fun strftime malloc w =>
        strided_unary strftime malloc ⟨format.length, format⟩ dst dst_stride src src0 src0_stride count w)
      count (fun i => dst + i * dst_stride) (fun i => text format (calendar_tm (date i))) ↔
    ∀ i < count, Holdable text format (date i) := by
  constructor
  · intro h i hi
    by_contra hnot
    obtain ⟨s, hs⟩ := reachable_made
    have hm : Mallocs (bump 1) 1 := mallocs_bump Nat.one_pos
    have hanswers : Answers (bump 1) := by
      intro h n r hr
      obtain ⟨r', he, hf, -⟩ := hm h n
      rw [hr] at he
      exact Option.some.inj he ▸ hf
    obtain ⟨w', regions', he, hi', -, -, hplaced⟩ := strided_unary_spec (conforms_writes text) hm
      (e := ⟨format.length, format⟩) (v := fun tm_val => some ((text format tm_val).headD 0 + 1))
      (writes_leaves text format) src src0_stride count dst src0 date ⟨s, fun _ => ⟨0, 0⟩⟩ [] (reachable_good hs).1 hdate hdst
    obtain ⟨r, ⟨r₀, hr⟩, hsound, hstring⟩ := (hplaced i hi).string hi'
    obtain ⟨x, hx, htexts⟩ := h (writes text) (bump 1) ⟨s, fun _ => ⟨0, 0⟩⟩ [] (conforms_writes text) hanswers hs
    have hreturns : x = .ok w' := Option.some.inj (hx.symm.trans he)
    refine hr.read_ne (fun hfits => hnot (fits_three.mp hfits)) (Nat.succ_pos _) (fun hpos => ?_) hsound
      (hstring.symm.trans (htexts w' hreturns i hi))
    rw [List.headD_eq_head?_getD, ← List.head_eq_getElem_zero (List.ne_nil_of_length_pos hpos),
      List.head?_eq_some_head (List.ne_nil_of_length_pos hpos), Option.getD_some]
    exact ne_succ _
  · intro hfits strftime malloc w regions hc ha hw
    obtain ⟨w', regions', he, hi', -, -, hplaced⟩ := strided_unary_spec hc (mallocs_answered ha)
      (e := ⟨format.length, format⟩) (v := fun _ => none) (fun _ _ _ _ _ _ hkind => absurd hkind (by decide)) src src0_stride
      count dst src0 date w regions (reachable_good hw).1 hdate hdst
    refine (strided_unary_answered src dst_stride src0_stride count dst src0 w).texts ⟨.ok w', he, fun w'' hw'' i hi => ?_⟩
    obtain rfl : w' = w'' := Except.ok.inj hw''
    obtain ⟨r, ⟨r₀, hr⟩, hsound, hstring⟩ := (hplaced i hi).string hi'
    rw [hstring]
    exact (hr.fits (fits_three.mpr (hfits i hi))).read hsound

theorem single_unary_eq (strftime : strftime) (malloc : Heap → ℕ → Option Malloced) (e : date_strftime_kernel_extra) (dst : ℤ)
    (date : Int32) (w : World) :
    single_unary strftime malloc e dst date w = strided_unary strftime malloc e dst 0 (fun _ => date) 0 0 1 w := by
  unfold strided_unary
  rw [strided_one]

/-- Single and strided, for all formats and dates: the strings are the texts,
whatever the memory holds, just when no text is empty or too long for the
third buffer. -/
theorem text_iff (text : List UInt8 → tm → List UInt8) (format : List UInt8) (x : date_ymd) (hx : x.isValid = true) (count : ℕ)
    (dst dst_stride : ℤ) (src : ℤ → Int32) (src0 src0_stride : ℤ) (date : ℕ → date_ymd)
    (hdate : ∀ i < count, (date i).isValid = true ∧ src (src0 + i * src0_stride) = (date i).toDays)
    (hdst : count ≤ 1 ∨ dst_stride ≠ 0) :
    (Always text (fun strftime malloc w => single_unary strftime malloc ⟨format.length, format⟩ dst x.toDays w) 1
        (fun _ => dst) (fun _ => text format (calendar_tm x)) ↔ Holdable text format x) ∧
    (Always text (fun strftime malloc w =>
        strided_unary strftime malloc ⟨format.length, format⟩ dst dst_stride src src0 src0_stride count w)
      count (fun i => dst + i * dst_stride) (fun i => text format (calendar_tm (date i))) ↔
    ∀ i < count, Holdable text format (date i)) := by
  refine ⟨?_, strided_texts_iff text format count dst dst_stride src src0 src0_stride date hdate hdst⟩
  have hone := strided_texts_iff text format 1 dst 0 (fun _ => x.toDays) 0 0 (fun _ => x) (fun _ _ => ⟨hx, rfl⟩) (.inl le_rfl)
  simp only [mul_zero, add_zero, ← single_unary_eq] at hone
  rw [hone]
  exact ⟨fun h => h 0 Nat.one_pos, fun h _ _ => h⟩

/-- The text of the format `%d`. -/
def dayOfMonth (_ : List UInt8) (tm_val : tm) : List UInt8 :=
  [UInt8.ofNat (48 + tm_val.tm_mday.toNat / 10), UInt8.ofNat (48 + tm_val.tm_mday.toNat % 10)]

theorem text_leap_day :
    Always dayOfMonth (fun strftime malloc w =>
        strided_unary strftime malloc ⟨2, [37, 100]⟩ 0 16 (fun _ => date_ymd.toDays ⟨2000, 2, 29⟩) 0 0 3 w)
      3 (fun i => 0 + i * 16) (fun _ => [50, 57]) :=
  (text_iff dayOfMonth [37, 100] ⟨2000, 2, 29⟩ (by decide) 3 0 16 (fun _ => date_ymd.toDays ⟨2000, 2, 29⟩) 0 0
    (fun _ => ⟨2000, 2, 29⟩) (fun _ _ => ⟨by decide, rfl⟩) (.inr (by decide))).2.mpr fun _ _ => ⟨by decide, by decide⟩

/-- Four times `Tue Feb 29 00:00:00 2000`, the text of `%c%c%c%c`: 96 bytes, as
many as the third buffer has. -/
def fourTimes (_ : List UInt8) (_ : tm) : List UInt8 :=
  (List.replicate 4 [84, 117, 101, 32, 70, 101, 98, 32, 50, 57, 32, 48, 48, 58, 48, 48, 58, 48, 48, 32, 50, 48, 48, 48]).flatten

theorem text_cut_off : ¬ ∀ (text : List UInt8 → tm → List UInt8) (format : List UInt8) (x : date_ymd) (dst : ℤ), format ≠ [] →
    x.isValid = true →
    Always text (fun strftime malloc w => single_unary strftime malloc ⟨format.length, format⟩ dst x.toDays w) 1
      (fun _ => dst) (fun _ => text format (calendar_tm x)) := by
  intro h
  have halways := h fourTimes [37, 99, 37, 99, 37, 99, 37, 99] ⟨2000, 2, 29⟩ 0 (List.cons_ne_nil _ _) (by decide)
  simp only [single_unary_eq] at halways
  have hone := (strided_texts_iff fourTimes [37, 99, 37, 99, 37, 99, 37, 99] 1 0 0 (fun _ => date_ymd.toDays ⟨2000, 2, 29⟩) 0 0
    (fun _ => ⟨2000, 2, 29⟩) (fun _ _ => ⟨by decide, rfl⟩) (.inl le_rfl)).mp
  simp only [mul_zero, add_zero] at hone
  exact absurd (hone halways 0 Nat.one_pos).2 (by decide)

end Dynd.Strftime
