import Dynd.Lib.Heap
import Dynd.Lib.Reachable
import Mathlib.Data.Nat.Bitwise
import Mathlib.Tactic
/-!
# POD and zero-initialised memory blocks

`pod_memory_block.cpp` and `zeroinit_memory_block.cpp`: a block gives out
regions from the front of its newest chunk, and takes a new chunk when one
does not fit. The two files differ in the zeroing alone.

`regions_sound`: whatever the order of the calls, the regions given out stand
in live chunks, apart from one another, aligned, and hold what the caller
wrote; a resize keeps the bytes both sizes have.

Addresses and sizes are natural numbers. `malloc` is a parameter; its failing
is modelled, the runs are those in which it answers.
-/
namespace Dynd.PodMemoryBlock

open Dynd.Lib

/-- Which of the two files. -/
inductive block_kind where
  | pod
  | zeroinit
deriving DecidableEq

def block_kind.name : block_kind → String
  | .pod => "pod_memory_block"
  | .zeroinit => "zeroinit_memory_block"

inductive Thrown where
  | bad_alloc
  | runtime_error (what : String)
deriving DecidableEq

structure memory_block where
  m_total_allocated_capacity : ℤ
  m_memory_handles : List ℕ
  m_memory_begin : ℕ
  m_memory_current : ℕ
  m_memory_end : ℕ

structure State where
  emb : memory_block
  heap : Heap

/-- What a call comes to; `undefined` when it touches memory that is not
live. -/
inductive Outcome where
  | returns (s : State) (out_begin out_end : ℕ)
  | throws (s : State) (e : Thrown)
  | undefined

/-! ## The calls -/

/-- The state a failing `malloc` leaves is the error. -/
def append_memory (malloc : Heap → ℕ → Option Malloced) (capacity_bytes : ℕ) (s : State) : Except State State :=
  match malloc s.heap capacity_bytes with
  | none => .error { s with emb.m_memory_begin := 0 }
  | some r => .ok {
      emb := {
        m_total_allocated_capacity := s.emb.m_total_allocated_capacity + capacity_bytes
        m_memory_handles := s.emb.m_memory_handles ++ [r.address]
        m_memory_begin := r.address
        m_memory_current := r.address
        m_memory_end := r.address + capacity_bytes }
      heap := s.heap.malloc r capacity_bytes }

/-- The `memset` up to `stop` that only the zeroinit block has. A negative
count is a huge one. -/
def zero_fill (kind : block_kind) (h : Heap) (start stop : ℕ) : Option Heap :=
  match kind with
  | .pod => some h
  | .zeroinit => if stop < start then none else h.memset start 0 (stop - start)

/-- The end of `allocate`: the region becomes the last one given out. -/
def hand_out (kind : block_kind) (out_begin size_bytes : ℕ) (s : State) : Outcome :=
  match zero_fill kind s.heap out_begin (out_begin + size_bytes) with
  | none => .undefined
  | some heap => .returns ⟨{ s.emb with m_memory_current := out_begin + size_bytes }, heap⟩ out_begin (out_begin + size_bytes)

/-- `(current + alignment - 1) & ~(alignment - 1)`. -/
def align_up (current alignment : ℕ) : ℕ := Nat.ldiff (current + alignment - 1) (alignment - 1)

def allocate (kind : block_kind) (malloc : Heap → ℕ → Option Malloced) (size_bytes alignment : ℕ) (s : State) : Outcome :=
  let out_begin := align_up s.emb.m_memory_current alignment
  if s.emb.m_memory_end < out_begin + size_bytes then
    let total := s.emb.m_total_allocated_capacity - ((s.emb.m_memory_end : ℤ) - s.emb.m_memory_current)
    match append_memory malloc (max total size_bytes).toNat { s with emb.m_total_allocated_capacity := total } with
    | .error s => .throws s .bad_alloc
    | .ok s => hand_out kind s.emb.m_memory_begin size_bytes s
  else hand_out kind out_begin size_bytes s

def resize (kind : block_kind) (malloc : Heap → ℕ → Option Malloced) (size_bytes inout_begin inout_end : ℕ)
    (s : State) : Outcome :=
  if inout_end ≠ s.emb.m_memory_current then
    .throws s (.runtime_error (kind.name ++ " resize must be called only using the most recently allocated memory"))
  else if inout_begin + size_bytes ≤ s.emb.m_memory_end then
    let stop := inout_begin + size_bytes
    match if inout_end < stop then zero_fill kind s.heap inout_end stop else some s.heap with
    | none => .undefined
    | some heap => .returns ⟨{ s.emb with m_memory_current := stop }, heap⟩ inout_begin stop
  else
    let old_size_bytes := inout_end - inout_begin
    match append_memory malloc (max s.emb.m_total_allocated_capacity size_bytes).toNat s with
    | .error s => .throws s .bad_alloc
    | .ok s =>
      let stop := s.emb.m_memory_begin + size_bytes
      match s.heap.memcpy s.emb.m_memory_begin inout_begin old_size_bytes with
      | none => .undefined
      | some heap =>
        match zero_fill kind heap (s.emb.m_memory_begin + old_size_bytes) stop with
        | none => .undefined
        | some heap => .returns
            ⟨{ s.emb with
                m_memory_current := stop
                m_total_allocated_capacity := s.emb.m_total_allocated_capacity - ((inout_end : ℤ) - inout_begin) },
              heap⟩ s.emb.m_memory_begin stop

def finalize (s : State) : State :=
  { s with emb := { s.emb with
    m_total_allocated_capacity :=
      if s.emb.m_memory_current < s.emb.m_memory_end then
        s.emb.m_total_allocated_capacity - ((s.emb.m_memory_end : ℤ) - s.emb.m_memory_current)
      else s.emb.m_total_allocated_capacity
    m_memory_begin := 0
    m_memory_current := 0
    m_memory_end := 0 } }

/-- All the chunks but the newest are freed. -/
def reset (s : State) : Option State :=
  let rewind (s : State) : State := { s with emb := { s.emb with
    m_memory_current := s.emb.m_memory_begin
    m_total_allocated_capacity := (s.emb.m_memory_end : ℤ) - s.emb.m_memory_begin } }
  if 1 < s.emb.m_memory_handles.length then
    (s.emb.m_memory_handles.dropLast.foldlM Heap.free s.heap).map fun heap =>
      rewind { emb := { s.emb with m_memory_handles := s.emb.m_memory_handles.getLast?.toList }, heap := heap }
  else some (rewind s)

/-- `make_pod_memory_block`, `make_zeroinit_memory_block`. -/
def make_memory_block (malloc : Heap → ℕ → Option Malloced) (initial_capacity_bytes : ℕ) (heap : Heap) :
    Except State State :=
  append_memory malloc initial_capacity_bytes ⟨⟨0, [], 0, 0, 0⟩, heap⟩

/-! ## Runs -/

/-- A region the caller holds, and the bytes of it the caller has written. -/
structure Region where
  start : ℕ
  size : ℕ
  alignment : ℕ
  written : ℕ → Option UInt8

/-- A block with the regions given out and not reset, the newest first. -/
structure World where
  state : State
  regions : List Region

inductive Call where
  | allocate (malloc : Heap → ℕ → Option Malloced) (size_bytes alignment : ℕ)
  | resize (malloc : Heap → ℕ → Option Malloced) (size_bytes : ℕ)
  | finalize
  | reset
  /-- The caller writes one byte of its `k`-th region. -/
  | write (k offset : ℕ) (v : UInt8)

def Region.resized (r : Region) (start size : ℕ) : Region :=
  { r with start := start, size := size, written := fun i => if i < min r.size size then r.written i else none }

def Region.wrote (r : Region) (offset : ℕ) (v : UInt8) : Region :=
  { r with written := fun i => if i = offset then some v else r.written i }

/-- One call on a block; `none` when it is undefined. -/
def perform (kind : block_kind) (w : World) : Call → Option World
  | .allocate malloc size_bytes alignment =>
    match PodMemoryBlock.allocate kind malloc size_bytes alignment w.state with
    | .returns s out_begin out_end => some ⟨s, ⟨out_begin, out_end - out_begin, alignment, fun _ => none⟩ :: w.regions⟩
    | .throws s _ => some ⟨s, w.regions⟩
    | .undefined => none
  | .resize malloc size_bytes =>
    match w.regions with
    | [] => none
    | r :: rest =>
      match PodMemoryBlock.resize kind malloc size_bytes r.start (r.start + r.size) w.state with
      | .returns s out_begin out_end => some ⟨s, r.resized out_begin (out_end - out_begin) :: rest⟩
      | .throws s _ => some ⟨s, r :: rest⟩
      | .undefined => none
  | .finalize => some ⟨PodMemoryBlock.finalize w.state, w.regions⟩
  | .reset => (PodMemoryBlock.reset w.state).map fun s => ⟨s, []⟩
  | .write k offset v =>
    match w.regions[k]? with
    | none => none
    | some r =>
      some ⟨{ w.state with heap := w.state.heap.store (r.start + offset) v }, w.regions.set k (r.wrote offset v)⟩

/-- `malloc` answers every request, with memory that is not in use and is
aligned. -/
def Mallocs (malloc : Heap → ℕ → Option Malloced) (alignment : ℕ) : Prop :=
  ∀ h n, ∃ r, malloc h n = some r ∧ h.Fresh r.address n ∧ alignment ∣ r.address

/-- What the caller keeps to: alignments are powers of two, there is a region
to resize, and a write stays in its region. -/
def Call.Allowed (w : World) : Call → Prop
  | .allocate malloc _ alignment => (∃ k, alignment = 2 ^ k) ∧ Mallocs malloc alignment
  | .resize malloc _ => ∃ r rest, w.regions = r :: rest ∧ Mallocs malloc r.alignment
  | .finalize | .reset => True
  | .write k offset _ => ∃ r, w.regions[k]? = some r ∧ offset < r.size

def Made (w : World) : Prop :=
  ∃ malloc initial_capacity_bytes heap, Mallocs malloc 1 ∧
    make_memory_block malloc initial_capacity_bytes heap = .ok w.state ∧ w.regions = []

def Step (kind : block_kind) (w w' : World) : Prop := ∃ call : Call, call.Allowed w ∧ perform kind w call = some w'

/-! ## What the block keeps -/

/-- What the caller may read at a byte: what it wrote, or zero in a zeroinit
block. -/
def Holds (kind : block_kind) (written : Option UInt8) (byte : UInt8) : Prop :=
  match written with
  | some v => byte = v
  | none => kind = .zeroinit → byte = 0

/-- The region and the bytes in it. -/
structure Region.Sound (kind : block_kind) (h : Heap) (r : Region) : Prop where
  inside : h.Inside r.start r.size
  aligned : r.alignment ∣ r.start
  holds : ∀ i < r.size, Holds kind (r.written i) (h.byte (r.start + i))

def Region.Disjoint (r r' : Region) : Prop := Apart r.start r.size r'.start r'.size

/-- The region is in the part of the newest chunk given out, or out of that
chunk. -/
def Region.Placed (emb : memory_block) (bound : ℕ) (r : Region) : Prop :=
  (emb.m_memory_begin ≤ r.start ∧ r.start + r.size ≤ bound) ∨
    Apart r.start r.size emb.m_memory_begin (emb.m_memory_end - emb.m_memory_begin)

/-- The chunks and pointers of a block. -/
structure memory_block.Linked (emb : memory_block) (h : Heap) : Prop where
  handles : ∀ p ∈ emb.m_memory_handles, p ≠ 0 ∧ ∃ c ∈ h.chunks, c.start = p
  nodup : emb.m_memory_handles.Nodup
  /-- Finalized, or the newest chunk is the last of the handles. -/
  newest : (emb.m_memory_begin = 0 ∧ emb.m_memory_current = 0 ∧ emb.m_memory_end = 0) ∨
    (emb.m_memory_handles.getLast? = some emb.m_memory_begin ∧ emb.m_memory_begin ≤ emb.m_memory_current ∧
      emb.m_memory_current ≤ emb.m_memory_end ∧
      ⟨emb.m_memory_begin, emb.m_memory_end - emb.m_memory_begin⟩ ∈ h.chunks)

structure Inv (kind : block_kind) (s : State) (regions : List Region) : Prop where
  linked : s.emb.Linked s.heap
  sound : ∀ r ∈ regions, r.Sound kind s.heap
  disjoint : regions.Pairwise Region.Disjoint
  placed : s.emb.m_memory_begin ≠ 0 → ∀ r ∈ regions, r.Placed s.emb s.emb.m_memory_current

/-- The newest region ends where the next one would start. -/
def LastEnds (emb : memory_block) (regions : List Region) : Prop :=
  emb.m_memory_begin ≠ 0 → ∀ r rest, regions = r :: rest →
    emb.m_memory_begin ≤ r.start ∧ r.start + r.size = emb.m_memory_current

variable {kind : block_kind} {s : State} {regions rest : List Region} {r : Region} {h h' : Heap}

theorem Region.Sound.of_bytes (hr : r.Sound kind h) (hi : h'.Inside r.start r.size)
    (hb : ∀ i < r.size, h'.byte (r.start + i) = h.byte (r.start + i)) : r.Sound kind h' where
  inside := hi
  aligned := hr.aligned
  holds i hn := by
    rw [hb i hn]
    exact hr.holds i hn

/-- The bytes a fill of `[start, stop)` leaves. -/
theorem zero_fill_spec (kind : block_kind) {start stop : ℕ} (hle : start ≤ stop) (hi : h.Inside start (stop - start)) :
    ∃ h', zero_fill kind h start stop = some h' ∧ h'.chunks = h.chunks ∧
      (∀ i, i < stop - start → kind = .zeroinit → h'.byte (start + i) = 0) ∧
      ∀ x, x < start ∨ stop ≤ x → h'.byte x = h.byte x := by
  unfold zero_fill
  cases kind with
  | pod =>
    refine ⟨h, rfl, rfl, ?_, fun _ _ => rfl⟩
    intro i hn hk
    cases hk
  | zeroinit =>
    obtain ⟨h', he, hc, hz, ho⟩ := Heap.memset_spec (v := 0) hi
    refine ⟨h', ?_, hc, fun i hn _ => hz i hn, fun x hx => ho x (by omega)⟩
    simp only [if_neg (Nat.not_lt.mpr hle), he]

theorem align_up_spec (current k : ℕ) : current ≤ align_up current (2 ^ k) ∧ 2 ^ k ∣ align_up current (2 ^ k) := by
  have hpos : 0 < 2 ^ k := Nat.two_pow_pos k
  have he : align_up current (2 ^ k) = (current + 2 ^ k - 1) / 2 ^ k * 2 ^ k := by
    unfold align_up
    apply Nat.eq_of_testBit_eq
    intro i
    rw [Nat.testBit_ldiff, Nat.testBit_two_pow_sub_one, Nat.testBit_mul_two_pow, Nat.testBit_div_two_pow]
    by_cases hik : i < k
    · simp [hik]
    · simp [hik, Nat.not_lt.mp hik]
  rw [he]
  refine ⟨?_, Nat.dvd_mul_left _ _⟩
  have h1 := Nat.div_add_mod (current + 2 ^ k - 1) (2 ^ k)
  have h2 := Nat.mod_lt (current + 2 ^ k - 1) hpos
  rw [Nat.mul_comm] at h1
  omega

theorem align_up_zero (k : ℕ) : align_up 0 (2 ^ k) = 0 := by
  have hpos : 0 < 2 ^ k := Nat.two_pow_pos k
  unfold align_up
  apply Nat.eq_of_testBit_eq
  intro i
  rw [Nat.testBit_ldiff, Nat.zero_add]
  simp

theorem Inv.retotal (hi : Inv kind s regions) (total : ℤ) :
    Inv kind { s with emb.m_total_allocated_capacity := total } regions :=
  ⟨⟨hi.linked.handles, hi.linked.nodup, hi.linked.newest⟩, hi.sound, hi.disjoint, hi.placed⟩

/-- Outside the newest chunk's rest, the chunk's part given out is below any
bound it is below. -/
theorem Region.Placed.apart {emb : memory_block} {bound a n : ℕ} (hr : r.Placed emb bound) (hb : bound ≤ a)
    (hbegin : emb.m_memory_begin ≤ a) (hend : a + n ≤ emb.m_memory_end) : Apart r.start r.size a n := by
  obtain ⟨_, hle⟩ | hap := hr
  · unfold Apart
    omega
  · exact hap.mono hbegin (by omega)

/-- A region given out of the newest chunk after those already given out. -/
theorem Inv.give (hi : Inv kind s rest) (emb' : memory_block) (hb : s.emb.m_memory_begin ≠ 0)
    (hbegin : s.emb.m_memory_begin ≤ r.start) (hend : r.start + r.size ≤ s.emb.m_memory_end)
    (hrest : ∀ r' ∈ rest, r'.Placed s.emb r.start) (halign : r.alignment ∣ r.start)
    (hchunks : h'.chunks = s.heap.chunks)
    (hbytes : ∀ x, x < r.start ∨ r.start + r.size ≤ x → h'.byte x = s.heap.byte x)
    (hholds : ∀ i < r.size, Holds kind (r.written i) (h'.byte (r.start + i)))
    (he : emb'.m_memory_handles = s.emb.m_memory_handles ∧ emb'.m_memory_begin = s.emb.m_memory_begin ∧
      emb'.m_memory_end = s.emb.m_memory_end ∧ emb'.m_memory_current = r.start + r.size) :
    Inv kind ⟨emb', h'⟩ (r :: rest) ∧ LastEnds emb' (r :: rest) := by
  obtain ⟨eh, eb, ee, ec⟩ := he
  obtain ⟨h0, _⟩ | ⟨hlast, hbc, hce, hmem⟩ := hi.linked.newest
  · exact absurd h0 hb
  have hap : ∀ r' ∈ rest, Apart r.start r.size r'.start r'.size := fun r' hr' =>
    ((hrest r' hr').apart le_rfl hbegin hend).symm
  have hplaced : ∀ r' ∈ r :: rest, r'.Placed emb' (r.start + r.size) := by
    intro r' hr'
    unfold Region.Placed
    rw [eb, ee]
    obtain rfl | hr' := List.mem_cons.mp hr'
    · exact .inl ⟨hbegin, le_rfl⟩
    · exact (hrest r' hr').imp_left fun ⟨h1, h2⟩ => ⟨h1, by omega⟩
  refine ⟨⟨⟨?_, ?_, ?_⟩, ?_, ?_, ?_⟩, ?_⟩
  · rw [eh]
    show ∀ p ∈ _, p ≠ 0 ∧ ∃ c ∈ h'.chunks, c.start = p
    rw [hchunks]
    exact hi.linked.handles
  · rw [eh]
    exact hi.linked.nodup
  · right
    rw [eh, eb, ee, ec]
    exact ⟨hlast, by omega, hend, hchunks ▸ hmem⟩
  · intro r' hr'
    obtain rfl | hr' := List.mem_cons.mp hr'
    · refine ⟨.inr ⟨_, hchunks ▸ hmem, hbegin, ?_⟩, halign, hholds⟩
      show r'.start + r'.size ≤ s.emb.m_memory_begin + (s.emb.m_memory_end - s.emb.m_memory_begin)
      omega
    · refine (hi.sound r' hr').of_bytes ((Heap.inside_congr hchunks).mpr (hi.sound r' hr').inside) fun i hn => ?_
      have := hap r' hr'
      apply hbytes
      unfold Apart at this
      by_contra hx
      have : i + r'.start - r.start < r.size := by omega
      omega
  · exact List.pairwise_cons.mpr ⟨hap, hi.disjoint⟩
  · intro _
    show ∀ r' ∈ r :: rest, r'.Placed emb' emb'.m_memory_current
    rw [ec]
    exact hplaced
  · intro _ r' rest' heq
    cases heq
    rw [eb, ec]
    exact ⟨hbegin, rfl⟩

/-- A finalized block gives out empty regions at null. -/
theorem Inv.give_null (hi : Inv kind s rest) (hb : s.emb.m_memory_begin = 0) {emb' : memory_block}
    (he : emb' = s.emb) (hsize : r.size = 0) (halign : r.alignment ∣ r.start) :
    Inv kind ⟨emb', s.heap⟩ (r :: rest) ∧ LastEnds emb' (r :: rest) := by
  subst he
  refine ⟨⟨hi.linked, ?_, ?_, fun h0 => absurd hb h0⟩, fun h0 => absurd hb h0⟩
  · intro r' hr'
    obtain rfl | hr' := List.mem_cons.mp hr'
    · exact ⟨.inl hsize, halign, fun i hn => by omega⟩
    · exact hi.sound r' hr'
  · exact List.pairwise_cons.mpr ⟨fun _ _ => .inl hsize, hi.disjoint⟩

/-- A new chunk stands apart from all there is. -/
theorem append_memory_spec {malloc : Heap → ℕ → Option Malloced} {alignment : ℕ}
    (hm : Mallocs malloc alignment) (hi : Inv kind s regions) (capacity : ℕ) :
    ∃ s', append_memory malloc capacity s = .ok s' ∧ Inv kind s' regions ∧
      s'.emb.m_memory_begin ≠ 0 ∧ alignment ∣ s'.emb.m_memory_begin ∧
      s'.emb.m_memory_current = s'.emb.m_memory_begin ∧ s'.emb.m_memory_end = s'.emb.m_memory_begin + capacity ∧
      (∀ r ∈ regions, r.Placed s'.emb s'.emb.m_memory_begin) ∧
      s'.heap.Inside s'.emb.m_memory_begin capacity ∧
      (∀ a n, s.heap.Inside a n → s'.heap.Inside a n ∧ Apart s'.emb.m_memory_begin capacity a n ∧
        ∀ i < n, s'.heap.byte (a + i) = s.heap.byte (a + i)) := by
  obtain ⟨m, he, hf, hd⟩ := hm s.heap capacity
  have hpos : m.address ≠ 0 := Nat.pos_iff_ne_zero.mp hf.1
  have hplaced : ∀ r ∈ regions, Apart r.start r.size m.address (m.address + capacity - m.address) := by
    intro r hr
    rw [Nat.add_sub_cancel_left]
    exact (hf.apart (hi.sound r hr).inside).symm
  unfold append_memory
  rw [he]
  refine ⟨_, rfl, ⟨⟨?_, ?_, ?_⟩, ?_, hi.disjoint, ?_⟩, hpos, hd, rfl, rfl, ?_, Heap.inside_malloc _ _ _, ?_⟩
  · intro p hp
    obtain hp | hp := List.mem_append.mp hp
    · obtain ⟨h0, c, hc, hs⟩ := hi.linked.handles p hp
      exact ⟨h0, c, List.mem_cons_of_mem _ hc, hs⟩
    · obtain rfl := List.mem_singleton.mp hp
      exact ⟨hpos, _, List.mem_cons_self, rfl⟩
  · refine List.nodup_append.mpr ⟨hi.linked.nodup, List.nodup_singleton _, ?_⟩
    intro p hp q hq
    obtain rfl := List.mem_singleton.mp hq
    obtain ⟨_, c, hc, rfl⟩ := hi.linked.handles p hp
    have := hf.2 c hc
    omega
  · right
    refine ⟨List.getLast?_concat, le_rfl, Nat.le_add_right _ _, ?_⟩
    show (⟨m.address, m.address + capacity - m.address⟩ : Chunk) ∈ _
    rw [Nat.add_sub_cancel_left]
    exact List.mem_cons_self
  · intro r hr
    exact (hi.sound r hr).of_bytes (hi.sound r hr).inside.malloc fun i hn =>
      Heap.byte_malloc hf (hi.sound r hr).inside hn
  · intro _ r hr
    exact .inr (hplaced r hr)
  · intro r hr
    exact .inr (hplaced r hr)
  · intro a n hin
    exact ⟨hin.malloc, hf.apart hin, fun i hn => Heap.byte_malloc hf hin hn⟩

/-! ## Each call -/

/-- A region nothing has been written to. -/
def Region.blank (start size alignment : ℕ) : Region := ⟨start, size, alignment, fun _ => none⟩

theorem hand_out_spec {start size alignment : ℕ} (hi : Inv kind s rest) (hb : s.emb.m_memory_begin ≠ 0)
    (hbegin : s.emb.m_memory_begin ≤ start) (hend : start + size ≤ s.emb.m_memory_end)
    (hrest : ∀ r ∈ rest, r.Placed s.emb start) (halign : alignment ∣ start) :
    ∃ s', hand_out kind start size s = .returns s' start (start + size) ∧
      Inv kind s' (.blank start size alignment :: rest) ∧ LastEnds s'.emb (.blank start size alignment :: rest) := by
  obtain ⟨h0, _⟩ | ⟨_, _, _, hmem⟩ := hi.linked.newest
  · exact absurd h0 hb
  have hin : s.heap.Inside start (start + size - start) := by
    refine .inr ⟨_, hmem, hbegin, ?_⟩
    show start + (start + size - start) ≤ s.emb.m_memory_begin + (s.emb.m_memory_end - s.emb.m_memory_begin)
    omega
  obtain ⟨h', he, hc, hz, ho⟩ := zero_fill_spec kind (Nat.le_add_right start size) hin
  unfold hand_out
  rw [he]
  refine ⟨_, rfl, hi.give (r := .blank start size alignment) { s.emb with m_memory_current := start + size } hb hbegin hend
    hrest halign hc ho ?_ ⟨rfl, rfl, rfl, rfl⟩⟩
  intro i hn
  refine hz i ?_
  rw [Nat.add_sub_cancel_left]
  exact hn

theorem allocate_spec {malloc : Heap → ℕ → Option Malloced} {k : ℕ} (hm : Mallocs malloc (2 ^ k))
    (hi : Inv kind s regions) (size : ℕ) :
    ∃ s' start, allocate kind malloc size (2 ^ k) s = .returns s' start (start + size) ∧
      Inv kind s' (.blank start size (2 ^ k) :: regions) ∧ LastEnds s'.emb (.blank start size (2 ^ k) :: regions) := by
  obtain ⟨hle, hd⟩ := align_up_spec s.emb.m_memory_current k
  unfold allocate
  dsimp only
  split_ifs with hfit
  · obtain ⟨s', he, hi', hb, hda, hcur, hend, hrest, _, _⟩ := append_memory_spec hm
      (hi.retotal (s.emb.m_total_allocated_capacity - ((s.emb.m_memory_end : ℤ) - s.emb.m_memory_current)))
      (max (s.emb.m_total_allocated_capacity - ((s.emb.m_memory_end : ℤ) - s.emb.m_memory_current)) size).toNat
    rw [he]
    have hroom : s'.emb.m_memory_begin + size ≤ s'.emb.m_memory_end := by omega
    obtain ⟨s'', hr⟩ := hand_out_spec hi' hb le_rfl hroom hrest hda
    exact ⟨s'', _, hr⟩
  · by_cases hb : s.emb.m_memory_begin = 0
    · -- a finalized block has room for nothing, and gives out null
      obtain ⟨_, hc0, he0⟩ | ⟨hlast, _⟩ := hi.linked.newest
      · obtain rfl : size = 0 := by omega
        have hz : align_up s.emb.m_memory_current (2 ^ k) = 0 := by rw [hc0, align_up_zero]
        have hemb : ({ s.emb with m_memory_current := 0 + 0 } : memory_block) = s.emb := by
          rw [show (0 + 0 : ℕ) = s.emb.m_memory_current by omega]
        rw [hz]
        obtain ⟨h', hf, hc, _, ho⟩ := zero_fill_spec kind (Nat.le_add_right 0 0) (Or.inl rfl : s.heap.Inside 0 0)
        have hh : h' = s.heap := Heap.ext (funext fun x => ho x (by omega)) hc
        unfold hand_out
        rw [hf, hh, hemb]
        exact ⟨_, 0, rfl, hi.give_null (r := .blank 0 0 (2 ^ k)) hb rfl rfl (Nat.dvd_zero _ |>.trans dvd_rfl)⟩
      · exact absurd hb (hi.linked.handles _ (List.mem_of_getLast? hlast)).1
    · obtain ⟨h0, _⟩ | ⟨_, hbc, _⟩ := hi.linked.newest
      · exact absurd h0 hb
      have hplaced := hi.placed hb
      obtain ⟨s', hr⟩ := hand_out_spec hi hb (hbc.trans hle) (Nat.not_lt.mp hfit)
        (fun r hr => (hplaced r hr).imp_left fun ⟨h1, h2⟩ => ⟨h1, h2.trans hle⟩) hd
      exact ⟨s', _, hr⟩

theorem Inv.tail (hi : Inv kind s (r :: rest)) : Inv kind s rest where
  linked := hi.linked
  sound r' hr' := hi.sound r' (List.mem_cons_of_mem _ hr')
  disjoint := (List.pairwise_cons.mp hi.disjoint).2
  placed hb r' hr' := hi.placed hb r' (List.mem_cons_of_mem _ hr')

/-- The bytes of a resized region: those kept hold what they held, those
gained are zero in a zeroinit block. -/
theorem Region.Sound.resized {start size : ℕ} (hr : r.Sound kind h)
    (hkept : ∀ i < min r.size size, h'.byte (start + i) = h.byte (r.start + i))
    (hgained : ∀ i < size, r.size ≤ i → kind = .zeroinit → h'.byte (start + i) = 0) :
    ∀ i < (r.resized start size).size, Holds kind ((r.resized start size).written i) (h'.byte (start + i)) := by
  intro i (hn : i < size)
  show Holds kind (if i < min r.size size then r.written i else none) (h'.byte (start + i))
  split_ifs with hlt
  · rw [hkept i hlt]
    exact hr.holds i (by omega)
  · exact hgained i hn (by omega)

/-- A resize in place: the region's end moves within the chunk. -/
theorem resize_in_place {malloc : Heap → ℕ → Option Malloced} {size : ℕ} (hi : Inv kind s (r :: rest))
    (hb : s.emb.m_memory_begin ≠ 0) (hbegin : s.emb.m_memory_begin ≤ r.start)
    (hlast : r.start + r.size = s.emb.m_memory_current) (hfit : r.start + size ≤ s.emb.m_memory_end) :
    ∃ s', resize kind malloc size r.start (r.start + r.size) s = .returns s' r.start (r.start + size) ∧
      Inv kind s' (r.resized r.start size :: rest) ∧ LastEnds s'.emb (r.resized r.start size :: rest) ∧
      ∀ i < min r.size size, s'.heap.byte (r.start + i) = s.heap.byte (r.start + i) := by
  obtain ⟨h0, _⟩ | ⟨_, _, _, hmem⟩ := hi.linked.newest
  · exact absurd h0 hb
  -- the others in the chunk end before this one starts, or are empty
  have hrest : ∀ r' ∈ rest, r'.Placed s.emb r.start := by
    intro r' hr'
    have hap : Apart r.start r.size r'.start r'.size := (List.pairwise_cons.mp hi.disjoint).1 r' hr'
    obtain ⟨h1, h2⟩ | hout := hi.placed hb r' (List.mem_cons_of_mem _ hr')
    · unfold Apart at hap
      unfold Region.Placed Apart
      omega
    · exact .inr hout
  obtain ⟨h', he, hc, hz, ho⟩ : ∃ h',
      (if r.start + r.size < r.start + size then zero_fill kind s.heap (r.start + r.size) (r.start + size)
        else some s.heap) = some h' ∧ h'.chunks = s.heap.chunks ∧
      (∀ i < size, r.size ≤ i → kind = .zeroinit → h'.byte (r.start + i) = 0) ∧
      ∀ x, x < r.start + r.size ∨ r.start + size ≤ x → h'.byte x = s.heap.byte x := by
    split_ifs with hlt
    · have hin : s.heap.Inside (r.start + r.size) (r.start + size - (r.start + r.size)) := by
        refine .inr ⟨_, hmem, ?_, ?_⟩
        · show s.emb.m_memory_begin ≤ _
          omega
        · show _ ≤ s.emb.m_memory_begin + (s.emb.m_memory_end - s.emb.m_memory_begin)
          omega
      obtain ⟨h', he, hc, hz, ho⟩ := zero_fill_spec kind hlt.le hin
      refine ⟨h', he, hc, fun i hn hge hk => ?_, ho⟩
      rw [show r.start + i = r.start + r.size + (i - r.size) by omega]
      exact hz _ (by omega) hk
    · exact ⟨s.heap, rfl, rfl, fun i hn hge => by omega, fun _ _ => rfl⟩
  have hkept : ∀ i < min r.size size, h'.byte (r.start + i) = s.heap.byte (r.start + i) := fun i hn => ho _ (by omega)
  unfold resize
  rw [if_neg (not_not.mpr hlast), if_pos hfit]
  dsimp only
  rw [he]
  have hbytes : ∀ x, x < r.start ∨ r.start + size ≤ x → h'.byte x = s.heap.byte x := fun x hx => ho x (by omega)
  have hr := hi.sound r List.mem_cons_self
  obtain ⟨hi', hl'⟩ := hi.tail.give (r := r.resized r.start size) { s.emb with m_memory_current := r.start + size }
    hb hbegin hfit hrest hr.aligned hc hbytes (hr.resized hkept hz) ⟨rfl, rfl, rfl, rfl⟩
  exact ⟨_, rfl, hi', hl', hkept⟩

/-- A resize into a new chunk: the region moves there. -/
theorem resize_moved {malloc : Heap → ℕ → Option Malloced} {size : ℕ} (hm : Mallocs malloc r.alignment)
    (hi : Inv kind s (r :: rest)) (hlast : r.start + r.size = s.emb.m_memory_current)
    (hfit : ¬ r.start + size ≤ s.emb.m_memory_end) :
    ∃ s' start, resize kind malloc size r.start (r.start + r.size) s = .returns s' start (start + size) ∧
      Inv kind s' (r.resized start size :: rest) ∧ LastEnds s'.emb (r.resized start size :: rest) ∧
      ∀ i < min r.size size, s'.heap.byte (start + i) = s.heap.byte (r.start + i) := by
  have hgrows : r.size ≤ size := by
    obtain ⟨_, hc0, he0⟩ | ⟨_, _, hce, _⟩ := hi.linked.newest <;> omega
  obtain ⟨s', he, hi', hb, hd, hcur, hend, hrest, hin, hold⟩ := append_memory_spec hm hi
    (max s.emb.m_total_allocated_capacity size).toNat
  have hroom : size ≤ (max s.emb.m_total_allocated_capacity size).toNat := by omega
  have hr' := hi'.sound r List.mem_cons_self
  have hr := hi.sound r List.mem_cons_self
  obtain ⟨hkeptIn, hap, hsame⟩ := hold r.start r.size hr.inside
  obtain ⟨h₁, he₁, hc₁, hcopied, ho₁⟩ := Heap.memcpy_spec (hin.mono le_rfl (by omega)) hkeptIn
    ((hap.symm.mono le_rfl (by omega)).symm : Apart s'.emb.m_memory_begin r.size r.start r.size)
  have hin₂ : h₁.Inside (s'.emb.m_memory_begin + r.size)
      (s'.emb.m_memory_begin + size - (s'.emb.m_memory_begin + r.size)) :=
    (Heap.inside_congr hc₁).mpr (hin.mono (by omega) (by omega))
  obtain ⟨h₂, he₂, hc₂, hz, ho₂⟩ := zero_fill_spec kind (by omega) hin₂
  have hkept : ∀ i < min r.size size, h₂.byte (s'.emb.m_memory_begin + i) = s'.heap.byte (r.start + i) := by
    intro i hn
    rw [ho₂ _ (by omega)]
    exact hcopied i (by omega)
  have hgained : ∀ i < size, r.size ≤ i → kind = .zeroinit → h₂.byte (s'.emb.m_memory_begin + i) = 0 := by
    intro i hn hge hk
    rw [show s'.emb.m_memory_begin + i = s'.emb.m_memory_begin + r.size + (i - r.size) by omega]
    exact hz _ (by omega) hk
  have hbytes : ∀ x, x < s'.emb.m_memory_begin ∨ s'.emb.m_memory_begin + size ≤ x → h₂.byte x = s'.heap.byte x := by
    intro x hx
    rw [ho₂ x (by omega)]
    exact ho₁ x (by omega)
  obtain ⟨hi₂, hl₂⟩ := hi'.tail.give (r := r.resized s'.emb.m_memory_begin size)
    { s'.emb with
      m_memory_current := s'.emb.m_memory_begin + size
      m_total_allocated_capacity := s'.emb.m_total_allocated_capacity - (((r.start + r.size : ℕ) : ℤ) - r.start) }
    hb le_rfl (show s'.emb.m_memory_begin + size ≤ _ by omega) (fun r' h => hrest r' (List.mem_cons_of_mem _ h)) hd
    (hc₂.trans hc₁) hbytes (hr'.resized hkept hgained) ⟨rfl, rfl, rfl, rfl⟩
  unfold resize
  rw [if_neg (not_not.mpr hlast), if_neg hfit, he]
  dsimp only
  rw [Nat.add_sub_cancel_left, he₁]
  dsimp only
  rw [he₂]
  refine ⟨_, _, rfl, hi₂, hl₂, fun i hn => ?_⟩
  rw [← hsame i (by omega)]
  exact hkept i hn

/-- A resize is refused in a finalized block only. -/
theorem resize_spec {malloc : Heap → ℕ → Option Malloced} (hm : Mallocs malloc r.alignment)
    (hi : Inv kind s (r :: rest)) (hl : LastEnds s.emb (r :: rest)) (size : ℕ) :
    (s.emb.m_memory_begin = 0 ∧ ∃ e, resize kind malloc size r.start (r.start + r.size) s = .throws s e) ∨
    ∃ s' start, resize kind malloc size r.start (r.start + r.size) s = .returns s' start (start + size) ∧
      Inv kind s' (r.resized start size :: rest) ∧ LastEnds s'.emb (r.resized start size :: rest) ∧
      ∀ i < min r.size size, s'.heap.byte (start + i) = s.heap.byte (r.start + i) := by
  by_cases hb : s.emb.m_memory_begin = 0
  · by_cases hlast : r.start + r.size = s.emb.m_memory_current
    · right
      by_cases hfit : r.start + size ≤ s.emb.m_memory_end
      · obtain ⟨_, hc0, he0⟩ | ⟨hlast, _⟩ := hi.linked.newest
        · -- an empty region at null stays where it is
          have hemb : ({ s.emb with m_memory_current := r.start + size } : memory_block) = s.emb := by
            rw [show r.start + size = s.emb.m_memory_current by omega]
          unfold resize
          rw [if_neg (not_not.mpr hlast), if_pos hfit]
          dsimp only
          rw [if_neg (by omega), hemb]
          obtain ⟨hi', hl'⟩ := hi.tail.give_null (r := r.resized r.start size) hb rfl (by show size = 0; omega)
            (hi.sound r List.mem_cons_self).aligned
          exact ⟨s, r.start, rfl, hi', hl', fun _ _ => rfl⟩
        · exact absurd hb (hi.linked.handles _ (List.mem_of_getLast? hlast)).1
      · exact resize_moved hm hi hlast hfit
    · left
      unfold resize
      exact ⟨hb, _, if_pos hlast⟩
  · right
    obtain ⟨hbegin, hlast⟩ := hl hb r rest rfl
    by_cases hfit : r.start + size ≤ s.emb.m_memory_end
    · obtain ⟨s', he, h'⟩ := resize_in_place hi hb hbegin hlast hfit
      exact ⟨s', r.start, he, h'⟩
    · exact resize_moved hm hi hlast hfit

theorem finalize_spec (hi : Inv kind s regions) : Inv kind (finalize s) regions ∧ LastEnds (finalize s).emb regions :=
  ⟨⟨⟨hi.linked.handles, hi.linked.nodup, .inl ⟨rfl, rfl, rfl⟩⟩, hi.sound, hi.disjoint, fun hb => absurd rfl hb⟩,
    fun hb => absurd rfl hb⟩

theorem reset_spec (hi : Inv kind s regions) : ∃ s', reset s = some s' ∧ Inv kind s' [] := by
  have hbegin : s.emb.m_memory_begin = 0 → s.emb.m_memory_end = 0 := by
    obtain ⟨_, _, he⟩ | ⟨hlast, _⟩ := hi.linked.newest
    · exact fun _ => he
    · exact fun h0 => absurd h0 (hi.linked.handles _ (List.mem_of_getLast? hlast)).1
  unfold reset
  dsimp only
  split_ifs with hmany
  · have hne : s.emb.m_memory_handles ≠ [] := by
      rintro h0
      simp [h0] at hmany
    have hsplit := List.dropLast_append_getLast hne
    have hnodup := hi.linked.nodup
    rw [← hsplit] at hnodup
    have hlast : s.emb.m_memory_handles.getLast hne ∉ s.emb.m_memory_handles.dropLast := fun hm =>
      (List.nodup_append.mp hnodup).2.2 _ hm _ (List.mem_singleton.mpr rfl) rfl
    obtain ⟨h', hf, _, hc⟩ := Heap.free_all (List.nodup_append.mp hnodup).1 fun p hp =>
      hi.linked.handles p (List.mem_of_mem_dropLast hp)
    rw [hf]
    refine ⟨_, rfl, ⟨⟨?_, ?_, ?_⟩, fun r hr => absurd hr List.not_mem_nil, .nil, fun _ r hr => absurd hr List.not_mem_nil⟩⟩
    · intro p hp
      change p ∈ s.emb.m_memory_handles.getLast?.toList at hp
      rw [List.getLast?_eq_getLast_of_ne_nil hne] at hp
      obtain rfl := List.mem_singleton.mp hp
      obtain ⟨h0, c, hcm, hcs⟩ := hi.linked.handles _ (List.getLast_mem hne)
      exact ⟨h0, c, (hc c (hcs ▸ hlast)).mpr hcm, hcs⟩
    · show s.emb.m_memory_handles.getLast?.toList.Nodup
      rw [List.getLast?_eq_getLast_of_ne_nil hne]
      exact List.nodup_singleton _
    · refine hi.linked.newest.imp (fun ⟨h0, _, h2⟩ => ⟨h0, h0, h2⟩) fun ⟨hl, h1, h2, hmem⟩ => ⟨?_, le_rfl, h1.trans h2, ?_⟩
      · show s.emb.m_memory_handles.getLast?.toList.getLast? = _
        rw [hl]
        rfl
      · have hb : s.emb.m_memory_begin = s.emb.m_memory_handles.getLast hne := by
          rw [List.getLast?_eq_getLast_of_ne_nil hne] at hl
          exact (Option.some.inj hl).symm
        exact (hc _ (hb ▸ hlast)).mpr hmem
  · refine ⟨_, rfl, ⟨⟨hi.linked.handles, hi.linked.nodup, ?_⟩, fun r hr => absurd hr List.not_mem_nil, .nil,
      fun _ r hr => absurd hr List.not_mem_nil⟩⟩
    exact hi.linked.newest.imp (fun ⟨h0, _, h2⟩ => ⟨h0, h0, h2⟩) fun ⟨hl, h1, h2, hmem⟩ => ⟨hl, le_rfl, h1.trans h2, hmem⟩

theorem Inv.of_same (hi : Inv kind s regions) {rs : List Region} (heap' : Heap) (hc : heap'.chunks = s.heap.chunks)
    (hsame : rs.map (fun r => (r.start, r.size)) = regions.map fun r => (r.start, r.size))
    (hsound : ∀ r ∈ rs, r.Sound kind heap') : Inv kind { s with heap := heap' } rs := by
  have hfrom : ∀ r ∈ rs, ∃ r' ∈ regions, r'.start = r.start ∧ r'.size = r.size := by
    intro r hr
    obtain ⟨r', hr', he⟩ := List.mem_map.mp (hsame ▸ List.mem_map_of_mem hr)
    exact ⟨r', hr', (Prod.mk.inj he).1, (Prod.mk.inj he).2⟩
  refine ⟨⟨?_, hi.linked.nodup, ?_⟩, hsound, ?_, ?_⟩
  · show ∀ p ∈ s.emb.m_memory_handles, p ≠ 0 ∧ ∃ c ∈ heap'.chunks, c.start = p
    rw [hc]
    exact hi.linked.handles
  · exact hi.linked.newest.imp_right fun ⟨h1, h2, h3, h4⟩ => ⟨h1, h2, h3, hc ▸ h4⟩
  · have hd := hi.disjoint
    have hmap : ∀ l : List Region, l.Pairwise Region.Disjoint ↔
        (l.map fun r => (r.start, r.size)).Pairwise fun p q => Apart p.1 p.2 q.1 q.2 := by
      intro l
      rw [List.pairwise_map]
      rfl
    rw [hmap, ← hsame, ← hmap] at hd
    exact hd
  · intro hb r hr
    obtain ⟨r', hr', h1, h2⟩ := hfrom r hr
    have hp := hi.placed hb r' hr'
    unfold Region.Placed at hp ⊢
    rwa [h1, h2] at hp

/-- The caller's write changes one byte of one region. -/
theorem write_spec (hi : Inv kind s regions) (hl : LastEnds s.emb regions) {k offset : ℕ} {v : UInt8}
    (hk : regions[k]? = some r) (ho : offset < r.size) :
    Inv kind { s with heap := s.heap.store (r.start + offset) v } (regions.set k (r.wrote offset v)) ∧
      LastEnds s.emb (regions.set k (r.wrote offset v)) := by
  obtain ⟨hlt, hget⟩ := List.getElem?_eq_some_iff.mp hk
  have hsame : (regions.set k (r.wrote offset v)).map (fun r => (r.start, r.size)) =
      regions.map fun r => (r.start, r.size) := by
    rw [List.map_set]
    refine List.ext_getElem? fun j => ?_
    rw [List.getElem?_set]
    split_ifs with hj hlen
    · subst hj
      rw [List.getElem?_map, hk]
      rfl
    · rw [List.length_map] at hlen
      exact absurd (hj ▸ hlt) (by omega)
    · rfl
  refine ⟨hi.of_same _ rfl hsame fun r' hr' => ?_, ?_⟩
  · obtain ⟨j, hj⟩ := List.mem_iff_getElem?.mp hr'
    rw [List.getElem?_set] at hj
    split_ifs at hj with hjk
    · cases hj
      have hr := hi.sound r (List.mem_of_getElem? hk)
      refine ⟨hr.inside, hr.aligned, fun i hn => ?_⟩
      change Holds kind (if i = offset then some v else r.written i) (if r.start + i = r.start + offset then v else _)
      by_cases hio : i = offset
      · rw [if_pos hio, if_pos (by omega)]
        rfl
      · rw [if_neg hio, if_neg (by omega)]
        exact hr.holds i hn
    · have hr := hi.sound r' (List.mem_of_getElem? hj)
      have hap : Apart r.start r.size r'.start r'.size := by
        obtain ⟨hlt', hget'⟩ := List.getElem?_eq_some_iff.mp hj
        have hd := List.pairwise_iff_getElem.mp hi.disjoint
        obtain hlt2 | hlt2 := Nat.lt_or_gt_of_ne hjk
        · have := hd k j hlt hlt' hlt2
          rwa [hget, hget'] at this
        · have := hd j k hlt' hlt hlt2
          rw [hget, hget'] at this
          exact Apart.symm this
      exact hr.of_bytes hr.inside fun i hn => if_neg (hap.ne ho hn).symm
  · intro hb r' rest' heq
    have hhead : (regions.set k (r.wrote offset v)).head? = some r' := by rw [heq]; rfl
    cases regions with
    | nil => exact absurd hlt (Nat.not_lt_zero _)
    | cons r₀ rs =>
      obtain ⟨h1, h2⟩ := hl hb r₀ rs rfl
      cases k with
      | zero =>
        cases hget
        cases heq
        exact ⟨h1, h2⟩
      | succ k =>
        cases heq
        exact ⟨h1, h2⟩

/-! ## Whole runs -/

/-- What holds of a block and the regions given out, in every run. -/
def Good (kind : block_kind) (w : World) : Prop := Inv kind w.state w.regions ∧ LastEnds w.state.emb w.regions

theorem made_good {w : World} (hw : Made w) : Good kind w := by
  obtain ⟨malloc, capacity, heap, hm, he, hr⟩ := hw
  have hempty : Inv kind ⟨⟨0, [], 0, 0, 0⟩, heap⟩ [] :=
    ⟨⟨fun p hp => absurd hp List.not_mem_nil, .nil, .inl ⟨rfl, rfl, rfl⟩⟩, fun r hr => absurd hr List.not_mem_nil, .nil,
      fun _ r hr => absurd hr List.not_mem_nil⟩
  obtain ⟨s', he', hi, _⟩ := append_memory_spec hm hempty capacity
  unfold make_memory_block at he
  rw [he'] at he
  cases he
  unfold Good
  rw [hr]
  exact ⟨hi, fun _ r rest h => absurd h (List.cons_ne_nil r rest).symm⟩

/-- A call is defined and keeps what holds. -/
theorem perform_good {w : World} {call : Call} (hw : Good kind w) (hc : call.Allowed w) :
    ∃ w', perform kind w call = some w' ∧ Good kind w' := by
  obtain ⟨hi, hl⟩ := hw
  obtain ⟨s, regions⟩ := w
  cases call with
  | allocate malloc size alignment =>
    obtain ⟨⟨k, rfl⟩, hm⟩ := hc
    obtain ⟨s', start, he, h'⟩ := allocate_spec hm hi size
    unfold perform
    dsimp only
    rw [he]
    dsimp only
    rw [Nat.add_sub_cancel_left]
    exact ⟨_, rfl, h'⟩
  | resize malloc size =>
    obtain ⟨r, rest, rfl, hm⟩ := hc
    unfold perform
    dsimp only
    obtain ⟨_, e, he⟩ | ⟨s', start, he, hi', hl', _⟩ := resize_spec hm hi hl size
    · rw [he]
      exact ⟨_, rfl, hi, hl⟩
    · rw [he]
      dsimp only
      rw [Nat.add_sub_cancel_left]
      exact ⟨_, rfl, hi', hl'⟩
  | finalize => exact ⟨_, rfl, finalize_spec hi⟩
  | reset =>
    obtain ⟨s', he, hi'⟩ := reset_spec hi
    refine ⟨⟨s', []⟩, ?_, hi', fun _ r rest h => absurd h (List.cons_ne_nil r rest).symm⟩
    unfold perform
    rw [he]
    rfl
  | write k offset v =>
    obtain ⟨r, hk, ho⟩ := hc
    unfold perform
    dsimp only
    dsimp only at hk
    rw [hk]
    exact ⟨_, rfl, write_spec hi hl hk ho⟩

theorem reachable_good {w : World} (hw : Reachable Made (Step kind) w) : Good kind w := by
  refine hw.invariant (fun w => made_good) fun w w' hg => ?_
  rintro ⟨call, hc, he⟩
  obtain ⟨w'', he', hg'⟩ := perform_good hg hc
  rw [he] at he'
  cases he'
  exact hg'

/-- In every run: the regions stand in live chunks, aligned, apart from one
another, each byte what the caller wrote or, in a zeroinit block, zero; every
call is defined; an allocation adds a region of the size and alignment asked
for; a resize keeps the bytes both sizes have. -/
theorem regions_sound (kind : block_kind) {w : World} (hw : Reachable Made (Step kind) w) :
    (∀ r ∈ w.regions, r.Sound kind w.state.heap) ∧ w.regions.Pairwise Region.Disjoint ∧
    (∀ call : Call, call.Allowed w → ∃ w', perform kind w call = some w') ∧
    (∀ malloc size alignment, (Call.allocate malloc size alignment).Allowed w →
      ∃ s' start, perform kind w (.allocate malloc size alignment) = some ⟨s', .blank start size alignment :: w.regions⟩) ∧
    ∀ malloc size r rest, w.regions = r :: rest → Mallocs malloc r.alignment →
      ∃ s' r', perform kind w (.resize malloc size) = some ⟨s', r' :: rest⟩ ∧
        (w.state.emb.m_memory_begin ≠ 0 → ∃ start, r' = r.resized start size) ∧
        ∀ i < min r.size r'.size, s'.heap.byte (r'.start + i) = w.state.heap.byte (r.start + i) := by
  obtain ⟨hi, hl⟩ := reachable_good hw
  refine ⟨hi.sound, hi.disjoint, fun call hc => ?_, ?_, ?_⟩
  · obtain ⟨w', he, _⟩ := perform_good ⟨hi, hl⟩ hc
    exact ⟨w', he⟩
  · rintro malloc size _ ⟨⟨k, rfl⟩, hm⟩
    obtain ⟨s', start, he, _⟩ := allocate_spec hm hi size
    refine ⟨s', start, ?_⟩
    unfold perform
    dsimp only
    rw [he]
    dsimp only
    rw [Nat.add_sub_cancel_left]
    rfl
  · intro malloc size r rest hr hm
    obtain ⟨s, regions⟩ := w
    dsimp only at hr hi hl
    subst hr
    unfold perform
    dsimp only
    obtain ⟨hb, e, he⟩ | ⟨s', start, he, _, _, hkept⟩ := resize_spec hm hi hl size
    · rw [he]
      exact ⟨s, r, rfl, fun h0 => absurd hb h0, fun _ _ => rfl⟩
    · rw [he]
      dsimp only
      rw [Nat.add_sub_cancel_left]
      exact ⟨s', _, rfl, fun _ => ⟨start, rfl⟩, hkept⟩

/-- A `malloc` that never gives an address twice. -/
def bump (alignment : ℕ) (h : Heap) (_ : ℕ) : Option Malloced := some ⟨alignment * h.top, fun _ => 170⟩

theorem mallocs_bump {alignment : ℕ} (hpos : 0 < alignment) : Mallocs (bump alignment) alignment := by
  intro h n
  refine ⟨_, rfl, Heap.fresh_of_top_le ?_ n, Nat.dvd_mul_right _ _⟩
  exact Nat.le_mul_of_pos_left _ hpos

theorem regions_sound_first_allocation :
    ∃ s' start, perform .zeroinit ⟨⟨⟨16, [8], 8, 8, 24⟩, (Heap.mk (fun _ => 0) []).malloc ⟨8, fun _ => 170⟩ 16⟩, []⟩
      (.allocate (bump 8) 8 8) = some ⟨s', [.blank start 8 8]⟩ :=
  (regions_sound .zeroinit (.init ⟨bump 8, 16, ⟨fun _ => 0, []⟩, fun h n => by
    obtain ⟨r, he, hf, _⟩ := mallocs_bump (by decide : 0 < 8) h n
    exact ⟨r, he, hf, Nat.one_dvd _⟩, rfl, rfl⟩)).2.2.2.1 _ _ _ ⟨⟨3, rfl⟩, mallocs_bump (by decide)⟩

end Dynd.PodMemoryBlock
