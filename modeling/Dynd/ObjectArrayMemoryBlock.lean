import Dynd.Lib.Heap
import Dynd.Lib.Reachable
import Mathlib.Tactic
/-!
# Object array memory blocks

`objectarray_memory_block.cpp`: chunks of objects of one type, given out from
the front of the newest chunk, and destructed by the block.

`resize` counts in objects in some places and in bytes in others, and `reset`
does nothing to a block of one chunk. `objects_kept` says when the calls do
what they are for: in a run that keeps to `Safe`, allocations stay apart and
keep their bytes, and a reset destructs each object once.
-/
namespace Dynd.ObjectArrayMemoryBlock

open Dynd.Lib

inductive Thrown where
  | bad_alloc
  | runtime_error (what : String)
deriving DecidableEq

/-- What the block asks of its type: how it prints, and two of its flags. -/
structure object_type where
  printed : String
  destructor : Bool
  zeroinit : Bool

structure memory_chunk where
  memory : ℕ
  used_count : ℕ
  capacity_count : ℕ
deriving DecidableEq

structure objectarray_memory_block where
  m_dt : object_type
  m_stride : ℕ
  m_total_allocated_count : ℕ
  m_finalized : Bool
  m_memory_handles : List memory_chunk
  /-- The places `m_memory_handles` has: a `push_back` past them moves the
  chunks, and what points at one then dangles. -/
  handles_capacity : ℕ

/-- `destructed` has the address of every object destructed so far. -/
structure State where
  emb : objectarray_memory_block
  heap : Heap
  destructed : List ℕ

/-- What the block gets from outside: memory, and the spare places a vector
takes as it grows. -/
structure Allocator where
  malloc : Heap → ℕ → Option Malloced
  spare : ℕ

inductive Outcome (α : Type) where
  | returns (s : State) (a : α)
  | throws (s : State) (e : Thrown)
  | undefined

/-! ## The calls -/

/-- `m_stride * count` is a signed product, undefined past 63 bits. -/
def append_memory (al : Allocator) (count : ℕ) (s : State) : Outcome Unit :=
  if 2 ^ 63 ≤ s.emb.m_stride * count then .undefined
  else
    let length := s.emb.m_memory_handles.length
    let capacity := if length < s.emb.handles_capacity then s.emb.handles_capacity else length + 1 + al.spare
    match al.malloc s.heap (s.emb.m_stride * count) with
    | none => .throws { s with emb.handles_capacity := capacity } .bad_alloc
    | some r => .returns { s with
        emb := { s.emb with
          m_memory_handles := s.emb.m_memory_handles ++ [⟨r.address, 0, count⟩]
          handles_capacity := capacity
          m_total_allocated_count := (s.emb.m_total_allocated_count + count) % 2 ^ 64 }
        heap := s.heap.malloc r (s.emb.m_stride * count) } ()

def State.set_back (s : State) (mc : memory_chunk) : State :=
  { s with emb.m_memory_handles := s.emb.m_memory_handles.dropLast ++ [mc] }

/-- The zeroing at the end of `allocate` and `resize`. `bytes` is what the
signed count is as a `size_t`. -/
def zero_init (start : ℕ) (bytes : ℤ) (result : ℕ) (s : State) : Outcome ℕ :=
  if s.emb.m_dt.zeroinit then
    match s.heap.memset start 0 (bytes % 2 ^ 64).toNat with
    | none => .undefined
    | some heap => .returns { s with heap := heap } result
  else
    .throws s (.runtime_error ("Expected objectarray data to be zeroinit, but is not with dynd type " ++ s.emb.m_dt.printed))

/-- The rest of `allocate`, once the newest chunk has room. -/
def hand_out (count : ℕ) (s : State) : Outcome ℕ :=
  match s.emb.m_memory_handles.getLast? with
  | none => .undefined
  | some mc =>
    let result := mc.memory + s.emb.m_stride * mc.used_count
    zero_init result (s.emb.m_stride * count) result (s.set_back { mc with used_count := mc.used_count + count })

def allocate (al : Allocator) (count : ℕ) (s : State) : Outcome ℕ :=
  match s.emb.m_memory_handles.getLast? with
  | none => .undefined
  | some mc =>
    if mc.capacity_count - mc.used_count < count then
      match append_memory al (max s.emb.m_total_allocated_count count) s with
      | .returns s () => hand_out count s
      | .throws s e => .throws s e
      | .undefined => .undefined
    else hand_out count s

/-- The addresses of `count` objects from `start`. -/
def objects (stride start count : ℕ) : List ℕ := (List.range count).map (start + stride * ·)

/-- `data_destruct_strided`: the objects are destructed in order. -/
def data_destruct_strided (start count : ℕ) (s : State) : Option State :=
  if s.heap.Inside start (s.emb.m_stride * count) then
    some { s with destructed := s.destructed ++ objects s.emb.m_stride start count }
  else none

/-- The old memory's way to the new chunk: `previous_count` bytes of it. The
old chunk goes when it had nothing else. -/
def move_previous (previous_allocated previous_count : ℕ) (mc new_mc : memory_chunk) (s : State) : Option State :=
  (s.heap.memcpy new_mc.memory previous_allocated previous_count).bind fun heap =>
    let others := s.emb.m_memory_handles.dropLast.dropLast
    if previous_allocated = mc.memory then
      (heap.free mc.memory).map fun heap =>
        { s with emb.m_memory_handles := others ++ [new_mc], heap := heap }
    else
      some { s with
        emb.m_memory_handles := others ++ [{ mc with used_count := mc.used_count - previous_count }, new_mc]
        heap := heap }

/-- `resize` once the new chunk is there. -/
def resize_moved (previous_allocated previous_count count : ℕ) (dangles : Bool) (mc : memory_chunk) (s : State) :
    Outcome ℕ :=
  match s.emb.m_memory_handles.getLast? with
  | none => .undefined
  | some new_mc =>
    if 0 < previous_count ∧ dangles then .undefined
    else
      match if 0 < previous_count then move_previous previous_allocated previous_count mc new_mc s else some s with
      | none => .undefined
      | some s =>
        zero_init (new_mc.memory + s.emb.m_stride * previous_count) (s.emb.m_stride * ((count : ℤ) - previous_count))
          new_mc.memory (s.set_back { new_mc with used_count := count })

def resize (al : Allocator) (previous_allocated count : ℕ) (s : State) : Outcome ℕ :=
  match s.emb.m_memory_handles.getLast? with
  | none => .undefined
  | some mc =>
    if s.emb.m_stride = 0 then .undefined
    else
      let previous_index := (previous_allocated - mc.memory) / s.emb.m_stride
      let previous_count := mc.used_count - previous_index
      let new_bytes := s.emb.m_stride * ((count : ℤ) - previous_count)
      if mc.capacity_count - previous_index < count then
        let dangles := decide (s.emb.handles_capacity ≤ s.emb.m_memory_handles.length)
        match append_memory al (max s.emb.m_total_allocated_count count) s with
        | .returns s () => resize_moved previous_allocated previous_count count dangles mc s
        | .throws s e => .throws s e
        | .undefined => .undefined
      else if previous_count ≤ count then
        zero_init (mc.memory + s.emb.m_stride * previous_count) new_bytes previous_allocated
          (s.set_back { mc with used_count := mc.used_count + (count - previous_count) })
      else
        match data_destruct_strided (previous_allocated + s.emb.m_stride * count) (previous_count - count) s with
        | none => .undefined
        | some s =>
          zero_init (mc.memory + s.emb.m_stride * previous_count) new_bytes previous_allocated
            (s.set_back { mc with used_count := mc.used_count - (previous_count - count) })

def finalize (s : State) : State := { s with emb.m_finalized := true }

/-- One of the chunks `reset` throws away. -/
def throw_away (s : State) (mc : memory_chunk) : Option State :=
  (data_destruct_strided mc.memory mc.used_count s).bind fun s =>
    (s.heap.free mc.memory).map fun heap => { s with heap := heap }

def reset (s : State) : Option State :=
  if 1 < s.emb.m_memory_handles.length then
    (s.emb.m_memory_handles.dropLast.foldlM throw_away s).bind fun s =>
      match s.emb.m_memory_handles.getLast? with
      | none => none
      | some mc => (data_destruct_strided mc.memory mc.used_count s).map fun s =>
          { s with emb.m_memory_handles := [{ mc with used_count := 0 }] }
  else some s

def make_objectarray_memory_block (al : Allocator) (dt : object_type) (stride initial_count : ℕ) (heap : Heap) :
    Outcome Unit :=
  let s : State := ⟨⟨dt, stride, 0, false, [], 0⟩, heap, []⟩
  if dt.destructor then append_memory al initial_count s
  else
    .throws s (.runtime_error ("Cannot create objectarray memory block with dynd type " ++ dt.printed ++
      " because it does not have a destructor, use a POD memory block instead"))

/-! ## Runs -/

/-- Objects the caller holds. -/
structure Allocation where
  start : ℕ
  count : ℕ

/-- A block with the allocations given out and not reset, the newest first. -/
structure World where
  state : State
  allocations : List Allocation

inductive Call where
  | allocate (al : Allocator) (count : ℕ)
  | resize (al : Allocator) (count : ℕ)
  | finalize
  | reset
  /-- The caller writes one byte of its `k`-th allocation. -/
  | write (k offset : ℕ) (v : UInt8)

/-- One call on a block; `none` when it is undefined. -/
def perform (w : World) : Call → Option World
  | .allocate al count =>
    match ObjectArrayMemoryBlock.allocate al count w.state with
    | .returns s result => some ⟨s, ⟨result, count⟩ :: w.allocations⟩
    | .throws s _ => some ⟨s, w.allocations⟩
    | .undefined => none
  | .resize al count =>
    match w.allocations with
    | [] => none
    | a :: rest =>
      match ObjectArrayMemoryBlock.resize al a.start count w.state with
      | .returns s result => some ⟨s, ⟨result, count⟩ :: rest⟩
      | .throws s _ => some ⟨s, a :: rest⟩
      | .undefined => none
  | .finalize => some ⟨ObjectArrayMemoryBlock.finalize w.state, w.allocations⟩
  | .reset => (ObjectArrayMemoryBlock.reset w.state).map fun s => ⟨s, []⟩
  | .write k offset v =>
    match w.allocations[k]? with
    | none => none
    | some a => some { w with state := { w.state with heap := w.state.heap.store (a.start + offset) v } }

/-- `malloc` answers every request, with memory that is not in use. -/
def Allocator.Answers (al : Allocator) : Prop := ∀ h n, ∃ r, al.malloc h n = some r ∧ h.Fresh r.address n

/-- What the caller keeps to: there is an allocation to resize, and a write
stays in its allocation. -/
def Call.Allowed (w : World) : Call → Prop
  | .allocate al _ => al.Answers
  | .resize al _ => al.Answers ∧ w.allocations ≠ []
  | .finalize | .reset => True
  | .write k offset _ => ∃ a, w.allocations[k]? = some a ∧ offset < w.state.emb.m_stride * a.count

def Made (w : World) : Prop :=
  ∃ al dt stride initial_count heap, Allocator.Answers al ∧
    make_objectarray_memory_block al dt stride initial_count heap = .returns w.state () ∧ w.allocations = []

/-- When a call does what it is for. A type is zeroed or nothing is asked for;
a product stays in range; a resize that grows has its chunk to itself, one
that moves has nothing to move (or objects of one byte, and chunks that stay
where they are), none shrinks; and a reset has several chunks, or nothing in
use. -/
def Call.Safe (w : World) : Call → Prop
  | .allocate _ count =>
    (w.state.emb.m_dt.zeroinit ∨ count = 0) ∧
      ∀ mc, w.state.emb.m_memory_handles.getLast? = some mc → mc.capacity_count - mc.used_count < count →
        w.state.emb.m_stride * max w.state.emb.m_total_allocated_count count < 2 ^ 63
  | .resize _ count =>
    w.state.emb.m_dt.zeroinit ∧ w.state.emb.m_stride ≠ 0 ∧
      ∀ a rest mc, w.allocations = a :: rest → w.state.emb.m_memory_handles.getLast? = some mc →
        let previous_index := (a.start - mc.memory) / w.state.emb.m_stride
        let previous_count := mc.used_count - previous_index
        if mc.capacity_count - previous_index < count then
          w.state.emb.m_stride * max w.state.emb.m_total_allocated_count count < 2 ^ 63 ∧
            (previous_count = 0 ∨
              (w.state.emb.m_stride = 1 ∧ w.state.emb.m_memory_handles.length < w.state.emb.handles_capacity))
        else count = previous_count ∨ (previous_index = 0 ∧ previous_count ≤ count)
  | .reset => 1 < w.state.emb.m_memory_handles.length ∨ ∀ mc ∈ w.state.emb.m_memory_handles, mc.used_count = 0
  | .finalize | .write _ _ _ => True

def Step (w w' : World) : Prop := ∃ call : Call, call.Allowed w ∧ call.Safe w ∧ perform w call = some w'

/-! ## What the block keeps -/

variable {s : State} {as rest : List Allocation} {a : Allocation} {mc : memory_chunk} {h' : Heap}

/-- The objects of the allocation are among those in use in the chunk. -/
def Allocation.In (stride : ℕ) (a : Allocation) (mc : memory_chunk) : Prop :=
  mc.memory ≤ a.start ∧ a.start + stride * a.count ≤ mc.memory + stride * mc.used_count

def Allocation.Disjoint (stride : ℕ) (a a' : Allocation) : Prop :=
  Apart a.start (stride * a.count) a'.start (stride * a'.count)

def memory_chunk.Disjoint (stride : ℕ) (mc mc' : memory_chunk) : Prop :=
  mc.memory ≠ mc'.memory ∧ Apart mc.memory (stride * mc.capacity_count) mc'.memory (stride * mc'.capacity_count)

/-- A chunk of a block in use. -/
structure memory_chunk.Live (stride : ℕ) (h : Heap) (mc : memory_chunk) : Prop where
  nonnull : mc.memory ≠ 0
  live : ⟨mc.memory, stride * mc.capacity_count⟩ ∈ h.chunks
  used : mc.used_count ≤ mc.capacity_count
  bytes : stride * mc.capacity_count < 2 ^ 63

structure Core (s : State) (as : List Allocation) : Prop where
  chunks : ∀ mc ∈ s.emb.m_memory_handles, mc.Live s.emb.m_stride s.heap
  separate : s.emb.m_memory_handles.Pairwise (memory_chunk.Disjoint s.emb.m_stride)
  placed : ∀ a ∈ as, a.count = 0 ∨ ∃ mc ∈ s.emb.m_memory_handles, a.In s.emb.m_stride mc
  disjoint : as.Pairwise (Allocation.Disjoint s.emb.m_stride)

/-- The objects in use in the chunks. -/
def in_use (s : State) : List ℕ :=
  s.emb.m_memory_handles.flatMap fun mc => objects s.emb.m_stride mc.memory mc.used_count

/-- The objects the caller holds. -/
def held (stride : ℕ) (as : List Allocation) : List ℕ := as.flatMap fun a => objects stride a.start a.count

/-- The newest allocation is what the newest chunk gave out last. -/
def LastEnds (s : State) (as : List Allocation) : Prop :=
  ∀ a rest, as = a :: rest → ∃ mc i, s.emb.m_memory_handles.getLast? = some mc ∧
    a.start = mc.memory + s.emb.m_stride * i ∧ i + a.count = mc.used_count

structure Inv (s : State) (as : List Allocation) : Prop where
  nonempty : s.emb.m_memory_handles ≠ []
  core : Core s as
  owned : (held s.emb.m_stride as).Perm (in_use s)
  last : LastEnds s as

theorem objects_add (stride start m n : ℕ) :
    objects stride start (m + n) = objects stride start m ++ objects stride (start + stride * m) n := by
  unfold objects
  rw [List.range_add, List.map_append, List.map_map]
  congr 1
  refine List.map_congr_left fun i _ => ?_
  show start + stride * (m + i) = start + stride * m + stride * i
  rw [Nat.mul_add, Nat.add_assoc]

theorem objects_zero (stride start : ℕ) : objects stride start 0 = [] := rfl

theorem Core.tail (hc : Core s (a :: rest)) : Core s rest where
  chunks := hc.chunks
  separate := hc.separate
  placed a' ha := hc.placed a' (List.mem_cons_of_mem _ ha)
  disjoint := (List.pairwise_cons.mp hc.disjoint).2

/-- Only objects in use count: a chunk has them all inside. -/
theorem memory_chunk.Live.inside {stride : ℕ} {h : Heap} (hm : mc.Live stride h) {p n : ℕ} (hp : mc.memory ≤ p)
    (hn : p + n ≤ mc.memory + stride * mc.capacity_count) : h.Inside p n :=
  .inr ⟨_, hm.live, hp, hn⟩

theorem memory_chunk.Live.used_le {stride : ℕ} {h : Heap} (hm : mc.Live stride h) :
    stride * mc.used_count ≤ stride * mc.capacity_count := Nat.mul_le_mul_left _ hm.used

theorem Core.inside (hc : Core s as) (ha : a ∈ as) : s.heap.Inside a.start (s.emb.m_stride * a.count) := by
  obtain h0 | ⟨mc, hm, h1, h2⟩ := hc.placed a ha
  · exact .inl (by rw [h0, Nat.mul_zero])
  · exact (hc.chunks mc hm).inside h1 (h2.trans (Nat.add_le_add_left (hc.chunks mc hm).used_le _))

theorem dropLast_back (hb : s.emb.m_memory_handles.getLast? = some mc) :
    s.emb.m_memory_handles.dropLast ++ [mc] = s.emb.m_memory_handles := by
  obtain ⟨ys, he⟩ := List.getLast?_eq_some_iff.mp hb
  rw [he, List.dropLast_concat]

theorem set_back_self (hb : s.emb.m_memory_handles.getLast? = some mc) : s.set_back mc = s := by
  unfold State.set_back
  rw [dropLast_back hb]

/-- Objects given out of the newest chunk before `start`, or of another. -/
def Allocation.Before (s : State) (mc : memory_chunk) (start : ℕ) (a : Allocation) : Prop :=
  a.count = 0 ∨ (∃ mc' ∈ s.emb.m_memory_handles.dropLast, a.In s.emb.m_stride mc') ∨
    (mc.memory ≤ a.start ∧ a.start + s.emb.m_stride * a.count ≤ start)

theorem before_used (hc : Core s as) (hb : s.emb.m_memory_handles.getLast? = some mc) (ha : a ∈ as) :
    a.Before s mc (mc.memory + s.emb.m_stride * mc.used_count) := by
  obtain h0 | ⟨mc', hm, hin⟩ := hc.placed a ha
  · exact .inl h0
  · rw [← dropLast_back hb, List.mem_append, List.mem_singleton] at hm
    obtain hm | rfl := hm
    · exact .inr (.inl ⟨mc', hm, hin⟩)
    · exact .inr (.inr hin)

/-- The state with objects `[i, i + count)` of the newest chunk given out as
the last of its objects. -/
theorem Core.give (hc : Core s rest) (hb : s.emb.m_memory_handles.getLast? = some mc) {i count : ℕ}
    (hroom : i + count ≤ mc.capacity_count)
    (hbefore : ∀ a ∈ rest, a.Before s mc (mc.memory + s.emb.m_stride * i)) (hchunks : h'.chunks = s.heap.chunks) :
    Core { s.set_back { mc with used_count := i + count } with heap := h' }
      (⟨mc.memory + s.emb.m_stride * i, count⟩ :: rest) := by
  have hsplit := dropLast_back hb
  have hback : mc ∈ s.emb.m_memory_handles := hsplit ▸ List.mem_append_right _ (List.mem_singleton.mpr rfl)
  have hmem : ∀ mc' ∈ s.emb.m_memory_handles.dropLast, mc' ∈ s.emb.m_memory_handles := fun mc' hm =>
    List.mem_of_mem_dropLast hm
  have hsep := hc.separate
  rw [← hsplit, List.pairwise_append] at hsep
  obtain ⟨hsep₁, _, hsep₂⟩ := hsep
  have hmul : s.emb.m_stride * i + s.emb.m_stride * count ≤ s.emb.m_stride * mc.capacity_count := by
    rw [← Nat.mul_add]
    exact Nat.mul_le_mul_left _ hroom
  have hbackLive := hc.chunks mc hback
  refine ⟨?_, ?_, ?_, ?_⟩
  · intro mc' hm
    change mc' ∈ s.emb.m_memory_handles.dropLast ++ [_] at hm
    obtain hm | hm := List.mem_append.mp hm
    · have hl := hc.chunks mc' (hmem mc' hm)
      exact ⟨hl.nonnull, hchunks ▸ hl.live, hl.used, hl.bytes⟩
    · obtain rfl := List.mem_singleton.mp hm
      exact ⟨hbackLive.nonnull, hchunks ▸ hbackLive.live, hroom, hbackLive.bytes⟩
  · refine List.pairwise_append.mpr ⟨hsep₁, List.pairwise_singleton _ _, fun mc' hm mc'' hm' => ?_⟩
    obtain rfl := List.mem_singleton.mp hm'
    exact hsep₂ mc' hm mc (List.mem_singleton.mpr rfl)
  · intro a ha
    obtain rfl | ha := List.mem_cons.mp ha
    · refine .inr ⟨_, List.mem_append_right _ (List.mem_singleton.mpr rfl), Nat.le_add_right _ _, ?_⟩
      show mc.memory + s.emb.m_stride * i + s.emb.m_stride * count ≤ mc.memory + s.emb.m_stride * (i + count)
      rw [Nat.mul_add, Nat.add_assoc]
    · obtain h0 | ⟨mc', hm, hin⟩ | ⟨h1, h2⟩ := hbefore a ha
      · exact .inl h0
      · exact .inr ⟨mc', List.mem_append_left _ hm, hin⟩
      · refine .inr ⟨_, List.mem_append_right _ (List.mem_singleton.mpr rfl), h1, h2.trans ?_⟩
        show mc.memory + s.emb.m_stride * i ≤ mc.memory + s.emb.m_stride * (i + count)
        rw [Nat.mul_add]
        omega
  · refine List.pairwise_cons.mpr ⟨fun a ha => ?_, hc.disjoint⟩
    show Apart (mc.memory + s.emb.m_stride * i) (s.emb.m_stride * count) a.start (s.emb.m_stride * a.count)
    obtain h0 | ⟨mc', hm, h1, h2⟩ | ⟨h1, h2⟩ := hbefore a ha
    · exact .inr (.inl (by rw [h0, Nat.mul_zero]))
    · have hap := (hsep₂ mc' hm mc (List.mem_singleton.mpr rfl)).2
      have hu := (hc.chunks mc' (hmem mc' hm)).used_le
      exact ((hap.mono (Nat.le_add_right _ _) (by omega)).symm.mono h1 (by omega))
    · exact .inr (.inr (.inr h2))

/-- A new chunk, nothing in it given out. -/
theorem append_memory_spec {al : Allocator} (hal : al.Answers) (hc : Core s as) {count : ℕ}
    (hsize : s.emb.m_stride * count < 2 ^ 63) :
    ∃ s' mc, append_memory al count s = .returns s' () ∧ Core s' as ∧
      s'.emb.m_memory_handles = s.emb.m_memory_handles ++ [mc] ∧ mc.used_count = 0 ∧ mc.capacity_count = count ∧
      s'.emb.m_dt = s.emb.m_dt ∧ s'.emb.m_stride = s.emb.m_stride ∧ s'.destructed = s.destructed ∧
      ∀ p n, s.heap.Inside p n → s'.heap.Inside p n ∧ ∀ i < n, s'.heap.byte (p + i) = s.heap.byte (p + i) := by
  obtain ⟨r, he, hf⟩ := hal s.heap (s.emb.m_stride * count)
  unfold append_memory
  rw [if_neg (Nat.not_le.mpr hsize)]
  dsimp only
  rw [he]
  refine ⟨_, ⟨r.address, 0, count⟩, rfl, ⟨?_, ?_, ?_, hc.disjoint⟩, rfl, rfl, rfl, rfl, rfl, rfl, ?_⟩
  · intro mc hm
    obtain hm | hm := List.mem_append.mp hm
    · have hl := hc.chunks mc hm
      exact ⟨hl.nonnull, List.mem_cons_of_mem _ hl.live, hl.used, hl.bytes⟩
    · obtain rfl := List.mem_singleton.mp hm
      exact ⟨Nat.pos_iff_ne_zero.mp hf.1, List.mem_cons_self, Nat.zero_le _, hsize⟩
  · refine List.pairwise_append.mpr ⟨hc.separate, List.pairwise_singleton _ _, fun mc hm mc' hm' => ?_⟩
    obtain rfl := List.mem_singleton.mp hm'
    have hl := hc.chunks mc hm
    have hfresh := hf.2 _ hl.live
    refine ⟨?_, (hf.apart (hl.inside le_rfl le_rfl)).symm⟩
    show mc.memory ≠ r.address
    dsimp only at hfresh
    omega
  · intro a ha
    exact (hc.placed a ha).imp_right fun ⟨mc, hm, hin⟩ => ⟨mc, List.mem_append_left _ hm, hin⟩
  · intro p n hin
    exact ⟨hin.malloc, fun i hn => Heap.byte_malloc hf hin hn⟩

/-- The bytes of the allocations are the same in both states. -/
def Kept (s s' : State) (as : List Allocation) : Prop :=
  ∀ a ∈ as, ∀ i < s.emb.m_stride * a.count, s'.heap.byte (a.start + i) = s.heap.byte (a.start + i)

theorem zero_init_spec {p n : ℕ} (result : ℕ) (hz : s.emb.m_dt.zeroinit = true) (hin : s.heap.Inside p n) (hn : n < 2 ^ 63) :
    ∃ h', zero_init p n result s = .returns { s with heap := h' } result ∧ h'.chunks = s.heap.chunks ∧
      (∀ i < n, h'.byte (p + i) = 0) ∧ ∀ x, x < p ∨ p + n ≤ x → h'.byte x = s.heap.byte x := by
  obtain ⟨h', he, hr⟩ := Heap.memset_spec (v := 0) hin
  refine ⟨h', ?_, hr⟩
  have hbytes : ((n : ℤ) % 2 ^ 64).toNat = n := by omega
  unfold zero_init
  rw [if_pos hz, hbytes, he]

/-- The objects in use but those of the newest chunk. -/
def in_use_before (s : State) : List ℕ :=
  s.emb.m_memory_handles.dropLast.flatMap fun mc => objects s.emb.m_stride mc.memory mc.used_count

theorem in_use_eq (hb : s.emb.m_memory_handles.getLast? = some mc) :
    in_use s = in_use_before s ++ objects s.emb.m_stride mc.memory mc.used_count := by
  unfold in_use in_use_before
  rw [← dropLast_back hb, List.dropLast_concat, List.flatMap_append, List.flatMap_singleton]

theorem in_use_set_back (s : State) (mc : memory_chunk) :
    in_use (s.set_back mc) = in_use_before s ++ objects s.emb.m_stride mc.memory mc.used_count := by
  unfold in_use in_use_before State.set_back
  rw [List.flatMap_append, List.flatMap_singleton]

theorem getLast?_set_back (s : State) (mc : memory_chunk) : (s.set_back mc).emb.m_memory_handles.getLast? = some mc :=
  List.getLast?_concat

theorem held_cons (stride : ℕ) (a : Allocation) (as : List Allocation) :
    held stride (a :: as) = objects stride a.start a.count ++ held stride as := List.flatMap_cons ..

/-- The objects the newest chunk gives out are held by the new allocation. -/
theorem Inv.give (hc : Core s rest) (hb : s.emb.m_memory_handles.getLast? = some mc) {i count : ℕ}
    (hroom : i + count ≤ mc.capacity_count)
    (hbefore : ∀ a ∈ rest, a.Before s mc (mc.memory + s.emb.m_stride * i)) (hchunks : h'.chunks = s.heap.chunks)
    (hheld : (held s.emb.m_stride rest).Perm (in_use_before s ++ objects s.emb.m_stride mc.memory i)) :
    Inv { s.set_back { mc with used_count := i + count } with heap := h' }
      (⟨mc.memory + s.emb.m_stride * i, count⟩ :: rest) := by
  refine ⟨List.append_ne_nil_of_right_ne_nil _ (List.cons_ne_nil _ _), hc.give hb hroom hbefore hchunks, ?_, ?_⟩
  · show (held s.emb.m_stride _).Perm (in_use (s.set_back { mc with used_count := i + count }))
    rw [held_cons, in_use_set_back]
    show (objects s.emb.m_stride (mc.memory + s.emb.m_stride * i) count ++ _).Perm
      (_ ++ objects s.emb.m_stride mc.memory (i + count))
    rw [objects_add, ← List.append_assoc]
    exact List.perm_append_comm.trans (hheld.append_right _)
  · intro a rest' heq
    cases heq
    exact ⟨_, i, getLast?_set_back s _, rfl, rfl⟩

/-- Zeroing part of one allocation leaves those apart from it. -/
theorem kept_of_disjoint {s' : State} {p n : ℕ} (hd : ∀ a' ∈ rest, a.Disjoint s.emb.m_stride a') (hp : a.start ≤ p)
    (hn : p + n ≤ a.start + s.emb.m_stride * a.count)
    (hbytes : ∀ x, x < p ∨ p + n ≤ x → s'.heap.byte x = s.heap.byte x) : Kept s s' rest := by
  intro a' ha' i hlt
  have hap := hd a' ha'
  unfold Allocation.Disjoint Apart at hap
  apply hbytes
  omega

theorem Kept.trans {s' s'' : State} (h₁ : Kept s s' as) (he : s'.emb.m_stride = s.emb.m_stride) (h₂ : Kept s' s'' as) :
    Kept s s'' as := by
  intro a ha i hi
  rw [h₂ a ha i (he ▸ hi), h₁ a ha i hi]

/-! ## Each call -/

theorem hand_out_spec (count : ℕ) (hc : Core s as) (ho : (held s.emb.m_stride as).Perm (in_use s))
    (hb : s.emb.m_memory_handles.getLast? = some mc) (hroom : mc.used_count + count ≤ mc.capacity_count)
    (hz : s.emb.m_dt.zeroinit = true) :
    ∃ s' start, hand_out count s = .returns s' start ∧ Inv s' (⟨start, count⟩ :: as) ∧
      (∀ i < s.emb.m_stride * count, s'.heap.byte (start + i) = 0) ∧ Kept s s' as ∧ s'.emb.m_stride = s.emb.m_stride ∧
      s'.destructed = s.destructed := by
  have hl := hc.chunks mc (List.mem_of_getLast? hb)
  have hmul : s.emb.m_stride * mc.used_count + s.emb.m_stride * count ≤ s.emb.m_stride * mc.capacity_count := by
    rw [← Nat.mul_add]
    exact Nat.mul_le_mul_left _ hroom
  have hbytes := hl.bytes
  obtain ⟨h', he, hch, hzero, hother⟩ := zero_init_spec
    (s := s.set_back { mc with used_count := mc.used_count + count }) (n := s.emb.m_stride * count)
    (p := mc.memory + s.emb.m_stride * mc.used_count) (mc.memory + s.emb.m_stride * mc.used_count) hz
    (hl.inside (Nat.le_add_right _ _) (by omega)) (by omega)
  have hi' := Inv.give hc hb hroom (fun a ha => before_used hc hb ha) hch (by rw [← in_use_eq hb]; exact ho)
  unfold hand_out
  rw [hb]
  dsimp only
  rw [← Nat.cast_mul, he]
  refine ⟨_, _, rfl, hi', hzero, ?_, rfl, rfl⟩
  exact kept_of_disjoint (List.pairwise_cons.mp hi'.core.disjoint).1 le_rfl le_rfl hother

/-- The new chunk has room for what it was taken for. -/
theorem append_memory_back {s' : State} (hh : s'.emb.m_memory_handles = s.emb.m_memory_handles ++ [mc]) :
    s'.emb.m_memory_handles.getLast? = some mc ∧ s'.emb.m_memory_handles.dropLast = s.emb.m_memory_handles := by
  rw [hh]
  exact ⟨List.getLast?_concat, List.dropLast_concat⟩

theorem in_use_append {s' : State} (hh : s'.emb.m_memory_handles = s.emb.m_memory_handles ++ [mc])
    (hst : s'.emb.m_stride = s.emb.m_stride) : in_use_before s' = in_use s := by
  unfold in_use_before in_use
  rw [(append_memory_back hh).2, hst]

theorem allocate_spec {al : Allocator} {count : ℕ} (hi : Inv s as) (hal : al.Answers)
    (hz : s.emb.m_dt.zeroinit = true ∨ count = 0)
    (hsize : ∀ mc, s.emb.m_memory_handles.getLast? = some mc → mc.capacity_count - mc.used_count < count →
      s.emb.m_stride * max s.emb.m_total_allocated_count count < 2 ^ 63) :
    (s.emb.m_dt.zeroinit = false ∧ ∃ e, allocate al count s = .throws s e) ∨
    ∃ s' start, allocate al count s = .returns s' start ∧ Inv s' (⟨start, count⟩ :: as) ∧
      (∀ i < s.emb.m_stride * count, s'.heap.byte (start + i) = 0) ∧ Kept s s' as ∧ s'.emb.m_stride = s.emb.m_stride ∧
      s'.destructed = s.destructed := by
  have hb : s.emb.m_memory_handles.getLast? = some (s.emb.m_memory_handles.getLast hi.nonempty) :=
    List.getLast?_eq_some_getLast hi.nonempty
  generalize s.emb.m_memory_handles.getLast hi.nonempty = mc at hb
  have hl := hi.core.chunks mc (List.mem_of_getLast? hb)
  have hused := hl.used
  unfold allocate
  rw [hb]
  dsimp only
  cases hzi : s.emb.m_dt.zeroinit with
  | false =>
    -- nothing asked for: the chunk has room, and nothing is done but throw
    left
    obtain h0 | rfl := hz
    · rw [hzi] at h0
      cases h0
    rw [if_neg (Nat.not_lt_zero _)]
    unfold hand_out
    rw [hb]
    dsimp only
    rw [Nat.add_zero, set_back_self hb]
    unfold zero_init
    rw [if_neg (by rw [hzi]; decide)]
    exact ⟨rfl, _, rfl⟩
  | true =>
    right
    split_ifs with hfit
    · obtain ⟨s', mc', he, hc', hh, hu, hcap, hdt, hst, hd, hold⟩ := append_memory_spec hal hi.core (hsize mc hb hfit)
      have hb' := (append_memory_back hh).1
      have ho' : (held s'.emb.m_stride as).Perm (in_use s') := by
        rw [in_use_eq hb', in_use_append hh hst, hu, objects_zero, List.append_nil, hst]
        exact hi.owned
      obtain ⟨s'', start, he', hi', hzero, hkept, hst', hd'⟩ := hand_out_spec count hc' ho' hb'
        (by omega) (by rw [hdt, hzi])
      rw [he]
      refine ⟨s'', start, he', hi', hst ▸ hzero, ?_, hst'.trans hst, hd'.trans hd⟩
      have hk : Kept s s' as := fun a ha => (hold _ _ (hi.core.inside ha)).2
      exact hk.trans hst hkept
    · exact hand_out_spec count hi.core hi.owned hb (by omega) hzi

/-- The others were given out before the newest allocation, or hold nothing. -/
theorem before_last (hc : Core s (a :: rest)) (hb : s.emb.m_memory_handles.getLast? = some mc) {i : ℕ}
    (hst : 0 < s.emb.m_stride) (hstart : a.start = mc.memory + s.emb.m_stride * i) (hcount : i + a.count = mc.used_count) :
    ∀ a' ∈ rest, a'.Before s mc (mc.memory + s.emb.m_stride * i) := by
  intro a' ha'
  have hmul : s.emb.m_stride * i + s.emb.m_stride * a.count = s.emb.m_stride * mc.used_count := by
    rw [← Nat.mul_add, hcount]
  have hap := (List.pairwise_cons.mp hc.disjoint).1 a' ha'
  obtain h0 | hin | ⟨h1, h2⟩ := before_used hc hb (List.mem_cons_of_mem _ ha')
  · exact .inl h0
  · exact .inr (.inl hin)
  · by_cases h0 : a'.count = 0
    · exact .inl h0
    · have : 0 < s.emb.m_stride * a'.count := Nat.mul_pos hst (Nat.pos_of_ne_zero h0)
      unfold Allocation.Disjoint Apart at hap
      refine .inr (.inr ⟨h1, ?_⟩)
      omega

theorem held_rest (ho : (held s.emb.m_stride (a :: rest)).Perm (in_use s))
    (hb : s.emb.m_memory_handles.getLast? = some mc) {i : ℕ} (hstart : a.start = mc.memory + s.emb.m_stride * i)
    (hcount : i + a.count = mc.used_count) :
    (held s.emb.m_stride rest).Perm (in_use_before s ++ objects s.emb.m_stride mc.memory i) := by
  rw [held_cons, in_use_eq hb, ← hcount, objects_add, ← hstart, ← List.append_assoc] at ho
  exact (List.perm_append_right_iff _).mp (List.perm_append_comm.trans ho)

/-- What a resize does for the caller. -/
structure Resized (s s' : State) (a : Allocation) (rest : List Allocation) (start count : ℕ) : Prop where
  inv : Inv s' (⟨start, count⟩ :: rest)
  kept : ∀ j < s.emb.m_stride * min a.count count, s'.heap.byte (start + j) = s.heap.byte (a.start + j)
  zeroed : ∀ j, s.emb.m_stride * min a.count count ≤ j → j < s.emb.m_stride * count → s'.heap.byte (start + j) = 0
  others : Kept s s' rest
  stride : s'.emb.m_stride = s.emb.m_stride
  destructed : s'.destructed = s.destructed

/-- A resize that stays where it is. -/
theorem resize_in_place {al : Allocator} {count i : ℕ} (hi : Inv s (a :: rest))
    (hb : s.emb.m_memory_handles.getLast? = some mc) (hz : s.emb.m_dt.zeroinit = true) (hst : s.emb.m_stride ≠ 0)
    (hstart : a.start = mc.memory + s.emb.m_stride * i) (hcount : i + a.count = mc.used_count)
    (hfit : ¬ mc.capacity_count - i < count) (hsafe : count = a.count ∨ (i = 0 ∧ a.count ≤ count)) :
    ∃ s', resize al a.start count s = .returns s' a.start ∧ Resized s s' a rest a.start count := by
  have hpos : 0 < s.emb.m_stride := Nat.pos_of_ne_zero hst
  have hl := hi.core.chunks mc (List.mem_of_getLast? hb)
  have hused := hl.used
  have hbytes := hl.bytes
  have hle : a.count ≤ count := by omega
  have hmin : min a.count count = a.count := Nat.min_eq_left hle
  have hindex : (a.start - mc.memory) / s.emb.m_stride = i := by
    rw [hstart, Nat.add_sub_cancel_left, Nat.mul_div_cancel_left _ hpos]
  have hprev : mc.used_count - i = a.count := by omega
  have hsub : s.emb.m_stride * (count - a.count) + s.emb.m_stride * a.count = s.emb.m_stride * count := by
    rw [← Nat.mul_add, Nat.sub_add_cancel hle]
  have hroom : i + count ≤ mc.capacity_count := by omega
  have hmul : s.emb.m_stride * i + s.emb.m_stride * count ≤ s.emb.m_stride * mc.capacity_count := by
    rw [← Nat.mul_add]
    exact Nat.mul_le_mul_left _ hroom
  -- nothing is zeroed, or what follows the objects of a chunk of its own
  have hwhere : s.emb.m_stride * (count - a.count) = 0 ∨ mc.memory = a.start := by
    obtain rfl | ⟨rfl, _⟩ := hsafe
    · left
      rw [Nat.sub_self, Nat.mul_zero]
    · right
      rw [hstart, Nat.mul_zero, Nat.add_zero]
  have hin : s.heap.Inside (mc.memory + s.emb.m_stride * a.count) (s.emb.m_stride * (count - a.count)) := by
    obtain h0 | h0 := hwhere
    · exact .inl h0
    · exact hl.inside (Nat.le_add_right _ _) (by omega)
  obtain ⟨h', he, hch, hzero, hother⟩ := zero_init_spec
    (s := s.set_back { mc with used_count := mc.used_count + (count - a.count) }) a.start hz hin (by omega)
  have hi' := Inv.give hi.core.tail hb hroom (before_last hi.core hb hpos hstart hcount) hch
    (held_rest hi.owned hb hstart hcount)
  rw [show i + count = mc.used_count + (count - a.count) by omega, ← hstart] at hi'
  have hbyte : ∀ x, x < a.start + s.emb.m_stride * a.count ∨ a.start + s.emb.m_stride * count ≤ x →
      h'.byte x = s.heap.byte x := by
    intro x hx
    apply hother
    omega
  have hres : resize al a.start count s = .returns
      { s.set_back { mc with used_count := mc.used_count + (count - a.count) } with heap := h' } a.start := by
    have hcast : (s.emb.m_stride : ℤ) * ((count : ℤ) - (a.count : ℕ)) = ((s.emb.m_stride * (count - a.count) : ℕ) : ℤ) := by
      rw [Nat.cast_mul, Nat.cast_sub hle]
    unfold resize
    rw [hb]
    dsimp only
    rw [if_neg hst, hindex, hprev, if_neg hfit, if_pos hle, hcast, he]
  refine ⟨_, hres, hi', ?_, ?_, ?_, rfl, rfl⟩
  · intro j hj
    rw [hmin] at hj
    exact hbyte _ (.inl (by omega))
  · intro j h1 h2
    rw [hmin] at h1
    obtain h0 | h0 := hwhere
    · omega
    · have := hzero (j - s.emb.m_stride * a.count) (by omega)
      rw [h0, show a.start + s.emb.m_stride * a.count + (j - s.emb.m_stride * a.count) = a.start + j by omega] at this
      exact this
  · refine kept_of_disjoint (p := a.start) (n := s.emb.m_stride * count)
      (List.pairwise_cons.mp hi'.core.disjoint).1 le_rfl le_rfl fun x hx => hbyte x (by omega)

/-- The copy of the old objects to a new chunk stays inside the live chunks. -/
theorem memcpy_to_new {s' : State} {new_mc : memory_chunk} {i : ℕ} (hc' : Core s' (a :: rest))
    (hone : s'.emb.m_stride = 1) (hmc : mc ∈ s'.emb.m_memory_handles) (hnew : new_mc ∈ s'.emb.m_memory_handles)
    (hmcnew : mc.Disjoint s'.emb.m_stride new_mc) (hstart : a.start = mc.memory + i) (hcount : i + a.count = mc.used_count)
    (hroom : a.count ≤ new_mc.capacity_count) :
    ∃ h', s'.heap.memcpy new_mc.memory a.start a.count = some h' ∧ h'.chunks = s'.heap.chunks ∧
      (∀ j < a.count, h'.byte (new_mc.memory + j) = s'.heap.byte (a.start + j)) ∧
      ∀ x, x < new_mc.memory ∨ new_mc.memory + a.count ≤ x → h'.byte x = s'.heap.byte x := by
  have hin : s'.heap.Inside a.start a.count := by
    have := hc'.inside (List.mem_cons_self : a ∈ a :: rest)
    rwa [hone, Nat.one_mul] at this
  have hucap : mc.used_count ≤ mc.capacity_count := (hc'.chunks mc hmc).used
  have hap : Apart new_mc.memory a.count a.start a.count := by
    have h2 := hmcnew.2
    rw [hone, Nat.one_mul, Nat.one_mul] at h2
    have h3 : Apart new_mc.memory new_mc.capacity_count a.start a.count := h2.symm.mono (by omega) (by omega)
    exact (h3.symm.mono le_rfl (by omega)).symm
  have hdst : s'.heap.Inside new_mc.memory a.count := (hc'.chunks new_mc hnew).inside le_rfl (by rw [hone]; omega)
  exact Heap.memcpy_spec hdst hin hap

/-- What a move to a new chunk leaves, whether or not there was something to move. -/
structure Moved (s' s₁ : State) (a : Allocation) (rest : List Allocation) (new_mc : memory_chunk) : Prop where
  core : Core s₁ rest
  back : s₁.emb.m_memory_handles.getLast? = some new_mc
  owned : (held s₁.emb.m_stride rest).Perm (in_use_before s₁)
  before : ∀ a' ∈ rest, a'.Before s₁ new_mc new_mc.memory
  copied : ∀ j < s'.emb.m_stride * a.count, s₁.heap.byte (new_mc.memory + j) = s'.heap.byte (a.start + j)
  other : ∀ x, x < new_mc.memory ∨ new_mc.memory + s'.emb.m_stride * a.count ≤ x → s₁.heap.byte x = s'.heap.byte x
  dt : s₁.emb.m_dt = s'.emb.m_dt
  stride : s₁.emb.m_stride = s'.emb.m_stride
  destructed : s₁.destructed = s'.destructed

section
variable {s' : State} {new_mc : memory_chunk}

/-- The chunks of the block before a new one, the last of them, and the new one are apart. -/
theorem separate_append (hc' : Core s' as) (hb : s.emb.m_memory_handles.getLast? = some mc)
    (hh : s'.emb.m_memory_handles = s.emb.m_memory_handles ++ [new_mc]) :
    s.emb.m_memory_handles.dropLast.Pairwise (memory_chunk.Disjoint s'.emb.m_stride) ∧ mc.Disjoint s'.emb.m_stride new_mc ∧
      ∀ mc' ∈ s.emb.m_memory_handles.dropLast, mc'.Disjoint s'.emb.m_stride mc ∧ mc'.Disjoint s'.emb.m_stride new_mc := by
  have hsep := hc'.separate
  rw [hh, ← dropLast_back hb, List.append_assoc, List.pairwise_append] at hsep
  obtain ⟨hsep₁, hsep₂, hsep₃⟩ := hsep
  refine ⟨hsep₁, (List.pairwise_cons.mp hsep₂).1 new_mc (List.mem_singleton.mpr rfl), fun mc' hm => ⟨?_, ?_⟩⟩
  · exact hsep₃ mc' hm mc List.mem_cons_self
  · exact hsep₃ mc' hm new_mc (List.mem_cons_of_mem _ (List.mem_singleton.mpr rfl))

theorem Core.live_append (hc' : Core s' as) (hb : s.emb.m_memory_handles.getLast? = some mc)
    (hh : s'.emb.m_memory_handles = s.emb.m_memory_handles ++ [new_mc]) :
    (∀ mc' ∈ s.emb.m_memory_handles.dropLast, mc'.Live s'.emb.m_stride s'.heap) ∧ mc.Live s'.emb.m_stride s'.heap ∧
      new_mc.Live s'.emb.m_stride s'.heap := by
  have hmem : ∀ mc' ∈ s.emb.m_memory_handles, mc' ∈ s'.emb.m_memory_handles := fun mc' hm => by
    rw [hh]
    exact List.mem_append_left _ hm
  refine ⟨fun mc' hm => hc'.chunks mc' (hmem mc' (List.mem_of_mem_dropLast hm)), ?_, ?_⟩
  · exact hc'.chunks mc (hmem mc (List.mem_of_getLast? hb))
  · exact hc'.chunks new_mc (List.mem_of_getLast? (append_memory_back hh).1)

theorem memory_chunk.Live.of_chunks {stride : ℕ} {h h₁ : Heap} (hl : mc.Live stride h) (hchunks : h₁.chunks = h.chunks) :
    mc.Live stride h₁ := ⟨hl.nonnull, hchunks ▸ hl.live, hl.used, hl.bytes⟩

theorem dropLast_append_pair {α : Type} (l : List α) (x y : α) : (l ++ [x, y]).dropLast = l ++ [x] := by
  have hsplit : l ++ [x, y] = l ++ [x] ++ [y] := (List.append_assoc l [x] [y]).symm
  rw [hsplit, List.dropLast_concat]

theorem getLast?_append_pair {α : Type} (l : List α) (x y : α) : (l ++ [x, y]).getLast? = some y := by
  have hsplit : l ++ [x, y] = l ++ [x] ++ [y] := (List.append_assoc l [x] [y]).symm
  rw [hsplit, List.getLast?_concat]

variable {i : ℕ} {h₁ : Heap} (hi : Inv s (a :: rest)) (hb : s.emb.m_memory_handles.getLast? = some mc)
  (hone : s.emb.m_stride = 1) (hstart : a.start = mc.memory + i) (hcount : i + a.count = mc.used_count)
  (hc' : Core s' (a :: rest)) (hh : s'.emb.m_memory_handles = s.emb.m_memory_handles ++ [new_mc])
  (hst : s'.emb.m_stride = s.emb.m_stride)
  (hcopied : ∀ j < s'.emb.m_stride * a.count, h₁.byte (new_mc.memory + j) = s'.heap.byte (a.start + j))
  (hother : ∀ x, x < new_mc.memory ∨ new_mc.memory + s'.emb.m_stride * a.count ≤ x → h₁.byte x = s'.heap.byte x)

include hi hb hone hstart hcount in
/-- The other objects are in the chunks before the last one, or in front of the objects that move. -/
theorem before_moved : ∀ a' ∈ rest, a'.count = 0 ∨ (∃ mc' ∈ s.emb.m_memory_handles.dropLast, a'.In s.emb.m_stride mc') ∨
    (mc.memory ≤ a'.start ∧ a'.start + s.emb.m_stride * a'.count ≤ mc.memory + s.emb.m_stride * i) :=
  before_last hi.core hb (by omega) (by rw [hone, Nat.one_mul, hstart]) hcount

include hi hb hone hstart hcount hc' hh hst hcopied hother in
/-- The old chunk had nothing else, and is freed. -/
theorem moved_first (hchunks : ∀ mc' : memory_chunk, mc'.Live s'.emb.m_stride s'.heap → mc'.memory ≠ mc.memory →
    mc'.Live s'.emb.m_stride h₁) (h0 : i = 0) :
    Moved s' { s' with emb.m_memory_handles := s.emb.m_memory_handles.dropLast ++ [new_mc], heap := h₁ } a rest new_mc := by
  obtain ⟨hsep, hmcnew, hapart⟩ := separate_append hc' hb hh
  obtain ⟨hlive, -, hlnew⟩ := hc'.live_append hb hh
  have hbefore := before_moved hi hb hone hstart hcount
  have hheld := held_rest hi.owned hb (by rw [hone, Nat.one_mul, hstart]) hcount
  have hempty : ∀ a' ∈ rest, a'.count = 0 ∨ ∃ mc' ∈ s.emb.m_memory_handles.dropLast, a'.In s'.emb.m_stride mc' := by
    intro a' ha'
    obtain h | ⟨mc', hm, hin⟩ | ⟨h1, h2⟩ := hbefore a' ha'
    · exact .inl h
    · exact .inr ⟨mc', hm, hst ▸ hin⟩
    · rw [hone, h0] at h2
      exact .inl (by omega)
  refine ⟨⟨?_, ?_, ?_, hc'.tail.disjoint⟩, List.getLast?_concat, ?_, ?_, hcopied, hother, rfl, rfl, rfl⟩
  · intro mc' hm
    obtain hm | hm := List.mem_append.mp hm
    · exact hchunks mc' (hlive mc' hm) (hapart mc' hm).1.1
    · obtain rfl := List.mem_singleton.mp hm
      exact hchunks mc' hlnew hmcnew.1.symm
  · refine List.pairwise_append.mpr ⟨hsep, List.pairwise_singleton _ _, fun mc' hm mc'' hm' => ?_⟩
    obtain rfl := List.mem_singleton.mp hm'
    exact (hapart mc' hm).2
  · exact fun a' ha' => (hempty a' ha').imp_right fun ⟨mc', hm, hin⟩ => ⟨mc', List.mem_append_left _ hm, hin⟩
  · show (held s'.emb.m_stride rest).Perm (in_use_before _)
    unfold in_use_before at hheld ⊢
    dsimp only
    rw [List.dropLast_concat, hst]
    rwa [h0, objects_zero, List.append_nil] at hheld
  · intro a' ha'
    refine (hempty a' ha').imp_right fun ⟨mc', hm, hin⟩ => .inl ⟨mc', ?_, hin⟩
    show mc' ∈ (s.emb.m_memory_handles.dropLast ++ [new_mc]).dropLast
    rwa [List.dropLast_concat]

include hi hb hone hstart hcount hc' hh hst hcopied hother in
/-- The old chunk keeps what was before the objects that move. -/
theorem moved_rest (hchunks : h₁.chunks = s'.heap.chunks) :
    Moved s' { s' with
      emb.m_memory_handles := s.emb.m_memory_handles.dropLast ++ [{ mc with used_count := i }, new_mc]
      heap := h₁ } a rest new_mc := by
  obtain ⟨hsep, hmcnew, hapart⟩ := separate_append hc' hb hh
  obtain ⟨hlive, hlmc, hlnew⟩ := hc'.live_append hb hh
  have hbefore := before_moved hi hb hone hstart hcount
  have hheld := held_rest hi.owned hb (by rw [hone, Nat.one_mul, hstart]) hcount
  have hucap := hlmc.used
  refine ⟨⟨?_, ?_, ?_, hc'.tail.disjoint⟩, getLast?_append_pair _ _ _, ?_, ?_, hcopied, hother, rfl, rfl, rfl⟩
  · intro mc' hm
    obtain hm | hm := List.mem_append.mp hm
    · exact (hlive mc' hm).of_chunks hchunks
    · obtain rfl | hm := List.mem_cons.mp hm
      · refine ⟨hlmc.nonnull, hchunks ▸ hlmc.live, ?_, hlmc.bytes⟩
        show i ≤ mc.capacity_count
        omega
      · obtain rfl := List.mem_singleton.mp hm
        exact hlnew.of_chunks hchunks
  · refine List.pairwise_append.mpr ⟨hsep, List.pairwise_pair.mpr hmcnew, fun mc' hm mc'' hm' => ?_⟩
    obtain rfl | hm' := List.mem_cons.mp hm'
    · exact (hapart mc' hm).1
    · obtain rfl := List.mem_singleton.mp hm'
      exact (hapart mc' hm).2
  · intro a' ha'
    obtain h0 | ⟨mc', hm, hin⟩ | ⟨h1, h2⟩ := hbefore a' ha'
    · exact .inl h0
    · exact .inr ⟨mc', List.mem_append_left _ hm, hst ▸ hin⟩
    · exact .inr ⟨_, List.mem_append_right _ List.mem_cons_self, h1, hst ▸ h2⟩
  · show (held s'.emb.m_stride rest).Perm (in_use_before _)
    unfold in_use_before at hheld ⊢
    dsimp only
    rwa [dropLast_append_pair, List.flatMap_append, List.flatMap_singleton, hst]
  · intro a' ha'
    obtain h0 | ⟨mc', hm, hin⟩ | ⟨h1, h2⟩ := hbefore a' ha'
    · exact .inl h0
    · refine .inr (.inl ⟨mc', ?_, hst ▸ hin⟩)
      exact (dropLast_append_pair _ _ _).symm ▸ List.mem_append_left _ hm
    · refine .inr (.inl ⟨{ mc with used_count := i }, ?_, h1, hst ▸ h2⟩)
      exact (dropLast_append_pair _ _ _).symm ▸ List.mem_append_right _ (List.mem_singleton.mpr rfl)

include hi hb hone hstart hcount hc' hh hst in
/-- The old objects' way to a new chunk, when an object is one byte: the old
chunk keeps what was before them, and goes when there was nothing. -/
theorem move_previous_spec (hroom : a.count ≤ new_mc.capacity_count) :
    ∃ s₁, move_previous a.start a.count mc new_mc s' = some s₁ ∧ Moved s' s₁ a rest new_mc := by
  have hone' : s'.emb.m_stride = 1 := hst.trans hone
  obtain ⟨-, hmcnew, -⟩ := separate_append hc' hb hh
  obtain ⟨-, hlmc, -⟩ := hc'.live_append hb hh
  have hmc : mc ∈ s'.emb.m_memory_handles := by
    rw [hh]
    exact List.mem_append_left _ (List.mem_of_getLast? hb)
  have hnew : new_mc ∈ s'.emb.m_memory_handles := List.mem_of_getLast? (append_memory_back hh).1
  obtain ⟨h₁, he₁, hch₁, hcopied, hother⟩ := memcpy_to_new hc' hone' hmc hnew hmcnew hstart hcount hroom
  rw [← Nat.one_mul a.count, ← hone'] at hcopied hother
  have hothers : s'.emb.m_memory_handles.dropLast.dropLast = s.emb.m_memory_handles.dropLast := by
    rw [(append_memory_back hh).2]
  unfold move_previous
  rw [he₁, hothers]
  dsimp only [Option.bind_some]
  by_cases hfirst : a.start = mc.memory
  · have hfree := Heap.free_eq (h := h₁) hlmc.nonnull ⟨_, hch₁ ▸ hlmc.live, rfl⟩
    obtain ⟨-, hch₂⟩ := Heap.mem_chunks_free hfree
    rw [if_pos hfirst, hfree]
    refine ⟨_, rfl, moved_first hi hb hone hstart hcount hc' hh hst hcopied hother (fun mc' hl hne => ?_) (by omega)⟩
    exact ⟨hl.nonnull, (hch₂ _ hne).mpr (hch₁ ▸ hl.live), hl.used, hl.bytes⟩
  · have hrest : mc.used_count - a.count = i := by omega
    rw [if_neg hfirst, hrest]
    exact ⟨_, rfl, moved_rest hi hb hone hstart hcount hc' hh hst hcopied hother hch₁⟩

include hi hc' hh hst in
/-- With nothing to move the new chunk is all that is new. -/
theorem moved_nothing (h0 : a.count = 0) : Moved s' s' a rest new_mc := by
  obtain ⟨hb', hdrop⟩ := append_memory_back hh
  refine ⟨hc'.tail, hb', ?_, ?_, ?_, fun x _ => rfl, rfl, rfl, rfl⟩
  · have ho := hi.owned
    rw [held_cons, h0, objects_zero, List.nil_append] at ho
    rw [hst, in_use_append hh hst]
    exact ho
  · intro a' ha'
    obtain h1 | ⟨mc', hm, hin⟩ := hi.core.placed a' (List.mem_cons_of_mem _ ha')
    · exact .inl h1
    · exact .inr (.inl ⟨mc', hdrop ▸ hm, hst ▸ hin⟩)
  · intro j hj
    rw [h0, Nat.mul_zero] at hj
    exact absurd hj (Nat.not_lt_zero _)

end

/-- A resize that takes a new chunk. -/
theorem resize_moved_spec {al : Allocator} {count i : ℕ} (hi : Inv s (a :: rest)) (hal : al.Answers)
    (hb : s.emb.m_memory_handles.getLast? = some mc) (hz : s.emb.m_dt.zeroinit = true) (hst : s.emb.m_stride ≠ 0)
    (hstart : a.start = mc.memory + s.emb.m_stride * i) (hcount : i + a.count = mc.used_count)
    (hfit : mc.capacity_count - i < count) (hsize : s.emb.m_stride * max s.emb.m_total_allocated_count count < 2 ^ 63)
    (hsafe : a.count = 0 ∨ (s.emb.m_stride = 1 ∧ s.emb.m_memory_handles.length < s.emb.handles_capacity)) :
    ∃ s' start, resize al a.start count s = .returns s' start ∧ Resized s s' a rest start count := by
  have hpos : 0 < s.emb.m_stride := Nat.pos_of_ne_zero hst
  have hused := (hi.core.chunks mc (List.mem_of_getLast? hb)).used
  have hle : a.count ≤ count := by omega
  have hindex : (a.start - mc.memory) / s.emb.m_stride = i := by
    rw [hstart, Nat.add_sub_cancel_left, Nat.mul_div_cancel_left _ hpos]
  have hprev : mc.used_count - i = a.count := by omega
  obtain ⟨s', new_mc, he, hc', hh, hu, hcap, hdt, hst', hd, hold⟩ := append_memory_spec hal hi.core hsize
  obtain ⟨hb', hdrop⟩ := append_memory_back hh
  have hroom : count ≤ new_mc.capacity_count := by omega
  obtain ⟨s₁, he₁, hm⟩ : ∃ s₁,
      (if 0 < a.count then move_previous a.start a.count mc new_mc s' else some s') = some s₁ ∧ Moved s' s₁ a rest new_mc := by
    by_cases h0 : a.count = 0
    · rw [if_neg (by omega)]
      exact ⟨s', rfl, moved_nothing hi hc' hh hst' h0⟩
    · obtain ⟨hone, _⟩ := hsafe.resolve_left h0
      rw [if_pos (Nat.pos_of_ne_zero h0)]
      exact move_previous_spec hi hb hone (by rw [hstart, hone, Nat.one_mul]) hcount hc' hh hst' (hle.trans hroom)
  obtain ⟨hc₁, hb₁, ho₁, hbefore₁, hcopied, hother₁, hdt₁, hst₁, hd₁⟩ := hm
  rw [hst'] at hcopied hother₁ hst₁
  have hl₁ := hc₁.chunks new_mc (List.mem_of_getLast? hb₁)
  have hsub : s.emb.m_stride * (count - a.count) + s.emb.m_stride * a.count = s.emb.m_stride * count := by
    rw [← Nat.mul_add, Nat.sub_add_cancel hle]
  have hmul : s.emb.m_stride * count ≤ s.emb.m_stride * new_mc.capacity_count := Nat.mul_le_mul_left _ hroom
  have hbytes₁ := hl₁.bytes
  have hin₁ : s₁.heap.Inside (new_mc.memory + s₁.emb.m_stride * a.count) (s₁.emb.m_stride * (count - a.count)) := by
    refine hl₁.inside (Nat.le_add_right _ _) ?_
    rw [hst₁]
    omega
  obtain ⟨h', he', hch, hzero, hother⟩ := zero_init_spec (s := s₁.set_back { new_mc with used_count := count })
    new_mc.memory (show s₁.emb.m_dt.zeroinit = true by rw [hdt₁, hdt, hz]) hin₁ (by rw [hst₁] at *; omega)
  have hroom₀ : 0 + count ≤ new_mc.capacity_count := by omega
  have hi' := Inv.give hc₁ hb₁ hroom₀ (by rwa [Nat.mul_zero, Nat.add_zero]) hch
    (by rwa [objects_zero, List.append_nil])
  rw [Nat.mul_zero, Nat.add_zero, Nat.zero_add] at hi'
  rw [hst₁] at hzero hother
  have hres : resize al a.start count s = .returns
      { s₁.set_back { new_mc with used_count := count } with heap := h' } new_mc.memory := by
    have hcast : (s₁.emb.m_stride : ℤ) * ((count : ℤ) - (a.count : ℕ)) = ((s₁.emb.m_stride * (count - a.count) : ℕ) : ℤ) := by
      rw [Nat.cast_mul, Nat.cast_sub hle]
    have hdangle : ¬ (0 < a.count ∧ decide (s.emb.handles_capacity ≤ s.emb.m_memory_handles.length) = true) := by
      rintro ⟨h1, h2⟩
      have := (hsafe.resolve_left (by omega)).2
      have := of_decide_eq_true h2
      omega
    unfold resize
    rw [hb]
    dsimp only
    rw [if_neg hst, hindex, hprev, if_pos hfit, he]
    unfold resize_moved
    dsimp only
    rw [hb']
    dsimp only
    rw [if_neg hdangle, he₁]
    dsimp only
    rw [hcast]
    exact he'
  have hbyte : ∀ x, x < new_mc.memory ∨ new_mc.memory + s.emb.m_stride * count ≤ x → h'.byte x = s'.heap.byte x := by
    intro x hx
    rw [hother x (by omega)]
    exact hother₁ x (by omega)
  have hmin : min a.count count = a.count := Nat.min_eq_left hle
  refine ⟨_, _, hres, hi', ?_, ?_, ?_, hst₁, hd₁.trans hd⟩
  · intro j hj
    rw [hmin] at hj
    show h'.byte _ = _
    rw [hother _ (by omega)]
    refine (hcopied j hj).trans ((hold _ _ (hi.core.inside List.mem_cons_self)).2 j hj)
  · intro j h1 h2
    rw [hmin] at h1
    have := hzero (j - s.emb.m_stride * a.count) (by omega)
    rwa [show new_mc.memory + s.emb.m_stride * a.count + (j - s.emb.m_stride * a.count) = new_mc.memory + j by omega] at this
  · have hk : Kept s s' rest := fun a' ha' => (hold _ _ (hi.core.inside (List.mem_cons_of_mem _ ha'))).2
    have hdis := (List.pairwise_cons.mp hi'.core.disjoint).1
    refine hk.trans hst' (kept_of_disjoint (a := ⟨new_mc.memory, count⟩) (p := new_mc.memory) (n := s.emb.m_stride * count)
      ?_ le_rfl (by rw [hst']) hbyte)
    intro a' ha'
    have := hdis a' ha'
    rw [hst']
    change Allocation.Disjoint s₁.emb.m_stride _ _ at this
    rwa [hst₁] at this

theorem resize_spec {al : Allocator} {count : ℕ} (hi : Inv s (a :: rest)) (hal : al.Answers)
    (hsafe : (Call.resize al count).Safe ⟨s, a :: rest⟩) :
    ∃ s' start, resize al a.start count s = .returns s' start ∧ Resized s s' a rest start count := by
  obtain ⟨hz, hst, hsafe⟩ := hsafe
  obtain ⟨mc, i, hb, hstart, hcount⟩ := hi.last a rest rfl
  have h := hsafe a rest mc rfl hb
  dsimp only at hz hst h
  have hindex : (a.start - mc.memory) / s.emb.m_stride = i := by
    rw [hstart, Nat.add_sub_cancel_left, Nat.mul_div_cancel_left _ (Nat.pos_of_ne_zero hst)]
  rw [hindex, show mc.used_count - i = a.count by omega] at h
  split_ifs at h with hfit
  · exact resize_moved_spec hi hal hb hz hst hstart hcount hfit h.1 h.2
  · obtain ⟨s', he, hr⟩ := resize_in_place hi hb hz hst hstart hcount hfit h
    exact ⟨s', _, he, hr⟩

/-- Each chunk thrown away has its objects destructed. -/
theorem throw_away_all {mcs : List memory_chunk} :
    ∀ {s : State}, (∀ mc ∈ mcs, mc.Live s.emb.m_stride s.heap) → mcs.Pairwise (memory_chunk.Disjoint s.emb.m_stride) →
      ∃ h', mcs.foldlM throw_away s = some { s with
          heap := h'
          destructed := s.destructed ++ mcs.flatMap fun mc => objects s.emb.m_stride mc.memory mc.used_count } ∧
        ∀ c, (∀ mc ∈ mcs, c.start ≠ mc.memory) → (c ∈ h'.chunks ↔ c ∈ s.heap.chunks) := by
  induction mcs with
  | nil =>
    intro s _ _
    refine ⟨s.heap, ?_, fun _ _ => Iff.rfl⟩
    rw [List.foldlM_nil, List.flatMap_nil, List.append_nil]
    rfl
  | cons mc mcs ih =>
    intro s hlive hsep
    obtain ⟨hne, hsep'⟩ := List.pairwise_cons.mp hsep
    have hl := hlive mc List.mem_cons_self
    have hfree := Heap.free_eq (h := s.heap) hl.nonnull ⟨_, hl.live, rfl⟩
    obtain ⟨_, hch⟩ := Heap.mem_chunks_free hfree
    have hstep : throw_away s mc = some { s with
        heap := { s.heap with chunks := s.heap.chunks.filter (·.start ≠ mc.memory) }
        destructed := s.destructed ++ objects s.emb.m_stride mc.memory mc.used_count } := by
      unfold throw_away data_destruct_strided
      rw [if_pos (hl.inside le_rfl (Nat.add_le_add_left hl.used_le _)), Option.bind_some]
      dsimp only
      rw [hfree]
      rfl
    obtain ⟨h', he, hc⟩ := ih (s := { s with
        heap := { s.heap with chunks := s.heap.chunks.filter (·.start ≠ mc.memory) }
        destructed := s.destructed ++ objects s.emb.m_stride mc.memory mc.used_count })
      (fun mc' hm => by
        have hl' := hlive mc' (List.mem_cons_of_mem _ hm)
        exact ⟨hl'.nonnull, (hch _ (hne mc' hm).1.symm).mpr hl'.live, hl'.used, hl'.bytes⟩) hsep'
    refine ⟨h', ?_, fun c hcn => ?_⟩
    · rw [List.foldlM_cons, hstep, List.flatMap_cons, ← List.append_assoc]
      exact he
    · rw [hc c fun mc' hm => hcn mc' (List.mem_cons_of_mem _ hm)]
      exact hch c (hcn mc List.mem_cons_self)

/-- A reset destructs what the caller holds, each object once. -/
theorem reset_spec (hi : Inv s as)
    (hsafe : 1 < s.emb.m_memory_handles.length ∨ ∀ mc ∈ s.emb.m_memory_handles, mc.used_count = 0) :
    ∃ s' d, reset s = some s' ∧ Inv s' [] ∧ in_use s' = [] ∧ s'.destructed = s.destructed ++ d ∧
      d.Perm (held s.emb.m_stride as) := by
  have hb : s.emb.m_memory_handles.getLast? = some (s.emb.m_memory_handles.getLast hi.nonempty) :=
    List.getLast?_eq_some_getLast hi.nonempty
  generalize s.emb.m_memory_handles.getLast hi.nonempty = mc at hb
  unfold reset
  split_ifs with hmany
  · have hsplit := dropLast_back hb
    have hlive := hi.core.chunks
    have hsep := hi.core.separate
    rw [← hsplit, List.pairwise_append] at hsep
    obtain ⟨hsep₁, _, hsep₂⟩ := hsep
    obtain ⟨h', he, hc⟩ := throw_away_all (fun mc' hm => hlive mc' (List.mem_of_mem_dropLast hm)) hsep₁
    have hl := hlive mc (List.mem_of_getLast? hb)
    have hchunk := (hc ⟨mc.memory, s.emb.m_stride * mc.capacity_count⟩ fun mc' hm =>
      (hsep₂ mc' hm mc (List.mem_singleton.mpr rfl)).1.symm).mpr hl.live
    have hlast : mc.Live s.emb.m_stride h' := ⟨hl.nonnull, hchunk, hl.used, hl.bytes⟩
    rw [he, Option.bind_some]
    dsimp only
    rw [hb]
    unfold data_destruct_strided
    dsimp only
    rw [if_pos (hlast.inside le_rfl (Nat.add_le_add_left hlast.used_le _))]
    refine ⟨_, in_use s, rfl, ?_, ?_, ?_, hi.owned.symm⟩
    · refine ⟨List.cons_ne_nil _ _, ⟨?_, List.pairwise_singleton _ _, fun a ha => absurd ha List.not_mem_nil, .nil⟩, ?_,
        fun a rest h => absurd h (List.cons_ne_nil a rest).symm⟩
      · intro mc' hm
        obtain rfl := List.mem_singleton.mp hm
        exact ⟨hl.nonnull, hchunk, Nat.zero_le _, hl.bytes⟩
      · exact List.Perm.refl _
    · rfl
    · rw [in_use_eq hb, ← List.append_assoc]
      rfl
  · have hzero := hsafe.resolve_left hmany
    have huse : in_use s = [] := List.flatMap_eq_nil_iff.mpr fun mc hm => by rw [hzero mc hm, objects_zero]
    have hheld : held s.emb.m_stride as = [] := List.Perm.eq_nil (huse ▸ hi.owned)
    refine ⟨s, [], rfl, ⟨hi.nonempty, ⟨hi.core.chunks, hi.core.separate, fun a ha => absurd ha List.not_mem_nil, .nil⟩,
      ?_, fun a rest h => absurd h (List.cons_ne_nil a rest).symm⟩, huse, (List.append_nil _).symm, ?_⟩
    · rw [huse]
      exact List.Perm.refl _
    · rw [hheld]

/-- A change of bytes alone. -/
theorem Inv.of_chunks (hi : Inv s as) (hc : h'.chunks = s.heap.chunks) : Inv { s with heap := h' } as :=
  ⟨hi.nonempty, ⟨fun mc hm => by
    have hl := hi.core.chunks mc hm
    exact ⟨hl.nonnull, hc ▸ hl.live, hl.used, hl.bytes⟩, hi.core.separate, hi.core.placed, hi.core.disjoint⟩, hi.owned, hi.last⟩

/-! ## Whole runs -/

/-- What a call is for. -/
def Call.Does (w w' : World) : Call → Prop
  | .allocate _ count =>
    (w.state.emb.m_dt.zeroinit = false ∧ w' = w) ∨
    ∃ start, w'.allocations = ⟨start, count⟩ :: w.allocations ∧
      (∀ i < w.state.emb.m_stride * count, w'.state.heap.byte (start + i) = 0) ∧
      Kept w.state w'.state w.allocations ∧ w'.state.destructed = w.state.destructed
  | .resize _ count => ∃ a rest start, w.allocations = a :: rest ∧ w'.allocations = ⟨start, count⟩ :: rest ∧
      Resized w.state w'.state a rest start count
  | .finalize => w'.allocations = w.allocations ∧ w'.state.heap = w.state.heap ∧ w'.state.destructed = w.state.destructed
  | .reset => w'.allocations = [] ∧ in_use w'.state = [] ∧ ∃ d, w'.state.destructed = w.state.destructed ++ d ∧
      d.Perm (held w.state.emb.m_stride w.allocations)
  | .write k offset v => w'.allocations = w.allocations ∧ w'.state.destructed = w.state.destructed ∧
      ∃ a, w.allocations[k]? = some a ∧ ∀ x, w'.state.heap.byte x = if x = a.start + offset then v else w.state.heap.byte x

theorem made_inv {w : World} (hw : Made w) : Inv w.state w.allocations := by
  obtain ⟨al, dt, stride, count, heap, hal, he, ha⟩ := hw
  rw [ha]
  unfold make_objectarray_memory_block at he
  dsimp only at he
  split_ifs at he with hd
  have hempty : Core ⟨⟨dt, stride, 0, false, [], 0⟩, heap, []⟩ [] :=
    ⟨fun mc hm => absurd hm List.not_mem_nil, .nil, fun a ha => absurd ha List.not_mem_nil, .nil⟩
  by_cases hsize : stride * count < 2 ^ 63
  · obtain ⟨s', mc, he', hc', hh, hu, hcap, hdt, hst, _⟩ := append_memory_spec hal hempty hsize
    rw [he'] at he
    cases he
    rw [List.nil_append] at hh
    refine ⟨by rw [hh]; exact List.cons_ne_nil _ _, hc', ?_, fun a rest h => absurd h (List.cons_ne_nil a rest).symm⟩
    unfold in_use
    rw [hh, List.flatMap_singleton, hu]
    exact List.Perm.refl _
  · unfold append_memory at he
    rw [if_pos (Nat.not_lt.mp hsize)] at he
    cases he

/-- A safe call is defined, does what it is for, and keeps what holds. -/
theorem perform_spec {w : World} {call : Call} (hi : Inv w.state w.allocations) (hc : call.Allowed w) (hs : call.Safe w) :
    ∃ w', perform w call = some w' ∧ call.Does w w' ∧ Inv w'.state w'.allocations := by
  obtain ⟨s, as⟩ := w
  cases call with
  | allocate al count =>
    obtain ⟨hz, hsize⟩ := hs
    unfold perform
    dsimp only at hi hz hsize ⊢
    obtain ⟨h0, e, he⟩ | ⟨s', start, he, hi', hzero, hkept, _, hd⟩ := allocate_spec hi hc hz hsize
    · rw [he]
      exact ⟨_, rfl, .inl ⟨h0, rfl⟩, hi⟩
    · rw [he]
      exact ⟨_, rfl, .inr ⟨start, rfl, hzero, hkept, hd⟩, hi'⟩
  | resize al count =>
    obtain ⟨hal, hne⟩ := hc
    cases as with
    | nil => exact absurd rfl hne
    | cons a rest =>
      obtain ⟨s', start, he, hr⟩ := resize_spec hi hal hs
      unfold perform
      dsimp only
      rw [he]
      exact ⟨_, rfl, ⟨a, rest, start, rfl, rfl, hr⟩, hr.inv⟩
  | finalize => exact ⟨_, rfl, ⟨rfl, rfl, rfl⟩, ⟨hi.nonempty, ⟨hi.core.chunks, hi.core.separate, hi.core.placed,
      hi.core.disjoint⟩, hi.owned, hi.last⟩⟩
  | reset =>
    obtain ⟨s', d, he, hi', hu, hd, hp⟩ := reset_spec hi hs
    refine ⟨⟨s', []⟩, ?_, ⟨rfl, hu, d, hd, hp⟩, hi'⟩
    unfold perform
    rw [he]
    rfl
  | write k offset v =>
    obtain ⟨a, hk, ho⟩ := hc
    unfold perform
    dsimp only at hk ⊢
    rw [hk]
    exact ⟨_, rfl, ⟨rfl, rfl, a, hk, fun _ => rfl⟩, hi.of_chunks rfl⟩

/-- In every run of safe calls: the allocations stand in live chunks, apart
from one another, and the next safe call is defined and does what it is
for. -/
theorem objects_kept {w : World} (hw : Reachable Made Step w) :
    (∀ a ∈ w.allocations, w.state.heap.Inside a.start (w.state.emb.m_stride * a.count)) ∧
    w.allocations.Pairwise (Allocation.Disjoint w.state.emb.m_stride) ∧
    ∀ call : Call, call.Allowed w → call.Safe w → ∃ w', perform w call = some w' ∧ call.Does w w' := by
  have hi : Inv w.state w.allocations := by
    refine hw.invariant (fun w => made_inv) fun w w' hi => ?_
    rintro ⟨call, hc, hs, he⟩
    obtain ⟨w'', he', _, hi'⟩ := perform_spec hi hc hs
    rw [he] at he'
    cases he'
    exact hi'
  refine ⟨fun a ha => hi.core.inside ha, hi.core.disjoint, fun call hc hs => ?_⟩
  obtain ⟨w', he, hd, _⟩ := perform_spec hi hc hs
  exact ⟨w', he, hd⟩

/-- A `malloc` that never gives an address twice, and vectors without spare
places. -/
def bump : Allocator := ⟨fun h _ => some ⟨h.top, fun _ => 170⟩, 0⟩

theorem bump_answers : bump.Answers := fun _ n => ⟨_, rfl, Heap.fresh_of_top_le le_rfl n⟩

/-- A new block of four objects of eight bytes. -/
def four_objects : World where
  state := ⟨⟨⟨"string", true, true⟩, 8, 4, false, [⟨1, 0, 4⟩], 1⟩, (Heap.mk (fun _ => 0) []).malloc ⟨1, fun _ => 170⟩ 32, []⟩
  allocations := []

theorem four_objects_made : Made four_objects :=
  ⟨bump, ⟨"string", true, true⟩, 8, 4, ⟨fun _ => 0, []⟩, bump_answers, rfl, rfl⟩

theorem objects_kept_allocate : ∃ w', perform four_objects (.allocate bump 2) = some w' ∧
    (Call.allocate bump 2).Does four_objects w' :=
  (objects_kept (.init four_objects_made)).2.2 (.allocate bump 2) bump_answers
    ⟨.inl rfl, fun mc hb hlt => by
      cases hb
      exact absurd hlt (by decide)⟩

/-- The caller writes 7 to the second of two allocations of one object, and
makes it two: the byte is gone. -/
theorem written_object_zeroed : Made four_objects ∧ bump.Answers ∧
    (do
      let w ← [.allocate bump 1, .allocate bump 1, .write 0 0 7].foldlM perform four_objects
      let w' ← perform w (.resize bump 2)
      pure (w.allocations.map (·.start), w.state.heap.byte 9, w'.allocations.map (·.start), w'.state.heap.byte 9)) =
    some ([9, 1], 7, [9, 1], 0) :=
  ⟨four_objects_made, bump_answers, by decide⟩

end Dynd.ObjectArrayMemoryBlock
