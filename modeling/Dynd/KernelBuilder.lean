import Dynd.Lib.Heap
import Dynd.Lib.Reachable
import Dynd.Lib.Except
/-!
# The memory of a ckernel_builder

A builder keeps its kernels in an array of its own until they outgrow it, and
in a chunk of the heap from then on. Kernels know their children by offsets,
so whatever the builders do, a byte written has to stay at its offset.

`memory_kept`: in every run of any number of builders no two of them have the
same memory and no chunk of theirs is lost, `reserve` adds zeros, `swap`
exchanges what two builders hold, and every other byte stays.

`malloc` and `realloc` are parameters; the runs are those in which they answer.
-/
namespace Dynd.KernelBuilder
open Lib

structure ckernel_builder where
  m_data : ℕ
  m_capacity : ℕ

/-- The builders of a program, and its memory. -/
@[ext]
structure World (ι : Type) where
  heap : Heap
  builder : ι → ckernel_builder

inductive Failure where
  /-- It touches memory that is not live. -/
  | undefined
  | bad_alloc
deriving DecidableEq

/-- What `malloc` and `realloc` answer. -/
structure Allocator where
  malloc : Heap → ℕ → Option Malloced
  realloc : Heap → ℕ → ℕ → Option Malloced

/-- `sizeof(m_static_data)` -/
def static_size : ℕ := 16 * 8

def defined {α : Type} : Option α → Except Failure α
  | some a => .ok a
  | none => .error .undefined

def allocated {α : Type} : Option α → Except Failure α
  | some a => .ok a
  | none => .error .bad_alloc

/-- `ckernel_prefix::align_offset` -/
def align_offset (offset : ℕ) : ℕ := Nat.ldiff (offset + 7) 7

def inc_ckb_offset (inout_ckb_offset : ℤ) (inc : ℕ) : ℤ := inout_ckb_offset + align_offset inc

/-! ## The calls -/

section
variable {ι : Type} [DecidableEq ι] (static : ι → ℕ) (std : Allocator)

/-- `static b` is `&m_static_data[0]` of the builder `b`. -/
def using_static_data (w : World ι) (b : ι) : Bool := (w.builder b).m_data = static b

def copy (heap : Heap) (dst src size : ℕ) : Except Failure Heap := defined (heap.memcpy dst src size)

/-- The memory and the new address. -/
def realloc (w : World ι) (b : ι) (ptr old_size new_size : ℕ) : Except Failure (Heap × ℕ) :=
  if using_static_data static w b then do
    -- If we were previously using the static data, do a malloc
    let r ← allocated (std.malloc w.heap new_size)
    -- If the allocation succeeded, copy the old data as the realloc would
    let heap ← copy (w.heap.malloc r new_size) r.address ptr old_size
    return (heap, r.address)
  else do
    let r ← allocated (std.realloc w.heap ptr new_size)
    let heap ← defined (w.heap.realloc ptr r new_size)
    return (heap, r.address)

/-- Grow by a factor of 1.5. -/
def grown (m_capacity : ℕ) (requested_capacity : ℤ) : ℕ :=
  let grown_capacity := m_capacity * 3 / 2
  if requested_capacity < grown_capacity then grown_capacity else requested_capacity.toNat

def reserve (b : ι) (requested_capacity : ℤ) (w : World ι) : Except Failure (World ι) :=
  let ⟨m_data, m_capacity⟩ := w.builder b
  if m_capacity < requested_capacity then do
    let requested_capacity := grown m_capacity requested_capacity
    let (heap, new_data) ← realloc static std w b m_data m_capacity requested_capacity
    -- Zero out the newly allocated capacity
    let heap ← defined (heap.memset (new_data + m_capacity) 0 (requested_capacity - m_capacity))
    return ⟨heap, Function.update w.builder b ⟨new_data, requested_capacity⟩⟩
  else return w

/-- The pointer to a kernel of `size` bytes, and the offset after it. -/
def alloc_ck (b : ι) (size : ℕ) (inout_ckb_offset : ℤ) (w : World ι) : Except Failure (World ι × ℤ × ℤ) := do
  let ckb_offset := inout_ckb_offset
  let inout_ckb_offset := inc_ckb_offset inout_ckb_offset size
  let w ← reserve static std b inout_ckb_offset w
  return (w, (w.builder b).m_data + ckb_offset, inout_ckb_offset)

def swap (a rhs : ι) (w : World ι) : Except Failure (World ι) :=
  if using_static_data static w a then
    if using_static_data static w rhs then do
      let tmp_static_data := fun i => w.heap.byte (static a + i)
      let heap ← copy w.heap (static a) (static rhs) static_size
      let heap ← defined (heap.paste (static rhs) tmp_static_data static_size)
      return { w with heap := heap }
    else do
      let heap ← copy w.heap (static rhs) (static a) static_size
      return ⟨heap, Function.update (Function.update w.builder a (w.builder rhs)) rhs ⟨static rhs, 16 * 8⟩⟩
  else
    if using_static_data static w rhs then do
      let heap ← copy w.heap (static a) (static rhs) static_size
      return ⟨heap, Function.update (Function.update w.builder rhs (w.builder a)) a ⟨static a, static_size⟩⟩
    else return { w with builder := w.builder ∘ Equiv.swap a rhs }

/-! ## Runs -/

inductive Call (ι : Type) where
  | reserve (b : ι) (requested_capacity : ℤ)
  | alloc_ck (b : ι) (size : ℕ) (ckb_offset : ℤ)
  | swap (a rhs : ι)
  /-- A kernel writes one byte of the builder it is in. -/
  | write (b : ι) (offset : ℕ) (v : UInt8)

def perform (w : World ι) : Call ι → Except Failure (World ι)
  | .reserve b requested_capacity => KernelBuilder.reserve static std b requested_capacity w
  | .alloc_ck b size ckb_offset => (KernelBuilder.alloc_ck static std b size ckb_offset w).map Prod.fst
  | .swap a rhs => KernelBuilder.swap static a rhs w
  | .write b offset v => .ok { w with heap := w.heap.store ((w.builder b).m_data + offset) v }

/-- A swap is of two builders, and a write is inside the capacity. -/
def Call.Allowed (w : World ι) : Call ι → Prop
  | .swap a rhs => a ≠ rhs
  | .write b offset _ => offset < (w.builder b).m_capacity
  | _ => True

/-- Every request is answered with memory that is not in use; that of
`realloc` may be in use by the chunk it takes the place of. -/
structure Allocator.Answers (std : Allocator) : Prop where
  malloc : ∀ h n, ∃ r, std.malloc h n = some r ∧ h.Fresh r.address n
  realloc : ∀ h p n, ∃ r, std.realloc h p n = some r ∧ (h.without p).Fresh r.address n

/-- What a builder holds. -/
def contents (w : World ι) (b : ι) : List UInt8 := w.heap.read (w.builder b).m_data (w.builder b).m_capacity

/-- Whose memory the chunks are: `others` is the rest of the program. -/
structure Owned (others : List Chunk) (w : World ι) : Prop where
  separate : w.heap.Separate
  static_live : ∀ b, ⟨static b, static_size⟩ ∈ w.heap.chunks
  data_live : ∀ b, ⟨(w.builder b).m_data, (w.builder b).m_capacity⟩ ∈ w.heap.chunks
  /-- The array of one builder is not the memory of another. -/
  own_static : ∀ b b', (w.builder b).m_data = static b' → b = b'
  own_data : ∀ b b', (w.builder b).m_data = (w.builder b').m_data → b = b'
  static_injective : Function.Injective static
  others_live : ∀ c ∈ others, c ∈ w.heap.chunks ∧ ∀ b, c.start ≠ static b ∧ c.start ≠ (w.builder b).m_data
  none_lost : ∀ c ∈ w.heap.chunks,
    c ∈ others ∨ ∃ b, c = ⟨static b, static_size⟩ ∨ c = ⟨(w.builder b).m_data, (w.builder b).m_capacity⟩

/-- Builders just constructed. -/
structure Made (others : List Chunk) (w : World ι) : Prop where
  separate : w.heap.Separate
  static_live : ∀ b, ⟨static b, static_size⟩ ∈ w.heap.chunks
  static_injective : Function.Injective static
  others_live : ∀ c ∈ others, c ∈ w.heap.chunks ∧ ∀ b, c.start ≠ static b
  chunks : ∀ c ∈ w.heap.chunks, c ∈ others ∨ ∃ b, c = ⟨static b, static_size⟩
  builder : ∀ b, w.builder b = ⟨static b, static_size⟩
  zero : ∀ b, ∀ i < static_size, w.heap.byte (static b + i) = 0

def Step (w w' : World ι) : Prop := ∃ call : Call ι, call.Allowed w ∧ perform static std w call = .ok w'

end

/-! ## What a call does -/

section
variable {ι : Type} {static : ι → ℕ} {std : Allocator} {others : List Chunk} {w w' : World ι} {b b' : ι}

theorem copy_spec {heap : Heap} {dst src n : ℕ} (hd : heap.Inside dst n) (hs : heap.Inside src n) (ha : Apart dst n src n) :
    ∃ heap', copy heap dst src n = .ok heap' ∧ heap'.chunks = heap.chunks ∧
      (∀ i < n, heap'.byte (dst + i) = heap.byte (src + i)) ∧ ∀ x, x < dst ∨ dst + n ≤ x → heap'.byte x = heap.byte x := by
  obtain ⟨heap', he, hspec⟩ := Heap.memcpy_spec hd hs ha
  refine ⟨heap', ?_, hspec⟩
  unfold copy
  rw [he]
  rfl

theorem le_grown (capacity : ℕ) (requested : ℤ) : requested ≤ grown capacity requested := by
  unfold grown
  dsimp only
  split_ifs <;> omega

/-- The chunk stays when `b` is given a new one. -/
def Kept (static : ι → ℕ) (w : World ι) (b : ι) (c : Chunk) : Prop :=
  c ∈ w.heap.chunks ∧ (c.start = (w.builder b).m_data → c.start = static b)

theorem Owned.kept_static (ho : Owned static others w) (b b' : ι) : Kept static w b ⟨static b', static_size⟩ := by
  refine ⟨ho.static_live b', fun h => ?_⟩
  rw [ho.own_static b b' h.symm]

theorem Owned.kept_data (ho : Owned static others w) (hne : b' ≠ b) :
    Kept static w b ⟨(w.builder b').m_data, (w.builder b').m_capacity⟩ :=
  ⟨ho.data_live b', fun h => absurd (ho.own_data b' b h) hne⟩

/-- A builder whose memory is its own array has all of it. -/
theorem Owned.static_capacity (ho : Owned static others w) (h : (w.builder b).m_data = static b) :
    (w.builder b).m_capacity = static_size :=
  congrArg Chunk.size (ho.separate.eq_of_start (ho.data_live b) (ho.static_live b) h)

/-- A new chunk with the old bytes in it, and nothing else changed. -/
theorem realloc_spec (hstd : std.Answers) (ho : Owned static others w) (b : ι) {n : ℕ} (hn : (w.builder b).m_capacity ≤ n) :
    ∃ heap p, realloc static std w b (w.builder b).m_data (w.builder b).m_capacity n = .ok (heap, p) ∧ heap.Separate ∧
      (∀ c, c ∈ heap.chunks ↔ c = ⟨p, n⟩ ∨ Kept static w b c) ∧ (∀ c, Kept static w b c → c.start ≠ p) ∧
      (∀ i < (w.builder b).m_capacity, heap.byte (p + i) = w.heap.byte ((w.builder b).m_data + i)) ∧
      ∀ c, Kept static w b c → ∀ i < c.size, heap.byte (c.start + i) = w.heap.byte (c.start + i) := by
  have hlive : w.heap.Inside (w.builder b).m_data (w.builder b).m_capacity := Heap.inside_chunk (ho.data_live b)
  unfold realloc
  by_cases hstatic : (w.builder b).m_data = static b
  · obtain ⟨r, hr, hf⟩ := hstd.malloc w.heap n
    have hkept (c : Chunk) : Kept static w b c ↔ c ∈ w.heap.chunks := and_iff_left fun h => h.trans hstatic
    have hne (c : Chunk) (hc : c ∈ w.heap.chunks) : c.start ≠ r.address := by
      have hfc := hf.2 c hc
      omega
    obtain ⟨heap, he, hchunks, hcopied, hrest⟩ := copy_spec ((Heap.inside_malloc w.heap r n).mono le_rfl (by omega))
      (hlive.malloc (r := r) (k := n)) ((hf.apart hlive).symm.mono le_rfl (by omega)).symm
    refine ⟨heap, r.address, ?_, ?_, fun c => ?_, fun c hc => hne c hc.1, fun i hi => ?_, fun c hc i hi => ?_⟩
    · rw [if_pos (by simpa [using_static_data] using hstatic), hr]
      dsimp only [allocated]
      rw [ok_bind, he]
      rfl
    · unfold Heap.Separate
      rw [hchunks]
      exact ho.separate.malloc hf
    · rw [hchunks, hkept]
      exact List.mem_cons
    · rw [hcopied i hi]
      exact Heap.byte_malloc hf hlive hi
    · have hfc := hf.2 c hc.1
      rw [hrest _ (by omega)]
      exact Heap.byte_malloc hf (Heap.inside_chunk hc.1) hi
  · obtain ⟨r, hr, hf⟩ := hstd.realloc w.heap (w.builder b).m_data n
    have hkept (c : Chunk) : Kept static w b c ↔ c ∈ (w.heap.without (w.builder b).m_data).chunks := by
      rw [Heap.mem_without]
      refine and_congr_right fun _ => ⟨fun h heq => hstatic (heq.symm.trans (h heq)), fun h heq => absurd heq h⟩
    obtain ⟨heap, he, hchunks, hcopied, hrest⟩ := Heap.realloc_spec (r := r) ho.separate (ho.data_live b) n
    refine ⟨heap, r.address, ?_, ?_, fun c => ?_, fun c hc => ?_, fun i hi => hcopied i hi (by omega), fun c hc i hi => ?_⟩
    · rw [if_neg (by simpa [using_static_data] using hstatic), hr]
      dsimp only [allocated]
      rw [ok_bind, he]
      rfl
    · unfold Heap.Separate
      rw [hchunks]
      exact (ho.separate.without _).malloc hf
    · rw [hchunks, hkept]
      exact List.mem_cons
    · have hfc := hf.2 c ((hkept c).mp hc)
      omega
    · have hfc := hf.2 c ((hkept c).mp hc)
      exact hrest _ (by omega)

/-- Two builders hold what the other held. -/
structure Exchanged (others : List Chunk) (a rhs : ι) (w w' : World ι) : Prop where
  left : contents w' a = contents w rhs
  right : contents w' rhs = contents w a
  frame : ∀ b, b ≠ a → b ≠ rhs → contents w' b = contents w b
  others_same : ∀ c ∈ others, w'.heap.read c.start c.size = w.heap.read c.start c.size

theorem Exchanged.symm {a rhs : ι} (h : Exchanged others a rhs w w') : Exchanged others rhs a w w' :=
  ⟨h.right, h.left, fun b hb hb' => h.frame b hb' hb, h.others_same⟩

theorem Owned.contents_static (ho : Owned static others w) (h : (w.builder b).m_data = static b) :
    contents w b = w.heap.read (static b) static_size := by
  unfold contents
  rw [h, ho.static_capacity h]

theorem Owned.static_apart (ho : Owned static others w) {a rhs : ι} (hne : a ≠ rhs) :
    Apart (static a) static_size (static rhs) static_size :=
  ho.separate.apart (ho.static_live a) (ho.static_live rhs) fun h => hne (ho.static_injective h)

theorem Owned.inside_static (ho : Owned static others w) (b : ι) : w.heap.Inside (static b) static_size :=
  Heap.inside_chunk (ho.static_live b)

/-- The arrays of both are in use, and their bytes are exchanged. -/
theorem exchange_arrays (ho : Owned static others w) {a rhs : ι} (hne : a ≠ rhs) (ha : (w.builder a).m_data = static a)
    (hr : (w.builder rhs).m_data = static rhs) : ∃ heap heap', copy w.heap (static a) (static rhs) static_size = .ok heap ∧
      heap.paste (static rhs) (fun i => w.heap.byte (static a + i)) static_size = some heap' ∧
      Owned static others { w with heap := heap' } ∧ Exchanged others a rhs w { w with heap := heap' } := by
  obtain ⟨heap, he, hchunks, hcopied, hrest⟩ := copy_spec (ho.inside_static a) (ho.inside_static rhs) (ho.static_apart hne)
  obtain ⟨heap', he', hchunks', hpasted, hrest'⟩ := @Heap.paste_spec static_size heap (static rhs)
    (fun i => w.heap.byte (static a + i)) ((Heap.inside_congr hchunks).mpr (ho.inside_static rhs))
  have hsame : heap'.chunks = w.heap.chunks := hchunks'.trans hchunks
  have howned : Owned static others { w with heap := heap' } := by
    refine ⟨?_, fun b => ?_, fun b => ?_, ho.own_static, ho.own_data, ho.static_injective, fun c hc => ?_, fun c hc => ?_⟩
    · unfold Heap.Separate
      dsimp only
      rw [hsame]
      exact ho.separate
    · exact hsame ▸ ho.static_live b
    · exact hsame ▸ ho.data_live b
    · exact hsame ▸ ho.others_live c hc
    · exact ho.none_lost c (hsame ▸ hc)
  have hfar (c : Chunk) (hc : c ∈ w.heap.chunks) (hca : c.start ≠ static a) (hcr : c.start ≠ static rhs) :
      heap'.read c.start c.size = w.heap.read c.start c.size := by
    apply Heap.read_congr
    intro i hi
    rw [hrest' _ (ho.separate.byte_ne hc (ho.static_live rhs) hcr hi), hrest _ (ho.separate.byte_ne hc (ho.static_live a) hca hi)]
  have hwa : contents { w with heap := heap' } a = heap'.read (static a) static_size := howned.contents_static ha
  have hwr : contents { w with heap := heap' } rhs = heap'.read (static rhs) static_size := howned.contents_static hr
  refine ⟨heap, heap', he, he', howned, ?_, ?_, fun b hb hb' => ?_, fun c hc => ?_⟩
  · rw [hwa, ho.contents_static hr]
    apply Heap.read_congr
    intro i hi
    have hout := ho.separate.byte_ne (ho.static_live a) (ho.static_live rhs) (fun h => hne (ho.static_injective h)) hi
    rw [hrest' _ hout, hcopied i hi]
  · rw [hwr, ho.contents_static ha]
    exact Heap.read_congr hpasted
  · refine hfar _ (ho.data_live b) (fun h => hb ?_) (fun h => hb' ?_)
    · exact ho.own_static b a h
    · exact ho.own_static b rhs h
  · exact hfar c (ho.others_live c hc).1 ((ho.others_live c hc).2 a).1 ((ho.others_live c hc).2 rhs).1

/-- One byte of the builder, and no other. -/
structure Written (others : List Chunk) (b : ι) (offset : ℕ) (v : UInt8) (w w' : World ι) : Prop where
  here : contents w' b = (contents w b).set offset v
  frame : ∀ b', b' ≠ b → contents w' b' = contents w b'
  others_same : ∀ c ∈ others, w'.heap.read c.start c.size = w.heap.read c.start c.size

theorem write_spec (ho : Owned static others w) {b : ι} {offset : ℕ} (hoff : offset < (w.builder b).m_capacity) (v : UInt8) :
    Owned static others { w with heap := w.heap.store ((w.builder b).m_data + offset) v } ∧
      Written others b offset v w { w with heap := w.heap.store ((w.builder b).m_data + offset) v } := by
  have hfar (c : Chunk) (hc : c ∈ w.heap.chunks) (hne : c.start ≠ (w.builder b).m_data) :
      (w.heap.store ((w.builder b).m_data + offset) v).read c.start c.size = w.heap.read c.start c.size := by
    apply Heap.read_congr
    intro i hi
    have hout := ho.separate.byte_ne hc (ho.data_live b) hne hi
    dsimp only at hout
    exact if_neg (by omega)
  refine ⟨⟨ho.separate, ho.static_live, ho.data_live, ho.own_static, ho.own_data, ho.static_injective, ho.others_live,
    ho.none_lost⟩, ?_, fun b' hb => ?_, fun c hc => ?_⟩
  · exact Heap.read_store v
  · exact hfar _ (ho.data_live b') fun h => hb (ho.own_data b' b h)
  · exact hfar c (ho.others_live c hc).1 ((ho.others_live c hc).2 b).2

theorem Made.owned (hw : Made static others w) : Owned static others w where
  separate := hw.separate
  static_live := hw.static_live
  data_live b := by
    rw [hw.builder b]
    exact hw.static_live b
  own_static b b' h := by
    rw [hw.builder b] at h
    exact hw.static_injective h
  own_data b b' h := by
    rw [hw.builder b, hw.builder b'] at h
    exact hw.static_injective h
  static_injective := hw.static_injective
  others_live c hc := by
    refine ⟨(hw.others_live c hc).1, fun b => ⟨(hw.others_live c hc).2 b, ?_⟩⟩
    rw [hw.builder b]
    exact (hw.others_live c hc).2 b
  none_lost c hc := (hw.chunks c hc).imp_right fun ⟨b, h⟩ => ⟨b, .inl h⟩

variable [DecidableEq ι]

/-- `b` has a new chunk, and nothing else changed hands. -/
theorem Owned.replaced (ho : Owned static others w) {p n : ℕ} (hself : w'.builder b = ⟨p, n⟩)
    (hrest : ∀ b', b' ≠ b → w'.builder b' = w.builder b') (hs : w'.heap.Separate)
    (hchunks : ∀ c, c ∈ w'.heap.chunks ↔ c = ⟨p, n⟩ ∨ Kept static w b c) (hfresh : ∀ c, Kept static w b c → c.start ≠ p) :
    Owned static others w' where
  separate := hs
  static_live b' := (hchunks _).mpr (.inr (ho.kept_static b b'))
  data_live b' := by
    by_cases hb : b' = b
    · rw [hb, hself]
      exact (hchunks _).mpr (.inl rfl)
    · rw [hrest b' hb]
      exact (hchunks _).mpr (.inr (ho.kept_data hb))
  own_static b' c h := by
    by_cases hb : b' = b
    · rw [hb, hself] at h
      exact absurd h.symm (hfresh _ (ho.kept_static b c))
    · rw [hrest b' hb] at h
      exact ho.own_static b' c h
  own_data b' c h := by
    by_cases hb : b' = b <;> by_cases hc : c = b
    · rw [hb, hc]
    · rw [hb, hself, hrest c hc] at h
      exact absurd h.symm (hfresh _ (ho.kept_data hc))
    · rw [hc, hself, hrest b' hb] at h
      exact absurd h (hfresh _ (ho.kept_data hb))
    · rw [hrest b' hb, hrest c hc] at h
      exact ho.own_data b' c h
  static_injective := ho.static_injective
  others_live c hc := by
    obtain ⟨hlive, hother⟩ := ho.others_live c hc
    have hkept : Kept static w b c := ⟨hlive, fun h => absurd h (hother b).2⟩
    refine ⟨(hchunks c).mpr (.inr hkept), fun b' => ⟨(hother b').1, ?_⟩⟩
    by_cases hb : b' = b
    · rw [hb, hself]
      exact hfresh c hkept
    · rw [hrest b' hb]
      exact (hother b').2
  none_lost c hc := by
    obtain rfl | ⟨hlive, hkept⟩ := (hchunks c).mp hc
    · exact .inr ⟨b, .inr (by rw [hself])⟩
    · refine (ho.none_lost c hlive).imp_right fun ⟨b', h⟩ => ?_
      by_cases hb : b' = b
      · refine ⟨b, .inl ?_⟩
        rw [hb] at h
        exact h.elim id fun h => ho.separate.eq_of_start hlive (ho.static_live b) (hkept (by rw [h]))
      · exact ⟨b', h.imp_right fun h => by rw [hrest b' hb]; exact h⟩

/-- The builder holds what it held, and zeros after it. -/
structure Grown (others : List Chunk) (b : ι) (requested_capacity : ℤ) (w w' : World ι) : Prop where
  zeros : ∃ k, contents w' b = contents w b ++ List.replicate k 0
  enough : requested_capacity ≤ (w'.builder b).m_capacity
  capacity : (w.builder b).m_capacity ≤ (w'.builder b).m_capacity
  frame : ∀ b', b' ≠ b → contents w' b' = contents w b'
  others_same : ∀ c ∈ others, w'.heap.read c.start c.size = w.heap.read c.start c.size

theorem reserve_spec (hstd : std.Answers) (ho : Owned static others w) (b : ι) (requested_capacity : ℤ) :
    ∃ w', reserve static std b requested_capacity w = .ok w' ∧ Owned static others w' ∧
      Grown others b requested_capacity w w' := by
  unfold reserve
  dsimp only
  split_ifs with hgrow
  · have hn := le_grown (w.builder b).m_capacity requested_capacity
    generalize grown (w.builder b).m_capacity requested_capacity = n at hn
    have hlt : (w.builder b).m_capacity < n := by
      have hgrow : ((w.builder b).m_capacity : ℤ) < requested_capacity := hgrow
      omega
    obtain ⟨heap, p, he, hs, hchunks, hfresh, hcopied, hkept⟩ := realloc_spec hstd ho b hlt.le
    obtain ⟨heap', he', hchunks', hzero, hrest⟩ := Heap.memset_spec (v := 0)
      ((Heap.inside_chunk ((hchunks ⟨p, n⟩).mpr (.inl rfl))).mono (b := p + (w.builder b).m_capacity)
        (m := n - (w.builder b).m_capacity) (by dsimp only; omega) (by dsimp only; omega))
    obtain ⟨w', hw', hheap, hself, hother⟩ : ∃ w' : World ι, w' = ⟨heap', Function.update w.builder b ⟨p, n⟩⟩ ∧
        w'.heap = heap' ∧ w'.builder b = ⟨p, n⟩ ∧ ∀ b', b' ≠ b → w'.builder b' = w.builder b' :=
      ⟨_, rfl, rfl, Function.update_self _ _ _, fun b' hb => Function.update_of_ne hb _ _⟩
    have hfar (c : Chunk) (hc : Kept static w b c) (i : ℕ) (hi : i < c.size) :
        w'.heap.byte (c.start + i) = w.heap.byte (c.start + i) := by
      have hne := hs.byte_ne ((hchunks c).mpr (.inr hc)) ((hchunks ⟨p, n⟩).mpr (.inl rfl)) (hfresh c hc) hi
      dsimp only at hne
      rw [hheap, hrest _ (by omega), hkept c hc i hi]
    refine ⟨w', ?_, ?_, ⟨n - (w.builder b).m_capacity, ?_⟩, ?_, ?_, fun b' hb => ?_, fun c hc => ?_⟩
    · rw [he, ok_bind]
      dsimp only
      rw [he', hw']
      rfl
    · refine ho.replaced hself hother ?_ (fun c => ?_) hfresh
      · unfold Heap.Separate
        rw [hheap, hchunks']
        exact hs
      · rw [hheap, hchunks']
        exact hchunks c
    · have hsplit : n = (w.builder b).m_capacity + (n - (w.builder b).m_capacity) := by omega
      unfold contents
      rw [hself, hheap]
      dsimp only
      conv_lhs => rw [hsplit]
      rw [Heap.read_append, Heap.read_replicate hzero]
      congr 1
      apply Heap.read_congr
      intro i hi
      rw [hrest _ (by omega), hcopied i hi]
    · rw [hself]
      exact hn
    · rw [hself]
      exact hlt.le
    · unfold contents
      rw [hother b' hb]
      exact Heap.read_congr (hfar _ (ho.kept_data hb))
    · obtain ⟨hlive, hne⟩ := ho.others_live c hc
      exact Heap.read_congr (hfar c ⟨hlive, fun h => absurd h (hne b).2⟩)
  · exact ⟨w, rfl, ho, ⟨0, by rw [List.replicate_zero, List.append_nil]⟩, not_lt.mp hgrow, le_rfl, fun _ _ => rfl, fun _ _ => rfl⟩

/-- `x` gives its array's bytes to `y`, and takes the chunk of `y`. -/
theorem hand_over (ho : Owned static others w) {x y : ι} (hne : x ≠ y) (hx : (w.builder x).m_data = static x)
    (hy : (w.builder y).m_data ≠ static y) : ∃ heap, copy w.heap (static y) (static x) static_size = .ok heap ∧
      ∀ w' : World ι, w'.heap = heap → w'.builder x = w.builder y → w'.builder y = ⟨static y, static_size⟩ →
        (∀ b, b ≠ x → b ≠ y → w'.builder b = w.builder b) → Owned static others w' ∧ Exchanged others x y w w' := by
  obtain ⟨heap, he, hchunks, hcopied, hrest⟩ :=
    copy_spec (ho.inside_static y) (ho.inside_static x) (ho.static_apart hne.symm)
  refine ⟨heap, he, fun w' hheap hwx hwy hother => ?_⟩
  have hfar (c : Chunk) (hc : c ∈ w.heap.chunks) (hstart : c.start ≠ static y) :
      w'.heap.read c.start c.size = w.heap.read c.start c.size := by
    apply Heap.read_congr
    intro i hi
    have hout := ho.separate.byte_ne hc (ho.static_live y) hstart hi
    rw [hheap, hrest _ hout]
  have hfree (b : ι) : (w.builder b).m_data ≠ static y := fun h => hy (ho.own_static b y h ▸ h)
  have hbuilder (b : ι) (hb : b ≠ y) : w'.builder b = w.builder (Equiv.swap x y b) := by
    by_cases hbx : b = x
    · rw [hbx, Equiv.swap_apply_left, hwx]
    · rw [Equiv.swap_apply_of_ne_of_ne hbx hb, hother b hbx hb]
  refine ⟨⟨?_, fun b => ?_, fun b => ?_, fun b b' h => ?_, fun b b' h => ?_, ho.static_injective, fun c hc => ?_, fun c hc => ?_⟩,
    ?_, ?_, fun b hbx hby => ?_, fun c hc => ?_⟩
  · unfold Heap.Separate
    rw [hheap, hchunks]
    exact ho.separate
  · rw [hheap, hchunks]
    exact ho.static_live b
  · rw [hheap, hchunks]
    by_cases hby : b = y
    · rw [hby, hwy]
      exact ho.static_live y
    · rw [hbuilder b hby]
      exact ho.data_live _
  · by_cases hby : b = y
    · rw [hby, hwy] at h
      rw [hby]
      exact ho.static_injective h
    · rw [hbuilder b hby] at h
      have hb' := ho.own_static _ b' h
      by_cases hbx : b = x
      · rw [hbx, Equiv.swap_apply_left] at h hb'
        exact absurd (hb' ▸ h) hy
      · rwa [Equiv.swap_apply_of_ne_of_ne hbx hby] at hb'
  · by_cases hby : b = y <;> by_cases hby' : b' = y
    · rw [hby, hby']
    · rw [hby, hwy, hbuilder b' hby'] at h
      exact absurd h.symm (hfree _)
    · rw [hby', hwy, hbuilder b hby] at h
      exact absurd h (hfree _)
    · rw [hbuilder b hby, hbuilder b' hby'] at h
      exact (Equiv.swap x y).injective (ho.own_data _ _ h)
  · obtain ⟨hlive, hother'⟩ := ho.others_live c hc
    rw [hheap, hchunks]
    refine ⟨hlive, fun b => ⟨(hother' b).1, ?_⟩⟩
    by_cases hby : b = y
    · rw [hby, hwy]
      exact (hother' y).1
    · rw [hbuilder b hby]
      exact (hother' _).2
  · rw [hheap, hchunks] at hc
    refine (ho.none_lost c hc).imp_right fun ⟨b, h⟩ => ?_
    obtain h | h := h
    · exact ⟨b, .inl h⟩
    by_cases hbx : b = x
    · refine ⟨x, .inl ?_⟩
      rw [h, hbx, hx, ho.static_capacity hx]
    · have hb : Equiv.swap x y b ≠ y := fun heq =>
        hbx ((Equiv.swap x y).injective (heq.trans (Equiv.swap_apply_left x y).symm))
      refine ⟨Equiv.swap x y b, .inr ?_⟩
      rw [hbuilder _ hb, Equiv.swap_apply_self]
      exact h
  · unfold contents
    rw [hwx]
    exact hfar _ (ho.data_live y) hy
  · rw [ho.contents_static hx]
    unfold contents
    rw [hwy, hheap]
    exact Heap.read_congr hcopied
  · unfold contents
    rw [hother b hbx hby]
    exact hfar _ (ho.data_live b) (hfree b)
  · exact hfar c (ho.others_live c hc).1 ((ho.others_live c hc).2 y).1

/-- Neither array is in use. -/
theorem exchange_data (ho : Owned static others w) {a rhs : ι} (ha : (w.builder a).m_data ≠ static a)
    (hr : (w.builder rhs).m_data ≠ static rhs) :
    Owned static others { w with builder := w.builder ∘ Equiv.swap a rhs } ∧
      Exchanged others a rhs w { w with builder := w.builder ∘ Equiv.swap a rhs } := by
  refine ⟨⟨ho.separate, ho.static_live, fun b => ho.data_live _, fun b b' h => ?_,
    fun b b' h => (Equiv.swap a rhs).injective (ho.own_data _ _ h), ho.static_injective,
    fun c hc => ⟨(ho.others_live c hc).1, fun b => ⟨((ho.others_live c hc).2 b).1, ((ho.others_live c hc).2 _).2⟩⟩,
    fun c hc => ?_⟩, ?_, ?_, fun b hb hb' => ?_, fun _ _ => rfl⟩
  · have hb := ho.own_static _ b' h
    have hdata : (w.builder b').m_data = static b' := hb ▸ h
    have hba : b' ≠ a := fun heq => ha (heq ▸ hdata)
    have hbr : b' ≠ rhs := fun heq => hr (heq ▸ hdata)
    rw [← Equiv.swap_apply_self a rhs b, hb, Equiv.swap_apply_of_ne_of_ne hba hbr]
  · refine (ho.none_lost c hc).imp_right fun ⟨b, h⟩ => ?_
    obtain h | h := h
    · exact ⟨b, .inl h⟩
    · refine ⟨Equiv.swap a rhs b, .inr ?_⟩
      change c = ⟨(w.builder (Equiv.swap a rhs (Equiv.swap a rhs b))).m_data,
        (w.builder (Equiv.swap a rhs (Equiv.swap a rhs b))).m_capacity⟩
      rw [Equiv.swap_apply_self]
      exact h
  · exact congrArg (contents w) (Equiv.swap_apply_left a rhs)
  · exact congrArg (contents w) (Equiv.swap_apply_right a rhs)
  · exact congrArg (contents w) (Equiv.swap_apply_of_ne_of_ne hb hb')

theorem swap_spec (ho : Owned static others w) {a rhs : ι} (hne : a ≠ rhs) :
    ∃ w', swap static a rhs w = .ok w' ∧ Owned static others w' ∧ Exchanged others a rhs w w' := by
  have hrw (b : ι) : using_static_data static w b = true ↔ (w.builder b).m_data = static b := decide_eq_true_iff
  unfold swap
  by_cases ha : (w.builder a).m_data = static a <;> by_cases hr : (w.builder rhs).m_data = static rhs
  · rw [if_pos ((hrw a).mpr ha), if_pos ((hrw rhs).mpr hr)]
    obtain ⟨heap, heap', he, he', hspec⟩ := exchange_arrays ho hne ha hr
    refine ⟨_, ?_, hspec⟩
    rw [he]
    dsimp only
    rw [ok_bind, he']
    rfl
  · rw [if_pos ((hrw a).mpr ha), if_neg (mt (hrw rhs).mp hr)]
    obtain ⟨heap, he, hspec⟩ := hand_over ho hne ha hr
    rw [he]
    refine ⟨_, rfl, hspec _ rfl ?_ (Function.update_self _ _ _) fun b hb hb' => ?_⟩
    · exact (Function.update_of_ne hne _ _).trans (Function.update_self _ _ _)
    · exact (Function.update_of_ne hb' _ _).trans (Function.update_of_ne hb _ _)
  · rw [if_neg (mt (hrw a).mp ha), if_pos ((hrw rhs).mpr hr)]
    obtain ⟨heap, he, hspec⟩ := hand_over ho hne.symm hr ha
    obtain ⟨howned, hexchanged⟩ := hspec
      ⟨heap, Function.update (Function.update w.builder rhs (w.builder a)) a ⟨static a, static_size⟩⟩ rfl
      ((Function.update_of_ne hne.symm _ _).trans (Function.update_self _ _ _)) (Function.update_self _ _ _)
      fun b hb hb' => (Function.update_of_ne hb' _ _).trans (Function.update_of_ne hb _ _)
    rw [he]
    exact ⟨_, rfl, howned, hexchanged.symm⟩
  · rw [if_neg (mt (hrw a).mp ha), if_neg (mt (hrw rhs).mp hr)]
    exact ⟨_, rfl, exchange_data ho ha hr⟩

theorem alloc_ck_spec (hstd : std.Answers) (ho : Owned static others w) (b : ι) (size : ℕ) (ckb_offset : ℤ) :
    ∃ w', alloc_ck static std b size ckb_offset w =
        .ok (w', (w'.builder b).m_data + ckb_offset, inc_ckb_offset ckb_offset size) ∧
      Owned static others w' ∧ Grown others b (inc_ckb_offset ckb_offset size) w w' := by
  obtain ⟨w', he, hspec⟩ := reserve_spec hstd ho b (inc_ckb_offset ckb_offset size)
  refine ⟨w', ?_, hspec⟩
  unfold alloc_ck
  dsimp only
  rw [he]
  rfl

/-! ## Whole runs -/

theorem perform_spec (hstd : std.Answers) (ho : Owned static others w) {call : Call ι} (hc : call.Allowed w) :
    ∃ w', perform static std w call = .ok w' ∧ Owned static others w' := by
  cases call with
  | reserve b requested_capacity =>
    obtain ⟨w', he, ho', -⟩ := reserve_spec hstd ho b requested_capacity
    exact ⟨w', he, ho'⟩
  | alloc_ck b size ckb_offset =>
    obtain ⟨w', he, ho', -⟩ := alloc_ck_spec hstd ho b size ckb_offset
    exact ⟨w', congrArg (Except.map Prod.fst) he, ho'⟩
  | swap a rhs =>
    obtain ⟨w', he, ho', -⟩ := swap_spec ho hc
    exact ⟨w', he, ho'⟩
  | write b offset v => exact ⟨_, rfl, (write_spec ho hc v).1⟩

theorem reachable_owned (hstd : std.Answers) (hw : Reachable (Made static others) (Step static std) w) :
    Owned static others w := by
  refine hw.invariant (fun w => Made.owned) fun w w' ho => ?_
  rintro ⟨call, hc, he⟩
  obtain ⟨w'', he', ho'⟩ := perform_spec hstd ho hc
  rw [he] at he'
  cases he'
  exact ho'

/-- A call of the construction; a swap is of two builders. -/
def Call.Builds : Call ι → Prop
  | .swap a rhs => a ≠ rhs
  | .write _ _ _ => False
  | _ => True

/-- The builder that has, after the calls, what `b` had before them. -/
def carried : List (Call ι) → ι → ι
  | [], b => b
  | .swap a rhs :: calls, b => carried calls (Equiv.swap a rhs b)
  | _ :: calls, b => carried calls b

/-- One call keeps what the builders hold, at its offset. -/
theorem perform_carried (hstd : std.Answers) (ho : Owned static others w) {call : Call ι} (hc : call.Builds) :
    ∃ w', perform static std w call = .ok w' ∧ Owned static others w' ∧
      ∀ b, contents w b <+: contents w' (carried [call] b) := by
  have hgrown {b : ι} {requested : ℤ} {w' : World ι} (h : Grown others b requested w w') (b' : ι) :
      contents w b' <+: contents w' b' := by
    by_cases hb : b' = b
    · obtain ⟨k, hk⟩ := h.zeros
      rw [hb, hk]
      exact List.prefix_append _ _
    · rw [h.frame b' hb]
  cases call with
  | reserve b requested_capacity =>
    obtain ⟨w', he, ho', h⟩ := reserve_spec hstd ho b requested_capacity
    exact ⟨w', he, ho', hgrown h⟩
  | alloc_ck b size ckb_offset =>
    obtain ⟨w', he, ho', h⟩ := alloc_ck_spec hstd ho b size ckb_offset
    exact ⟨w', congrArg (Except.map Prod.fst) he, ho', hgrown h⟩
  | swap a rhs =>
    obtain ⟨w', he, ho', h⟩ := swap_spec ho hc
    refine ⟨w', he, ho', fun b => ?_⟩
    change _ <+: contents w' (Equiv.swap a rhs b)
    by_cases hba : b = a
    · rw [hba, Equiv.swap_apply_left, h.right]
    by_cases hbr : b = rhs
    · rw [hbr, Equiv.swap_apply_right, h.left]
    · rw [Equiv.swap_apply_of_ne_of_ne hba hbr, h.frame b hba hbr]
  | write b offset v => exact absurd hc id

theorem run_carried (hstd : std.Answers) : ∀ {calls : List (Call ι)} {w : World ι}, Owned static others w →
    (∀ call ∈ calls, call.Builds) → ∃ w', calls.foldlM (perform static std) w = .ok w' ∧
      ∀ b, contents w b <+: contents w' (carried calls b)
  | [], w, _, _ => ⟨w, rfl, fun _ => List.prefix_rfl⟩
  | call :: calls, w, ho, hbuilds => by
    obtain ⟨w₁, he, ho', hfirst⟩ := perform_carried hstd ho (hbuilds call List.mem_cons_self)
    obtain ⟨w', hrun, hrest⟩ := run_carried hstd ho' fun c hc => hbuilds c (List.mem_cons_of_mem _ hc)
    refine ⟨w', ?_, fun b => ?_⟩
    · rw [List.foldlM_cons, he]
      exact hrun
    · refine (hfirst b).trans ?_
      cases call <;> exact hrest _

end

/-- Memory past all that is live. -/
def bump : Allocator where
  malloc h _ := some ⟨h.top, fun _ => 170⟩
  realloc h p _ := some ⟨(h.without p).top, fun _ => 170⟩

theorem bump_answers : bump.Answers :=
  ⟨fun _ n => ⟨_, rfl, Heap.fresh_of_top_le le_rfl n⟩, fun _ _ n => ⟨_, rfl, Heap.fresh_of_top_le le_rfl n⟩⟩

theorem made_single :
    Made (fun _ : Unit => 64) [] ⟨⟨fun _ => 0, [⟨64, static_size⟩]⟩, fun _ => ⟨64, static_size⟩⟩ where
  separate := List.pairwise_singleton _ _
  static_live _ := List.mem_singleton.mpr rfl
  static_injective _ _ _ := rfl
  others_live _ hc := absurd hc List.not_mem_nil
  chunks _ hc := .inr ⟨(), List.mem_singleton.mp hc⟩
  builder _ := rfl
  zero _ _ _ := rfl

end Dynd.KernelBuilder
