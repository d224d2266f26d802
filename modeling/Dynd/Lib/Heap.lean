import Mathlib.Data.List.Pairwise
import Mathlib.Tactic
/-!
# A heap of chunks

Bytes by address, and the chunks `malloc` gave out that are not freed. A copy
or a fill that leaves the live chunks has no result: the language leaves it
undefined.
-/
namespace Dynd.Lib

structure Chunk where
  start : ℕ
  size : ℕ
deriving DecidableEq

/-- The `n` bytes from `a` and the `m` bytes from `b` have no byte in common. -/
def Apart (a n b m : ℕ) : Prop := n = 0 ∨ m = 0 ∨ a + n ≤ b ∨ b + m ≤ a

instance (a n b m : ℕ) : Decidable (Apart a n b m) := by unfold Apart; infer_instance

@[ext]
structure Heap where
  byte : ℕ → UInt8
  chunks : List Chunk

/-- What `malloc` answers: where the chunk stands, and what is in it. -/
structure Malloced where
  address : ℕ
  contents : ℕ → UInt8

variable {a n b m x : ℕ}

theorem Apart.symm (h : Apart a n b m) : Apart b m a n := by
  unfold Apart at *
  omega

/-- Apart from a range is apart from every part of it. -/
theorem Apart.mono {b' m' : ℕ} (h : Apart a n b m) (hb : b ≤ b') (hm : b' + m' ≤ b + m) : Apart a n b' m' := by
  unfold Apart at *
  omega

theorem Apart.ne (h : Apart a n b m) {i j : ℕ} (hi : i < n) (hj : j < m) : a + i ≠ b + j := by
  unfold Apart at h
  omega

namespace Heap

variable {h : Heap} {c : Chunk}

/-- The `n` bytes from `a` stand in one live chunk. -/
def Inside (h : Heap) (a n : ℕ) : Prop := n = 0 ∨ ∃ c ∈ h.chunks, c.start ≤ a ∧ a + n ≤ c.start + c.size

instance (h : Heap) (a n : ℕ) : Decidable (h.Inside a n) := by unfold Inside; infer_instance

/-- `n` bytes from `a` can be given out: every live chunk, an empty one too,
has an address of its own and stands elsewhere. -/
def Fresh (h : Heap) (a n : ℕ) : Prop :=
  0 < a ∧ ∀ c ∈ h.chunks, a + max n 1 ≤ c.start ∨ c.start + max c.size 1 ≤ a

theorem Inside.mono {b m : ℕ} (hi : h.Inside a n) (hb : a ≤ b) (hm : b + m ≤ a + n) : h.Inside b m := by
  obtain rfl | ⟨c, hc, h1, h2⟩ := hi
  · exact .inl (by omega)
  · exact .inr ⟨c, hc, by omega, by omega⟩

theorem Fresh.apart (hf : h.Fresh a n) (hi : h.Inside b m) : Apart a n b m := by
  obtain rfl | ⟨c, hc, h1, h2⟩ := hi
  · exact .inr (.inl rfl)
  · have := hf.2 c hc
    unfold Apart
    omega

/-! ## Giving out and taking back -/

def malloc (h : Heap) (m : Malloced) (n : ℕ) : Heap where
  byte x := if m.address ≤ x ∧ x < m.address + n then m.contents (x - m.address) else h.byte x
  chunks := ⟨m.address, n⟩ :: h.chunks

/-- A null pointer is ignored; anything else has to be the start of a live
chunk. -/
def free (h : Heap) (p : ℕ) : Option Heap :=
  if p = 0 then some h
  else if ∃ c ∈ h.chunks, c.start = p then some { h with chunks := h.chunks.filter (·.start ≠ p) }
  else none

theorem Inside.malloc {r : Malloced} {k : ℕ} (hi : h.Inside a n) : (h.malloc r k).Inside a n :=
  hi.imp_right fun ⟨c, hc, hr⟩ => ⟨c, List.mem_cons_of_mem _ hc, hr⟩

theorem inside_malloc (h : Heap) (r : Malloced) (n : ℕ) : (h.malloc r n).Inside r.address n :=
  .inr ⟨⟨r.address, n⟩, List.mem_cons_self, le_rfl, le_rfl⟩

/-- What is live keeps its bytes. -/
theorem byte_malloc {r : Malloced} {k i : ℕ} (hf : h.Fresh r.address k) (hi : h.Inside a n) (hn : i < n) :
    (h.malloc r k).byte (a + i) = h.byte (a + i) := by
  have hap := hf.apart hi
  unfold Apart at hap
  unfold Heap.malloc
  exact if_neg (by omega)

theorem free_eq {p : ℕ} (hp : p ≠ 0) (hc : ∃ c ∈ h.chunks, c.start = p) :
    h.free p = some { h with chunks := h.chunks.filter (·.start ≠ p) } := by
  unfold free
  rw [if_neg hp, if_pos hc]

/-- The chunks that start elsewhere are left as they were. -/
theorem mem_chunks_free {p : ℕ} {h' : Heap} (hh : h.free p = some h') :
    h'.byte = h.byte ∧ ∀ c, c.start ≠ p → (c ∈ h'.chunks ↔ c ∈ h.chunks) := by
  unfold free at hh
  split_ifs at hh with h0 hc
  · cases hh
    exact ⟨rfl, fun _ _ => Iff.rfl⟩
  · cases hh
    refine ⟨rfl, fun c hne => ?_⟩
    simp only [List.mem_filter, decide_eq_true_eq]
    exact and_iff_left hne

/-- Freeing chunks of different starts: the others are left. -/
theorem free_all {ps : List ℕ} (hnodup : ps.Nodup) :
    ∀ {h : Heap}, (∀ p ∈ ps, p ≠ 0 ∧ ∃ c ∈ h.chunks, c.start = p) →
      ∃ h', ps.foldlM free h = some h' ∧ h'.byte = h.byte ∧ ∀ c, c.start ∉ ps → (c ∈ h'.chunks ↔ c ∈ h.chunks) := by
  induction ps with
  | nil =>
    intro h _
    exact ⟨h, rfl, rfl, fun _ _ => Iff.rfl⟩
  | cons p ps ih =>
    intro h hlive
    obtain ⟨hp, hps⟩ := List.nodup_cons.mp hnodup
    obtain ⟨hp0, hpc⟩ := hlive p List.mem_cons_self
    have he := free_eq hp0 hpc
    obtain ⟨hbyte, hchunks⟩ := mem_chunks_free he
    obtain ⟨h', hf, hb, hc⟩ := ih hps fun q hq => by
      obtain ⟨hq0, c, hcm, hcs⟩ := hlive q (List.mem_cons_of_mem _ hq)
      have hne : c.start ≠ p := fun heq => hp (heq ▸ hcs ▸ hq)
      exact ⟨hq0, c, (hchunks c hne).mpr hcm, hcs⟩
    refine ⟨h', ?_, hb.trans hbyte, fun c hcn => ?_⟩
    · rw [List.foldlM_cons, he]
      exact hf
    · obtain ⟨hne, hmem⟩ := not_or.mp (List.mem_cons.not.mp hcn)
      rw [hc c hmem, hchunks c hne]

/-! ## Filling and copying -/

/-- `memset(p, v, n)`. -/
def memset (h : Heap) (p : ℕ) (v : UInt8) (n : ℕ) : Option Heap :=
  if h.Inside p n then some { h with byte := fun x => if p ≤ x ∧ x < p + n then v else h.byte x } else none

/-- `memcpy(dst, src, n)`: the two ranges are not to overlap. -/
def memcpy (h : Heap) (dst src n : ℕ) : Option Heap :=
  if h.Inside dst n ∧ h.Inside src n ∧ Apart dst n src n then
    some { h with byte := fun x => if dst ≤ x ∧ x < dst + n then h.byte (src + (x - dst)) else h.byte x }
  else none

theorem memset_spec {p : ℕ} {v : UInt8} (hi : h.Inside p n) :
    ∃ h', h.memset p v n = some h' ∧ h'.chunks = h.chunks ∧ (∀ i < n, h'.byte (p + i) = v) ∧
      ∀ x, x < p ∨ p + n ≤ x → h'.byte x = h.byte x := by
  refine ⟨_, if_pos hi, rfl, fun i hn => if_pos (by omega), fun x hx => if_neg (by omega)⟩

theorem memcpy_spec {dst src : ℕ} (hd : h.Inside dst n) (hs : h.Inside src n) (ha : Apart dst n src n) :
    ∃ h', h.memcpy dst src n = some h' ∧ h'.chunks = h.chunks ∧ (∀ i < n, h'.byte (dst + i) = h.byte (src + i)) ∧
      ∀ x, x < dst ∨ dst + n ≤ x → h'.byte x = h.byte x := by
  refine ⟨_, if_pos ⟨hd, hs, ha⟩, rfl, fun i hn => ?_, fun x hx => if_neg (by omega)⟩
  simp only [Nat.le_add_right, Nat.add_lt_add_iff_left, hn, and_self, ↓reduceIte, Nat.add_sub_cancel_left]

/-- `n` bytes are written from `p` on. -/
def paste (h : Heap) (p : ℕ) (contents : ℕ → UInt8) (n : ℕ) : Option Heap :=
  if h.Inside p n then some { h with byte := fun x => if p ≤ x ∧ x < p + n then contents (x - p) else h.byte x } else none

theorem paste_spec {p : ℕ} {contents : ℕ → UInt8} (hi : h.Inside p n) :
    ∃ h', h.paste p contents n = some h' ∧ h'.chunks = h.chunks ∧ (∀ i < n, h'.byte (p + i) = contents i) ∧
      ∀ x, x < p ∨ p + n ≤ x → h'.byte x = h.byte x := by
  refine ⟨_, if_pos hi, rfl, fun i hn => ?_, fun x hx => if_neg (by omega)⟩
  simp only [Nat.le_add_right, Nat.add_lt_add_iff_left, hn, and_self, ↓reduceIte, Nat.add_sub_cancel_left]

/-! ## Chunks that stand apart -/

def Chunk.Separate (c c' : Chunk) : Prop := c.start + max c.size 1 ≤ c'.start ∨ c'.start + max c'.size 1 ≤ c.start

/-- Any two live chunks have addresses of their own and no byte in common. -/
def Separate (h : Heap) : Prop := h.chunks.Pairwise Chunk.Separate

instance : Std.Symm Chunk.Separate := ⟨fun _ _ => Or.symm⟩

theorem Separate.of_ne {c c' : Chunk} (hs : h.Separate) (hc : c ∈ h.chunks) (hc' : c' ∈ h.chunks) (hne : c ≠ c') :
    Chunk.Separate c c' :=
  hs.forall hc hc' hne

theorem Separate.eq_of_start {c c' : Chunk} (hs : h.Separate) (hc : c ∈ h.chunks) (hc' : c' ∈ h.chunks)
    (hstart : c.start = c'.start) : c = c' := by
  by_contra hne
  have hapart := hs.of_ne hc hc' hne
  unfold Chunk.Separate at hapart
  omega

/-- A byte of one chunk is no byte of another. -/
theorem Separate.byte_ne {c c' : Chunk} (hs : h.Separate) (hc : c ∈ h.chunks) (hc' : c' ∈ h.chunks)
    (hstart : c.start ≠ c'.start) {i : ℕ} (hi : i < c.size) : c.start + i < c'.start ∨ c'.start + c'.size ≤ c.start + i := by
  have hapart := hs.of_ne hc hc' fun heq => hstart (congrArg Chunk.start heq)
  unfold Chunk.Separate at hapart
  omega

theorem Separate.apart {c c' : Chunk} (hs : h.Separate) (hc : c ∈ h.chunks) (hc' : c' ∈ h.chunks)
    (hstart : c.start ≠ c'.start) : Apart c.start c.size c'.start c'.size := by
  have hapart := hs.of_ne hc hc' fun heq => hstart (congrArg Chunk.start heq)
  unfold Chunk.Separate at hapart
  unfold Apart
  omega

theorem inside_chunk {c : Chunk} (hc : c ∈ h.chunks) : h.Inside c.start c.size := .inr ⟨c, hc, le_rfl, le_rfl⟩

theorem Separate.malloc {r : Malloced} (hs : h.Separate) (hf : h.Fresh r.address n) : (h.malloc r n).Separate :=
  List.pairwise_cons.mpr ⟨fun c hc => hf.2 c hc, hs⟩

/-- The chunk at `p` is gone. -/
def without (h : Heap) (p : ℕ) : Heap := { h with chunks := h.chunks.filter (·.start ≠ p) }

theorem mem_without {p : ℕ} {c : Chunk} : c ∈ (h.without p).chunks ↔ c ∈ h.chunks ∧ c.start ≠ p := by
  unfold without
  rw [List.mem_filter, decide_eq_true_eq]

theorem Separate.without (hs : h.Separate) (p : ℕ) : (h.without p).Separate := hs.filter _

/-- `realloc(p, n)`: the answer is fresh once the chunk at `p` is gone, and
has the bytes that fit. -/
def realloc (h : Heap) (p : ℕ) (r : Malloced) (n : ℕ) : Option Heap :=
  (h.chunks.find? (·.start = p)).map fun c =>
    (h.without p).malloc { r with contents := fun i => if i < c.size then h.byte (p + i) else r.contents i } n

theorem realloc_spec {c : Chunk} {r : Malloced} (hs : h.Separate) (hc : c ∈ h.chunks) (n : ℕ) :
    ∃ h', h.realloc c.start r n = some h' ∧ h'.chunks = ⟨r.address, n⟩ :: (h.without c.start).chunks ∧
      (∀ i, i < c.size → i < n → h'.byte (r.address + i) = h.byte (c.start + i)) ∧
      ∀ x, x < r.address ∨ r.address + n ≤ x → h'.byte x = h.byte x := by
  have hfind : h.chunks.find? (·.start = c.start) = some c := by
    cases hf : h.chunks.find? (·.start = c.start) with
    | none => exact absurd (List.find?_eq_none.mp hf c hc) (by simp)
    | some c' =>
      have hstart : c'.start = c.start := by simpa using List.find?_some hf
      rw [hs.eq_of_start (List.mem_of_find?_eq_some hf) hc hstart]
  unfold realloc
  rw [hfind]
  refine ⟨_, rfl, rfl, fun i hi hn => ?_, fun x hx => if_neg (by dsimp only; omega)⟩
  unfold malloc
  dsimp only
  rw [if_pos (by omega), Nat.add_sub_cancel_left, if_pos hi]

/-- An address past every live chunk. -/
def top (h : Heap) : ℕ := (h.chunks.map fun c => c.start + c.size + 1).sum + 1

theorem fresh_of_top_le (hle : h.top ≤ a) (n : ℕ) : h.Fresh a n := by
  unfold top at hle
  refine ⟨by omega, fun c hc => .inr ?_⟩
  have hsum : c.start + c.size + 1 ≤ (h.chunks.map fun c => c.start + c.size + 1).sum :=
    List.le_sum_of_mem (List.mem_map_of_mem hc)
  omega

/-- The ranges inside depend on the chunks alone. -/
theorem inside_congr {h' : Heap} (hc : h'.chunks = h.chunks) : h'.Inside a n ↔ h.Inside a n := by
  unfold Inside
  rw [hc]

/-- The `n` bytes from `p` on. -/
def read (h : Heap) (p n : ℕ) : List UInt8 := (List.range n).map fun i => h.byte (p + i)

theorem length_read (h : Heap) (p n : ℕ) : (h.read p n).length = n := by
  unfold read
  rw [List.length_map, List.length_range]

theorem read_congr {h' : Heap} {p q : ℕ} (hb : ∀ i < n, h'.byte (q + i) = h.byte (p + i)) : h'.read q n = h.read p n := by
  unfold read
  apply List.map_congr_left
  intro i hi
  exact hb i (List.mem_range.mp hi)

theorem read_append (h : Heap) (p m n : ℕ) : h.read p (m + n) = h.read p m ++ h.read (p + m) n := by
  unfold read
  rw [List.range_add, List.map_append, List.map_map]
  congr 1
  apply List.map_congr_left
  intro i _
  rw [Function.comp_apply, Nat.add_assoc]

theorem read_replicate {p : ℕ} {v : UInt8} (hb : ∀ i < n, h.byte (p + i) = v) : h.read p n = List.replicate n v := by
  refine List.eq_replicate_iff.mpr ⟨length_read h p n, fun x hx => ?_⟩
  obtain ⟨i, hi, rfl⟩ := List.mem_map.mp hx
  exact hb i (List.mem_range.mp hi)

/-- `memset(p, v, 1)` at a byte that is live. -/
def store (h : Heap) (p : ℕ) (v : UInt8) : Heap := { h with byte := fun x => if x = p then v else h.byte x }

theorem read_store {p offset : ℕ} (v : UInt8) : (h.store (p + offset) v).read p n = (h.read p n).set offset v := by
  unfold read
  refine List.ext_getElem (by rw [List.length_set, List.length_map, List.length_map]) fun i hi _ => ?_
  rw [List.getElem_set, List.getElem_map, List.getElem_map, List.getElem_range]
  unfold store
  dsimp only
  split_ifs with hx ho ho
  · rfl
  · exact absurd (by omega) ho
  · exact absurd (by omega) hx
  · rfl

end Heap
end Dynd.Lib
