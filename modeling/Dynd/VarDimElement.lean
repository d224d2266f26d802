import Dynd.Lib.Except
import Dynd.ObjectArrayMemoryBlock
import Dynd.PodMemoryBlock
/-!
# Elements of a var dimension

An element of a `var_dim` is a pointer and a size; its data is in the memory
block of the dimension. `var_dim_element_initialize` and
`var_dim_element_resize` allocate and trim it.
-/
namespace Dynd.VarDim
open Lib

/-! ## Memory blocks -/

/-- The blocks that nothing is allocated from. -/
inductive memory_block_type_t where
  | array
  | external
  | fixed_size_pod
  | executable
  | memmap
deriving DecidableEq

def memory_block_type_t.name : memory_block_type_t → String
  | array => "array"
  | external => "external"
  | fixed_size_pod => "fixed_size_pod"
  | executable => "executable"
  | memmap => "memmap"

inductive memory_block where
  | objectarray (s : ObjectArrayMemoryBlock.State)
  | pod (kind : PodMemoryBlock.block_kind) (s : PodMemoryBlock.State)
  | other (m_type : memory_block_type_t) (heap : Heap)

namespace memory_block

def heap : memory_block → Heap
  | objectarray s => s.heap
  | pod _ s => s.heap
  | other _ heap => heap

/-- The same block, with other bytes in memory. -/
def set_heap (h : Heap) : memory_block → memory_block
  | objectarray s => objectarray { s with heap := h }
  | pod kind s => pod kind { s with heap := h }
  | other m_type _ => other m_type h

def is_objectarray : memory_block → Bool
  | objectarray _ => true
  | _ => false

/-- The bytes from one object to the next. -/
def object_stride : memory_block → ℕ
  | objectarray s => s.emb.m_stride
  | _ => 0

end memory_block

/-- `malloc` gives out memory that is not in use, unless it fails. -/
structure allocator extends ObjectArrayMemoryBlock.Allocator where
  fresh : ∀ {h n r}, malloc h n = some r → h.Fresh r.address n

inductive fault where
  | undefined
  | bad_alloc
  | runtime_error (what : String)
deriving DecidableEq

def fault.of_objectarray : ObjectArrayMemoryBlock.Thrown → fault
  | .bad_alloc => .bad_alloc
  | .runtime_error what => .runtime_error what

def fault.of_pod : PodMemoryBlock.Thrown → fault
  | .bad_alloc => .bad_alloc
  | .runtime_error what => .runtime_error what

/-- A call of the allocator of an objectarray block. -/
def called_objectarray : ObjectArrayMemoryBlock.Outcome ℕ → Except fault (memory_block × ℕ)
  | .returns s begin => .ok (.objectarray s, begin)
  | .throws _ e => .error (.of_objectarray e)
  | .undefined => .error .undefined

/-- A call of the allocator of a pod or zeroinit block. -/
def called_pod (kind : PodMemoryBlock.block_kind) : PodMemoryBlock.Outcome → Except fault (memory_block × ℕ)
  | .returns s begin _ => .ok (.pod kind s, begin)
  | .throws _ e => .error (.of_pod e)
  | .undefined => .error .undefined

/-- `get_memory_block_pod_allocator_api`, and the `allocate` of what it answers. -/
def pod_allocate (al : allocator) (size_bytes alignment : ℕ) : memory_block → Except fault (memory_block × ℕ)
  | .pod kind s => called_pod kind (PodMemoryBlock.allocate kind al.malloc size_bytes alignment s)
  | .objectarray _ => .error (.runtime_error "Cannot get a POD allocator API from an objectarray_memory_block")
  | .other .external _ => .error (.runtime_error "Cannot get a POD allocator API from an external_memory_block")
  | .other .fixed_size_pod _ => .error (.runtime_error "Cannot get a POD allocator API from an fixed_size_pod_memory_block")
  | .other .executable _ => .error (.runtime_error "Cannot get a POD allocator API from an executable_memory_block")
  | .other .memmap _ => .error (.runtime_error "Cannot get a POD allocator API from a memmap_memory_block")
  | .other .array _ => .error (.runtime_error "unknown memory block type")

/-! ## Elements -/

/-- `begin` is 0 before the data is allocated. -/
structure var_dim_type_data where
  begin : ℕ
  size : ℕ
deriving DecidableEq

/-- The arrmeta of the dimension without its block, and the alignment of its element type, a power of two. -/
structure var_dim_type_arrmeta where
  stride : ℕ
  offset : ℤ
  target_alignment : ℕ
  power : ∃ k, target_alignment = 2 ^ k

section
variable (al : allocator) (md : var_dim_type_arrmeta)

def var_dim_element_initialize (d : var_dim_type_data) (count : ℕ) (blockref : Option memory_block) :
    Except fault (memory_block × var_dim_type_data) :=
  if d.begin ≠ 0 then .error (.runtime_error "internal error: var_dim element data must be NULL to initialize")
  else if md.offset ≠ 0 then .error (.runtime_error "internal error: var_dim arrmeta offset must be zero to initialize")
  else
    match blockref with
    | none => .error (.runtime_error "internal error: var_dim arrmeta has no memblock")
    | some (.objectarray s) => do
      let (b, begin) ← called_objectarray (ObjectArrayMemoryBlock.allocate al.toAllocator count s)
      return (b, ⟨begin, count⟩)
    | some (.pod kind s) => do
      let (b, begin) ← called_pod kind (PodMemoryBlock.allocate kind al.malloc (count * md.stride) md.target_alignment s)
      return (b, ⟨begin, count⟩)
    | some (.other m_type _) => .error (.runtime_error ("var_dim_element_initialize internal error: var_dim arrmeta has memblock type " ++
        m_type.name ++ " that is not writable"))

def var_dim_element_resize (d : var_dim_type_data) (count : ℕ) (blockref : Option memory_block) :
    Except fault (memory_block × var_dim_type_data) :=
  if d.begin = 0 then var_dim_element_initialize al md d count blockref
  else
    match blockref with
    | none => .error (.runtime_error "internal error: var_dim arrmeta has no memblock")
    | some (.objectarray s) => do
      let (b, begin) ← called_objectarray (ObjectArrayMemoryBlock.resize al.toAllocator d.begin count s)
      return (b, ⟨begin, count⟩)
    | some (.pod kind s) => do
      let dst_end := d.begin + d.size * md.stride
      let (b, begin) ← called_pod kind (PodMemoryBlock.resize kind al.malloc (count * md.stride) d.begin dst_end s)
      return (b, ⟨begin, count⟩)
    | some (.other m_type _) => .error (.runtime_error ("var_dim_element_resize internal error: var_dim arrmeta has memblock type " ++
        m_type.name ++ " that is not writable"))

end

/-! ## What was allocated is trimmed -/

/-- What the calls of a block keep, in a memory whose chunks have sizes that `malloc` can be asked for. -/
def memory_block.Sound : memory_block → Prop
  | objectarray s => (∃ as, ObjectArrayMemoryBlock.Inv s as) ∧ ∀ c ∈ s.heap.chunks, c.size < 2 ^ 63
  | pod kind s => ∃ regions, PodMemoryBlock.Inv kind s regions
  | other _ _ => True

section
variable {al : allocator} {md : var_dim_type_arrmeta} {d d' : var_dim_type_data} {b b' : memory_block} {h : Heap}
  {count count' : ℕ}

@[simp] theorem memory_block.heap_set_heap (b : memory_block) (h : Heap) : (b.set_heap h).heap = h := by
  cases b <;> rfl

/-! ### Pod blocks -/

section
open PodMemoryBlock
variable {kind : block_kind} {s s' : PodMemoryBlock.State} {regions : List Region} {size size' alignment begin stop : ℕ}

theorem zero_fill_zero (kind : block_kind) (h : Heap) (start : ℕ) : zero_fill kind h start start = some h := by
  cases kind with
  | pod => rfl
  | zeroinit =>
    simp only [zero_fill, lt_irrefl, ↓reduceIte, Nat.sub_self, Heap.memset, Heap.Inside, true_or]
    congr 2
    funext x
    exact if_neg (by omega)

theorem hand_out_returns {out_begin : ℕ} (h : hand_out kind out_begin size s = .returns s' begin stop) :
    begin = out_begin ∧ s'.emb = { s.emb with m_memory_current := begin + size } := by
  unfold hand_out at h
  split at h
  · cases h
  · cases h
    exact ⟨rfl, rfl⟩

/-- What is given out is the last of the block and lies in its chunk. -/
theorem allocate_returns (hfresh : ∀ {h n r}, al.malloc h n = some r → h.Fresh r.address n)
    (h : PodMemoryBlock.allocate kind al.malloc size alignment s = .returns s' begin stop) :
    s'.emb.m_memory_current = begin + size ∧ begin + size ≤ s'.emb.m_memory_end ∧
      (begin ≠ 0 ∨ begin = align_up s.emb.m_memory_current alignment ∧ begin + size ≤ s.emb.m_memory_end) := by
  unfold PodMemoryBlock.allocate at h
  dsimp only at h
  split_ifs at h with hroom
  · cases hmalloc : append_memory al.malloc
        (max (s.emb.m_total_allocated_capacity - ((s.emb.m_memory_end : ℤ) - s.emb.m_memory_current)) size).toNat
        { s with emb.m_total_allocated_capacity :=
            s.emb.m_total_allocated_capacity - ((s.emb.m_memory_end : ℤ) - s.emb.m_memory_current) } with
    | error e =>
      rw [hmalloc] at h
      cases h
    | ok t =>
      rw [hmalloc] at h
      obtain ⟨hbegin, hemb⟩ := hand_out_returns h
      unfold append_memory at hmalloc
      split at hmalloc
      · cases hmalloc
      · rename_i r hr
        cases hmalloc
        have hpos := (hfresh hr).1
        rw [hemb, hbegin]
        dsimp only
        exact ⟨rfl, by omega, Or.inl (by omega)⟩
  · obtain ⟨rfl, hemb⟩ := hand_out_returns h
    rw [hemb]
    exact ⟨rfl, by dsimp only; omega, Or.inr ⟨rfl, by omega⟩⟩

/-- A null pointer is given out for no bytes only. -/
theorem allocate_null (hi : PodMemoryBlock.Inv kind s regions) {k : ℕ}
    (hzero : align_up s.emb.m_memory_current (2 ^ k) = 0) (hroom : size ≤ s.emb.m_memory_end) : size = 0 := by
  have hle := (align_up_spec s.emb.m_memory_current k).1
  obtain ⟨-, -, hend⟩ | ⟨hlast, hbegin, -⟩ := hi.linked.newest
  · omega
  · have hne := (hi.linked.handles _ (List.mem_of_getLast? hlast)).1
    omega

theorem resize_trimmed (al : allocator) (kind : block_kind) (hcurrent : s.emb.m_memory_current = begin + size) (hend : begin + size ≤ s.emb.m_memory_end)
    (hle : size' ≤ size) : PodMemoryBlock.resize kind al.malloc size' begin (begin + size) s =
      .returns { s with emb.m_memory_current := begin + size' } begin (begin + size') := by
  unfold PodMemoryBlock.resize
  rw [if_neg (by omega), if_pos (by omega)]
  dsimp only
  rw [if_neg (by omega)]

theorem allocate_nothing (al : allocator) (kind : block_kind) (hcurrent : s.emb.m_memory_current = 0) (k : ℕ) :
    ∃ s', PodMemoryBlock.allocate kind al.malloc 0 (2 ^ k) s = .returns s' 0 0 ∧ s'.heap = s.heap := by
  unfold PodMemoryBlock.allocate hand_out
  rw [hcurrent, align_up_zero]
  dsimp only
  rw [if_neg (by omega), zero_fill_zero]
  exact ⟨_, rfl, rfl⟩

/-- The block as it gives out memory and takes back the end of it, whatever is written to memory meanwhile. -/
theorem resize_pod (hi : PodMemoryBlock.Inv kind s regions) (hoffset : md.offset = 0)
    (h : PodMemoryBlock.allocate kind al.malloc (count * md.stride) md.target_alignment s = .returns s' begin stop)
    (hle : count' ≤ count) (heap : Heap) :
    ∃ b', var_dim_element_resize al md ⟨begin, count⟩ count' (some (.pod kind { s' with heap := heap })) =
        .ok (b', ⟨begin, count'⟩) ∧ b'.heap = heap := by
  obtain ⟨k, hk⟩ := md.power
  obtain ⟨hcurrent, hend, hnull⟩ := allocate_returns al.fresh h
  have hbytes : count' * md.stride ≤ count * md.stride := Nat.mul_le_mul_right _ hle
  rcases eq_or_ne begin 0 with rfl | hbegin
  · have hsize : count * md.stride = 0 := by
      obtain hne | ⟨hzero, hroom⟩ := hnull
      · exact absurd rfl hne
      · rw [hk] at hzero
        exact allocate_null hi hzero.symm (by omega)
    obtain ⟨t, ht, hheap⟩ := allocate_nothing (s := { s' with heap := heap }) al kind (by dsimp only; omega) k
    refine ⟨.pod kind t, ?_, hheap⟩
    rw [var_dim_element_resize, if_pos rfl, var_dim_element_initialize, if_neg (by simp), if_neg (by simp [hoffset]), hk,
      show count' * md.stride = 0 by omega, ht]
    rfl
  · have htrimmed := resize_trimmed (s := { s' with heap := heap }) al kind hcurrent hend hbytes
    rw [var_dim_element_resize, if_neg hbegin]
    dsimp only
    rw [htrimmed]
    exact ⟨_, rfl, rfl⟩

end
/-! ### Objectarray blocks -/

section
open ObjectArrayMemoryBlock
variable {s s' : ObjectArrayMemoryBlock.State} {as : List Allocation} {mc : memory_chunk} {begin used : ℕ} {heap : Heap}

theorem chunks_memset {h h' : Heap} {p n : ℕ} {v : UInt8} (hset : h.memset p v n = some h') : h'.chunks = h.chunks := by
  unfold Heap.memset at hset
  split_ifs at hset
  cases hset
  rfl

theorem memset_nothing (h : Heap) (p : ℕ) (v : UInt8) : h.memset p v 0 = some h := by
  simp only [Heap.memset, Heap.Inside, true_or, ↓reduceIte]
  congr 2
  funext x
  exact if_neg (by omega)

theorem zero_init_nothing (hzero : s.emb.m_dt.zeroinit = true) (start result : ℕ) :
    zero_init start 0 result s = .returns s result := by
  unfold zero_init
  rw [if_pos hzero, Int.zero_emod, Int.toNat_zero, memset_nothing]

theorem zero_init_outside {start result : ℕ} {bytes : ℤ} (hzero : s.emb.m_dt.zeroinit = true)
    (hnone : s.heap.memset start 0 (bytes % 2 ^ 64).toNat = none) : zero_init start bytes result s = .undefined := by
  unfold zero_init
  rw [if_pos hzero, hnone]

/-- The objects from `begin` are the last that the newest chunk gave out. -/
structure Given (s : ObjectArrayMemoryBlock.State) (begin count : ℕ) (mc : memory_chunk) (used : ℕ) : Prop where
  newest : s.emb.m_memory_handles.getLast? = some mc
  start : begin = mc.memory + s.emb.m_stride * used
  count : mc.used_count = used + count
  room : mc.used_count ≤ mc.capacity_count
  nonnull : mc.memory ≠ 0
  bytes : s.emb.m_stride * mc.capacity_count < 2 ^ 63
  zeroinit : s.emb.m_dt.zeroinit = true

theorem hand_out_given (hnewest : s.emb.m_memory_handles.getLast? = some mc) (hroom : mc.used_count + count ≤ mc.capacity_count)
    (hnonnull : mc.memory ≠ 0) (hbytes : s.emb.m_stride * mc.capacity_count < 2 ^ 63)
    (h : hand_out count s = .returns s' begin) :
    Given s' begin count { mc with used_count := mc.used_count + count } mc.used_count ∧
      s'.heap.chunks = s.heap.chunks ∧ s'.emb.m_stride = s.emb.m_stride := by
  unfold hand_out zero_init at h
  rw [hnewest] at h
  dsimp only at h
  split_ifs at h with hzero
  split at h
  · cases h
  · rename_i heap hset
    cases h
    exact ⟨⟨getLast?_set_back s _, rfl, rfl, hroom, hnonnull, hbytes, hzero⟩, chunks_memset hset, rfl⟩

theorem allocate_given (hi : ObjectArrayMemoryBlock.Inv s as) (hsizes : ∀ c ∈ s.heap.chunks, c.size < 2 ^ 63)
    (h : ObjectArrayMemoryBlock.allocate al.toAllocator count s = .returns s' begin) :
    (∃ mc used, Given s' begin count mc used) ∧ s'.emb.m_stride = s.emb.m_stride ∧ ∀ c ∈ s'.heap.chunks, c.size < 2 ^ 63 := by
  obtain ⟨mc, hnewest⟩ : ∃ mc, s.emb.m_memory_handles.getLast? = some mc :=
    ⟨_, List.getLast?_eq_some_getLast hi.nonempty⟩
  have hlive := hi.core.chunks mc (List.mem_of_getLast? hnewest)
  unfold ObjectArrayMemoryBlock.allocate at h
  rw [hnewest] at h
  dsimp only at h
  split_ifs at h with hfull
  · cases happend : append_memory al.toAllocator (max s.emb.m_total_allocated_count count) s with
    | throws t e =>
      rw [happend] at h
      cases h
    | undefined =>
      rw [happend] at h
      cases h
    | returns t u =>
      rw [happend] at h
      unfold append_memory at happend
      split_ifs at happend with hbytes
      split at happend
      · cases happend
      · rename_i r hr
        cases happend
        have hnewest := List.getLast?_concat (l := s.emb.m_memory_handles)
          (a := (⟨r.address, 0, max s.emb.m_total_allocated_count count⟩ : memory_chunk))
        obtain ⟨hgiven, hchunks, hstride⟩ := hand_out_given hnewest (by dsimp only; omega)
          (Nat.pos_iff_ne_zero.mp (al.fresh hr).1) (by dsimp only; omega) h
        refine ⟨⟨_, _, hgiven⟩, hstride, ?_⟩
        rw [hchunks]
        intro c hc
        rcases List.mem_cons.mp hc with rfl | hc
        · dsimp only
          omega
        · exact hsizes c hc
  · have hused := hlive.used
    obtain ⟨hgiven, hchunks, hstride⟩ := hand_out_given hnewest (by omega) hlive.nonnull hlive.bytes h
    refine ⟨⟨_, _, hgiven⟩, hstride, ?_⟩
    rw [hchunks]
    exact hsizes

theorem Given.begin_ne_zero (h : Given s begin count mc used) : begin ≠ 0 := by
  have hstart := h.start
  have hnonnull := h.nonnull
  omega

/-- Where `resize` finds the objects. -/
theorem Given.index (h : Given s begin count mc used) (hstride : s.emb.m_stride ≠ 0) :
    (begin - mc.memory) / s.emb.m_stride = used := by
  rw [h.start, Nat.add_sub_cancel_left, Nat.mul_div_cancel_left _ (Nat.pos_of_ne_zero hstride)]

/-- The same number of objects. -/
theorem Given.resize_same (al : allocator) (h : Given s begin count mc used) (hstride : s.emb.m_stride ≠ 0) (heap : Heap) :
    ∃ s', ObjectArrayMemoryBlock.resize al.toAllocator begin count { s with heap := heap } = .returns s' begin ∧ s'.heap = heap := by
  have hcount := h.count
  have hroom := h.room
  unfold ObjectArrayMemoryBlock.resize
  dsimp only
  rw [h.newest]
  dsimp only
  rw [if_neg hstride, h.index hstride, show mc.used_count - used = count by omega, if_neg (by omega), if_pos le_rfl,
    show (s.emb.m_stride : ℤ) * ((count : ℤ) - count) = 0 by ring]
  exact ⟨_, zero_init_nothing (s := State.set_back { s with heap := heap } _) h.zeroinit _ _, rfl⟩

/-- Fewer objects: the negative count of bytes is one that no chunk has. -/
theorem Given.resize_fewer (h : Given s begin count mc used) (hsizes : ∀ c ∈ s.heap.chunks, c.size < 2 ^ 63)
    (hless : s.emb.m_stride = 0 ∨ count' < count) :
    ObjectArrayMemoryBlock.resize al.toAllocator begin count' s = .undefined := by
  have hcount := h.count
  have hroom := h.room
  unfold ObjectArrayMemoryBlock.resize
  rw [h.newest]
  dsimp only
  rcases eq_or_ne s.emb.m_stride 0 with hzero | hstride
  · rw [if_pos hzero]
  · have hless := hless.resolve_left hstride
    rw [if_neg hstride, h.index hstride, show mc.used_count - used = count by omega, if_neg (by omega), if_neg (by omega)]
    unfold data_destruct_strided
    split
    · rfl
    · rename_i t ht
      split_ifs at ht
      cases ht
      have hpos : 0 < s.emb.m_stride * (count - count') := Nat.mul_pos (Nat.pos_of_ne_zero hstride) (by omega)
      have hlt : s.emb.m_stride * (count - count') < 2 ^ 63 :=
        lt_of_le_of_lt (Nat.mul_le_mul_left _ (by omega)) h.bytes
      have hneg : (s.emb.m_stride : ℤ) * ((count' : ℤ) - count) = -((s.emb.m_stride * (count - count') : ℕ) : ℤ) := by
        push_cast [Nat.cast_sub hless.le]
        ring
      have hbytes : 2 ^ 63 < ((s.emb.m_stride : ℤ) * ((count' : ℤ) - count) % 2 ^ 64).toNat := by
        rw [hneg]
        generalize s.emb.m_stride * (count - count') = bytes at hpos hlt ⊢
        omega
      have hnone (p : ℕ) : s.heap.memset p 0 ((s.emb.m_stride : ℤ) * ((count' : ℤ) - count) % 2 ^ 64).toNat = none := by
        unfold Heap.memset
        apply if_neg
        rintro (hn | ⟨c, hc, hstart, hin⟩)
        · omega
        · have := hsizes c hc
          omega
      exact zero_init_outside h.zeroinit (hnone _)

end

/-! ### Either -/

theorem called_objectarray_ok {o : ObjectArrayMemoryBlock.Outcome ℕ} {begin : ℕ} (h : called_objectarray o = .ok (b, begin)) :
    ∃ s, o = .returns s begin ∧ b = .objectarray s := by
  cases o with
  | returns s start =>
    cases h
    exact ⟨s, rfl, rfl⟩
  | throws s e => cases h
  | undefined => cases h

theorem called_pod_ok {kind : PodMemoryBlock.block_kind} {o : PodMemoryBlock.Outcome} {begin : ℕ}
    (h : called_pod kind o = .ok (b, begin)) : ∃ s stop, o = .returns s begin stop ∧ b = .pod kind s := by
  cases o with
  | returns s start stop =>
    cases h
    exact ⟨s, stop, rfl, rfl⟩
  | throws s e => cases h
  | undefined => cases h

theorem initialize_objectarray {s : ObjectArrayMemoryBlock.State}
    (h : var_dim_element_initialize al md d count (some (.objectarray s)) = .ok (b', d')) :
    ∃ s' begin, ObjectArrayMemoryBlock.allocate al.toAllocator count s = .returns s' begin ∧ b' = .objectarray s' ∧
      d' = ⟨begin, count⟩ := by
  unfold var_dim_element_initialize at h
  split_ifs at h
  obtain ⟨⟨t, begin⟩, hcall, h⟩ := bind_eq_ok.mp h
  cases h
  obtain ⟨s', hallocate, rfl⟩ := called_objectarray_ok hcall
  exact ⟨s', begin, hallocate, rfl, rfl⟩

theorem initialize_pod {kind : PodMemoryBlock.block_kind} {s : PodMemoryBlock.State}
    (h : var_dim_element_initialize al md d count (some (.pod kind s)) = .ok (b', d')) :
    md.offset = 0 ∧ ∃ s' begin stop, PodMemoryBlock.allocate kind al.malloc (count * md.stride) md.target_alignment s =
      .returns s' begin stop ∧ b' = .pod kind s' ∧ d' = ⟨begin, count⟩ := by
  unfold var_dim_element_initialize at h
  split_ifs at h with hbegin hoffset
  obtain ⟨⟨t, begin⟩, hcall, h⟩ := bind_eq_ok.mp h
  cases h
  obtain ⟨s', stop, hallocate, rfl⟩ := called_pod_ok hcall
  exact ⟨not_not.mp hoffset, s', begin, stop, hallocate, rfl, rfl⟩

theorem initialize_none (al : allocator) (md : var_dim_type_arrmeta) (d : var_dim_type_data) (count : ℕ) :
    ∃ f, var_dim_element_initialize al md d count none = .error f := by
  unfold var_dim_element_initialize
  split_ifs <;> exact ⟨_, rfl⟩

theorem initialize_other {m_type : memory_block_type_t} {heap : Heap} :
    var_dim_element_initialize al md d count (some (.other m_type heap)) ≠ .ok (b', d') := by
  unfold var_dim_element_initialize
  split_ifs <;> exact nofun

/-- The data that an element is initialized with is trimmed, if its block is no objectarray block or keeps every object. -/
theorem resize_initialized (hb : b.Sound) (h : var_dim_element_initialize al md d count (some b) = .ok (b', d'))
    (hle : count' ≤ count) (hkeep : b.is_objectarray = false ∨ b.object_stride ≠ 0 ∧ count' = count) (heap : Heap) :
    ∃ t, var_dim_element_resize al md d' count' (some (b'.set_heap heap)) = .ok (t, ⟨d'.begin, count'⟩) ∧ t.heap = heap := by
  cases b with
  | objectarray s =>
    obtain ⟨⟨as, hi⟩, hsizes⟩ := hb
    obtain ⟨s', begin, hallocate, rfl, rfl⟩ := initialize_objectarray h
    obtain ⟨⟨mc, used, hgiven⟩, hsame, -⟩ := allocate_given hi hsizes hallocate
    obtain ⟨hstride, rfl⟩ := hkeep.resolve_left (by simp [memory_block.is_objectarray])
    change s.emb.m_stride ≠ 0 at hstride
    rw [← hsame] at hstride
    obtain ⟨t, hresize, hheap⟩ := hgiven.resize_same al hstride heap
    refine ⟨.objectarray t, ?_, hheap⟩
    unfold var_dim_element_resize
    rw [if_neg hgiven.begin_ne_zero]
    dsimp only [memory_block.set_heap]
    rw [hresize]
    rfl
  | pod kind s =>
    obtain ⟨regions, hi⟩ := hb
    obtain ⟨hoffset, s', begin, stop, hallocate, rfl, rfl⟩ := initialize_pod h
    exact resize_pod hi hoffset hallocate hle heap
  | other m_type heap' => exact absurd h initialize_other

/-- Otherwise the behaviour of `resize` is undefined. -/
theorem resize_undefined (hb : b.Sound) (h : var_dim_element_initialize al md d count (some b) = .ok (b', d'))
    (hobjects : b.is_objectarray = true) (hless : b.object_stride = 0 ∨ count' < count) :
    var_dim_element_resize al md d' count' (some b') = .error .undefined := by
  cases b with
  | objectarray s =>
    obtain ⟨⟨as, hi⟩, hsizes⟩ := hb
    obtain ⟨s', begin, hallocate, rfl, rfl⟩ := initialize_objectarray h
    obtain ⟨⟨mc, used, hgiven⟩, hsame, hsizes'⟩ := allocate_given hi hsizes hallocate
    change s.emb.m_stride = 0 ∨ count' < count at hless
    rw [← hsame] at hless
    unfold var_dim_element_resize
    rw [if_neg hgiven.begin_ne_zero]
    dsimp only
    rw [hgiven.resize_fewer hsizes' hless]
    rfl
  | pod kind s => cases hobjects
  | other m_type heap => cases hobjects

end

end Dynd.VarDim
