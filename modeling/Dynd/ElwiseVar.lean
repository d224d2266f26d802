import Dynd.Lib.Except
/-!
# Elementwise kernels into a var dimension

`single` of `elwise_ck` for a var destination: the sizes of the sources, some
known from their types and some read from the data, are broadcast to an
allocated destination, or together to allocate one.
-/
namespace Dynd.ElwiseVar

open Lib

/-- `begin` is 0 before the data is allocated. -/
structure var_dim_type_data where
  begin : ℤ
  size : ℕ
deriving DecidableEq

inductive error where
  | broadcast_error (dst_size src_size : ℕ) (dst_name src_name : String)
  | runtime_error (what : String)
deriving DecidableEq

/-- The kernel's fields for one source, and the pointer it is called with. A
source with fewer dimensions has size 1 and stride 0. -/
structure operand where
  m_src_stride : ℤ
  m_src_offset : ℤ
  m_src_size : ℕ
  m_is_src_var : Bool
  src : ℤ

/-- What there is to allocate with: objects by their number, or bytes and an alignment. -/
inductive memory_block where
  | objectarray (allocate : ℕ → ℤ)
  | pod (allocate : ℤ → ℕ → ℤ)

structure elwise_ck where
  m_dst_memblock : memory_block
  m_dst_target_alignment : ℕ
  m_dst_stride : ℤ
  m_dst_offset : ℤ

/-- The arguments of `opchild`, a pointer and a stride for each source. -/
structure child_call where
  modified_dst : ℤ
  modified_dst_stride : ℤ
  modified_src : List (ℤ × ℤ)
  dim_size : ℕ
deriving DecidableEq

section
variable (vddd : ℤ → var_dim_type_data)

/-- One source, broadcast to the size of the destination. -/
def broadcast_to_dst (dim_size : ℕ) (op : operand) : Except error (ℤ × ℤ) :=
  if op.m_is_src_var then
    let modified_src := (vddd op.src).begin + op.m_src_offset
    if (vddd op.src).size = 1 then .ok (modified_src, 0)
    else if (vddd op.src).size = dim_size then .ok (modified_src, op.m_src_stride)
    else .error (.broadcast_error dim_size (vddd op.src).size "var" "var")
  else if op.m_src_size = 1 then .ok (op.src, 0)
  else if op.m_src_size = dim_size then .ok (op.src, op.m_src_stride)
  else .error (.broadcast_error dim_size op.m_src_size "var" "strided")

/-- One source, broadcast with those before. -/
def broadcast_step (dim_size : ℕ) (op : operand) : Except error (ℕ × ℤ × ℤ) :=
  if op.m_is_src_var then
    let modified_src := (vddd op.src).begin + op.m_src_offset
    if (vddd op.src).size = 1 then .ok (dim_size, modified_src, 0)
    else if dim_size = 1 then .ok ((vddd op.src).size, modified_src, op.m_src_stride)
    else if (vddd op.src).size = dim_size then .ok (dim_size, modified_src, op.m_src_stride)
    else .error (.broadcast_error dim_size (vddd op.src).size "var" "var")
  else if op.m_src_size = 1 then .ok (dim_size, op.src, 0)
  else if op.m_src_size = dim_size then .ok (dim_size, op.src, op.m_src_stride)
  else if dim_size = 1 then .ok (op.m_src_size, op.src, op.m_src_stride)
  else .error (.broadcast_error dim_size op.m_src_size "var" "strided")

/-- All the sources together. -/
def broadcast_all (dim_size : ℕ) : List operand → Except error (ℕ × List (ℤ × ℤ))
  | [] => .ok (dim_size, [])
  | op :: ops => do
    let (dim_size, src) ← broadcast_step vddd dim_size op
    let (dim_size, srcs) ← broadcast_all dim_size ops
    pure (dim_size, src :: srcs)

namespace elwise_ck
variable (self : elwise_ck)

def allocate (dim_size : ℕ) : ℤ :=
  match self.m_dst_memblock with
  | .objectarray allocate => allocate dim_size
  | .pod allocate => allocate (dim_size * self.m_dst_stride) self.m_dst_target_alignment

def opchild (modified_dst : ℤ) (modified_src : List (ℤ × ℤ)) (dim_size : ℕ) : child_call where
  modified_dst := modified_dst
  modified_dst_stride := if dim_size ≤ 1 then 0 else self.m_dst_stride
  modified_src := modified_src
  dim_size := dim_size

def single (dst : var_dim_type_data) (ops : List operand) : Except error (var_dim_type_data × child_call) :=
  if dst.begin ≠ 0 then do
    let srcs ← ops.mapM (broadcast_to_dst vddd dst.size)
    pure (dst, self.opchild (dst.begin + self.m_dst_offset) srcs dst.size)
  else if self.m_dst_offset ≠ 0 then
    .error (.runtime_error "Cannot assign to an uninitialized dynd var_dim which has a non-zero offset")
  else do
    let (dim_size, srcs) ← broadcast_all vddd 1 ops
    let begin := self.allocate dim_size
    pure (⟨begin, dim_size⟩, self.opchild begin srcs dim_size)

end elwise_ck

/-! ## One source -/

namespace operand
variable (op : operand)

/-- The number of elements the source has at run time. -/
def size : ℕ := if op.m_is_src_var then (vddd op.src).size else op.m_src_size

def data : ℤ := if op.m_is_src_var then (vddd op.src).begin + op.m_src_offset else op.src

def element (i : ℕ) : ℤ := op.data vddd + i * op.m_src_stride

/-- A single element is repeated. -/
def modified : ℤ × ℤ := (op.data vddd, if op.size vddd = 1 then 0 else op.m_src_stride)

def name : String := if op.m_is_src_var then "var" else "strided"

end operand

theorem broadcast_to_dst_eq (dim_size : ℕ) (op : operand) : broadcast_to_dst vddd dim_size op =
    if op.size vddd = 1 ∨ op.size vddd = dim_size then .ok (op.modified vddd)
    else .error (.broadcast_error dim_size (op.size vddd) "var" op.name) := by
  unfold broadcast_to_dst operand.modified operand.size operand.data operand.name
  split_ifs <;> simp_all

theorem broadcast_step_eq (dim_size : ℕ) (op : operand) : broadcast_step vddd dim_size op =
    if op.size vddd = 1 ∨ op.size vddd = dim_size then .ok (dim_size, op.modified vddd)
    else if dim_size = 1 then .ok (op.size vddd, op.modified vddd)
    else .error (.broadcast_error dim_size (op.size vddd) "var" op.name) := by
  unfold broadcast_step operand.modified operand.size operand.data operand.name
  split_ifs <;> simp_all

end

/-! ## The broadcast of sizes -/

/-- A single element is repeated, and all other sizes are the one. -/
def BroadcastsTo (sizes : List ℕ) (size : ℕ) : Prop := ∀ s ∈ sizes, s = 1 ∨ s = size

/-- The size the sizes come to together. -/
def IsBroadcast (sizes : List ℕ) (size : ℕ) : Prop := BroadcastsTo sizes size ∧ (size = 1 ∨ size ∈ sizes)

theorem isBroadcast_perm {sizes sizes' : List ℕ} (h : sizes.Perm sizes') (size : ℕ) :
    IsBroadcast sizes size ↔ IsBroadcast sizes' size := by
  unfold IsBroadcast BroadcastsTo
  simp only [h.mem_iff]

/-- One more size, after those that have come to `dim_size`. -/
theorem isBroadcast_cons_cons (dim_size s : ℕ) (sizes : List ℕ) (size : ℕ) :
    IsBroadcast (dim_size :: s :: sizes) size ↔
      if s = 1 ∨ s = dim_size then IsBroadcast (dim_size :: sizes) size
      else dim_size = 1 ∧ IsBroadcast (s :: sizes) size := by
  unfold IsBroadcast BroadcastsTo
  simp only [List.forall_mem_cons]
  simp only [List.mem_cons]
  split_ifs with h
  · grind
  · grind

theorem isBroadcast_one_cons (sizes : List ℕ) (size : ℕ) : IsBroadcast (1 :: sizes) size ↔ IsBroadcast sizes size := by
  unfold IsBroadcast BroadcastsTo
  simp only [List.forall_mem_cons]
  simp only [List.mem_cons]
  grind

section
variable (vddd : ℤ → var_dim_type_data)

/-- The sizes of the sources at run time. -/
def sizes (ops : List operand) : List ℕ := ops.map (operand.size vddd)

theorem broadcast_all_cons (dim_size : ℕ) (op : operand) (ops : List operand) :
    broadcast_all vddd dim_size (op :: ops) =
      if op.size vddd = 1 ∨ op.size vddd = dim_size then
        (fun r => (r.1, op.modified vddd :: r.2)) <$> broadcast_all vddd dim_size ops
      else if dim_size = 1 then (fun r => (r.1, op.modified vddd :: r.2)) <$> broadcast_all vddd (op.size vddd) ops
      else .error (.broadcast_error dim_size (op.size vddd) "var" op.name) := by
  rw [broadcast_all, broadcast_step_eq]
  split_ifs
  · exact bind_pure_comp (fun r => (r.1, op.modified vddd :: r.2)) (broadcast_all vddd dim_size ops)
  · exact bind_pure_comp (fun r => (r.1, op.modified vddd :: r.2)) (broadcast_all vddd (op.size vddd) ops)
  · rfl

/-- The rest of the sources has the same answer, whatever source is put in front. -/
theorem broadcast_rest {ops : List operand} {dim_size size : ℕ} (op : operand)
    (ih : ∀ srcs : List (ℤ × ℤ), broadcast_all vddd dim_size ops = .ok (size, srcs) ↔
      IsBroadcast (dim_size :: sizes vddd ops) size ∧ srcs = ops.map (operand.modified vddd)) (srcs : List (ℤ × ℤ)) :
    (fun r => (r.1, op.modified vddd :: r.2)) <$> broadcast_all vddd dim_size ops = .ok (size, srcs) ↔
      IsBroadcast (dim_size :: sizes vddd ops) size ∧ srcs = (op :: ops).map (operand.modified vddd) := by
  rw [map_eq_ok]
  constructor
  · rintro ⟨⟨size', srcs'⟩, h, heq⟩
    cases heq
    obtain ⟨hsize, rfl⟩ := (ih _).mp h
    exact ⟨hsize, rfl⟩
  · rintro ⟨hsize, rfl⟩
    exact ⟨_, (ih _).mpr ⟨hsize, rfl⟩, rfl⟩

theorem broadcast_all_iff {ops : List operand} {dim_size size : ℕ} {srcs : List (ℤ × ℤ)} :
    broadcast_all vddd dim_size ops = .ok (size, srcs) ↔
      IsBroadcast (dim_size :: sizes vddd ops) size ∧ srcs = ops.map (operand.modified vddd) := by
  induction ops generalizing dim_size srcs with
  | nil =>
    unfold broadcast_all sizes IsBroadcast BroadcastsTo
    simp
    grind
  | cons op ops ih =>
    have hsizes : sizes vddd (op :: ops) = op.size vddd :: sizes vddd ops := rfl
    rw [broadcast_all_cons, hsizes, isBroadcast_cons_cons]
    split_ifs with h h1
    · exact broadcast_rest vddd op (fun _ => ih) srcs
    · rw [broadcast_rest vddd op (fun _ => ih), and_iff_right h1]
    · simp [h1]

theorem broadcast_all_error {ops : List operand} {dim_size : ℕ} {e : error}
    (h : broadcast_all vddd dim_size ops = .error e) :
    ∃ dst_size src_size name, e = .broadcast_error dst_size src_size "var" name := by
  induction ops generalizing dim_size with
  | nil => cases h
  | cons op ops ih =>
    rw [broadcast_all_cons] at h
    split_ifs at h
    · exact ih (map_eq_error.mp h)
    · exact ih (map_eq_error.mp h)
    · cases h
      exact ⟨_, _, _, rfl⟩

/-- To an allocated destination. -/
theorem broadcast_to_dst_iff {ops : List operand} {dim_size : ℕ} {srcs : List (ℤ × ℤ)} :
    ops.mapM (broadcast_to_dst vddd dim_size) = .ok srcs ↔
      BroadcastsTo (sizes vddd ops) dim_size ∧ srcs = ops.map (operand.modified vddd) := by
  constructor
  · intro h
    have hfits : ∀ op ∈ ops, op.size vddd = 1 ∨ op.size vddd = dim_size := by
      intro op hop
      obtain ⟨src, hsrc⟩ := ok_of_mapM h op hop
      rw [broadcast_to_dst_eq] at hsrc
      by_contra hne
      rw [if_neg hne] at hsrc
      cases hsrc
    rw [mapM_eq_map fun op hop => (broadcast_to_dst_eq vddd dim_size op).trans (if_pos (hfits op hop))] at h
    refine ⟨fun s hs => ?_, (Except.ok.inj h).symm⟩
    obtain ⟨op, hop, rfl⟩ := List.mem_map.mp hs
    exact hfits op hop
  · rintro ⟨hfits, rfl⟩
    refine mapM_eq_map fun op hop => ?_
    rw [broadcast_to_dst_eq, if_pos (hfits _ (List.mem_map_of_mem hop))]

theorem broadcast_to_dst_error {ops : List operand} {dim_size : ℕ} {e : error}
    (h : ops.mapM (broadcast_to_dst vddd dim_size) = .error e) :
    ∃ dst_size src_size name, e = .broadcast_error dst_size src_size "var" name := by
  obtain ⟨op, -, h⟩ := mapM_eq_error h
  rw [broadcast_to_dst_eq] at h
  split_ifs at h
  cases h
  exact ⟨_, _, _, rfl⟩

/-! ## The kernel -/

/-- The child kernel reads elements of the sources, and writes elements of the destination. -/
structure Inside (self : elwise_ck) (ops : List operand) (dst : var_dim_type_data) (call : child_call) : Prop where
  writes : ∀ j < call.dim_size, j < dst.size ∧
    call.modified_dst + j * call.modified_dst_stride = dst.begin + self.m_dst_offset + j * self.m_dst_stride
  reads : List.Forall₂ (fun (op : operand) (src : ℤ × ℤ) =>
    ∀ j < call.dim_size, ∃ i < op.size vddd, src.1 + j * src.2 = op.element vddd i) ops call.modified_src

theorem inside_opchild (self : elwise_ck) {ops : List operand} {dst : var_dim_type_data} {modified_dst : ℤ}
    (hdst : modified_dst = dst.begin + self.m_dst_offset) (h : BroadcastsTo (sizes vddd ops) dst.size) :
    Inside vddd self ops dst (self.opchild modified_dst (ops.map (operand.modified vddd)) dst.size) := by
  unfold elwise_ck.opchild
  refine ⟨fun j hj => ⟨hj, ?_⟩, ?_⟩
  · rw [hdst]
    dsimp only
    split_ifs with h1
    · have hj0 : j = 0 := by
        have hj : j < dst.size := hj
        omega
      rw [hj0]
      simp
    · rfl
  · rw [List.forall₂_map_right_iff, List.forall₂_same]
    intro op hop j hj
    have hj : j < dst.size := hj
    unfold operand.modified operand.element
    split_ifs with h1
    · refine ⟨0, by omega, ?_⟩
      simp
    · obtain hs | hs := h _ (List.mem_map_of_mem hop)
      · exact absurd hs h1
      · exact ⟨j, by omega, rfl⟩

/-- What the kernel comes to. -/
structure Contract (self : elwise_ck) (dst : var_dim_type_data) (ops : List operand) : Prop where
  allocated : dst.begin ≠ 0 → BroadcastsTo (sizes vddd ops) dst.size →
    ∃ call, self.single vddd dst ops = .ok (dst, call) ∧ Inside vddd self ops dst call
  allocated_error : dst.begin ≠ 0 → ¬ BroadcastsTo (sizes vddd ops) dst.size →
    ∃ dst_size src_size name, self.single vddd dst ops = .error (.broadcast_error dst_size src_size "var" name)
  fresh : dst.begin = 0 → self.m_dst_offset = 0 → ∀ size, IsBroadcast (sizes vddd ops) size →
    ∃ call, self.single vddd dst ops = .ok (⟨self.allocate size, size⟩, call) ∧
      Inside vddd self ops ⟨self.allocate size, size⟩ call
  fresh_error : dst.begin = 0 → self.m_dst_offset = 0 → (¬ ∃ size, IsBroadcast (sizes vddd ops) size) →
    ∃ dst_size src_size name, self.single vddd dst ops = .error (.broadcast_error dst_size src_size "var" name)
  with_offset : dst.begin = 0 → self.m_dst_offset ≠ 0 →
    ∃ what, self.single vddd dst ops = .error (.runtime_error what)
  order : ∀ ops', ops.Perm ops' → ((self.single vddd dst ops').toOption.map fun r => r.1) =
    (self.single vddd dst ops).toOption.map fun r => r.1

section
variable (self : elwise_ck) {dst : var_dim_type_data} {ops : List operand}

theorem single_allocated (hb : dst.begin ≠ 0) (h : BroadcastsTo (sizes vddd ops) dst.size) :
    ∃ call, self.single vddd dst ops = .ok (dst, call) ∧ Inside vddd self ops dst call := by
  refine ⟨_, ?_, inside_opchild vddd self rfl h⟩
  unfold elwise_ck.single
  rw [if_pos hb, (broadcast_to_dst_iff vddd).mpr ⟨h, rfl⟩]
  rfl

theorem single_allocated_error (hb : dst.begin ≠ 0) (h : ¬ BroadcastsTo (sizes vddd ops) dst.size) :
    ∃ dst_size src_size name, self.single vddd dst ops = .error (.broadcast_error dst_size src_size "var" name) := by
  unfold elwise_ck.single
  rw [if_pos hb]
  cases hsrcs : ops.mapM (broadcast_to_dst vddd dst.size) with
  | ok srcs => exact absurd ((broadcast_to_dst_iff vddd).mp hsrcs).1 h
  | error e =>
    obtain ⟨dst_size, src_size, name, rfl⟩ := broadcast_to_dst_error vddd hsrcs
    exact ⟨dst_size, src_size, name, rfl⟩

theorem single_fresh (hb : dst.begin = 0) (hoff : self.m_dst_offset = 0) {size : ℕ}
    (h : IsBroadcast (sizes vddd ops) size) :
    ∃ call, self.single vddd dst ops = .ok (⟨self.allocate size, size⟩, call) ∧
      Inside vddd self ops ⟨self.allocate size, size⟩ call := by
  refine ⟨_, ?_, inside_opchild vddd self (by rw [hoff, add_zero]) h.1⟩
  unfold elwise_ck.single
  rw [if_neg (not_not.mpr hb), if_neg (not_not.mpr hoff),
    (broadcast_all_iff vddd).mpr ⟨(isBroadcast_one_cons _ _).mpr h, rfl⟩]
  rfl

theorem single_fresh_error (hb : dst.begin = 0) (hoff : self.m_dst_offset = 0)
    (h : ¬ ∃ size, IsBroadcast (sizes vddd ops) size) :
    ∃ dst_size src_size name, self.single vddd dst ops = .error (.broadcast_error dst_size src_size "var" name) := by
  unfold elwise_ck.single
  rw [if_neg (not_not.mpr hb), if_neg (not_not.mpr hoff)]
  cases hsrcs : broadcast_all vddd 1 ops with
  | ok r => exact absurd ⟨r.1, (isBroadcast_one_cons _ _).mp ((broadcast_all_iff vddd).mp hsrcs).1⟩ h
  | error e =>
    obtain ⟨dst_size, src_size, name, rfl⟩ := broadcast_all_error vddd hsrcs
    exact ⟨dst_size, src_size, name, rfl⟩

theorem single_with_offset (dst : var_dim_type_data) (ops : List operand) (hb : dst.begin = 0) (hoff : self.m_dst_offset ≠ 0) :
    self.single vddd dst ops =
      .error (.runtime_error "Cannot assign to an uninitialized dynd var_dim which has a non-zero offset") := by
  unfold elwise_ck.single
  rw [if_neg (not_not.mpr hb), if_pos hoff]

/-- The destination does not depend on the order of the sources. -/
theorem single_perm {ops' : List operand} (h : ops.Perm ops') :
    ((self.single vddd dst ops').toOption.map fun r => r.1) = (self.single vddd dst ops).toOption.map fun r => r.1 := by
  have hsizes : (sizes vddd ops).Perm (sizes vddd ops') := h.map _
  by_cases hb : dst.begin = 0
  · by_cases hoff : self.m_dst_offset = 0
    · by_cases hsize : ∃ size, IsBroadcast (sizes vddd ops) size
      · obtain ⟨size, hsize⟩ := hsize
        obtain ⟨call, hrun, -⟩ := single_fresh vddd self hb hoff hsize
        obtain ⟨call', hrun', -⟩ := single_fresh vddd self hb hoff ((isBroadcast_perm hsizes size).mp hsize)
        rw [hrun, hrun']
        rfl
      · obtain ⟨_, _, _, hrun⟩ := single_fresh_error vddd self hb hoff hsize
        simp only [isBroadcast_perm hsizes] at hsize
        obtain ⟨_, _, _, hrun'⟩ := single_fresh_error vddd self hb hoff hsize
        rw [hrun, hrun']
        rfl
    · rw [single_with_offset vddd self dst ops hb hoff, single_with_offset vddd self dst ops' hb hoff]
  · have hperm : BroadcastsTo (sizes vddd ops') dst.size ↔ BroadcastsTo (sizes vddd ops) dst.size := by
      unfold BroadcastsTo
      simp only [hsizes.mem_iff]
    by_cases hfits : BroadcastsTo (sizes vddd ops) dst.size
    · obtain ⟨call, hrun, -⟩ := single_allocated vddd self hb hfits
      obtain ⟨call', hrun', -⟩ := single_allocated vddd self hb (hperm.mpr hfits)
      rw [hrun, hrun']
      rfl
    · obtain ⟨_, _, _, hrun⟩ := single_allocated_error vddd self hb hfits
      obtain ⟨_, _, _, hrun'⟩ := single_allocated_error vddd self hb (mt hperm.mp hfits)
      rw [hrun, hrun']
      rfl

end

end
end Dynd.ElwiseVar
