import Dynd.Lib.Footprint
import Mathlib.Order.CompletePartialOrder
/-!
# Assignment of dimensions

`make_assignment_kernel` for fixed and var dimensions, nested to any depth, with
the four kernels that have a var dimension on a side and the one for two strided
ones.

A run fails with the first of the faults that its elements have, in their order.
Without a fault it leaves the destination equal to the broadcast of the source,
with its allocated dimensions in place, and touches nothing else.
-/
namespace Dynd.DimAssign
open Lib

/-! ## Memory -/

/-- A pointer: an allocation, and a distance into it. -/
abbrev ptr := ℕ × ℤ

def ptr.at (p : ptr) (i : ℤ) : ptr := (p.1, p.2 + i)

structure var_dim_type_data where
  begin : Option ptr
  size : ℕ
deriving DecidableEq

/-- What zeros say: not allocated. -/
def unallocated : var_dim_type_data := ⟨none, 0⟩

/-- Allocations are numbered, and those from `next` on are still to be made. -/
structure memory (V : Type) where
  next : ℕ
  vddd : ptr → var_dim_type_data
  value : ptr → V

variable {V D E : Type}

namespace memory
variable (m : memory V)

def set_vddd (p : ptr) (d : var_dim_type_data) : memory V := { m with vddd := Function.update m.vddd p d }

def set_value (p : ptr) (v : V) : memory V := { m with value := Function.update m.value p v }

/-- Zeroed memory for some elements. For none of them it depends on the memory block whether there is a pointer. -/
def allocate (null_when_empty : memory V → Bool) (dim_size : ℕ) : Option ptr × memory V :=
  if dim_size = 0 ∧ null_when_empty m = true then (none, m)
  else (some (m.next, 0), { m with next := m.next + 1, vddd := fun p => if p.1 = m.next then unallocated else m.vddd p })

end memory

/-! ## Types -/

structure var_dim_type_arrmeta where
  stride : ℤ
  offset : ℤ

/-- A type with its arrmeta. -/
inductive tp (D : Type) where
  | scalar (d : D)
  | fixed_dim (dim_size : ℕ) (stride : ℤ) (el : tp D)
  | var_dim (md : var_dim_type_arrmeta) (el : tp D)

def tp.get_ndim : tp D → ℕ
  | .scalar _ => 0
  | .fixed_dim _ _ el => el.get_ndim + 1
  | .var_dim _ el => el.get_ndim + 1

inductive fault (D E : Type) where
  | broadcast_error (what : String)
  /-- What it says is made from the types. -/
  | broadcast_types (dst_tp src_tp : tp D)
  /-- `Cannot assign from … to …` -/
  | cannot_assign (src_tp dst_tp : tp D)
  | runtime_error (what : String)
  | thrown (e : E)

def fault.is_broadcast_error : fault D E → Bool
  | .broadcast_error _ => true
  | .broadcast_types _ _ => true
  | _ => false

/-! ## The kernels -/

abbrev assign_t (V D E : Type) := ptr → ptr → memory V → Except (fault D E) (memory V)

section
variable (null_when_empty : memory V → Bool) (child : assign_t V D E)

/-- The strided function of the child. -/
def child_fn (dst : ptr) (dst_stride : ℤ) (src : ptr) (src_stride : ℤ) (count : ℕ) : memory V → Except (fault D E) (memory V) :=
  events (fun j : ℕ => child (dst.at (j * dst_stride)) (src.at (j * src_stride))) (List.range count)

/-- `elwise_ck` for a strided destination and a strided source. -/
def elwise_ck_single (size : ℕ) (dst_stride src_stride : ℤ) : assign_t V D E := fun dst src => child_fn child dst dst_stride src src_stride size

/-- What a null pointer has is not read. -/
def null : ptr := (0, 0)

def uninitialized_with_offset : fault D E :=
  .runtime_error "Cannot assign to an uninitialized dynd var_dim which has a non-zero offset"

def broadcast_to_var_assign_ck_single (dst_md : var_dim_type_arrmeta) : assign_t V D E := fun dst src m =>
  let dst_d := m.vddd dst
  match dst_d.begin with
  | none =>
    if dst_md.offset ≠ 0 then .error uninitialized_with_offset
    else
      let (begin, m) := m.allocate null_when_empty 1
      child_fn child (begin.getD null) 0 src 0 1 (m.set_vddd dst ⟨begin, 1⟩)
  | some begin => child_fn child (begin.at dst_md.offset) dst_md.stride src 0 dst_d.size m

def var_assign_ck_single (dst_md src_md : var_dim_type_arrmeta) : assign_t V D E := fun dst src m =>
  let dst_d := m.vddd dst
  let src_d := m.vddd src
  match dst_d.begin with
  | none =>
    if dst_md.offset ≠ 0 then .error uninitialized_with_offset
    else
      match src_d.begin with
      -- uninitialized -> uninitialized assignment is a no-op
      | none => .ok m
      | some src_begin =>
        let dim_size := src_d.size
        let (begin, m) := m.allocate null_when_empty dim_size
        child_fn child (begin.getD null) dst_md.stride (src_begin.at src_md.offset) src_md.stride dim_size
          (m.set_vddd dst ⟨begin, dim_size⟩)
  | some begin =>
    match src_d.begin with
    | none => .error (.runtime_error "Cannot assign an uninitialized dynd var_dim to an initialized one")
    | some src_begin =>
      let src_stride := if src_d.size ≠ 1 then src_md.stride else 0
      if src_d.size ≠ 1 ∧ dst_d.size ≠ src_d.size then
        .error (.broadcast_error s!"error broadcasting input var_dim sized {src_d.size} to output var_dim sized {dst_d.size}")
      else child_fn child (begin.at dst_md.offset) dst_md.stride (src_begin.at src_md.offset) src_stride dst_d.size m

def strided_to_var_assign_ck_single (dst_md : var_dim_type_arrmeta) (src_stride : ℤ) (src_dim_size : ℕ) : assign_t V D E :=
  fun dst src m =>
  let dst_d := m.vddd dst
  match dst_d.begin with
  | none =>
    if dst_md.offset ≠ 0 then .error uninitialized_with_offset
    else
      let (begin, m) := m.allocate null_when_empty src_dim_size
      child_fn child (begin.getD null) dst_md.stride src src_stride src_dim_size (m.set_vddd dst ⟨begin, src_dim_size⟩)
  | some begin =>
    if src_dim_size ≠ 1 ∧ dst_d.size ≠ src_dim_size then
      .error (.broadcast_error s!"error broadcasting input strided array sized {src_dim_size} to output var_dim sized {dst_d.size}")
    else child_fn child (begin.at dst_md.offset) dst_md.stride src src_stride dst_d.size m

def var_to_strided_assign_ck_single (dst_stride : ℤ) (dst_dim_size : ℕ) (src_md : var_dim_type_arrmeta) : assign_t V D E :=
  fun dst src m =>
  let src_d := m.vddd src
  match src_d.begin with
  | none => .error (.runtime_error "Cannot assign an uninitialized dynd var array to a strided one")
  | some src_begin =>
    let src_stride := if src_d.size ≠ 1 then src_md.stride else 0
    if src_d.size ≠ 1 ∧ dst_dim_size ≠ src_d.size then
      .error (.broadcast_error s!"error broadcasting input var array sized {src_d.size} to output strided array sized {dst_dim_size}")
    else child_fn child dst dst_stride (src_begin.at src_md.offset) src_stride dst_dim_size m

end

section
variable (null_when_empty : memory V → Bool) (convert : D → D → V → Except E V)

/-- The kernel of two scalars. -/
def scalar_assign (dst_tp src_tp : D) : assign_t V D E := fun dst src m =>
  match convert dst_tp src_tp (m.value src) with
  | .error e => .error (.thrown e)
  | .ok v => .ok (m.set_value dst v)

/-- `make_assignment_kernel`, with those of `fixed_dim_type` and `var_dim_type`. -/
def make_assignment_kernel : tp D → tp D → Except (fault D E) (assign_t V D E)
  | .scalar d, src_tp =>
    match src_tp with
    | .scalar s => .ok (scalar_assign convert d s)
    -- the type of the source finds more dimensions than the destination has
    | _ => .error (.broadcast_types (.scalar d) src_tp)
  | .fixed_dim dim_size stride el, src_tp =>
    let dst_tp : tp D := .fixed_dim dim_size stride el
    if src_tp.get_ndim < dst_tp.get_ndim then do
      let child ← make_assignment_kernel el src_tp
      return elwise_ck_single child dim_size stride 0
    else
      match src_tp with
      | .fixed_dim src_size src_stride src_el =>
        if src_size ≠ 1 ∧ dim_size ≠ src_size then .error (.broadcast_types dst_tp src_tp)
        else do
          let child ← make_assignment_kernel el src_el
          return elwise_ck_single child dim_size stride src_stride
      | .var_dim src_md src_el =>
        if dst_tp.get_ndim < src_tp.get_ndim then .error (.broadcast_types dst_tp src_tp)
        else do
          let child ← make_assignment_kernel el src_el
          return var_to_strided_assign_ck_single child stride dim_size src_md
      | .scalar _ => .error (.cannot_assign src_tp dst_tp)
  | .var_dim md el, src_tp =>
    let dst_tp : tp D := .var_dim md el
    if src_tp.get_ndim < dst_tp.get_ndim then do
      let child ← make_assignment_kernel el src_tp
      return broadcast_to_var_assign_ck_single null_when_empty child md
    else
      match src_tp with
      | .var_dim src_md src_el => do
        let child ← make_assignment_kernel el src_el
        return var_assign_ck_single null_when_empty child md src_md
      | .fixed_dim src_size src_stride src_el => do
        let child ← make_assignment_kernel el src_el
        return strided_to_var_assign_ck_single null_when_empty child md src_stride src_size
      | .scalar _ => .error (.cannot_assign src_tp dst_tp)

end

/-! ## The broadcast -/

/-- The types of a destination and a source that can be broadcast to it, as far as the types say. -/
def Fits : tp D → tp D → Prop
  | .scalar _, .scalar _ => True
  | .scalar _, _ => False
  | .fixed_dim dim_size _ el, src_tp =>
    if src_tp.get_ndim < el.get_ndim + 1 then Fits el src_tp
    else
      match src_tp with
      | .fixed_dim src_size _ src_el => (src_size = 1 ∨ dim_size = src_size) ∧ Fits el src_el
      | .var_dim _ src_el => Fits el src_el
      | .scalar _ => False
  | .var_dim _ el, src_tp =>
    if src_tp.get_ndim < el.get_ndim + 1 then Fits el src_tp
    else
      match src_tp with
      | .fixed_dim _ _ src_el => Fits el src_el
      | .var_dim _ src_el => Fits el src_el
      | .scalar _ => False

/-- The source of the elements of a destination with `ndim` dimensions. -/
def src_child (ndim : ℕ) (src_tp : tp D) : tp D :=
  if src_tp.get_ndim < ndim then src_tp
  else
    match src_tp with
    | .fixed_dim _ _ el => el
    | .var_dim _ el => el
    | .scalar _ => src_tp

section
variable (vddd : ptr → var_dim_type_data) (ndim : ℕ) (src_tp : tp D) (src : ptr)

/-- How many elements the source has for it, or none when these are not allocated. -/
def src_size : Option ℕ :=
  if src_tp.get_ndim < ndim then some 1
  else
    match src_tp with
    | .fixed_dim size _ _ => some size
    | .var_dim _ _ => (vddd src).begin.map fun _ => (vddd src).size
    | .scalar _ => some 1

/-- The element `j`. -/
def src_at (j : ℕ) : ptr :=
  if src_tp.get_ndim < ndim then src
  else
    match src_tp with
    | .fixed_dim _ stride _ => src.at (j * stride)
    | .var_dim md _ => (((vddd src).begin.getD null).at md.offset).at (j * md.stride)
    | .scalar _ => src

/-- The element for element `j` of the destination: a single one is repeated. -/
def src_element (j : ℕ) : ptr := src_at vddd ndim src_tp src (if src_size vddd ndim src_tp src = some 1 then 0 else j)

end

/-- What is thrown for sizes that do not broadcast. -/
def mismatch (dst_tp src_tp : tp D) (dst_size src_size : ℕ) : fault D E :=
  match dst_tp, src_tp with
  | .var_dim _ _, .var_dim _ _ =>
    .broadcast_error s!"error broadcasting input var_dim sized {src_size} to output var_dim sized {dst_size}"
  | .var_dim _ _, _ =>
    .broadcast_error s!"error broadcasting input strided array sized {src_size} to output var_dim sized {dst_size}"
  | _, _ => .broadcast_error s!"error broadcasting input var array sized {src_size} to output strided array sized {dst_size}"

/-- What is thrown when the source is not allocated and the destination is. -/
def uninitialized (dst_tp : tp D) : fault D E :=
  match dst_tp with
  | .var_dim _ _ => .runtime_error "Cannot assign an uninitialized dynd var_dim to an initialized one"
  | _ => .runtime_error "Cannot assign an uninitialized dynd var array to a strided one"

section
variable (convert : D → D → V → Except E V) (m : memory V)

/-- What is wrong with the elements, in order, when the var dimensions of the destination are as `before` says. -/
def faults : (ptr → var_dim_type_data) → tp D → tp D → ptr → ptr → List (fault D E)
  | _, .scalar d, src_tp, _, src =>
    match src_tp with
    | .scalar s =>
      match convert d s (m.value src) with
      | .error e => [.thrown e]
      | .ok _ => []
    | _ => []
  | before, .fixed_dim dim_size stride el, src_tp, dst, src =>
    let each (j : ℕ) := faults before el (src_child (el.get_ndim + 1) src_tp) (dst.at (j * stride))
      (src_element m.vddd (el.get_ndim + 1) src_tp src j)
    match src_size m.vddd (el.get_ndim + 1) src_tp src with
    | none => [uninitialized (.fixed_dim dim_size stride el)]
    | some size =>
      if size = 1 ∨ size = dim_size then (List.range dim_size).flatMap each
      else [mismatch (.fixed_dim dim_size stride el) src_tp dim_size size]
  | before, .var_dim md el, src_tp, dst, src =>
    let each before begin (j : ℕ) := faults before el (src_child (el.get_ndim + 1) src_tp) (ptr.at begin (j * md.stride))
      (src_element m.vddd (el.get_ndim + 1) src_tp src j)
    match (before dst).begin, src_size m.vddd (el.get_ndim + 1) src_tp src with
    | none, size =>
      if md.offset ≠ 0 then [uninitialized_with_offset]
      else (List.range (size.getD 0)).flatMap (each (fun _ => unallocated) null)
    | some _, none => [uninitialized (.var_dim md el)]
    | some begin, some size =>
      if size = 1 ∨ size = (before dst).size then (List.range (before dst).size).flatMap (each before (begin.at md.offset))
      else [mismatch (.var_dim md el) src_tp (before dst).size size]

/-- The destination, in a later memory, is equal to the broadcast of the source. A dimension that
was allocated is where it was, and another has the size of the source. -/
def Broadcast (m' : memory V) : (ptr → var_dim_type_data) → tp D → tp D → ptr → ptr → Prop
  | _, .scalar d, src_tp, dst, src =>
    match src_tp with
    | .scalar s => convert d s (m.value src) = .ok (m'.value dst)
    | _ => False
  | before, .fixed_dim dim_size stride el, src_tp, dst, src =>
    (src_size m.vddd (el.get_ndim + 1) src_tp src = some 1 ∨ src_size m.vddd (el.get_ndim + 1) src_tp src = some dim_size) ∧
      ∀ j < dim_size, Broadcast m' before el (src_child (el.get_ndim + 1) src_tp) (dst.at (j * stride))
        (src_element m.vddd (el.get_ndim + 1) src_tp src j)
  | before, .var_dim md el, src_tp, dst, src =>
    match (before dst).begin with
    | none =>
      match src_size m.vddd (el.get_ndim + 1) src_tp src with
      | none => m'.vddd dst = before dst
      | some size => (m'.vddd dst).size = size ∧ (size ≠ 0 → ∃ begin, (m'.vddd dst).begin = some begin) ∧
          ∀ j < size, Broadcast m' (fun _ => unallocated) el (src_child (el.get_ndim + 1) src_tp)
            ((((m'.vddd dst).begin.getD null).at md.offset).at (j * md.stride)) (src_element m.vddd (el.get_ndim + 1) src_tp src j)
    | some begin => m'.vddd dst = before dst ∧
        (src_size m.vddd (el.get_ndim + 1) src_tp src = some 1 ∨
          src_size m.vddd (el.get_ndim + 1) src_tp src = some (before dst).size) ∧
        ∀ j < (before dst).size, Broadcast m' before el (src_child (el.get_ndim + 1) src_tp)
          ((begin.at md.offset).at (j * md.stride)) (src_element m.vddd (el.get_ndim + 1) src_tp src j)

end

/-! ## Places -/

/-- The cells of a value: its scalars and its var dimensions, with those of their elements. -/
def cells (vddd : ptr → var_dim_type_data) : tp D → ptr → Set ptr
  | .scalar _, p => {p}
  | .fixed_dim dim_size stride el, p => ⋃ i ∈ {i : ℕ | i < dim_size}, cells vddd el (p.at (i * stride))
  | .var_dim md el, p => {p} ∪
      match (vddd p).begin with
      | none => ∅
      | some begin => ⋃ i ∈ {i : ℕ | i < (vddd p).size}, cells vddd el ((begin.at md.offset).at (i * md.stride))

/-- No two elements of a dimension have a cell together. -/
def Apart (vddd : ptr → var_dim_type_data) : tp D → ptr → Prop
  | .scalar _, _ => True
  | .fixed_dim dim_size stride el, p => (∀ i < dim_size, Apart vddd el (p.at (i * stride))) ∧
      ∀ i < dim_size, ∀ j < dim_size, i ≠ j → Disjoint (cells vddd el (p.at (i * stride))) (cells vddd el (p.at (j * stride)))
  | .var_dim md el, p => ∀ begin, (vddd p).begin = some begin →
      ((∀ i < (vddd p).size, Apart vddd el ((begin.at md.offset).at (i * md.stride))) ∧
        ∀ i < (vddd p).size, ∀ j < (vddd p).size, i ≠ j → Disjoint (cells vddd el ((begin.at md.offset).at (i * md.stride)))
          (cells vddd el ((begin.at md.offset).at (j * md.stride)))) ∧
      ∀ i < (vddd p).size, p ∉ cells vddd el ((begin.at md.offset).at (i * md.stride))

/-- The elements of a dimension that is to be allocated will be apart. -/
def Spaced : tp D → Prop
  | .scalar _ => True
  | .fixed_dim _ _ el => Spaced el
  | .var_dim md el => Spaced el ∧ ∀ region dim_size, Apart (fun _ => unallocated) (.fixed_dim dim_size md.stride el) (region, 0)

/-- Dimensions of size one repeat their element. -/
def Repeats : tp D → Prop
  | .scalar _ => True
  | .fixed_dim dim_size stride el => (dim_size = 1 → stride = 0) ∧ Repeats el
  | .var_dim _ el => Repeats el

/-- Where a destination and a source are: in use, the destination's elements apart, and apart from the source. -/
structure Placed (m : memory V) (dst_tp src_tp : tp D) (dst src : ptr) : Prop where
  apart : Apart m.vddd dst_tp dst
  dst_used : ∀ c ∈ cells m.vddd dst_tp dst, c.1 < m.next
  src_used : ∀ c ∈ cells m.vddd src_tp src, c.1 < m.next
  disjoint : Disjoint (cells m.vddd dst_tp dst) (cells m.vddd src_tp src)

/-! ## What a reader depends on -/

section
variable {vddd vddd' : ptr → var_dim_type_data} {el : tp D} {p : ptr}

theorem cells_fixed (vddd : ptr → var_dim_type_data) (dim_size : ℕ) (stride : ℤ) (el : tp D) (p : ptr) :
    cells vddd (.fixed_dim dim_size stride el) p = ⋃ i ∈ {i : ℕ | i < dim_size}, cells vddd el (p.at (i * stride)) := rfl

theorem mem_cells_fixed {dim_size : ℕ} {stride : ℤ} {i : ℕ} (hi : i < dim_size) {c : ptr} (hc : c ∈ cells vddd el (p.at (i * stride))) :
    c ∈ cells vddd (.fixed_dim dim_size stride el) p := Set.mem_biUnion (show i ∈ {i | i < dim_size} from hi) hc

theorem mem_cells_fixed_iff {dim_size : ℕ} {stride : ℤ} {c : ptr} :
    c ∈ cells vddd (.fixed_dim dim_size stride el) p ↔ ∃ i < dim_size, c ∈ cells vddd el (p.at (i * stride)) := by
  rw [cells_fixed, Set.mem_iUnion₂]
  simp only [Set.mem_ofPred_eq, exists_prop]

theorem cells_var (vddd : ptr → var_dim_type_data) (md : var_dim_type_arrmeta) (el : tp D) (p : ptr) :
    cells vddd (.var_dim md el) p = {p} ∪
      match (vddd p).begin with
      | none => ∅
      | some begin => cells vddd (.fixed_dim (vddd p).size md.stride el) (begin.at md.offset) := rfl

/-- The elements of a var dimension are a fixed one. -/
theorem cells_var_some {md : var_dim_type_arrmeta} {begin : ptr} (h : (vddd p).begin = some begin) :
    cells vddd (.var_dim md el) p = {p} ∪ cells vddd (.fixed_dim (vddd p).size md.stride el) (begin.at md.offset) := by
  rw [cells_var, h]

theorem cells_var_none {md : var_dim_type_arrmeta} (h : (vddd p).begin = none) : cells vddd (.var_dim md el) p = {p} := by
  rw [cells_var, h]
  exact Set.union_empty _

theorem apart_var_some {md : var_dim_type_arrmeta} {begin : ptr} (h : (vddd p).begin = some begin) :
    Apart vddd (.var_dim md el) p ↔ Apart vddd (.fixed_dim (vddd p).size md.stride el) (begin.at md.offset) ∧
      p ∉ cells vddd (.fixed_dim (vddd p).size md.stride el) (begin.at md.offset) := by
  have hmem : p ∉ cells vddd (.fixed_dim (vddd p).size md.stride el) (begin.at md.offset) ↔
      ∀ i < (vddd p).size, p ∉ cells vddd el ((begin.at md.offset).at (i * md.stride)) := by
    rw [mem_cells_fixed_iff]
    push Not
    rfl
  rw [hmem]
  constructor
  · exact fun hall => hall begin h
  · intro hall begin' h'
    obtain rfl := Option.some.inj (h.symm.trans h')
    exact hall

theorem mem_cells_var (md : var_dim_type_arrmeta) : p ∈ cells vddd (.var_dim md el) p := Or.inl rfl

theorem cells_congr : ∀ {el : tp D} {p : ptr}, (∀ c ∈ cells vddd el p, vddd' c = vddd c) → cells vddd' el p = cells vddd el p
  | .scalar _, _, _ => rfl
  | .fixed_dim _ _ _, _, h => by
    rw [cells_fixed, cells_fixed]
    exact Set.iUnion₂_congr fun i hi => cells_congr fun c hc => h c (mem_cells_fixed hi hc)
  | .var_dim md el, p, h => by
    have hp := h p (mem_cells_var md)
    cases hbegin : (vddd p).begin with
    | none => rw [cells_var_none hbegin, cells_var_none (hp ▸ hbegin)]
    | some begin =>
      rw [cells_var_some hbegin] at h
      rw [cells_var_some hbegin, cells_var_some (hp ▸ hbegin), hp, cells_fixed, cells_fixed]
      congr 1
      exact Set.iUnion₂_congr fun i hi => cells_congr fun c hc => h c (Or.inr (mem_cells_fixed hi hc))

theorem apart_congr : ∀ {el : tp D} {p : ptr}, (∀ c ∈ cells vddd el p, vddd' c = vddd c) → Apart vddd el p → Apart vddd' el p := by
  intro el
  induction el with
  | scalar d => exact fun _ _ => trivial
  | fixed_dim dim_size stride el ih =>
    intro p h hapart
    have hcells (i : ℕ) (hi : i < dim_size) := cells_congr fun c hc => h c (mem_cells_fixed hi hc)
    refine ⟨fun i hi => ih (fun c hc => h c (mem_cells_fixed hi hc)) (hapart.1 i hi), fun i hi j hj hij => ?_⟩
    rw [hcells i hi, hcells j hj]
    exact hapart.2 i hi j hj hij
  | var_dim md el ih =>
    intro p h hapart
    have hp := h p (mem_cells_var md)
    cases hbegin : (vddd p).begin with
    | none =>
      intro begin hsome
      rw [hp, hbegin] at hsome
      cases hsome
    | some begin =>
      rw [cells_var_some hbegin] at h
      rw [apart_var_some hbegin] at hapart
      have harray (c : ptr) (hc : c ∈ cells vddd (.fixed_dim (vddd p).size md.stride el) (begin.at md.offset)) := h c (Or.inr hc)
      have hcells (i : ℕ) (hi : i < (vddd p).size) := cells_congr fun c hc => harray c (mem_cells_fixed hi hc)
      rw [apart_var_some (hp ▸ hbegin), hp, cells_congr harray]
      refine ⟨⟨fun i hi => ih (fun c hc => harray c (mem_cells_fixed hi hc)) (hapart.1.1 i hi), fun i hi j hj hij => ?_⟩, hapart.2⟩
      rw [hcells i hi, hcells j hj]
      exact hapart.1.2 i hi j hj hij

end

/-! ## Sources -/

section
variable {vddd vddd' : ptr → var_dim_type_data} {ndim : ℕ} {src_tp : tp D} {src : ptr} {size : ℕ}

theorem src_at_cells (hsize : src_size vddd ndim src_tp src = some size) {j : ℕ} (hj : j < size) :
    cells vddd (src_child ndim src_tp) (src_at vddd ndim src_tp src j) ⊆ cells vddd src_tp src := by
  unfold src_size at hsize
  unfold src_child src_at
  split_ifs at hsize ⊢ with hlower
  · exact subset_rfl
  · cases src_tp with
    | scalar d => exact subset_rfl
    | fixed_dim n stride el =>
      obtain rfl := Option.some.inj hsize
      exact fun c hc => mem_cells_fixed hj hc
    | var_dim md el =>
      dsimp only at hsize ⊢
      obtain ⟨begin, hbegin, rfl⟩ := Option.map_eq_some_iff.mp hsize
      rw [hbegin, cells_var_some hbegin]
      exact fun c hc => Or.inr (mem_cells_fixed hj hc)

/-- The element for an element of a destination of some size. -/
theorem src_element_cells {n : ℕ} (hsize : src_size vddd ndim src_tp src = some size) (hfits : size = 1 ∨ size = n) {j : ℕ}
    (hj : j < n) : cells vddd (src_child ndim src_tp) (src_element vddd ndim src_tp src j) ⊆ cells vddd src_tp src := by
  apply src_at_cells hsize
  rw [hsize]
  split_ifs with h1
  · rw [Option.some.inj h1]
    exact Nat.one_pos
  · obtain rfl | rfl := hfits
    · exact absurd rfl h1
    · exact hj

theorem src_congr (h : ∀ c ∈ cells vddd src_tp src, vddd' c = vddd c) :
    src_size vddd' ndim src_tp src = src_size vddd ndim src_tp src ∧
      src_element vddd' ndim src_tp src = src_element vddd ndim src_tp src := by
  have hsize : src_size vddd' ndim src_tp src = src_size vddd ndim src_tp src := by
    unfold src_size
    split_ifs
    · rfl
    · cases src_tp with
      | var_dim md el =>
        dsimp only
        rw [h src (mem_cells_var md)]
      | _ => rfl
  have hat : src_at vddd' ndim src_tp src = src_at vddd ndim src_tp src := by
    funext j
    unfold src_at
    split_ifs
    · rfl
    · cases src_tp with
      | var_dim md el =>
        dsimp only
        rw [h src (mem_cells_var md)]
      | _ => rfl
  refine ⟨hsize, ?_⟩
  unfold src_element
  rw [hsize, hat]

end

/-- Two memories hold the same in some cells. -/
def Agrees (S : Set ptr) (m m' : memory V) : Prop := ∀ c ∈ S, m'.vddd c = m.vddd c ∧ m'.value c = m.value c

section
variable {convert : D → D → V → Except E V} {m m₁ m' m'' : memory V}

theorem Agrees.mono {S T : Set ptr} (h : Agrees T m m') (hST : S ⊆ T) : Agrees S m m' := fun c hc => h c (hST hc)

theorem Agrees.src {src_tp : tp D} {src : ptr} (h : Agrees (cells m.vddd src_tp src) m m₁) (ndim : ℕ) :
    src_size m₁.vddd ndim src_tp src = src_size m.vddd ndim src_tp src ∧
      src_element m₁.vddd ndim src_tp src = src_element m.vddd ndim src_tp src :=
  src_congr fun c hc => (h c hc).1

theorem faults_congr {dst_tp : tp D} : ∀ {before before' : ptr → var_dim_type_data} {src_tp : tp D} {dst src : ptr},
    (∀ c ∈ cells before dst_tp dst, before' c = before c) → Agrees (cells m.vddd src_tp src) m m₁ →
      faults convert m₁ before' dst_tp src_tp dst src = faults convert m before dst_tp src_tp dst src := by
  induction dst_tp with
  | scalar d =>
    intro before before' src_tp dst src _ hm
    cases src_tp with
    | scalar s =>
      unfold faults
      dsimp only
      rw [(hm src rfl).2]
    | _ => rfl
  | fixed_dim dim_size stride el ih =>
    intro before before' src_tp dst src hb hm
    obtain ⟨hsize, helement⟩ := hm.src (el.get_ndim + 1)
    unfold faults
    dsimp only
    rw [hsize, helement]
    cases hs : src_size m.vddd (el.get_ndim + 1) src_tp src with
    | none => rfl
    | some size =>
      dsimp only
      split_ifs with hfits
      · refine List.flatMap_congr fun j hj => ih (fun c hc => hb c (mem_cells_fixed (List.mem_range.mp hj) hc)) ?_
        exact hm.mono (src_element_cells hs hfits (List.mem_range.mp hj))
      · rfl
  | var_dim md el ih =>
    intro before before' src_tp dst src hb hm
    obtain ⟨hsize, helement⟩ := hm.src (el.get_ndim + 1)
    unfold faults
    dsimp only
    rw [hsize, helement, hb dst (mem_cells_var md)]
    cases hbegin : (before dst).begin with
    | none =>
      dsimp only
      split_ifs
      · rfl
      · refine List.flatMap_congr fun j hj => ih (fun _ _ => rfl) ?_
        cases hs : src_size m.vddd (el.get_ndim + 1) src_tp src with
        | none =>
          rw [hs] at hj
          exact absurd (List.mem_range.mp hj) (Nat.not_lt_zero j)
        | some size =>
          rw [hs] at hj
          exact hm.mono (src_element_cells hs (Or.inr rfl) (List.mem_range.mp hj))
    | some begin =>
      rw [cells_var_some hbegin] at hb
      cases hs : src_size m.vddd (el.get_ndim + 1) src_tp src with
      | none => rfl
      | some size =>
        dsimp only
        split_ifs with hfits
        · refine List.flatMap_congr fun j hj => ih (fun c hc => hb c (Or.inr (mem_cells_fixed (List.mem_range.mp hj) hc))) ?_
          exact hm.mono (src_element_cells hs hfits (List.mem_range.mp hj))
        · rfl

theorem Broadcast.congr {dst_tp : tp D} : ∀ {before before' : ptr → var_dim_type_data} {src_tp : tp D} {dst src : ptr},
    Broadcast convert m m' before dst_tp src_tp dst src → (∀ c ∈ cells before dst_tp dst, before' c = before c) →
      Agrees (cells m.vddd src_tp src) m m₁ → Agrees (cells m'.vddd dst_tp dst) m' m'' →
        Broadcast convert m₁ m'' before' dst_tp src_tp dst src := by
  induction dst_tp with
  | scalar d =>
    intro before before' src_tp dst src h _ hm hm'
    cases src_tp with
    | scalar s =>
      unfold Broadcast at h ⊢
      dsimp only at h ⊢
      rw [(hm src rfl).2, (hm' dst rfl).2]
      exact h
    | _ => exact h
  | fixed_dim dim_size stride el ih =>
    intro before before' src_tp dst src h hb hm hm'
    obtain ⟨hsize, helement⟩ := hm.src (el.get_ndim + 1)
    unfold Broadcast at h ⊢
    rw [hsize, helement]
    refine ⟨h.1, fun j hj => ih (h.2 j hj) (fun c hc => hb c (mem_cells_fixed hj hc)) ?_ ?_⟩
    · obtain ⟨size, hs, hfits⟩ : ∃ size, src_size m.vddd (el.get_ndim + 1) src_tp src = some size ∧ (size = 1 ∨ size = dim_size) :=
        h.1.elim (fun hs => ⟨1, hs, Or.inl rfl⟩) fun hs => ⟨dim_size, hs, Or.inr rfl⟩
      exact hm.mono (src_element_cells hs hfits hj)
    · exact hm'.mono fun c hc => mem_cells_fixed hj hc
  | var_dim md el ih =>
    intro before before' src_tp dst src h hb hm hm'
    obtain ⟨hsize, helement⟩ := hm.src (el.get_ndim + 1)
    have hdst := (hm' dst (mem_cells_var md)).1
    unfold Broadcast at h ⊢
    rw [hsize, helement, hb dst (mem_cells_var md), hdst]
    cases hbegin : (before dst).begin with
    | none =>
      rw [hbegin] at h
      dsimp only at h ⊢
      cases hs : src_size m.vddd (el.get_ndim + 1) src_tp src with
      | none =>
        rw [hs] at h
        exact h
      | some size =>
        rw [hs] at h
        obtain ⟨hsize', hsome, hall⟩ := h
        refine ⟨hsize', hsome, fun j hj => ih (hall j hj) (fun _ _ => rfl) (hm.mono (src_element_cells hs (Or.inr rfl) hj)) ?_⟩
        obtain ⟨begin, hbegin'⟩ := hsome (Nat.ne_of_gt (Nat.lt_of_le_of_lt (Nat.zero_le j) hj))
        rw [cells_var_some hbegin', hsize'] at hm'
        rw [hbegin']
        exact hm'.mono fun c hc => Or.inr (mem_cells_fixed hj hc)
    | some begin =>
      rw [hbegin] at h
      dsimp only at h ⊢
      obtain ⟨hsame, hfits, hall⟩ := h
      rw [cells_var_some hbegin] at hb
      rw [cells_var_some (hsame ▸ hbegin), hsame] at hm'
      refine ⟨hsame, hfits, fun j hj => ih (hall j hj) (fun c hc => hb c (Or.inr (mem_cells_fixed hj hc))) ?_
        (hm'.mono fun c hc => Or.inr (mem_cells_fixed hj hc))⟩
      obtain ⟨size, hs, hfits⟩ :
          ∃ size, src_size m.vddd (el.get_ndim + 1) src_tp src = some size ∧ (size = 1 ∨ size = (before dst).size) :=
        hfits.elim (fun hs => ⟨1, hs, Or.inl rfl⟩) fun hs => ⟨(before dst).size, hs, Or.inr rfl⟩
      exact hm.mono (src_element_cells hs hfits hj)

end

/-! ## A run of elements -/

/-- The cells of a memory, those of its allocations being in use. -/
def memoryCells (V : Type) : Cells (memory V) ptr where
  used m := {c | c.1 < m.next}
  same c m m' := m'.vddd c = m.vddd c ∧ m'.value c = m.value c
  same_refl _ _ := ⟨rfl, rfl⟩
  same_trans _ _ _ _ h h' := ⟨h'.1.trans h.1, h'.2.trans h.2⟩

section
variable (convert : D → D → V → Except E V)

/-- What a run leaves: the broadcast, in cells of the destination or in new ones. -/
structure Left (m : memory V) (dst_tp src_tp : tp D) (dst src : ptr) (m' : memory V) : Prop where
  broadcast : Broadcast convert m m' m.vddd dst_tp src_tp dst src
  places : ∀ c ∈ cells m'.vddd dst_tp dst, c.1 < m'.next ∧ (c ∈ cells m.vddd dst_tp dst ∨ m.next ≤ c.1)

/-- A kernel does what it is for wherever its destination and its source are. -/
def Assigns (dst_tp src_tp : tp D) (k : assign_t V D E) : Prop :=
  ∀ m dst src, Placed m dst_tp src_tp dst src →
    Within (memoryCells V) (cells m.vddd dst_tp dst) (faults convert m m.vddd dst_tp src_tp dst src)
      (Left convert m dst_tp src_tp dst src) m (k dst src m)

end

section
variable {convert : D → D → V → Except E V} {m m₁ m' m'' : memory V} {dst_tp src_tp el src_el : tp D} {dst src : ptr}

/-- Cells in use that were not in the footprint hold the same. -/
theorem Agrees.of_keeps {S T : Set ptr} (h : Keeps (memoryCells V) S m m') (hused : ∀ c ∈ T, c.1 < m.next) (hT : Disjoint S T) :
    Agrees T m m' :=
  fun c hc => h.same c (hused c hc) fun hS => Set.disjoint_left.mp hT hS hc

theorem Placed.congr (h : Placed m dst_tp src_tp dst src) (hdst : Agrees (cells m.vddd dst_tp dst) m m₁)
    (hsrc : Agrees (cells m.vddd src_tp src) m m₁) (hnext : m.next ≤ m₁.next) : Placed m₁ dst_tp src_tp dst src := by
  have hdst_cells := cells_congr fun c hc => (hdst c hc).1
  have hsrc_cells := cells_congr fun c hc => (hsrc c hc).1
  refine ⟨apart_congr (fun c hc => (hdst c hc).1) h.apart, ?_, ?_, ?_⟩
  · rw [hdst_cells]
    exact fun c hc => Nat.lt_of_lt_of_le (h.dst_used c hc) hnext
  · rw [hsrc_cells]
    exact fun c hc => Nat.lt_of_lt_of_le (h.src_used c hc) hnext
  · rw [hdst_cells, hsrc_cells]
    exact h.disjoint

theorem next_le {S : Set ptr} (h : Keeps (memoryCells V) S m m') : m.next ≤ m'.next := by
  by_contra hlt
  have hused : ((m'.next, 0) : ptr) ∈ (memoryCells V).used m' := h.grows (show m'.next < m.next by omega)
  exact absurd hused (lt_irrefl m'.next)

/-- A kernel that runs where other cells have changed since. -/
theorem Assigns.later {k : assign_t V D E} (hk : Assigns convert dst_tp src_tp k) (h : Placed m dst_tp src_tp dst src) {S : Set ptr}
    (hkeeps : Keeps (memoryCells V) S m m₁) (hdst : Disjoint S (cells m.vddd dst_tp dst))
    (hsrc : Disjoint S (cells m.vddd src_tp src)) :
    Within (memoryCells V) (cells m.vddd dst_tp dst) (faults convert m m.vddd dst_tp src_tp dst src)
      (Left convert m dst_tp src_tp dst src) m₁ (k dst src m₁) := by
  have hdst := Agrees.of_keeps hkeeps h.dst_used hdst
  have hsrc := Agrees.of_keeps hkeeps h.src_used hsrc
  have hcells := cells_congr fun c hc => (hdst c hc).1
  have hrun := hk m₁ dst src (h.congr hdst hsrc (next_le hkeeps))
  rw [hcells, faults_congr (fun c hc => (hdst c hc).1) hsrc] at hrun
  apply hrun.mono subset_rfl
  intro m' _ hleft
  refine ⟨?_, fun c hc => ?_⟩
  · apply hleft.broadcast.congr
    · rw [hcells]
      exact fun c hc => (hdst c hc).1.symm
    · rw [cells_congr fun c hc => (hsrc c hc).1]
      exact fun c hc => ⟨(hsrc c hc).1.symm, (hsrc c hc).2.symm⟩
    · exact fun _ _ => ⟨rfl, rfl⟩
  · obtain ⟨hlt, hold | hnew⟩ := hleft.places c hc
    · rw [hcells] at hold
      exact ⟨hlt, Or.inl hold⟩
    · exact ⟨hlt, Or.inr ((next_le hkeeps).trans hnew)⟩

/-- What a kernel has left stays when other cells change. -/
theorem Left.stable {S : Set ptr} (h : Left convert m dst_tp src_tp dst src m') (hkeeps : Keeps (memoryCells V) S m' m'')
    (hdst : Disjoint S (cells m.vddd dst_tp dst)) (hS : ∀ c ∈ S, c.1 < m.next) : Left convert m dst_tp src_tp dst src m'' := by
  have hagrees : Agrees (cells m'.vddd dst_tp dst) m' m'' := by
    apply Agrees.of_keeps hkeeps fun c hc => (h.places c hc).1
    rw [Set.disjoint_left]
    intro c hcS hc
    rcases (h.places c hc).2 with hold | hnew
    · exact Set.disjoint_left.mp hdst hcS hold
    · exact absurd (hS c hcS) (Nat.not_lt.mpr hnew)
  refine ⟨h.broadcast.congr (fun _ _ => rfl) (fun _ _ => ⟨rfl, rfl⟩) hagrees, fun c hc => ?_⟩
  rw [cells_congr fun c hc => (hagrees c hc).1] at hc
  exact ⟨Nat.lt_of_lt_of_le (h.places c hc).1 (next_le hkeeps), (h.places c hc).2⟩

/-- The elements of an array, one after the other. -/
theorem array_run {child : assign_t V D E} (hchild : Assigns convert el src_el child) {n : ℕ} {stride : ℤ} {begin : ptr}
    {src_at : ℕ → ptr} (hapart : Apart m.vddd (.fixed_dim n stride el) begin)
    (hdst : ∀ c ∈ cells m.vddd (.fixed_dim n stride el) begin, c.1 < m.next)
    (hsrc : ∀ j < n, (∀ c ∈ cells m.vddd src_el (src_at j), c.1 < m.next) ∧
      Disjoint (cells m.vddd (.fixed_dim n stride el) begin) (cells m.vddd src_el (src_at j))) :
    Within (memoryCells V) (cells m.vddd (.fixed_dim n stride el) begin)
      ((List.range n).flatMap fun j : ℕ => faults convert m m.vddd el src_el (begin.at (j * stride)) (src_at j))
      (fun m' => ∀ j < n, Left convert m el src_el (begin.at (j * stride)) (src_at j) m') m
      (events (fun j : ℕ => child (begin.at (j * stride)) (src_at j)) (List.range n) m) := by
  have hsub (j : ℕ) (hj : j < n) : cells m.vddd el (begin.at (j * stride)) ⊆ cells m.vddd (.fixed_dim n stride el) begin :=
    fun c hc => mem_cells_fixed hj hc
  apply within_events
  · intro i hi m₁ hkeeps
    have hplaced : Placed m el src_el (begin.at (i * stride)) (src_at i) :=
      ⟨hapart.1 i hi, fun c hc => hdst c (hsub i hi hc), (hsrc i hi).1, (hsrc i hi).2.mono_left (hsub i hi)⟩
    apply hchild.later hplaced hkeeps
    · rw [Set.disjoint_iUnion₂_left]
      exact fun j hj => hapart.2 j hj.1 i hi hj.2
    · rw [Set.disjoint_iUnion₂_left]
      exact fun j hj => (hsrc i hi).2.mono_left (hsub j hj.1)
  · intro i hi j hj hij m₁ m₂ hleft hkeeps
    exact hleft.stable hkeeps (hapart.2 j hj i hi hij) fun c hc => hdst c (hsub j hj hc)

/-! ## One dimension -/

section
variable (child : assign_t V D E)

/-- What the kernels into a strided dimension do. -/
def fixed_run (dim_size : ℕ) (stride : ℤ) (el src_tp : tp D) : assign_t V D E := fun dst src m =>
  match src_size m.vddd (el.get_ndim + 1) src_tp src with
  | none => .error (uninitialized (.fixed_dim dim_size stride el))
  | some size =>
    if size = 1 ∨ size = dim_size then
      events (fun j : ℕ => child (dst.at (j * stride)) (src_element m.vddd (el.get_ndim + 1) src_tp src j)) (List.range dim_size) m
    else .error (mismatch (.fixed_dim dim_size stride el) src_tp dim_size size)

/-- What the kernels into a var dimension do. -/
def var_run (null_when_empty : memory V → Bool) (md : var_dim_type_arrmeta) (el src_tp : tp D) : assign_t V D E := fun dst src m =>
  match (m.vddd dst).begin, src_size m.vddd (el.get_ndim + 1) src_tp src with
  | none, size =>
    if md.offset ≠ 0 then .error uninitialized_with_offset
    else
      match size with
      | none => .ok m
      | some size =>
        let (begin, m₁) := m.allocate null_when_empty size
        events (fun j : ℕ => child ((begin.getD null).at (j * md.stride)) (src_element m.vddd (el.get_ndim + 1) src_tp src j))
          (List.range size) (m₁.set_vddd dst ⟨begin, size⟩)
  | some _, none => .error (uninitialized (.var_dim md el))
  | some begin, some size =>
    if size = 1 ∨ size = (m.vddd dst).size then
      events (fun j : ℕ => child ((begin.at md.offset).at (j * md.stride)) (src_element m.vddd (el.get_ndim + 1) src_tp src j))
        (List.range (m.vddd dst).size) m
    else .error (mismatch (.var_dim md el) src_tp (m.vddd dst).size size)

end

section
variable {child : assign_t V D E}

/-- The elements of a source for an array, apart from it when the source is. -/
theorem Placed.sources {array : Set ptr} {n size ndim : ℕ} (hsrc_used : ∀ c ∈ cells m.vddd src_tp src, c.1 < m.next)
    (hdisjoint : Disjoint array (cells m.vddd src_tp src)) (hsize : src_size m.vddd ndim src_tp src = some size)
    (hfits : size = 1 ∨ size = n) : ∀ j < n,
      (∀ c ∈ cells m.vddd (src_child ndim src_tp) (src_element m.vddd ndim src_tp src j), c.1 < m.next) ∧
        Disjoint array (cells m.vddd (src_child ndim src_tp) (src_element m.vddd ndim src_tp src j)) := by
  intro j hj
  have hsub := src_element_cells hsize hfits hj
  exact ⟨fun c hc => hsrc_used c (hsub hc), hdisjoint.mono_right hsub⟩

theorem fixed_run_assigns (hchild : Assigns convert el (src_child (el.get_ndim + 1) src_tp) child) (n : ℕ) (stride : ℤ) :
    Assigns convert (.fixed_dim n stride el) src_tp (fixed_run child n stride el src_tp) := by
  intro m dst src h
  unfold fixed_run faults
  dsimp only
  cases hsize : src_size m.vddd (el.get_ndim + 1) src_tp src with
  | none => exact rfl
  | some size =>
    dsimp only
    split_ifs with hfits
    · apply (array_run hchild h.apart h.dst_used (Placed.sources h.src_used h.disjoint hsize hfits)).mono subset_rfl
      intro m' _ hleft
      refine ⟨⟨?_, fun j hj => (hleft j hj).broadcast⟩, fun c hc => ?_⟩
      · rw [hsize]
        exact hfits.imp (congrArg some) (congrArg some)
      · obtain ⟨j, hj, hc⟩ := mem_cells_fixed_iff.mp hc
        exact ⟨((hleft j hj).places c hc).1, ((hleft j hj).places c hc).2.imp_left fun hold => mem_cells_fixed hj hold⟩
    · exact rfl

/-! ## An allocation -/

theorem at_zero (p : ptr) : p.at 0 = p := by
  obtain ⟨region, offset⟩ := p
  exact congrArg (Prod.mk region) (add_zero offset)

theorem cells_blank : ∀ {el : tp D} {p c : ptr}, c ∈ cells (fun _ => unallocated) el p → c.1 = p.1
  | .scalar _, _, _, h => congrArg Prod.fst h
  | .fixed_dim _ _ _, _, _, h => by
    obtain ⟨i, _, hc⟩ := mem_cells_fixed_iff.mp h
    exact (cells_blank hc).trans rfl
  | .var_dim md el, p, c, h => by
    rw [cells_var_none rfl] at h
    exact congrArg Prod.fst h

/-- Where nothing is allocated, it does not matter where that is. -/
theorem faults_blank {src_tp : tp D} : ∀ {src : ptr} (dst dst' : ptr),
    faults convert m (fun _ => unallocated) el src_tp dst src = faults convert m (fun _ => unallocated) el src_tp dst' src := by
  induction el generalizing src_tp with
  | scalar d =>
    intro src dst dst'
    cases src_tp <;> rfl
  | fixed_dim n stride el ih =>
    intro src dst dst'
    unfold faults
    dsimp only
    cases src_size m.vddd (el.get_ndim + 1) src_tp src with
    | none => rfl
    | some size =>
      dsimp only
      split_ifs
      · exact List.flatMap_congr fun j _ => ih _ _
      · rfl
  | var_dim md el ih => exact fun {_} _ _ => rfl

/-- Where the next allocation is. -/
def fresh (m : memory V) : ptr := (m.next, 0)

/-- The memory after an allocation, with its record stored. -/
def allocated (m : memory V) (dst : ptr) (size : ℕ) : memory V :=
  (⟨m.next + 1, fun p => if p.1 = m.next then unallocated else m.vddd p, m.value⟩ : memory V).set_vddd dst ⟨some (fresh m), size⟩

theorem allocated_region {size : ℕ} {c : ptr} (hdst : dst.1 < m.next) (hc : c.1 = m.next) :
    (allocated m dst size).vddd c = unallocated := by
  have hne : c ≠ dst := by
    rintro rfl
    omega
  exact (Function.update_of_ne hne _ _).trans (if_pos hc)

theorem allocated_other {size : ℕ} {c : ptr} (hc : c.1 < m.next) (hne : c ≠ dst) :
    (allocated m dst size).vddd c = m.vddd c ∧ (allocated m dst size).value c = m.value c :=
  ⟨(Function.update_of_ne hne _ _).trans (if_neg (Nat.ne_of_lt hc)), rfl⟩

theorem allocated_dst (size : ℕ) : (allocated m dst size).vddd dst = ⟨some (fresh m), size⟩ := Function.update_self _ _ _

theorem keeps_allocated (size : ℕ) : Keeps (memoryCells V) {dst} m (allocated m dst size) :=
  ⟨fun c (hc : c.1 < m.next) => show c.1 < m.next + 1 by omega, fun c hc hne => allocated_other hc hne⟩

/-- A new array has its elements apart, in a region of its own. -/
theorem new_array {md : var_dim_type_arrmeta} (hspaced : Spaced (.var_dim md el)) (hdst : dst.1 < m.next) (n size : ℕ) :
    Apart (allocated m dst size).vddd (.fixed_dim n md.stride el) (fresh m) ∧
      ∀ c ∈ cells (allocated m dst size).vddd (.fixed_dim n md.stride el) (fresh m), c.1 = m.next := by
  have hblank : ∀ c ∈ cells (fun _ => unallocated) (.fixed_dim n md.stride el) (fresh m),
      (allocated m dst size).vddd c = unallocated := fun c hc => allocated_region hdst (cells_blank hc)
  refine ⟨apart_congr hblank (hspaced.2 m.next n), fun c hc => ?_⟩
  rw [cells_congr hblank] at hc
  exact cells_blank hc

section
variable {child : assign_t V D E} {md : var_dim_type_arrmeta} {size : ℕ}

/-- What was in use is still there after the allocation, but for the record. -/
theorem agrees_allocated {S : Set ptr} (hS : ∀ c ∈ S, c.1 < m.next) (hdst : dst ∉ S) : Agrees S m (allocated m dst size) :=
  fun c hc => allocated_other (hS c hc) fun heq => hdst (heq ▸ hc)

/-- The elements of a new array. -/
theorem new_array_run (hchild : Assigns convert el (src_child (el.get_ndim + 1) src_tp) child) (hspaced : Spaced (.var_dim md el))
    (h : Placed m (.var_dim md el) src_tp dst src) (hsize : src_size m.vddd (el.get_ndim + 1) src_tp src = some size) :
    Within (memoryCells V) {dst}
      ((List.range size).flatMap fun j : ℕ => faults convert m (fun _ => unallocated) el (src_child (el.get_ndim + 1) src_tp)
        (null.at (j * md.stride)) (src_element m.vddd (el.get_ndim + 1) src_tp src j))
      (fun m' => m'.vddd dst = ⟨some (fresh m), size⟩ ∧ ∀ j < size,
        Broadcast convert m m' (fun _ => unallocated) el (src_child (el.get_ndim + 1) src_tp)
          ((fresh m).at (j * md.stride)) (src_element m.vddd (el.get_ndim + 1) src_tp src j) ∧
        ∀ c ∈ cells m'.vddd el ((fresh m).at (j * md.stride)), c.1 < m'.next ∧ m.next ≤ c.1) m
      (events (fun j : ℕ => child ((fresh m).at (j * md.stride)) (src_element m.vddd (el.get_ndim + 1) src_tp src j))
        (List.range size) (allocated m dst size)) := by
  have hdst_used : dst.1 < m.next := h.dst_used dst (mem_cells_var md)
  have hdst_src : dst ∉ cells m.vddd src_tp src := Set.disjoint_left.mp h.disjoint (mem_cells_var md)
  obtain ⟨hapart, hregion⟩ := new_array hspaced hdst_used size size
  have hsrc : Agrees (cells m.vddd src_tp src) m (allocated m dst size) := agrees_allocated h.src_used hdst_src
  have hsub {j : ℕ} (hj : j < size) := src_element_cells hsize (Or.inr rfl) hj
  have hdst_region : ∀ c ∈ cells (allocated m dst size).vddd (.fixed_dim size md.stride el) (fresh m), c.1 < (allocated m dst size).next := by
    intro c hc
    rw [hregion c hc]
    exact Nat.lt_succ_self m.next
  have hsources : ∀ j < size,
      (∀ c ∈ cells (allocated m dst size).vddd (src_child (el.get_ndim + 1) src_tp) (src_element m.vddd (el.get_ndim + 1) src_tp src j),
        c.1 < (allocated m dst size).next) ∧
      Disjoint (cells (allocated m dst size).vddd (.fixed_dim size md.stride el) (fresh m))
        (cells (allocated m dst size).vddd (src_child (el.get_ndim + 1) src_tp)
          (src_element m.vddd (el.get_ndim + 1) src_tp src j)) := by
    intro j hj
    rw [cells_congr fun c hc => (hsrc.mono (hsub hj) c hc).1]
    refine ⟨fun c hc => Nat.lt_succ_of_lt (h.src_used c (hsub hj hc)), ?_⟩
    rw [Set.disjoint_left]
    intro c hc hcsrc
    exact absurd (hregion c hc) (Nat.ne_of_lt (h.src_used c (hsub hj hcsrc)))
  have hrun := array_run hchild hapart hdst_region hsources
  have hfaults : ((List.range size).flatMap fun j : ℕ => faults convert (allocated m dst size) (allocated m dst size).vddd el
        (src_child (el.get_ndim + 1) src_tp) ((fresh m).at (j * md.stride)) (src_element m.vddd (el.get_ndim + 1) src_tp src j)) =
      (List.range size).flatMap fun j : ℕ => faults convert m (fun _ => unallocated) el (src_child (el.get_ndim + 1) src_tp)
        (null.at (j * md.stride)) (src_element m.vddd (el.get_ndim + 1) src_tp src j) := by
    refine List.flatMap_congr fun j hj => ?_
    rw [faults_blank _ ((fresh m).at (j * md.stride))]
    apply faults_congr
    · exact fun c hc => allocated_region hdst_used (cells_blank hc)
    · exact hsrc.mono (hsub (List.mem_range.mp hj))
  rw [hfaults] at hrun
  apply hrun.after (keeps_allocated size)
  · intro c hc hused
    exact absurd (hregion c hc) (Nat.ne_of_lt hused)
  · intro m' hkeeps hleft
    have hdst_kept : m'.vddd dst = ⟨some (fresh m), size⟩ := by
      rw [← allocated_dst size]
      exact (hkeeps.same dst (Nat.lt_succ_of_lt hdst_used) fun hc => absurd (hregion dst hc) (Nat.ne_of_lt hdst_used)).1
    refine ⟨hdst_kept, fun j hj => ⟨?_, fun c hc => ?_⟩⟩
    · apply (hleft j hj).broadcast.congr
      · exact fun c hc => (allocated_region hdst_used (hregion c (mem_cells_fixed hj hc))).symm
      · intro c hc
        have hsame := hsrc.mono (hsub hj) c (by rwa [cells_congr fun c hc => (hsrc.mono (hsub hj) c hc).1] at hc)
        exact ⟨hsame.1.symm, hsame.2.symm⟩
      · exact fun _ _ => ⟨rfl, rfl⟩
    · obtain ⟨hlt, hold | hnew⟩ := (hleft j hj).places c hc
      · exact ⟨hlt, (hregion c (mem_cells_fixed hj hold)).ge⟩
      · exact ⟨hlt, Nat.le_of_succ_le hnew⟩

/-- An allocation, or a null pointer for no elements. -/
theorem allocate_cases (null_when_empty : memory V → Bool) (m : memory V) (dst : ptr) (size : ℕ) :
    ((m.allocate null_when_empty size).1 = some (fresh m) ∧
        (m.allocate null_when_empty size).2.set_vddd dst ⟨(m.allocate null_when_empty size).1, size⟩ = allocated m dst size) ∨
      size = 0 ∧ (m.allocate null_when_empty size).2.set_vddd dst ⟨(m.allocate null_when_empty size).1, size⟩ =
        m.set_vddd dst unallocated := by
  unfold memory.allocate
  split_ifs with hempty
  · obtain ⟨rfl, -⟩ := hempty
    exact Or.inr ⟨rfl, rfl⟩
  · exact Or.inl ⟨rfl, rfl⟩

/-- Into a dimension that is to be allocated. -/
theorem var_run_unallocated (null_when_empty : memory V → Bool) (hchild : Assigns convert el (src_child (el.get_ndim + 1) src_tp) child)
    (hspaced : Spaced (.var_dim md el)) (h : Placed m (.var_dim md el) src_tp dst src) (hbegin : (m.vddd dst).begin = none)
    (hoffset : md.offset = 0) (hsize : src_size m.vddd (el.get_ndim + 1) src_tp src = some size) :
    Within (memoryCells V) (cells m.vddd (.var_dim md el) dst)
      ((List.range size).flatMap fun j : ℕ => faults convert m (fun _ => unallocated) el (src_child (el.get_ndim + 1) src_tp)
        (null.at (j * md.stride)) (src_element m.vddd (el.get_ndim + 1) src_tp src j))
      (Left convert m (.var_dim md el) src_tp dst src) m
      (events (fun j : ℕ => child (((m.allocate null_when_empty size).1.getD null).at (j * md.stride))
          (src_element m.vddd (el.get_ndim + 1) src_tp src j))
        (List.range size) ((m.allocate null_when_empty size).2.set_vddd dst ⟨(m.allocate null_when_empty size).1, size⟩)) := by
  have hdst_used : dst.1 < m.next := h.dst_used dst (mem_cells_var md)
  rcases allocate_cases null_when_empty m dst size with ⟨hfresh, hallocated⟩ | ⟨rfl, hempty⟩
  · rw [hallocated, hfresh, cells_var_none hbegin]
    apply (new_array_run hchild hspaced h hsize).mono subset_rfl
    rintro m' hkeeps ⟨hdst, hleft⟩
    refine ⟨?_, fun c hc => ?_⟩
    · unfold Broadcast
      rw [hbegin, hsize, hdst]
      refine ⟨rfl, fun _ => ⟨_, rfl⟩, fun j hj => ?_⟩
      have helement : (((some (fresh m)).getD null).at md.offset).at (j * md.stride) = (fresh m).at (j * md.stride) := by
        rw [hoffset, Option.getD_some, at_zero]
      rw [helement]
      exact (hleft j hj).1
    · rw [cells_var_some (congrArg (·.begin) hdst), hdst, hoffset, at_zero] at hc
      rcases hc with rfl | hc
      · exact ⟨Nat.lt_of_lt_of_le hdst_used (next_le hkeeps), Or.inl (mem_cells_var md)⟩
      · obtain ⟨j, hj, hc⟩ := mem_cells_fixed_iff.mp hc
        exact ⟨((hleft j hj).2 c hc).1, Or.inr ((hleft j hj).2 c hc).2⟩
  · rw [hempty]
    have hrecord : (m.set_vddd dst unallocated).vddd dst = unallocated := Function.update_self _ _ _
    refine ⟨_, rfl, ⟨fun _ hc => hc, fun c _ hne => ⟨Function.update_of_ne ?_ _ _, rfl⟩⟩, ?_, fun c hc => ?_⟩
    · rintro rfl
      exact hne (mem_cells_var md)
    · unfold Broadcast
      rw [hbegin, hsize, hrecord]
      exact ⟨rfl, fun h0 => absurd rfl h0, fun j hj => absurd hj (Nat.not_lt_zero j)⟩
    · rw [cells_var_none (congrArg (·.begin) hrecord)] at hc
      obtain rfl : c = dst := hc
      exact ⟨hdst_used, Or.inl (mem_cells_var md)⟩

/-- Into a dimension that has its elements. -/
theorem var_run_allocated (hchild : Assigns convert el (src_child (el.get_ndim + 1) src_tp) child)
    (h : Placed m (.var_dim md el) src_tp dst src) {begin : ptr} (hbegin : (m.vddd dst).begin = some begin)
    (hsize : src_size m.vddd (el.get_ndim + 1) src_tp src = some size) (hfits : size = 1 ∨ size = (m.vddd dst).size) :
    Within (memoryCells V) (cells m.vddd (.var_dim md el) dst)
      ((List.range (m.vddd dst).size).flatMap fun j : ℕ => faults convert m m.vddd el (src_child (el.get_ndim + 1) src_tp)
        ((begin.at md.offset).at (j * md.stride)) (src_element m.vddd (el.get_ndim + 1) src_tp src j))
      (Left convert m (.var_dim md el) src_tp dst src) m
      (events (fun j : ℕ => child ((begin.at md.offset).at (j * md.stride)) (src_element m.vddd (el.get_ndim + 1) src_tp src j))
        (List.range (m.vddd dst).size) m) := by
  have hdst_used : dst.1 < m.next := h.dst_used dst (mem_cells_var md)
  have hapart := (apart_var_some hbegin).mp h.apart
  have hsub : cells m.vddd (.fixed_dim (m.vddd dst).size md.stride el) (begin.at md.offset) ⊆ cells m.vddd (.var_dim md el) dst := by
    rw [cells_var_some hbegin]
    exact Set.subset_union_right
  apply (array_run hchild hapart.1 (fun c hc => h.dst_used c (hsub hc))
    (Placed.sources h.src_used (h.disjoint.mono_left hsub) hsize hfits)).mono hsub
  intro m' hkeeps hleft
  have hdst := (hkeeps.same dst hdst_used hapart.2).1
  refine ⟨?_, fun c hc => ?_⟩
  · unfold Broadcast
    rw [hbegin, hsize]
    exact ⟨hdst, hfits.imp (congrArg some) (congrArg some), fun j hj => (hleft j hj).broadcast⟩
  · rw [cells_var_some (hdst ▸ hbegin), hdst] at hc
    rcases hc with rfl | hc
    · exact ⟨Nat.lt_of_lt_of_le hdst_used (next_le hkeeps), Or.inl (mem_cells_var md)⟩
    · obtain ⟨j, hj, hc⟩ := mem_cells_fixed_iff.mp hc
      exact ⟨((hleft j hj).places c hc).1, ((hleft j hj).places c hc).2.imp_left fun hold => hsub (mem_cells_fixed hj hold)⟩

theorem var_run_assigns (null_when_empty : memory V → Bool) (hchild : Assigns convert el (src_child (el.get_ndim + 1) src_tp) child)
    (hspaced : Spaced (.var_dim md el)) : Assigns convert (.var_dim md el) src_tp (var_run child null_when_empty md el src_tp) := by
  intro m dst src h
  unfold var_run faults
  dsimp only
  cases hbegin : (m.vddd dst).begin with
  | none =>
    dsimp only
    split_ifs with hoffset
    · exact rfl
    · cases hsize : src_size m.vddd (el.get_ndim + 1) src_tp src with
      | none =>
        refine ⟨m, rfl, Keeps.refl, ?_, fun c hc => ⟨h.dst_used c hc, Or.inl hc⟩⟩
        unfold Broadcast
        rw [hbegin, hsize]
      | some size => exact var_run_unallocated null_when_empty hchild hspaced h hbegin (not_not.mp hoffset) hsize
  | some begin =>
    cases hsize : src_size m.vddd (el.get_ndim + 1) src_tp src with
    | none => exact rfl
    | some size =>
      dsimp only
      split_ifs with hfits
      · exact var_run_allocated hchild h hbegin hsize hfits
      · exact rfl

end

end

end

/-! ## The kernels are the runs -/

section
variable {src_tp : tp D} {ndim : ℕ}

theorem lower_source (h : src_tp.get_ndim < ndim) (vddd : ptr → var_dim_type_data) (src : ptr) :
    src_child ndim src_tp = src_tp ∧ src_size vddd ndim src_tp src = some 1 ∧ ∀ j, src_element vddd ndim src_tp src j = src :=
  ⟨if_pos h, if_pos h, fun _ => if_pos h⟩

/-- Of a source whose only element has stride 0, or whose elements are as many as those of the destination. -/
theorem fixed_source {size : ℕ} {stride : ℤ} {el : tp D} (h : ¬ (tp.fixed_dim size stride el).get_ndim < ndim)
    (hrepeats : size = 1 → stride = 0) (vddd : ptr → var_dim_type_data) (src : ptr) :
    src_child ndim (.fixed_dim size stride el) = el ∧ src_size vddd ndim (.fixed_dim size stride el) src = some size ∧
      ∀ j, src_element vddd ndim (.fixed_dim size stride el) src j = src.at (j * stride) := by
  have hsize : src_size vddd ndim (.fixed_dim size stride el) src = some size := if_neg h
  refine ⟨if_neg h, hsize, fun j => ?_⟩
  unfold src_element src_at
  rw [if_neg h, hsize]
  dsimp only
  split_ifs with h1
  · rw [hrepeats (Option.some.inj h1), mul_zero, mul_zero]
  · rfl

theorem var_source {md : var_dim_type_arrmeta} {el : tp D} (h : ¬ (tp.var_dim md el).get_ndim < ndim)
    (vddd : ptr → var_dim_type_data) (src : ptr) :
    src_child ndim (.var_dim md el) = el ∧
      src_size vddd ndim (.var_dim md el) src = (vddd src).begin.map (fun _ => (vddd src).size) ∧
      ∀ begin, (vddd src).begin = some begin → ∀ j, src_element vddd ndim (.var_dim md el) src j =
        (begin.at md.offset).at (j * if (vddd src).size ≠ 1 then md.stride else 0) := by
  have hsize : src_size vddd ndim (.var_dim md el) src = (vddd src).begin.map (fun _ => (vddd src).size) := if_neg h
  refine ⟨if_neg h, hsize, fun begin hbegin j => ?_⟩
  unfold src_element src_at
  rw [if_neg h, hsize, hbegin]
  dsimp only [Option.map_some, Option.getD_some]
  by_cases h1 : (vddd src).size = 1
  · rw [h1, if_pos rfl, if_neg (not_not.mpr rfl), Nat.cast_zero, zero_mul, mul_zero]
  · rw [if_neg fun heq => h1 (Option.some.inj heq), if_pos h1]

variable {child : assign_t V D E} {el : tp D} {n : ℕ} {stride : ℤ}

theorem elwise_lower (h : src_tp.get_ndim < el.get_ndim + 1) :
    elwise_ck_single child n stride 0 = fixed_run child n stride el src_tp := by
  funext dst src m
  obtain ⟨-, hsize, helement⟩ := lower_source h m.vddd src
  unfold elwise_ck_single child_fn fixed_run
  rw [hsize]
  dsimp only
  rw [if_pos (Or.inl rfl)]
  simp only [helement, mul_zero, at_zero]

theorem elwise_fixed {size : ℕ} {src_stride : ℤ} {src_el : tp D} (h : ¬ (tp.fixed_dim size src_stride src_el).get_ndim < el.get_ndim + 1)
    (hrepeats : size = 1 → src_stride = 0) (hfits : size = 1 ∨ size = n) :
    elwise_ck_single child n stride src_stride = fixed_run child n stride el (.fixed_dim size src_stride src_el) := by
  funext dst src m
  obtain ⟨-, hsize, helement⟩ := fixed_source h hrepeats m.vddd src
  unfold elwise_ck_single child_fn fixed_run
  rw [hsize]
  dsimp only
  rw [if_pos hfits]
  simp only [helement]

theorem var_to_strided {md : var_dim_type_arrmeta} {src_el : tp D} (h : ¬ (tp.var_dim md src_el).get_ndim < el.get_ndim + 1) :
    var_to_strided_assign_ck_single child stride n md = fixed_run child n stride el (.var_dim md src_el) := by
  funext dst src m
  obtain ⟨-, hsize, helement⟩ := var_source h m.vddd src
  unfold var_to_strided_assign_ck_single child_fn fixed_run
  rw [hsize]
  dsimp only
  cases hbegin : (m.vddd src).begin with
  | none => rfl
  | some begin =>
    dsimp only [Option.map_some]
    by_cases hfits : (m.vddd src).size = 1 ∨ (m.vddd src).size = n
    · have hnot : ¬ ((m.vddd src).size ≠ 1 ∧ n ≠ (m.vddd src).size) := by
        rintro ⟨h1, h2⟩
        exact hfits.elim h1 fun h => h2 h.symm
      rw [if_neg hnot, if_pos hfits]
      simp only [helement begin hbegin]
    · have hnot : (m.vddd src).size ≠ 1 ∧ n ≠ (m.vddd src).size :=
        ⟨fun h1 => hfits (Or.inl h1), fun h2 => hfits (Or.inr h2.symm)⟩
      rw [if_pos hnot, if_neg hfits]
      rfl

variable {null_when_empty : memory V → Bool} {md : var_dim_type_arrmeta}

theorem broadcast_to_var (h : src_tp.get_ndim < el.get_ndim + 1) :
    broadcast_to_var_assign_ck_single null_when_empty child md = var_run child null_when_empty md el src_tp := by
  funext dst src m
  obtain ⟨-, hsize, helement⟩ := lower_source h m.vddd src
  unfold broadcast_to_var_assign_ck_single child_fn var_run
  rw [hsize]
  dsimp only
  cases hbegin : (m.vddd dst).begin with
  | none =>
    dsimp only
    split_ifs
    · rfl
    · refine congrFun (events_congr fun j hj => ?_) _
      obtain rfl : j = 0 := Nat.lt_one_iff.mp (List.mem_range.mp hj)
      rw [helement, Nat.cast_zero, zero_mul, zero_mul, at_zero src]
  | some begin =>
    dsimp only
    rw [if_pos (Or.inl rfl)]
    simp only [helement, mul_zero, at_zero src]

theorem strided_to_var {size : ℕ} {src_stride : ℤ} {src_el : tp D}
    (h : ¬ (tp.fixed_dim size src_stride src_el).get_ndim < el.get_ndim + 1) (hrepeats : size = 1 → src_stride = 0) :
    strided_to_var_assign_ck_single null_when_empty child md src_stride size =
      var_run child null_when_empty md el (.fixed_dim size src_stride src_el) := by
  funext dst src m
  obtain ⟨-, hsize, helement⟩ := fixed_source h hrepeats m.vddd src
  unfold strided_to_var_assign_ck_single child_fn var_run
  rw [hsize]
  dsimp only
  cases hbegin : (m.vddd dst).begin with
  | none =>
    dsimp only
    simp only [helement]
  | some begin =>
    dsimp only
    by_cases hfits : size = 1 ∨ size = (m.vddd dst).size
    · have hnot : ¬ (size ≠ 1 ∧ (m.vddd dst).size ≠ size) := by
        rintro ⟨h1, h2⟩
        exact hfits.elim h1 fun h => h2 h.symm
      rw [if_neg hnot, if_pos hfits]
      simp only [helement]
    · have hnot : size ≠ 1 ∧ (m.vddd dst).size ≠ size := ⟨fun h1 => hfits (Or.inl h1), fun h2 => hfits (Or.inr h2.symm)⟩
      rw [if_pos hnot, if_neg hfits]
      rfl

theorem var_to_var {src_md : var_dim_type_arrmeta} {src_el : tp D} (h : ¬ (tp.var_dim src_md src_el).get_ndim < el.get_ndim + 1) :
    var_assign_ck_single null_when_empty child md src_md = var_run child null_when_empty md el (.var_dim src_md src_el) := by
  funext dst src m
  obtain ⟨-, hsize, helement⟩ := var_source h m.vddd src
  unfold var_assign_ck_single child_fn var_run
  rw [hsize]
  dsimp only
  cases hbegin : (m.vddd dst).begin with
  | none =>
    dsimp only
    split_ifs
    · rfl
    · cases hsrc : (m.vddd src).begin with
      | none => rfl
      | some src_begin =>
        refine congrFun (events_congr fun j hj => ?_) _
        rw [helement src_begin hsrc]
        split_ifs with h1
        · rfl
        · obtain rfl : j = 0 := by
            have hj := List.mem_range.mp hj
            omega
          rw [Nat.cast_zero, zero_mul, zero_mul, zero_mul]
  | some begin =>
    cases hsrc : (m.vddd src).begin with
    | none => rfl
    | some src_begin =>
      dsimp only [Option.map_some]
      by_cases hfits : (m.vddd src).size = 1 ∨ (m.vddd src).size = (m.vddd dst).size
      · have hnot : ¬ ((m.vddd src).size ≠ 1 ∧ (m.vddd dst).size ≠ (m.vddd src).size) := by
          rintro ⟨h1, h2⟩
          exact hfits.elim h1 fun h => h2 h.symm
        rw [if_neg hnot, if_pos hfits]
        simp only [helement src_begin hsrc]
      · have hnot : (m.vddd src).size ≠ 1 ∧ (m.vddd dst).size ≠ (m.vddd src).size :=
          ⟨fun h1 => hfits (Or.inl h1), fun h2 => hfits (Or.inr h2.symm)⟩
        rw [if_pos hnot, if_neg hfits]
        rfl

end

/-! ## Any types -/

theorem Repeats.child {src_tp : tp D} (h : Repeats src_tp) (ndim : ℕ) : Repeats (src_child ndim src_tp) := by
  unfold src_child
  split_ifs
  · exact h
  · cases src_tp with
    | scalar d => exact h
    | fixed_dim n stride el => exact h.2
    | var_dim md el => exact h

theorem Fits.ndim_le {dst_tp : tp D} : ∀ {src_tp : tp D}, Fits dst_tp src_tp → src_tp.get_ndim ≤ dst_tp.get_ndim := by
  induction dst_tp with
  | scalar d =>
    intro src_tp h
    cases src_tp with
    | scalar s => exact le_rfl
    | _ => exact h.elim
  | fixed_dim n stride el ih =>
    intro src_tp h
    unfold Fits at h
    split_ifs at h with hlower
    · exact Nat.le_of_lt hlower
    · cases src_tp with
      | scalar s => exact h.elim
      | fixed_dim k src_stride src_el => exact Nat.succ_le_succ (ih h.2)
      | var_dim md src_el => exact Nat.succ_le_succ (ih h)
  | var_dim md el ih =>
    intro src_tp h
    unfold Fits at h
    split_ifs at h with hlower
    · exact Nat.le_of_lt hlower
    · cases src_tp with
      | scalar s => exact h.elim
      | fixed_dim k src_stride src_el => exact Nat.succ_le_succ (ih h)
      | var_dim md src_el => exact Nat.succ_le_succ (ih h)

section
variable {null_when_empty : memory V → Bool} {convert : D → D → V → Except E V}

/-- How making a kernel from another ends. -/
def Made (fits : Prop) (x : Except (fault D E) (assign_t V D E)) : Prop :=
  (fits ∧ ∃ k, x = .ok k) ∨ ¬ fits ∧ ∃ e, x = .error e ∧ e.is_broadcast_error = true

theorem Made.then {fits : Prop} {x : Except (fault D E) (assign_t V D E)} (h : Made fits x) (f : assign_t V D E → assign_t V D E) :
    Made fits (x >>= fun child => pure (f child)) := by
  rcases h with ⟨hfits, k, rfl⟩ | ⟨hfits, e, rfl, he⟩
  · exact Or.inl ⟨hfits, _, rfl⟩
  · exact Or.inr ⟨hfits, e, rfl, he⟩

/-- A kernel is made for types that fit, and for others a broadcast error is thrown. -/
theorem make_cases {dst_tp : tp D} : ∀ {src_tp : tp D}, Made (Fits dst_tp src_tp)
    (make_assignment_kernel null_when_empty convert dst_tp src_tp) := by
  induction dst_tp with
  | scalar d =>
    intro src_tp
    cases src_tp with
    | scalar s => exact Or.inl ⟨trivial, _, rfl⟩
    | _ => exact Or.inr ⟨id, _, rfl, rfl⟩
  | fixed_dim n stride el ih =>
    intro src_tp
    have hdst : (tp.fixed_dim n stride el).get_ndim = el.get_ndim + 1 := rfl
    unfold Fits make_assignment_kernel
    dsimp only
    rw [hdst]
    by_cases hlower : src_tp.get_ndim < el.get_ndim + 1
    · rw [if_pos hlower, if_pos hlower]
      exact ih.then fun child => elwise_ck_single child n stride 0
    · rw [if_neg hlower, if_neg hlower]
      cases src_tp with
      | scalar s => exact absurd (Nat.succ_pos _) hlower
      | fixed_dim k src_stride src_el =>
        dsimp only
        split_ifs with hsize
        · exact Or.inr ⟨fun h => h.1.elim hsize.1 hsize.2, _, rfl, rfl⟩
        · have hfits : k = 1 ∨ n = k := by
            by_contra hne
            exact hsize ⟨fun h1 => hne (Or.inl h1), fun h2 => hne (Or.inr h2)⟩
          rw [and_iff_right hfits]
          exact ih.then fun child => elwise_ck_single child n stride src_stride
      | var_dim md src_el =>
        dsimp only
        split_ifs with hndim
        · refine Or.inr ⟨fun h => ?_, _, rfl, rfl⟩
          exact absurd (Nat.succ_le_succ h.ndim_le) (Nat.not_le.mpr hndim)
        · exact ih.then fun child => var_to_strided_assign_ck_single child stride n md
  | var_dim md el ih =>
    intro src_tp
    have hdst : (tp.var_dim md el).get_ndim = el.get_ndim + 1 := rfl
    unfold Fits make_assignment_kernel
    dsimp only
    rw [hdst]
    by_cases hlower : src_tp.get_ndim < el.get_ndim + 1
    · rw [if_pos hlower, if_pos hlower]
      exact ih.then fun child => broadcast_to_var_assign_ck_single null_when_empty child md
    · rw [if_neg hlower, if_neg hlower]
      cases src_tp with
      | scalar s => exact absurd (Nat.succ_pos _) hlower
      | fixed_dim k src_stride src_el => exact ih.then fun child => strided_to_var_assign_ck_single null_when_empty child md src_stride k
      | var_dim src_md src_el => exact ih.then fun child => var_assign_ck_single null_when_empty child md src_md

theorem scalar_assigns (d s : D) : Assigns convert (.scalar d) (.scalar s) (scalar_assign convert d s) := by
  intro m dst src h
  unfold scalar_assign faults
  dsimp only
  cases hv : convert d s (m.value src) with
  | error e => exact rfl
  | ok v =>
    have hdst : (m.set_value dst v).value dst = v := Function.update_self _ _ _
    refine ⟨_, rfl, ⟨fun _ hc => hc, fun c _ hne => ⟨rfl, Function.update_of_ne ?_ _ _⟩⟩, ?_, fun c hc => ⟨h.dst_used c hc, Or.inl hc⟩⟩
    · rintro rfl
      exact hne rfl
    · unfold Broadcast
      dsimp only
      rw [hdst, hv]

/-- Every kernel that is made does what it is for. By induction on the type of the destination. -/
theorem make_assigns {dst_tp : tp D} : ∀ {src_tp : tp D} {k : assign_t V D E},
    make_assignment_kernel null_when_empty convert dst_tp src_tp = .ok k → Spaced dst_tp → Repeats src_tp →
      Assigns convert dst_tp src_tp k := by
  induction dst_tp with
  | scalar d =>
    intro src_tp k hk _ _
    cases src_tp with
    | scalar s =>
      obtain rfl := Except.ok.inj hk
      exact scalar_assigns d s
    | _ => cases hk
  | fixed_dim n stride el ih =>
    intro src_tp k hk hspaced hrepeats
    have ih {src_el : tp D} {child : assign_t V D E} (hsame : src_child (el.get_ndim + 1) src_tp = src_el)
        (hchild : make_assignment_kernel null_when_empty convert el src_el = .ok child) :
        Assigns convert (.fixed_dim n stride el) src_tp (fixed_run child n stride el src_tp) := by
      subst hsame
      exact fixed_run_assigns (ih hchild hspaced (hrepeats.child _)) n stride
    unfold make_assignment_kernel at hk
    dsimp only at hk
    by_cases hlower : src_tp.get_ndim < (tp.fixed_dim n stride el).get_ndim
    · rw [if_pos hlower] at hk
      obtain ⟨child, hchild, hk⟩ := bind_eq_ok.mp hk
      obtain rfl := Except.ok.inj hk
      rw [elwise_lower hlower]
      exact ih (if_pos hlower) hchild
    · rw [if_neg hlower] at hk
      cases src_tp with
      | scalar s => cases hk
      | fixed_dim size src_stride src_el =>
        dsimp only at hk
        split_ifs at hk with hsize
        obtain ⟨child, hchild, hk⟩ := bind_eq_ok.mp hk
        obtain rfl := Except.ok.inj hk
        have hfits : size = 1 ∨ size = n := by
          by_contra hne
          exact hsize ⟨fun h1 => hne (Or.inl h1), fun h2 => hne (Or.inr h2.symm)⟩
        rw [elwise_fixed hlower hrepeats.1 hfits]
        exact ih (if_neg hlower) hchild
      | var_dim md src_el =>
        dsimp only at hk
        split_ifs at hk
        obtain ⟨child, hchild, hk⟩ := bind_eq_ok.mp hk
        obtain rfl := Except.ok.inj hk
        rw [var_to_strided hlower]
        exact ih (if_neg hlower) hchild
  | var_dim md el ih =>
    intro src_tp k hk hspaced hrepeats
    have ih {src_el : tp D} {child : assign_t V D E} (hsame : src_child (el.get_ndim + 1) src_tp = src_el)
        (hchild : make_assignment_kernel null_when_empty convert el src_el = .ok child) :
        Assigns convert (.var_dim md el) src_tp (var_run child null_when_empty md el src_tp) := by
      subst hsame
      exact var_run_assigns null_when_empty (ih hchild hspaced.1 (hrepeats.child _)) hspaced
    unfold make_assignment_kernel at hk
    dsimp only at hk
    by_cases hlower : src_tp.get_ndim < (tp.var_dim md el).get_ndim
    · rw [if_pos hlower] at hk
      obtain ⟨child, hchild, hk⟩ := bind_eq_ok.mp hk
      obtain rfl := Except.ok.inj hk
      rw [broadcast_to_var hlower]
      exact ih (if_pos hlower) hchild
    · rw [if_neg hlower] at hk
      cases src_tp with
      | scalar s => cases hk
      | fixed_dim size src_stride src_el =>
        obtain ⟨child, hchild, hk⟩ := bind_eq_ok.mp hk
        obtain rfl := Except.ok.inj hk
        rw [strided_to_var hlower hrepeats.1]
        exact ih (if_neg hlower) hchild
      | var_dim src_md src_el =>
        obtain ⟨child, hchild, hk⟩ := bind_eq_ok.mp hk
        obtain rfl := Except.ok.inj hk
        rw [var_to_var hlower]
        exact ih (if_neg hlower) hchild

/-- How an assignment ends. Making the kernel throws a broadcast error when the types do not
fit, and nothing else. A run throws the first of the faults, and without one it leaves the
broadcast and keeps what is not the destination's. -/
def Outcome (null_when_empty : memory V → Bool) (convert : D → D → V → Except E V) (dst_tp src_tp : tp D) (dst src : ptr)
    (m : memory V) : Prop :=
  match (make_assignment_kernel null_when_empty convert dst_tp src_tp : Except (fault D E) (assign_t V D E)) with
  | .error e => ¬ Fits dst_tp src_tp ∧ e.is_broadcast_error = true
  | .ok k => Fits dst_tp src_tp ∧
      match faults convert m m.vddd dst_tp src_tp dst src with
      | e :: _ => k dst src m = .error e
      | [] => ∃ m', k dst src m = .ok m' ∧ Keeps (memoryCells V) (cells m.vddd dst_tp dst) m m' ∧
          Broadcast convert m m' m.vddd dst_tp src_tp dst src

end

/-! ## An earlier fault -/

/-- A source of two var dims: the first is not allocated, and the second has two elements. -/
def second_allocated : memory ℤ where
  next := 3
  vddd p := if p = (1, 16) then ⟨some (2, 0), 2⟩ else unallocated
  value _ := 0

def two_vars : tp Unit := .fixed_dim 2 16 (.var_dim ⟨8, 0⟩ (.scalar ()))

def two_empty : tp Unit := .fixed_dim 2 8 (.fixed_dim 0 8 (.scalar ()))

def copies : Unit → Unit → ℤ → Except Empty ℤ := fun _ _ v => .ok v

theorem two_empty_cells (vddd : ptr → var_dim_type_data) (p : ptr) : cells vddd two_empty p = ∅ := by
  ext c
  simp [two_empty, mem_cells_fixed_iff]

theorem two_vars_used (c : ptr) (h : c ∈ cells second_allocated.vddd two_vars (1, 0)) : c.1 < 3 := by
  obtain ⟨i, hi, hc⟩ := mem_cells_fixed_iff.mp h
  interval_cases i
  · rw [cells_var_none (by decide)] at hc
    obtain rfl : c = _ := hc
    decide
  · have hbegin : (second_allocated.vddd (ptr.at (1, 0) ((1 : ℕ) * 16))).begin = some (2, 0) := by decide
    rw [cells_var_some hbegin] at hc
    rcases hc with rfl | hc
    · decide
    · obtain ⟨j, -, hc⟩ := mem_cells_fixed_iff.mp hc
      obtain rfl : c = _ := hc
      exact Nat.lt_succ_self 2

end Dynd.DimAssign
