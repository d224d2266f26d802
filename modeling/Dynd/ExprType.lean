import Dynd.ArrayElements
import Dynd.DimFragment
/-!
# Expression types

An elementwise expression keeps pointers to its operands and the operation.
Indexing it indexes every operand by the indices of the dimensions that operand
has, also those of size one that the evaluation repeats; evaluating it makes a
kernel for one dimension after the other. This module has both, and says what an
evaluation gives.
-/
namespace Dynd.ExprType
open Lib LinearIndex FixedDim

/-! ## Expressions -/

/-- A `pointer_type` field of the operand, and its arrmeta: the target is at `data + offset`. -/
structure pointer_operand (T : Type) where
  target_tp : FixedType T
  offset : ℤ
  arrmeta : List size_stride_t
  data : ℤ
deriving DecidableEq

/-- An elementwise generator of kernels for elements of the given types. -/
structure expr_kernel_generator (T V : Type) where
  m_elwise : Bool
  m_name : String
  m_rdt : T
  m_op_dts : List T
  m_op : List V → V

/-- An array of `expr_type`. Its value type is canonical. -/
structure expr_array (T V : Type) where
  m_value_type : FixedType T
  operands : List (pointer_operand T)
  m_kgen : expr_kernel_generator T V

inductive expr_error (T : Type) where
  | array (e : array_error)
  /-- `Cannot evaluate elwise expression from (…) to …` -/
  | cannot_evaluate (src_tp : List (FixedType T)) (dst_tp : FixedType T)

/-- `runtime_error`, with its message. -/
def runtime_error {T : Type} (message : String) : expr_error T := .array (.runtime_error message)

def lift {T α : Type} : Except array_error α → Except (expr_error T) α
  | .ok a => .ok a
  | .error e => .error (.array e)

@[simp] theorem lift_ok {T α : Type} {x : Except array_error α} {a : α} : (lift x : Except (expr_error T) α) = .ok a ↔ x = .ok a := by
  cases x <;> simp [lift]

variable {T V : Type} [ElementType T]

def pointer_operand.ndim (op : pointer_operand T) : ℕ := op.target_tp.dims.length

/-! ## Indexing -/

/-- `expr_type::get_shape`: the shapes of the operands, broadcast together. -/
def get_shape (e : expr_array T V) : Except DimFragment.broadcast_error (List ℤ) :=
  e.operands.foldlM (fun bcast_shape op =>
    if 0 < op.ndim then DimFragment.incremental_broadcast bcast_shape (sizes op.target_tp.dims) else .ok bcast_shape)
    (List.replicate e.m_value_type.dims.length 1)

/-- The shape that an error of an index tells. -/
def root_shape (e : expr_array T V) : List dim_size_t := ((get_shape e).toOption.getD []).map toSize

section
variable (root : List dim_size_t) (undim : ℕ) (indices : List irange)

/-- `pointer_type::apply_linear_index` of the type. -/
def pointer_type_index (indices : List irange) (target_tp : FixedType T) : Except array_error (FixedType T) :=
  if indices = [] then .ok target_tp
  else do
    let dims ← applyToType root 0 indices target_tp.dims
    return ⟨dims, target_tp.dtype⟩

/-- The portion of the indexing that the type of one operand gets. -/
def operand_type_index (op : pointer_operand T) : Except array_error (FixedType T) :=
  if indices.length + op.ndim ≤ undim then .ok op.target_tp
  else
    let index_offset := undim - op.ndim
    pointer_type_index root (indices.drop index_offset) op.target_tp

/-- The same portion, of the arrmeta: what it moves the target by is added to the pointer's offset. -/
def operand_arrmeta_index (op : pointer_operand T) (out_tp : FixedType T) : Except array_error (pointer_operand T) :=
  if indices.length + op.ndim ≤ undim then .ok { op with target_tp := out_tp }
  else do
    let index_offset := undim - op.ndim
    let (out_md, offset) ← applyToArrmeta root 0 (indices.drop index_offset) op.target_tp.dims op.arrmeta
    return ⟨out_tp, op.offset + offset, out_md, op.data⟩

end

/-- `expr_type::apply_linear_index`, of the type and then of the arrmeta. -/
def apply_linear_index (indices : List irange) (e : expr_array T V) : Except (expr_error T) (expr_array T V) :=
  if e.m_kgen.m_elwise then do
    let undim := e.m_value_type.dims.length
    let root := root_shape e
    let dims ← lift (applyToType root 0 indices e.m_value_type.dims)
    let types ← lift (e.operands.mapM (operand_type_index root undim indices))
    let operands ← lift ((e.operands.zip types).mapM fun (op, tp) => operand_arrmeta_index root undim indices op tp)
    return ⟨⟨dims, e.m_value_type.dtype⟩, operands, e.m_kgen⟩
  else .error (runtime_error "expr_type::apply_linear_index is only implemented for elwise kernel generators")

/-- `nd::array::at_array` of an expression. -/
def at_expr (indices : List irange) (e : expr_array T V) : Except (expr_error T) (expr_array T V) :=
  if e.m_value_type.dims = [] then
    if indices ≠ [] then .error (.array (.too_many_indices indices.length 0)) else .ok e
  else apply_linear_index indices e

/-! ## Evaluation -/

/-- A kernel by the elements it visits: the offset in the destination, and in each source. -/
abbrev Visits := List (ℤ × List ℤ)

/-- A source of a kernel: its type and its arrmeta. -/
abbrev Source (T : Type) := FixedType T × List size_stride_t

/-- The loop of `strided_expr_kernel_extra`. -/
def strided_expr_kernel (size dst_stride : ℤ) (src_stride : List ℤ) (child : Visits) : Visits :=
  (List.range size.toNat).flatMap fun (i : ℕ) => child.map fun (dst, src) =>
    (i * dst_stride + dst, List.zipWith (fun stride offset => i * stride + offset) src_stride src)

/-- One `src[i]` of the kernel of a dimension: its stride, and the source of the child. -/
def strided_source (undim : ℕ) (size : ℤ) (src : Source T) : Except (expr_error T) (ℤ × Source T) :=
  -- This src value is getting broadcasted
  if src.1.dims.length < undim then .ok (0, src)
  else
    match src.1.dims, src.2 with
    | _ :: dims, m :: md =>
      -- Check for a broadcasting error
      if m.dim_size ≠ 1 ∧ size ≠ m.dim_size then .error (.array .broadcast_error)
      else .ok (m.stride, ⟨dims, src.1.dtype⟩, md)
    | _ :: _, [] => .error (.array .undefined_behaviour)
    | [], _ => .error (.array (.type_error "make_elwise_strided_dimension_expr_kernel: src was not strided as expected"))

variable [DecidableEq T]

/-- `make_expr_kernel`: the leaf where the types are the generator's, else the kernel of one
dimension (`make_elwise_strided_dimension_expr_kernel`) with this as its child. -/
def make_expr_kernel (kgen : expr_kernel_generator T V) (dst_dtype : T) :
    List dim_size_t → List size_stride_t → List (Source T) → Except (expr_error T) Visits
  | dims, dst_md, src =>
    if src.length ≠ kgen.m_op_dts.length then
      .error (runtime_error s!"The {kgen.m_name} kernel requires {kgen.m_op_dts.length} src operands, received {src.length}")
    else if dims = [] ∧ dst_dtype = kgen.m_rdt ∧ src.map (·.1) = kgen.m_op_dts.map (⟨[], ·⟩) then
      .ok [(0, src.map fun _ => 0)]
    else
      match dims, dst_md with
      | [], _ => .error (.cannot_evaluate (src.map (·.1)) ⟨[], dst_dtype⟩)
      | _ :: _, [] => .error (.array .undefined_behaviour)
      | _ :: dims, m :: dst_md =>
        if src.length = 0 ∨ 6 < src.length then
          .error (runtime_error "make_elwise_strided_dimension_expr_kernel with src_count > 6 not implemented yet")
        else do
          let children ← src.mapM (strided_source (dims.length + 1) m.dim_size)
          let child ← make_expr_kernel kgen dst_dtype dims dst_md (children.map (·.2))
          return strided_expr_kernel m.dim_size m.stride (children.map (·.1)) child

/-- `expr_type_offset_applier`: each source is moved before the child sees it. -/
def offset_applier (offsets : List ℤ) (child : Visits) : Visits :=
  child.map fun (dst, src) => (dst, List.zipWith (· + ·) offsets src)

def make_operand_to_value_assignment_kernel (e : expr_array T V) (dst_md : List size_stride_t) :
    Except (expr_error T) Visits := do
  let src_data_offsets := e.operands.map (·.offset)
  let child ← make_expr_kernel e.m_kgen e.m_value_type.dtype e.m_value_type.dims dst_md
    (e.operands.map fun op => (op.target_tp, op.arrmeta))
  -- If there were any non-zero pointer offsets, they are applied first
  return if src_data_offsets.any (· ≠ 0) then offset_applier src_data_offsets child else child

/-- An array and the memory its data is in. -/
structure Stored (T V : Type) where
  array : FixedArray T
  memory : ℤ → Option V

/-- The elements, the last index moving fastest. -/
def Stored.elements (a : Stored T V) : List (Option V) :=
  (multiIndices (sizes a.array.tp.dims)).map fun idx => a.memory (a.array.data + strideOffset a.array.arrmeta idx)

/-- Running the kernel: the operands are read from `mem`, the destination is new memory at `data`. -/
def run_kernel (e : expr_array T V) (mem : ℤ → V) (data : ℤ) (kernel : Visits) : ℤ → Option V :=
  kernel.foldl (fun memory (dst, src) => Function.update memory (data + dst)
    (some (e.m_kgen.m_op ((List.zipWith (· + ·) (e.operands.map (·.data)) src).map mem)))) fun _ => none

/-- `nd::array::eval`. The result keeps its default strides: an expression has no axis order. -/
def eval (e : expr_array T V) (mem : ℤ → V) (data : ℤ) : Except (expr_error T) (Stored T V) := do
  let result := FixedDim.empty e.m_value_type data
  let kernel ← make_operand_to_value_assignment_kernel e result.arrmeta
  return ⟨result, run_kernel e mem data kernel⟩

/-- Index the expression, then evaluate it. -/
def lazy_index (indices : List irange) (e : expr_array T V) (mem : ℤ → V) (data : ℤ) : Except (expr_error T) (Stored T V) := do
  let indexed ← at_expr indices e
  eval indexed mem data

/-- Evaluate the expression, then index its value. -/
def eager_index (indices : List irange) (e : expr_array T V) (mem : ℤ → V) (data : ℤ) : Except (expr_error T) (Stored T V) := do
  let value ← eval e mem data
  let view ← lift (at_array indices value.array)
  return ⟨view, value.memory⟩

/-- Both throw, or they give the same array. -/
def SameArray (x y : Except (expr_error T) (Stored T V)) : Prop :=
  Agree (fun a b => a.array.tp = b.array.tp ∧ a.elements = b.elements) x y

/-! ## What the kernel visits -/

/-- The axis of a source is as large as the destination's, or of size one. -/
def FitsAxis (n : dim_size_t) (m : size_stride_t) : Prop := m.dim_size = 1 ∨ n.val = m.dim_size

/-- The dimensions of a source, aligned with the last ones of the destination. -/
structure Fits (dims : List dim_size_t) (src : Source T) : Prop where
  ndim : src.1.dims.length ≤ dims.length
  axes : List.Forall₂ FitsAxis (dims.drop (dims.length - src.1.dims.length)) src.2

/-- Where the source is read for an element of the destination. -/
def sourceOffset (undim : ℕ) (src : Source T) (idx : List ℕ) : ℤ := strideOffset src.2 (idx.drop (undim - src.1.dims.length))

def sourceStride (undim : ℕ) (src : Source T) : ℤ :=
  if src.1.dims.length < undim then 0 else (src.2.head?.map (·.stride)).getD 0

def sourceChild (undim : ℕ) (src : Source T) : Source T :=
  if src.1.dims.length < undim then src else (⟨src.1.dims.tail, src.1.dtype⟩, src.2.tail)

section
omit [ElementType T] [DecidableEq T]

/-- A source of fewer dimensions is passed on to the child. -/
theorem strided_source_lower {undim : ℕ} {src : Source T} (h : src.1.dims.length < undim) (size : ℤ) :
    strided_source undim size src = .ok (sourceStride undim src, sourceChild undim src) := by
  unfold strided_source sourceStride sourceChild
  rw [if_pos h, if_pos h, if_pos h]

theorem fits_lower {n : dim_size_t} {dims : List dim_size_t} {src : Source T} (h : src.1.dims.length ≤ dims.length) :
    Fits (n :: dims) src ↔ Fits dims src := by
  have hdrop : (n :: dims).drop ((n :: dims).length - src.1.dims.length) = dims.drop (dims.length - src.1.dims.length) := by
    rw [List.length_cons, Nat.succ_sub h, List.drop_succ_cons]
  constructor
  · rintro ⟨-, haxes⟩
    exact ⟨h, hdrop ▸ haxes⟩
  · rintro ⟨-, haxes⟩
    exact ⟨h.trans (Nat.le_succ _), hdrop.symm ▸ haxes⟩

theorem fits_same {n : dim_size_t} {dims : List dim_size_t} {d : dim_size_t} {op_dims : List dim_size_t} {dtype : T}
    {m : size_stride_t} {md : List size_stride_t} (h : op_dims.length = dims.length) :
    Fits (n :: dims) (⟨d :: op_dims, dtype⟩, m :: md) ↔ FitsAxis n m ∧ Fits dims (⟨op_dims, dtype⟩, md) := by
  constructor
  · rintro ⟨-, haxes⟩
    simp only [List.length_cons, h, Nat.sub_self, List.drop_zero, List.forall₂_cons] at haxes
    exact ⟨haxes.1, h.le, by simpa [h] using haxes.2⟩
  · rintro ⟨hfit, -, haxes⟩
    simp only [h, Nat.sub_self, List.drop_zero] at haxes
    exact ⟨by simp [h], by simpa [h] using ⟨hfit, haxes⟩⟩

/-- A source of as many dimensions loses the first one. -/
theorem strided_source_same {dims : List dim_size_t} {size : ℤ} {d : dim_size_t} {op_dims : List dim_size_t} {dtype : T}
    {m : size_stride_t} {md : List size_stride_t} (h : op_dims.length = dims.length) :
    strided_source (dims.length + 1) size (⟨d :: op_dims, dtype⟩, m :: md) =
      if m.dim_size ≠ 1 ∧ size ≠ m.dim_size then .error (.array .broadcast_error)
      else .ok (sourceStride (dims.length + 1) (⟨d :: op_dims, dtype⟩, m :: md),
        sourceChild (dims.length + 1) (⟨d :: op_dims, dtype⟩, m :: md)) := by
  simp [strided_source, sourceStride, sourceChild, h]

theorem strided_source_ok {dims : List dim_size_t} {size : ℤ} {src : Source T} {p : ℤ × Source T}
    (hndim : src.1.dims.length ≤ dims.length + 1) (hlen : src.2.length = src.1.dims.length)
    (h : strided_source (dims.length + 1) size src = .ok p) :
    p = (sourceStride (dims.length + 1) src, sourceChild (dims.length + 1) src) := by
  by_cases hlt : src.1.dims.length < dims.length + 1
  · rw [strided_source_lower hlt] at h
    exact (Except.ok.inj h).symm
  · obtain ⟨⟨op_dims, dtype⟩, md⟩ := src
    have hlen' : op_dims.length = dims.length + 1 := le_antisymm hndim (not_lt.1 hlt)
    obtain ⟨d, op_dims, rfl⟩ := List.exists_cons_of_length_eq_add_one hlen'
    obtain ⟨m, md, rfl⟩ := List.exists_cons_of_length_eq_add_one hlen
    rw [strided_source_same (Nat.succ.inj hlen')] at h
    split_ifs at h
    exact (Except.ok.inj h).symm

/-- A source fits when its first axis does and its child fits the other dimensions. -/
theorem strided_source_fits {n : dim_size_t} {dims : List dim_size_t} {src : Source T}
    (hndim : src.1.dims.length ≤ dims.length + 1) (hlen : src.2.length = src.1.dims.length) :
    Fits (n :: dims) src ↔ strided_source (dims.length + 1) n.val src =
      .ok (sourceStride (dims.length + 1) src, sourceChild (dims.length + 1) src) ∧
        Fits dims (sourceChild (dims.length + 1) src) := by
  by_cases hlt : src.1.dims.length < dims.length + 1
  · have hchild : sourceChild (dims.length + 1) src = src := if_pos hlt
    rw [strided_source_lower hlt, fits_lower (Nat.le_of_lt_succ hlt), hchild]
    exact (and_iff_right rfl).symm
  · obtain ⟨⟨op_dims, dtype⟩, md⟩ := src
    have hlen' : op_dims.length = dims.length + 1 := le_antisymm hndim (not_lt.1 hlt)
    obtain ⟨d, op_dims, rfl⟩ := List.exists_cons_of_length_eq_add_one hlen'
    obtain ⟨m, md, rfl⟩ := List.exists_cons_of_length_eq_add_one hlen
    have hchild : sourceChild (dims.length + 1) (⟨d :: op_dims, dtype⟩, m :: md) = (⟨op_dims, dtype⟩, md) := if_neg hlt
    rw [fits_same (Nat.succ.inj hlen'), strided_source_same (Nat.succ.inj hlen'), hchild]
    refine and_congr_left fun _ => ?_
    unfold FitsAxis
    split_ifs with hb
    · exact ⟨fun h => absurd h (not_or.2 hb), fun h => by cases h⟩
    · refine ⟨fun _ => rfl, fun _ => ?_⟩
      by_contra hn
      exact hb (not_or.1 hn)

/-- An index of the axis moves the source by its stride. -/
theorem sourceOffset_cons {undim : ℕ} {src : Source T} (hndim : src.1.dims.length ≤ undim + 1)
    (hlen : src.2.length = src.1.dims.length) (i : ℕ) (rest : List ℕ) :
    sourceOffset (undim + 1) src (i :: rest) =
      i * sourceStride (undim + 1) src + sourceOffset undim (sourceChild (undim + 1) src) rest := by
  by_cases hlt : src.1.dims.length < undim + 1
  · unfold sourceOffset sourceStride sourceChild
    rw [if_pos hlt, if_pos hlt, Nat.succ_sub (Nat.le_of_lt_succ hlt), List.drop_succ_cons, mul_zero, zero_add]
  · obtain ⟨⟨op_dims, dtype⟩, md⟩ := src
    have hlen' : op_dims.length = undim + 1 := le_antisymm hndim (not_lt.1 hlt)
    obtain ⟨d, op_dims, rfl⟩ := List.exists_cons_of_length_eq_add_one hlen'
    obtain ⟨m, md, rfl⟩ := List.exists_cons_of_length_eq_add_one hlen
    have hundim : op_dims.length = undim := Nat.succ.inj hlen'
    simp only [sourceOffset, sourceStride, sourceChild, List.length_cons, hundim, lt_irrefl, if_false, Nat.sub_self,
      List.drop_zero, List.head?_cons, Option.map_some, Option.getD_some, List.tail_cons, strideOffset, List.headI_cons]

/-- The loop of one dimension around the elements the child visits. -/
theorem strided_expr_kernel_visits (n : ℤ) (dims : List ℤ) (m : size_stride_t) (md : List size_stride_t) (src : List (Source T))
    (undim : ℕ) (hsrc : ∀ s ∈ src, s.1.dims.length ≤ undim + 1 ∧ s.2.length = s.1.dims.length) :
    strided_expr_kernel n m.stride (src.map (sourceStride (undim + 1))) ((multiIndices dims).map fun idx =>
        (strideOffset md idx, (src.map (sourceChild (undim + 1))).map fun s => sourceOffset undim s idx)) =
      (multiIndices (n :: dims)).map fun idx =>
        (strideOffset (m :: md) idx, src.map fun s => sourceOffset (undim + 1) s idx) := by
  simp only [strided_expr_kernel, multiIndices_cons, List.map_flatMap, List.map_map]
  refine List.flatMap_congr fun i _ => List.map_congr_left fun rest _ => ?_
  refine Prod.ext rfl ?_
  show List.zipWith _ (src.map (sourceStride (undim + 1))) (src.map _) = src.map fun s => sourceOffset (undim + 1) s (i :: rest)
  rw [List.zipWith_map, List.zipWith_self]
  refine List.map_congr_left fun s hs => ?_
  exact (sourceOffset_cons (hsrc s hs).1 (hsrc s hs).2 i rest).symm

end

/-- What the generator makes at every dimension: the sources have the types of its operands. -/
structure Typed (kgen : expr_kernel_generator T V) (dims : List dim_size_t) (src : List (Source T)) : Prop where
  count : 0 < src.length
  op_dts : src.map (·.1.dtype) = kgen.m_op_dts
  source : ∀ s ∈ src, s.1.dims.length ≤ dims.length ∧ s.2.length = s.1.dims.length

omit [ElementType T] [DecidableEq T] in
theorem Typed.child {kgen : expr_kernel_generator T V} {n : dim_size_t} {dims : List dim_size_t} {src : List (Source T)}
    (h : Typed kgen (n :: dims) src) : Typed kgen dims (src.map (sourceChild (dims.length + 1))) := by
  refine ⟨by rw [List.length_map]; exact h.count, ?_, ?_⟩
  · rw [← h.op_dts, List.map_map]
    refine List.map_congr_left fun s _ => ?_
    unfold Function.comp sourceChild
    split_ifs <;> rfl
  · intro s hs
    obtain ⟨src', hsrc, rfl⟩ := List.mem_map.1 hs
    obtain ⟨hndim, hlen⟩ := h.source src' hsrc
    rw [List.length_cons] at hndim
    unfold sourceChild
    split_ifs with hlt
    · exact ⟨Nat.le_of_lt_succ hlt, hlen⟩
    · simp only [List.length_tail]
      omega

omit [ElementType T] in
/-- The kernel of one dimension, with the kernel of the others as its child. -/
theorem make_expr_kernel_cons {kgen : expr_kernel_generator T V} {n : dim_size_t} {dims : List dim_size_t}
    {m : size_stride_t} {md : List size_stride_t} {src : List (Source T)} (hm : m.dim_size = n.val)
    (htyped : Typed kgen (n :: dims) src) (dst_dtype : T) {visits : Visits} :
    make_expr_kernel kgen dst_dtype (n :: dims) (m :: md) src = .ok visits ↔ src.length ≤ 6 ∧
      ∃ children child, src.mapM (strided_source (dims.length + 1) n.val) = .ok children ∧
        make_expr_kernel kgen dst_dtype dims md (children.map (·.2)) = .ok child ∧
        visits = strided_expr_kernel n.val m.stride (children.map (·.1)) child := by
  have hcount : src.length = kgen.m_op_dts.length := by rw [← htyped.op_dts, List.length_map]
  have hpos := htyped.count
  rw [make_expr_kernel.eq_def]
  simp only [ne_eq, hcount, not_true_eq_false, if_false, reduceCtorEq, false_and, hm]
  rw [← hcount]
  split_ifs with h6
  · constructor
    · intro h
      cases h
    · intro h
      omega
  · constructor
    · intro h
      obtain ⟨children, hchildren, h⟩ := bind_eq_ok.1 h
      obtain ⟨child, hchild, h⟩ := bind_eq_ok.1 h
      exact ⟨by omega, children, child, hchildren, hchild, (Except.ok.inj h).symm⟩
    · rintro ⟨-, children, child, hchildren, hchild, rfl⟩
      rw [hchildren, ok_bind, hchild, ok_bind]
      rfl

omit [ElementType T] in
/-- The kernel is made when every source fits the destination, and there are at most six of them
unless there is no dimension. It then reads each source at the offset of its last indices. -/
theorem make_expr_kernel_iff (kgen : expr_kernel_generator T V) : ∀ {dims : List dim_size_t} {md : List size_stride_t}
    {src : List (Source T)} {visits : Visits}, md.map (·.dim_size) = sizes dims → Typed kgen dims src →
    (make_expr_kernel kgen kgen.m_rdt dims md src = .ok visits ↔ (dims = [] ∨ src.length ≤ 6) ∧ (∀ s ∈ src, Fits dims s) ∧
      visits = (multiIndices (sizes dims)).map fun idx => (strideOffset md idx, src.map fun s => sourceOffset dims.length s idx)) := by
  intro dims
  induction dims with
  | nil =>
    intro md src visits hmd htyped
    have hcount : src.length = kgen.m_op_dts.length := by rw [← htyped.op_dts, List.length_map]
    have hdims : ∀ s ∈ src, s.1.dims = [] ∧ s.2 = [] := by
      intro s hs
      obtain ⟨hndim, hlen⟩ := htyped.source s hs
      have h0 : s.1.dims = [] := List.length_eq_zero_iff.1 (Nat.le_zero.1 hndim)
      rw [h0] at hlen
      exact ⟨h0, List.length_eq_zero_iff.1 hlen⟩
    have hleaf : src.map (·.1) = kgen.m_op_dts.map (⟨[], ·⟩) := by
      rw [← htyped.op_dts, List.map_map]
      refine List.map_congr_left fun s hs => ?_
      show s.1 = ⟨[], s.1.dtype⟩
      rw [← (hdims s hs).1]
    obtain rfl : md = [] := List.map_eq_nil_iff.1 hmd
    rw [make_expr_kernel.eq_def]
    simp only [ne_eq, hcount, not_true_eq_false, if_false, hleaf, and_self, if_true]
    have hzero : (src.map fun _ => (0 : ℤ)) = src.map fun s => sourceOffset 0 s [] := by
      refine List.map_congr_left fun s hs => ?_
      unfold sourceOffset
      rw [(hdims s hs).2, strideOffset]
    rw [hzero]
    constructor
    · intro h
      refine ⟨.inl trivial, ?_, (Except.ok.inj h).symm⟩
      intro s hs
      exact ⟨(htyped.source s hs).1, by simp [(hdims s hs).2]⟩
    · rintro ⟨-, -, rfl⟩
      rfl
  | cons n dims ih =>
    intro md src visits hmd htyped
    rcases md with _ | ⟨m, md⟩
    · cases hmd
    rw [sizes_cons, List.map_cons, List.cons.injEq] at hmd
    obtain ⟨hm, hmd⟩ := hmd
    have hsrc : ∀ s ∈ src, s.1.dims.length ≤ dims.length + 1 ∧ s.2.length = s.1.dims.length := htyped.source
    rw [make_expr_kernel_cons hm htyped]
    have hvisits := strided_expr_kernel_visits n.val (sizes dims) m md src dims.length hsrc
    have hpairs : ∀ children, src.mapM (strided_source (dims.length + 1) n.val) = .ok children →
        children = src.map fun s => (sourceStride (dims.length + 1) s, sourceChild (dims.length + 1) s) := by
      intro children hchildren
      have hstep : ∀ s ∈ src, strided_source (dims.length + 1) n.val s =
          .ok (sourceStride (dims.length + 1) s, sourceChild (dims.length + 1) s) := by
        intro s hs
        obtain ⟨p, hp⟩ := ok_of_mapM hchildren s hs
        rw [hp, strided_source_ok (hsrc s hs).1 (hsrc s hs).2 hp]
      rw [mapM_eq_map hstep] at hchildren
      exact (Except.ok.inj hchildren).symm
    constructor
    · rintro ⟨h6, children, child, hchildren, hchild, rfl⟩
      obtain rfl := hpairs children hchildren
      rw [List.map_map] at hchild
      obtain ⟨-, hfits, rfl⟩ := (ih hmd htyped.child).1 hchild
      refine ⟨.inr h6, ?_, ?_⟩
      · intro s hs
        obtain ⟨p, hp⟩ := ok_of_mapM hchildren s hs
        refine (strided_source_fits (hsrc s hs).1 (hsrc s hs).2).2 ⟨?_, hfits _ (List.mem_map_of_mem hs)⟩
        rw [hp, strided_source_ok (hsrc s hs).1 (hsrc s hs).2 hp]
      · rw [List.map_map]
        exact hvisits
    · rintro ⟨h6, hfits, rfl⟩
      have hfit := fun s hs => (strided_source_fits (hsrc s hs).1 (hsrc s hs).2).1 (hfits s hs)
      have h6' : src.length ≤ 6 := h6.resolve_left (List.cons_ne_nil _ _)
      have hchild : ∀ s ∈ src.map (sourceChild (dims.length + 1)), Fits dims s := by
        intro s hs
        obtain ⟨src', hsrc', rfl⟩ := List.mem_map.1 hs
        exact (hfit src' hsrc').2
      have hkernel := (ih hmd htyped.child).2 ⟨.inr (by rwa [List.length_map]), hchild, rfl⟩
      have hsources : src.mapM (strided_source (dims.length + 1) n.val) =
          .ok (src.map fun s => (sourceStride (dims.length + 1) s, sourceChild (dims.length + 1) s)) :=
        mapM_eq_map fun s hs => (hfit s hs).1
      refine ⟨h6', _, _, hsources, (congrArg _ ?_).trans hkernel, ?_⟩
      · exact List.map_map
      · rw [List.map_map]
        exact hvisits.symm

/-! ## The value of an expression -/

/-- The dimensions of an operand beside the last ones of the value: as large, or of size one and repeated. -/
inductive Broadcasts : List dim_size_t → List dim_size_t → List size_stride_t → Prop
  | nil : Broadcasts [] [] []
  | cons {n d : dim_size_t} {m : size_stride_t} {dims op_dims : List dim_size_t} {md : List size_stride_t} :
    (d = n ∨ d.val = 1) → m.dim_size = d.val → Broadcasts dims op_dims md →
    Broadcasts (n :: dims) (d :: op_dims) (m :: md)

/-- The value's dimensions that the operand has too, or the indices of them. -/
def lastOf {α : Type} (e : expr_array T V) (op : pointer_operand T) (l : List α) : List α :=
  l.drop (e.m_value_type.dims.length - op.ndim)

/-- Two or more operands of strided dimensions, broadcast together, of the types the generator is for. -/
structure Elementwise (e : expr_array T V) : Prop where
  elwise : e.m_kgen.m_elwise = true
  two : 2 ≤ e.operands.length
  rdt : e.m_value_type.dtype = e.m_kgen.m_rdt
  op_dts : e.operands.map (·.target_tp.dtype) = e.m_kgen.m_op_dts
  ndim : ∀ op ∈ e.operands, op.ndim ≤ e.m_value_type.dims.length
  broadcasts : ∀ op ∈ e.operands, Broadcasts (lastOf e op e.m_value_type.dims) op.target_tp.dims op.arrmeta
  /-- A result of no bytes is always the same. -/
  no_bytes : ElementType.get_data_size e.m_kgen.m_rdt = 0 → ∀ xs ys, e.m_kgen.m_op xs = e.m_kgen.m_op ys

/-- Where the operands are read for an element of the value. -/
def operandAddresses (e : expr_array T V) (idx : List ℕ) : List ℤ :=
  e.operands.map fun op => op.data + (op.offset + strideOffset op.arrmeta (lastOf e op idx))

/-- The element of the value at an index. -/
def valueAt (e : expr_array T V) (mem : ℤ → V) (idx : List ℕ) : V := e.m_kgen.m_op ((operandAddresses e idx).map mem)

omit [ElementType T] [DecidableEq T] in
theorem offset_applier_none {offsets : List ℤ} (h : ∀ z ∈ offsets, z = 0) {child : Visits}
    (hlen : ∀ v ∈ child, v.2.length = offsets.length) : offset_applier offsets child = child := by
  have hzero : ∀ (offsets src : List ℤ), (∀ z ∈ offsets, z = 0) → src.length = offsets.length →
      List.zipWith (· + ·) offsets src = src := by
    intro offsets
    induction offsets with
    | nil =>
      intro src _ hlen
      rw [List.length_eq_zero_iff.1 hlen]
      rfl
    | cons z offsets ih =>
      intro src hz hlen
      obtain ⟨x, src, rfl⟩ := List.exists_cons_of_length_eq_add_one hlen
      obtain ⟨hz0, hz⟩ := List.forall_mem_cons.1 hz
      rw [List.zipWith_cons_cons, ih src hz (Nat.succ.inj hlen), hz0, zero_add]
  unfold offset_applier
  refine (List.map_congr_left fun v hv => ?_).trans (List.map_id _)
  exact Prod.ext rfl (hzero offsets v.2 h (hlen v hv))

/-- A fold of updates leaves what it wrote, when equal keys have equal values. -/
theorem foldl_update {α : Type} (key : α → ℤ) (val : α → Option V) : ∀ (l : List α) (m : ℤ → Option V),
    (∀ x ∈ l, ∀ y ∈ l, key x = key y → val x = val y) → ∀ x ∈ l,
    l.foldl (fun memory y => Function.update memory (key y) (val y)) m (key x) = val x := by
  intro l
  induction l using List.reverseRecOn with
  | nil =>
    intro m _ x hx
    cases hx
  | append_singleton l y ih =>
    intro m hkeys x hx
    rw [List.foldl_append, List.foldl_cons, List.foldl_nil]
    by_cases hxy : key x = key y
    · rw [hxy, Function.update_self]
      exact (hkeys x hx y (by simp) hxy).symm
    · have hmem : x ∈ l := by
        rcases List.mem_append.1 hx with h | h
        · exact h
        · rw [List.mem_singleton.1 h] at hxy
          exact absurd rfl hxy
      rw [Function.update_of_ne hxy]
      exact ih m (fun a ha b hb => hkeys a (List.mem_append_left _ ha) b (List.mem_append_left _ hb)) x hmem

/-- The source the kernel is given for an operand. -/
def pointer_operand.source (op : pointer_operand T) : Source T := (op.target_tp, op.arrmeta)

/-- What an expression needs to be evaluated: six operands at most, and each fits the value. -/
structure Evaluable (e : expr_array T V) : Prop where
  count : e.m_value_type.dims = [] ∨ e.operands.length ≤ 6
  fits : ∀ op ∈ e.operands, Fits e.m_value_type.dims op.source

/-- The operands of an expression, as its generator wants them. -/
structure Prepared (e : expr_array T V) : Prop where
  some : 0 < e.operands.length
  rdt : e.m_value_type.dtype = e.m_kgen.m_rdt
  op_dts : e.operands.map (·.target_tp.dtype) = e.m_kgen.m_op_dts
  operand : ∀ op ∈ e.operands, op.ndim ≤ e.m_value_type.dims.length ∧ op.arrmeta.length = op.ndim
  no_bytes : ElementType.get_data_size e.m_kgen.m_rdt = 0 → ∀ xs ys, e.m_kgen.m_op xs = e.m_kgen.m_op ys

omit [DecidableEq T] in
theorem Prepared.typed {e : expr_array T V} (h : Prepared e) :
    Typed e.m_kgen e.m_value_type.dims (e.operands.map pointer_operand.source) := by
  refine ⟨by rw [List.length_map]; exact h.some, ?_, ?_⟩
  · rw [← h.op_dts, List.map_map]
    rfl
  · intro s hs
    obtain ⟨op, hop, rfl⟩ := List.mem_map.1 hs
    exact h.operand op hop

/-- The kernel reads each operand at its pointer's offset and the offset of its last indices. -/
theorem operand_to_value_iff {e : expr_array T V} (h : Prepared e) {md : List size_stride_t}
    (hmd : md.map (·.dim_size) = sizes e.m_value_type.dims) {kernel : Visits} :
    make_operand_to_value_assignment_kernel e md = .ok kernel ↔ Evaluable e ∧
      kernel = (multiIndices (sizes e.m_value_type.dims)).map fun idx =>
        (strideOffset md idx, e.operands.map fun op => op.offset + strideOffset op.arrmeta (lastOf e op idx)) := by
  have hmake : ∀ child, make_expr_kernel e.m_kgen e.m_value_type.dtype e.m_value_type.dims md
      (e.operands.map pointer_operand.source) = .ok child ↔ Evaluable e ∧
        child = (multiIndices (sizes e.m_value_type.dims)).map fun idx =>
          (strideOffset md idx, e.operands.map fun op => strideOffset op.arrmeta (lastOf e op idx)) := by
    intro child
    rw [h.rdt, make_expr_kernel_iff e.m_kgen hmd h.typed, List.length_map, List.forall_mem_map, ← and_assoc]
    simp only [List.map_map]
    exact and_congr_left' ⟨fun hc => ⟨hc.1, hc.2⟩, fun he => ⟨he.count, he.fits⟩⟩
  have happly : ∀ child, child = ((multiIndices (sizes e.m_value_type.dims)).map fun idx =>
      (strideOffset md idx, e.operands.map fun op => strideOffset op.arrmeta (lastOf e op idx))) →
      (if (e.operands.map (·.offset)).any (· ≠ 0) then offset_applier (e.operands.map (·.offset)) child else child) =
        (multiIndices (sizes e.m_value_type.dims)).map fun idx =>
          (strideOffset md idx, e.operands.map fun op => op.offset + strideOffset op.arrmeta (lastOf e op idx)) := by
    rintro child rfl
    have hall : offset_applier (e.operands.map (·.offset)) ((multiIndices (sizes e.m_value_type.dims)).map fun idx =>
        (strideOffset md idx, e.operands.map fun op => strideOffset op.arrmeta (lastOf e op idx))) =
          (multiIndices (sizes e.m_value_type.dims)).map fun idx =>
            (strideOffset md idx, e.operands.map fun op => op.offset + strideOffset op.arrmeta (lastOf e op idx)) := by
      unfold offset_applier
      rw [List.map_map]
      refine List.map_congr_left fun idx _ => Prod.ext rfl ?_
      show List.zipWith _ (e.operands.map _) (e.operands.map _) = _
      rw [List.zipWith_map, List.zipWith_self]
    split_ifs with hany
    · exact hall
    · rw [← hall]
      refine (offset_applier_none ?_ ?_).symm
      · simpa using hany
      · intro v hv
        obtain ⟨idx, -, rfl⟩ := List.mem_map.1 hv
        simp
  unfold make_operand_to_value_assignment_kernel
  constructor
  · intro hk
    obtain ⟨child, hchild, hk⟩ := bind_eq_ok.1 hk
    obtain ⟨heval, hvisits⟩ := (hmake child).1 hchild
    exact ⟨heval, (Except.ok.inj hk).symm.trans (happly child hvisits)⟩
  · rintro ⟨heval, rfl⟩
    exact bind_eq_ok.2 ⟨_, (hmake _).2 ⟨heval, rfl⟩, congrArg Except.ok (happly _ rfl)⟩

omit [DecidableEq T] in
/-- What is written for an index is found at its address. -/
theorem run_kernel_spec {e : expr_array T V} (h : Prepared e) (mem : ℤ → V) (data : ℤ) {idx : List ℕ}
    (hidx : idx ∈ multiIndices (sizes e.m_value_type.dims)) :
    run_kernel e mem data ((multiIndices (sizes e.m_value_type.dims)).map fun idx =>
        (strideOffset (FixedDim.empty e.m_value_type data).arrmeta idx,
          e.operands.map fun op => op.offset + strideOffset op.arrmeta (lastOf e op idx)))
      (data + strideOffset (FixedDim.empty e.m_value_type data).arrmeta idx) = some (valueAt e mem idx) := by
  have hval : ∀ idx, e.m_kgen.m_op ((List.zipWith (· + ·) (e.operands.map (·.data))
      (e.operands.map fun op => op.offset + strideOffset op.arrmeta (lastOf e op idx))).map mem) = valueAt e mem idx := by
    intro idx
    rw [List.zipWith_map, List.zipWith_self]
    rfl
  unfold run_kernel
  rw [List.foldl_map]
  simp only [hval]
  refine foldl_update (fun idx => data + strideOffset (FixedDim.empty e.m_value_type data).arrmeta idx)
    (fun idx => some (valueAt e mem idx)) _ _ ?_ idx hidx
  intro x hx y hy hkey
  rcases Nat.eq_zero_or_pos (ElementType.get_data_size e.m_kgen.m_rdt) with h0 | hpos
  · exact congrArg some (h.no_bytes h0 _ _)
  · rw [← h.rdt] at hpos
    rw [default_injective e.m_value_type.dtype hpos hx hy (add_left_cancel hkey)]

/-- Evaluation succeeds exactly for the evaluable expressions, and then gives each element its value. -/
theorem eval_spec {e : expr_array T V} (h : Prepared e) (mem : ℤ → V) (data : ℤ) :
    ((∃ a, eval e mem data = .ok a) ↔ Evaluable e) ∧ ∀ a, eval e mem data = .ok a →
      a.array = FixedDim.empty e.m_value_type data ∧ ∀ idx ∈ multiIndices (sizes e.m_value_type.dims),
        a.memory (data + strideOffset (FixedDim.empty e.m_value_type data).arrmeta idx) = some (valueAt e mem idx) := by
  have hkernel := @operand_to_value_iff T V _ _ e h (FixedDim.empty e.m_value_type data).arrmeta
    (default_sizes e.m_value_type.dtype e.m_value_type.dims)
  unfold eval
  constructor
  · constructor
    · rintro ⟨a, ha⟩
      obtain ⟨kernel, hk, -⟩ := bind_eq_ok.1 ha
      exact (hkernel.1 hk).1
    · intro heval
      exact ⟨_, bind_eq_ok.2 ⟨_, hkernel.2 ⟨heval, rfl⟩, rfl⟩⟩
  · intro a ha
    obtain ⟨kernel, hk, ha⟩ := bind_eq_ok.1 ha
    obtain ⟨-, rfl⟩ := hkernel.1 hk
    obtain rfl := Except.ok.inj ha
    exact ⟨rfl, fun idx hidx => run_kernel_spec h mem data hidx⟩

end Dynd.ExprType
