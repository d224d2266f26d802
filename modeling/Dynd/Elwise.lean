import Dynd.ArrayElements
import Dynd.Lib.Events
import Mathlib.Data.List.GetD
/-!
# Elementwise kernels into fixed dims

`instantiate` of the elementwise arrfunc takes one dimension off the
destination and the sources at a time, and makes a kernel that loops over it.

`elwise_runs`: for sources with as many dimensions as the destination, the
kernel runs the child once for every index, in C order, at the elements that
the strides lead to.
-/
namespace Dynd.Elwise
open Lib FixedDim

/-! ## Operands -/

/-- A type of fixed dims, and of elements. -/
structure tp (D : Type) where
  shape : List ℤ
  dtype : D

/-- The arrmeta of the dims, and that of an element. -/
structure arrmeta where
  dims : List size_stride_t
  el : List UInt8

structure operand (D : Type) where
  tp : tp D
  arrmeta : arrmeta

inductive fault (E : Type) where
  | broadcast_error
  | runtime_error (what : String)
  | thrown (e : E)
  | undefined_behavior

/-- `single` of a kernel, with its destination and its sources. -/
abbrev expr_single_t (M E : Type) := ℤ → (ℕ → ℤ) → M → Except (fault E) M

/-- An arrfunc of elements. What it asks its types for is not looked into. -/
structure child_arrfunc (D M E : Type) where
  resolve_dst_type : List (tp D) → tp D
  instantiate : D → List UInt8 → List (D × List UInt8) → Except (fault E) (expr_single_t M E)

variable {D M E : Type}

/-! ## The kernels -/

/-- `single` of `elwise_ck`, which runs `strided` of its child. -/
def elwise_ck.single (size dst_stride : ℤ) (src_stride : ℕ → ℤ) (child : expr_single_t M E) : expr_single_t M E :=
  fun dst src => strided (fun p => child p.1 p.2) (dst, src) (dst_stride, src_stride) size.toNat

/-- One source, when the destination has a dimension of some size: its stride, and what is left of it. -/
def take_dim (dst_ndim : ℕ) (size : ℤ) (src : operand D) : Except (fault E) (ℤ × operand D) :=
  if src.tp.shape.length < dst_ndim then .ok (0, src)
  else
    match src.tp.shape, src.arrmeta.dims with
    | _ :: shape, m :: dims =>
      if m.dim_size ≠ 1 ∧ size ≠ m.dim_size then .error .broadcast_error
      else .ok (m.stride, ⟨⟨shape, src.tp.dtype⟩, ⟨dims, src.arrmeta.el⟩⟩)
    | [], _ => .error (.runtime_error "make_elwise_strided_dimension_expr_kernel: expected strided or fixed dim")
    | _ :: _, [] => .error .undefined_behavior

/-- The child, for operands that are elements. -/
def instantiate_child (child : child_arrfunc D M E) (dst_dtype : D) (dst_el : List UInt8) (srcs : List (operand D)) :
    Except (fault E) (expr_single_t M E) :=
  child.instantiate dst_dtype dst_el (srcs.map fun s => (s.tp.dtype, s.arrmeta.el))

/-- `elwise_virtual_ck::instantiate` and the one of `elwise_ck` for fixed dims. -/
def elwise_instantiate (child : child_arrfunc D M E) (dst_dtype : D) :
    List ℤ → arrmeta → List (operand D) → Except (fault E) (expr_single_t M E)
  | [], dst, srcs =>
    if srcs.all fun s => s.tp.shape.length = 0 then instantiate_child child dst_dtype dst.el srcs else .error .broadcast_error
  | _ :: shape, dst, srcs =>
    match dst.dims with
    | [] => .error .undefined_behavior
    | m :: dims => do
      let taken ← srcs.mapM (take_dim (shape.length + 1) m.dim_size)
      let finished := shape.length + 1 = 1 ∧ srcs.all fun s => s.tp.shape.length ≤ 1
      let k ←
        if finished then instantiate_child child dst_dtype dst.el (taken.map (·.2))
        else elwise_instantiate child dst_dtype shape ⟨dims, dst.el⟩ (taken.map (·.2))
      return elwise_ck.single m.dim_size m.stride (fun i => (taken.map (·.1)).getD i 0) k

/-! ## What they run -/

/-- The child, run once for every index of the shape. -/
def runs (shape : List ℤ) (dst_dims : List size_stride_t) (src_offset : ℕ → List ℕ → ℤ) (op : expr_single_t M E) :
    expr_single_t M E :=
  fun dst src => events (fun idx => op (dst + strideOffset dst_dims idx) fun i => src i + src_offset i idx) (multiIndices shape)

/-- The offset of a source. -/
def sourceOffsets (srcs : List (operand D)) (i : ℕ) (idx : List ℕ) : ℤ := strideOffset ((srcs.map (·.arrmeta.dims)).getD i []) idx

/-- A source has as many dims as a shape, each of its size or of size one. -/
structure Fits (shape : List ℤ) (src : operand D) : Prop where
  ndim : src.tp.shape.length = shape.length
  sizes : List.Forall₂ (fun m d => m.dim_size = 1 ∨ m.dim_size = d) src.arrmeta.dims shape

/-! ## One dimension -/

/-- What is left of a source. -/
def rest (src : operand D) : operand D := ⟨⟨src.tp.shape.tail, src.tp.dtype⟩, ⟨src.arrmeta.dims.tail, src.arrmeta.el⟩⟩

def first_stride (src : operand D) : ℤ := (src.arrmeta.dims.headD ⟨0, 0⟩).stride

variable {shape : List ℤ} {srcs : List (operand D)} {d : ℤ}

theorem Fits.take_dim {src : operand D} (h : Fits (d :: shape) src) :
    (take_dim (shape.length + 1) d src : Except (fault E) (ℤ × operand D)) = .ok (first_stride src, rest src) := by
  obtain ⟨⟨tp_shape, dtype⟩, ⟨dims, el⟩⟩ := src
  obtain ⟨hndim, hsizes⟩ := h
  obtain ⟨m, dims, hm, -, rfl⟩ := List.forall₂_cons_right_iff.mp hsizes
  cases tp_shape with
  | nil => cases hndim
  | cons n tp_shape =>
    have hsame : ¬ (m.dim_size ≠ 1 ∧ d ≠ m.dim_size) := by
      rintro ⟨hone, hne⟩
      exact hm.elim hone fun heq => hne heq.symm
    unfold Elwise.take_dim
    rw [if_neg (by rw [hndim, List.length_cons]; exact lt_irrefl _)]
    dsimp only
    rw [if_neg hsame]
    rfl

theorem Fits.rest {src : operand D} (h : Fits (d :: shape) src) : Fits shape (rest src) := by
  obtain ⟨hndim, hsizes⟩ := h
  obtain ⟨m, dims, -, hdims, heq⟩ := List.forall₂_cons_right_iff.mp hsizes
  refine ⟨?_, ?_⟩
  · change src.tp.shape.tail.length = _
    rw [List.length_tail, hndim, List.length_cons, Nat.add_sub_cancel]
  · change List.Forall₂ _ src.arrmeta.dims.tail shape
    rw [heq]
    exact hdims

theorem take_dims (h : ∀ s ∈ srcs, Fits (d :: shape) s) :
    (srcs.mapM (take_dim (shape.length + 1) d) : Except (fault E) _) = .ok (srcs.map fun s => (first_stride s, rest s)) :=
  mapM_eq_map fun s hs => (h s hs).take_dim

theorem instantiate_child_rest (child : child_arrfunc D M E) (dst_dtype : D) (dst_el : List UInt8) (srcs : List (operand D)) :
    instantiate_child child dst_dtype dst_el (srcs.map rest) = instantiate_child child dst_dtype dst_el srcs := by
  unfold instantiate_child
  rw [List.map_map]
  rfl

/-- The offset along the first dimension, and that of what is left. -/
theorem sourceOffsets_cons (h : ∀ s ∈ srcs, Fits (d :: shape) s) (i k : ℕ) (idx : List ℕ) :
    sourceOffsets srcs i (k :: idx) = k * (srcs.map first_stride).getD i 0 + sourceOffsets (srcs.map rest) i idx := by
  unfold sourceOffsets
  rw [List.map_map]
  rcases Nat.lt_or_ge i srcs.length with hi | hi
  · obtain ⟨m, dims, -, -, heq⟩ := List.forall₂_cons_right_iff.mp (h _ (List.getElem_mem hi)).sizes
    have hfirst : first_stride srcs[i] = m.stride := by
      unfold first_stride
      rw [heq]
      rfl
    have hrest : (rest srcs[i]).arrmeta.dims = dims := by
      change srcs[i].arrmeta.dims.tail = dims
      rw [heq]
      rfl
    rw [List.getD_eq_getElem _ _ (by simpa using hi), List.getD_eq_getElem _ _ (by simpa using hi),
      List.getD_eq_getElem _ _ (by simpa using hi), List.getElem_map, List.getElem_map, List.getElem_map, heq, strideOffset,
      List.headI_cons, List.tail_cons, hfirst, Function.comp_apply, hrest]
  · rw [List.getD_eq_default _ _ (by simpa using hi), List.getD_eq_default _ _ (by simpa using hi),
      List.getD_eq_default _ _ (by simpa using hi), strideOffset, strideOffset, mul_zero, add_zero]

/-- A loop over a dimension, around the runs for the others. -/
theorem runs_cons (h : ∀ s ∈ srcs, Fits (d :: shape) s) (m : size_stride_t) (dims : List size_stride_t)
    (op : expr_single_t M E) : elwise_ck.single d m.stride (fun i => (srcs.map first_stride).getD i 0)
      (runs shape dims (sourceOffsets (srcs.map rest)) op) = runs (d :: shape) (m :: dims) (sourceOffsets srcs) op := by
  funext dst src x
  unfold elwise_ck.single runs
  rw [strided_events, multiIndices_cons]
  have hmap : ((List.range d.toNat).flatMap fun i => (multiIndices shape).map (i :: ·)) =
      ((List.range d.toNat).flatMap fun i => (multiIndices shape).map (Prod.mk i)).map fun x => x.1 :: x.2 := by
    rw [List.map_flatMap]
    simp only [List.map_map]
    rfl
  rw [hmap, events_map]
  congr 1
  funext x
  obtain ⟨i, idx⟩ := x
  have hdst : dst + i • m.stride + strideOffset dims idx = dst + strideOffset (m :: dims) (i :: idx) := by
    rw [strideOffset, List.headI_cons, List.tail_cons, nsmul_eq_mul, add_assoc]
  have hsrc (k : ℕ) : (src + i • fun k => (srcs.map first_stride).getD k 0) k + sourceOffsets (srcs.map rest) k idx =
      src k + sourceOffsets srcs k (i :: idx) := by
    rw [sourceOffsets_cons h, Pi.add_apply, Pi.smul_apply, nsmul_eq_mul, add_assoc]
  change op (dst + i • m.stride + strideOffset dims idx)
    (fun k => (src + i • fun k => (srcs.map first_stride).getD k 0) k + sourceOffsets (srcs.map rest) k idx) = _
  rw [hdst, funext hsrc]

/-! ## All dimensions -/

/-- Nothing is left to lift. -/
theorem elwise_nil (child : child_arrfunc D M E) (dst_dtype : D) (dst : arrmeta) (h : ∀ s ∈ srcs, s.tp.shape.length = 0) :
    elwise_instantiate child dst_dtype [] dst srcs = instantiate_child child dst_dtype dst.el srcs :=
  if_pos (List.all_eq_true.mpr fun s hs => decide_eq_true (h s hs))

theorem runs_nil (h : ∀ s ∈ srcs, Fits [] s) (op : expr_single_t M E) : runs [] [] (sourceOffsets srcs) op = op := by
  funext dst src x
  have hoffset (i : ℕ) : src i + sourceOffsets srcs i [] = src i := by
    unfold sourceOffsets
    rcases Nat.lt_or_ge i srcs.length with hi | hi
    · have hdims := List.forall₂_nil_right_iff.mp (h _ (List.getElem_mem hi)).sizes
      rw [List.getD_eq_getElem _ _ (by simpa using hi), List.getElem_map, hdims, strideOffset, add_zero]
    · rw [List.getD_eq_default _ _ (by simpa using hi), strideOffset, add_zero]
  change (op (dst + 0) (fun i => src i + sourceOffsets srcs i []) x >>= pure) = _
  rw [funext hoffset, add_zero, bind_pure]

/-- The child is run once for every index. By induction on the shape of the destination. -/
theorem elwise_runs (child : child_arrfunc D M E) (dst_dtype : D) (shape : List ℤ) (dst : arrmeta)
    (hdst : dst.dims.map (·.dim_size) = shape) (h : ∀ s ∈ srcs, Fits shape s) :
    elwise_instantiate child dst_dtype shape dst srcs =
      runs shape dst.dims (sourceOffsets srcs) <$> instantiate_child child dst_dtype dst.el srcs := by
  induction shape generalizing dst srcs with
  | nil =>
    rw [elwise_nil child dst_dtype dst fun s hs => (h s hs).ndim, List.map_eq_nil_iff.mp hdst]
    have hruns : runs [] [] (sourceOffsets srcs) = (id : expr_single_t M E → expr_single_t M E) := by
      funext op
      exact runs_nil h op
    rw [hruns, id_map]
  | cons d shape ih =>
    obtain ⟨dims, el⟩ := dst
    obtain ⟨m, dims, rfl, hm, hdims⟩ := List.map_eq_cons_iff.mp hdst
    have hrest : ∀ s ∈ srcs.map rest, Fits shape s := List.forall_mem_map.mpr fun s hs => (h s hs).rest
    have hchild := ih ⟨dims, el⟩ hdims hrest
    rw [instantiate_child_rest] at hchild
    unfold elwise_instantiate
    dsimp only
    rw [hm, take_dims h, ok_bind, List.map_map, List.map_map]
    have hloop : (do
          let k ← runs shape dims (sourceOffsets (srcs.map rest)) <$> instantiate_child child dst_dtype el srcs
          pure (elwise_ck.single d m.stride (fun i => (srcs.map first_stride).getD i 0) k)) =
        runs (d :: shape) (m :: dims) (sourceOffsets srcs) <$> instantiate_child child dst_dtype el srcs := by
      cases instantiate_child child dst_dtype el srcs with
      | error e => rfl
      | ok op => exact congrArg Except.ok (runs_cons h m dims op)
    split_ifs with hfinished
    · -- the kernel of the child comes next either way
      obtain rfl := List.length_eq_zero_iff.mp (Nat.succ.inj hfinished.1)
      rw [elwise_nil child dst_dtype _ fun s hs => (hrest s hs).ndim, instantiate_child_rest] at hchild
      rw [← hchild] at hloop
      exact (congrArg (· >>= _) (instantiate_child_rest child dst_dtype el srcs)).trans hloop
    · exact (congrArg (· >>= _) hchild).trans hloop

end Dynd.Elwise
