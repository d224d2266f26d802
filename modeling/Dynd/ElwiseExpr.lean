import Dynd.ElwiseVar
import Dynd.Lib.Events
import Dynd.Lib.MapM
/-!
# Elementwise kernels of expressions

`make_elwise_dimension_expr_kernel`, older than `elwise_ck`, takes one dimension
off a destination and its sources and makes one of three kernels for it: all of
them strided, var sources into a strided destination, and a var destination. A
kernel runs its child along the dimension, at places it works out from the sizes
that the types have and that the data has.
-/
namespace Dynd.ElwiseExpr
open Lib ElwiseVar

/-! ## Types and memory -/

structure var_dim_type_arrmeta where
  blockref : memory_block
  stride : ℤ
  offset : ℤ

/-- A type with its arrmeta. Only the first dimension of it is looked at. -/
inductive tp (D : Type) where
  | scalar (d : D)
  | fixed_dim (dim_size : ℕ) (stride : ℤ) (element_tp : tp D)
  | var_dim (target_alignment : ℕ) (md : var_dim_type_arrmeta) (element_tp : tp D)
  | offset_dim (element_tp : tp D)

def tp.get_ndim {D : Type} : tp D → ℕ
  | .scalar _ => 0
  | .fixed_dim _ _ el => el.get_ndim + 1
  | .var_dim _ _ el => el.get_ndim + 1
  | .offset_dim el => el.get_ndim + 1

/-- The var dims that memory has at its addresses. -/
structure memory (M : Type) where
  vddd : M → ℤ → var_dim_type_data
  store : ℤ → var_dim_type_data → M → M

inductive fault (D E : Type) where
  | broadcast_error (dst_tp src_tp : tp D)
  | kernel (e : error)
  | type_error (what : String)
  | runtime_error (what : String)
  /-- `Cannot evaluate elwise expression from (…) to …` -/
  | cannot_evaluate (src_tp : List (tp D)) (dst_tp : tp D)
  | expected_strided (src_tp : tp D)
  | undefined_behavior
  | thrown (e : E)

/-- `single` of a kernel, with its destination and its sources. -/
abbrev expr_single_t (D M E : Type) := ℤ → List ℤ → M → Except (fault D E) M

/-- What makes the kernel of the elements. -/
abbrev expr_kernel_generator (D M E : Type) := tp D → List (tp D) → Except (fault D E) (expr_single_t D M E)

variable {D M E : Type}

def of_error {α : Type} : Except error α → Except (fault D E) α
  | .ok a => .ok a
  | .error e => .error (.kernel e)

/-- The strided function of a child: its single function at one place after the other. -/
def opchild (child : expr_single_t D M E) (call : child_call) (m : M) : Except (fault D E) M :=
  events (fun (j : ℕ) => child (call.modified_dst + j * call.modified_dst_stride) (call.modified_src.map fun s => s.1 + j * s.2))
    (List.range call.dim_size) m

/-! ## The kernels -/

structure strided_expr_kernel_extra where
  size : ℕ
  dst_stride : ℤ
  src_stride : List ℤ

/-- The fields of a kernel for one source. -/
structure src_field where
  src_stride : ℤ
  src_offset : ℤ
  is_src_var : Bool

structure strided_or_var_to_strided_expr_kernel_extra where
  size : ℕ
  dst_stride : ℤ
  src : List src_field

structure strided_or_var_to_var_expr_kernel_extra where
  dst_memblock : memory_block
  dst_target_alignment : ℕ
  dst_stride : ℤ
  dst_offset : ℤ
  src : List src_field

def strided_expr_kernel_extra.single (e : strided_expr_kernel_extra) (dst : ℤ) (src : List ℤ) : child_call :=
  ⟨dst, e.dst_stride, src.zip e.src_stride, e.size⟩

section
variable (vddd : ℤ → var_dim_type_data)

/-- One source, when the size of the destination is known. -/
def broadcast_source (dst_name src_name : String) (dim_size : ℕ) (f : src_field × ℤ) : Except error (ℤ × ℤ) :=
  if f.1.is_src_var then
    let modified_src := (vddd f.2).begin + f.1.src_offset
    if (vddd f.2).size = 1 then .ok (modified_src, 0)
    else if (vddd f.2).size = dim_size then .ok (modified_src, f.1.src_stride)
    else .error (.broadcast_error dim_size (vddd f.2).size dst_name src_name)
  -- strided dimensions were broadcast in the kernel factory
  else .ok (f.2, f.1.src_stride)

/-- One source, broadcast with those before. -/
def broadcast_with (dim_size : ℕ) (f : src_field × ℤ) : Except error (ℕ × ℤ × ℤ) :=
  if f.1.is_src_var then
    let modified_src := (vddd f.2).begin + f.1.src_offset
    if (vddd f.2).size = 1 then .ok (dim_size, modified_src, 0)
    else if dim_size = 1 then .ok ((vddd f.2).size, modified_src, f.1.src_stride)
    else if (vddd f.2).size = dim_size then .ok (dim_size, modified_src, f.1.src_stride)
    else .error (.broadcast_error dim_size (vddd f.2).size "var dim" "var dim")
  -- strided dimensions are all size 1
  else .ok (dim_size, f.2, f.1.src_stride)

/-- The sources, broadcast together. -/
def broadcast_sources (dim_size : ℕ) : List (src_field × ℤ) → Except error (ℕ × List (ℤ × ℤ))
  | [] => .ok (dim_size, [])
  | f :: fs => do
    let (dim_size, src) ← broadcast_with vddd dim_size f
    let (dim_size, srcs) ← broadcast_sources dim_size fs
    pure (dim_size, src :: srcs)

def strided_or_var_to_strided_expr_kernel_extra.single (dst_name src_name : String)
    (e : strided_or_var_to_strided_expr_kernel_extra) (dst : ℤ) (src : List ℤ) : Except error child_call := do
  let modified_src ← (e.src.zip src).mapM (broadcast_source vddd dst_name src_name e.size)
  pure ⟨dst, e.dst_stride, modified_src, e.size⟩

namespace strided_or_var_to_var_expr_kernel_extra
variable (e : strided_or_var_to_var_expr_kernel_extra)

def allocate (dim_size : ℕ) : ℤ :=
  match e.dst_memblock with
  | .objectarray allocate => allocate dim_size
  | .pod allocate => allocate (dim_size * e.dst_stride) e.dst_target_alignment

/-- With it goes what is stored in the destination. -/
def single (dst : ℤ) (src : List ℤ) : Except error (Option var_dim_type_data × child_call) :=
  if (vddd dst).begin ≠ 0 then do
    let modified_src ← (e.src.zip src).mapM (broadcast_source vddd "var dim" "var dim" (vddd dst).size)
    -- the stride is only set below
    pure (none, ⟨(vddd dst).begin + e.dst_offset, 0, modified_src, (vddd dst).size⟩)
  else if e.dst_offset ≠ 0 then
    .error (.runtime_error "Cannot assign to an uninitialized dynd var_dim which has a non-zero offset")
  else do
    let (dim_size, modified_src) ← broadcast_sources vddd 1 (e.src.zip src)
    let begin := e.allocate dim_size
    pure (some ⟨begin, dim_size⟩, ⟨begin, if dim_size ≤ 1 then 0 else e.dst_stride, modified_src, dim_size⟩)

end strided_or_var_to_var_expr_kernel_extra
end

/-! ## The factories -/

/-- One source, where all are strided. -/
def take_strided (unexpected : tp D → fault D E) (dst_tp : tp D) (size : ℕ) (src_tp : tp D) : Except (fault D E) (ℤ × tp D) :=
  -- This src value is getting broadcasted
  if src_tp.get_ndim < dst_tp.get_ndim then .ok (0, src_tp)
  else
    match src_tp with
    | .fixed_dim src_size stride el =>
      if src_size ≠ 1 ∧ size ≠ src_size then .error (.broadcast_error dst_tp src_tp) else .ok (stride, el)
    | _ => .error (unexpected src_tp)

/-- One source that is strided or var. -/
def take_source (dst_tp : tp D) (fits : ℕ → Bool) (src_tp : tp D) : Except (fault D E) (src_field × tp D) :=
  -- This src value is getting broadcasted
  if src_tp.get_ndim < dst_tp.get_ndim then .ok (⟨0, 0, false⟩, src_tp)
  else
    match src_tp with
    | .fixed_dim src_size stride el => if fits src_size then .ok (⟨stride, 0, false⟩, el) else .error (.broadcast_error dst_tp src_tp)
    | .var_dim _ md el => .ok (⟨md.stride, md.offset, true⟩, el)
    | _ => .error .undefined_behavior

def strided_fits (size src_size : ℕ) : Bool := src_size = 1 || size = src_size

/-- The strided dimension size must be 1, otherwise the destination should be strided, not var. -/
def var_fits (src_size : ℕ) : Bool := src_size = 1

def src_all_strided (srcs : List (tp D)) : Bool := srcs.all fun
  | .var_dim .. => false
  | _ => true

/-- A scalar may broadcast like a strided dimension. -/
def src_all_strided_or_var (srcs : List (tp D)) : Bool := srcs.all fun
  | .fixed_dim .. => true
  | .var_dim .. => true
  | s => s.get_ndim = 0

section
variable (mem : memory M) (elwise_handler : expr_kernel_generator D M E)

def make_elwise_strided_dimension_expr_kernel (dim_size : ℕ) (stride : ℤ) (el : tp D) (src_tp : List (tp D)) :
    Except (fault D E) (expr_single_t D M E) :=
  if src_tp.length = 0 ∨ 6 < src_tp.length then
    .error (.runtime_error "make_elwise_strided_dimension_expr_kernel with src_count > 6 not implemented yet")
  else do
    let taken ← src_tp.mapM (take_strided
      (fun _ => .type_error "make_elwise_strided_dimension_expr_kernel: src was not strided as expected")
      (.fixed_dim dim_size stride el) dim_size)
    let child ← elwise_handler el (taken.map (·.2))
    return fun dst src => opchild child ((⟨dim_size, stride, taken.map (·.1)⟩ : strided_expr_kernel_extra).single dst src)

def strided_or_var_to_strided_run (dst_name src_name : String) (child : expr_single_t D M E)
    (e : strided_or_var_to_strided_expr_kernel_extra) : expr_single_t D M E :=
  fun dst src m => of_error (e.single (mem.vddd m) dst_name src_name dst src) >>= fun call => opchild child call m

def make_elwise_strided_or_var_to_strided_dimension_expr_kernel (dim_size : ℕ) (stride : ℤ) (el : tp D) (src_tp : List (tp D)) :
    Except (fault D E) (expr_single_t D M E) :=
  if src_tp.length = 0 ∨ 6 < src_tp.length then
    .error (.runtime_error
      "make_elwise_strided_or_var_to_strided_dimension_expr_kernel with src_count > 6 not implemented yet")
  else do
    let taken ← src_tp.mapM (take_source (.fixed_dim dim_size stride el) (strided_fits dim_size))
    let child ← elwise_handler el (taken.map (·.2))
    return strided_or_var_to_strided_run mem "strided dim" "var dim" child ⟨dim_size, stride, taken.map (·.1)⟩

/-- What a kernel stores in the destination, and then its child. -/
def store_and_run (child : expr_single_t D M E) (dst : ℤ) (r : Option var_dim_type_data × child_call) (m : M) :
    Except (fault D E) M :=
  opchild child r.2 (r.1.elim m fun d => mem.store dst d m)

def make_elwise_strided_or_var_to_var_dimension_expr_kernel (target_alignment : ℕ) (dst_md : var_dim_type_arrmeta) (el : tp D)
    (src_tp : List (tp D)) : Except (fault D E) (expr_single_t D M E) :=
  if src_tp.length = 0 ∨ 6 < src_tp.length then
    .error (.runtime_error
      "make_elwise_strided_or_var_to_var_dimension_expr_kernel with src_count > 6 not implemented yet")
  else do
    let taken ← src_tp.mapM (take_source (.var_dim target_alignment dst_md el) var_fits)
    let child ← elwise_handler el (taken.map (·.2))
    let e : strided_or_var_to_var_expr_kernel_extra :=
      ⟨dst_md.blockref, target_alignment, dst_md.stride, dst_md.offset, taken.map (·.1)⟩
    return fun dst src m => of_error (e.single (mem.vddd m) dst src) >>= fun r => store_and_run mem child dst r m

/-- The kernel of one dimension. -/
def make_elwise_dimension_expr_kernel (dst_tp : tp D) (src_tp : List (tp D)) : Except (fault D E) (expr_single_t D M E) :=
  match dst_tp with
  | .fixed_dim dim_size stride el =>
    if src_all_strided src_tp then make_elwise_strided_dimension_expr_kernel elwise_handler dim_size stride el src_tp
    else if src_all_strided_or_var src_tp then
      make_elwise_strided_or_var_to_strided_dimension_expr_kernel mem elwise_handler dim_size stride el src_tp
    else .error (.cannot_evaluate src_tp dst_tp)
  | .var_dim target_alignment dst_md el =>
    if src_all_strided_or_var src_tp then
      make_elwise_strided_or_var_to_var_dimension_expr_kernel mem elwise_handler target_alignment dst_md el src_tp
    else .error (.cannot_evaluate src_tp dst_tp)
  | _ => .error (.cannot_evaluate src_tp dst_tp)

/-! ## The newer kernels -/

/-- The fields of `elwise_ck` for one source, with its pointer. -/
def operand_of (undim : ℕ) (src_tp : tp D) (src : ℤ) : operand :=
  if src_tp.get_ndim < undim then ⟨0, 0, 1, false, src⟩
  else
    match src_tp with
    | .fixed_dim src_size stride _ => ⟨stride, 0, src_size, false, src⟩
    | .var_dim _ md _ => ⟨md.stride, md.offset, 0, true, src⟩
    | _ => ⟨0, 0, 1, false, src⟩

/-- The source of the child. -/
def child_of (undim : ℕ) (src_tp : tp D) : tp D :=
  if src_tp.get_ndim < undim then src_tp
  else
    match src_tp with
    | .fixed_dim _ _ el => el
    | .var_dim _ _ el => el
    | _ => src_tp

def operands (undim : ℕ) (src_tp : List (tp D)) (src : List ℤ) : List operand := List.zipWith (operand_of undim) src_tp src

/-- The kernel of one dimension that `elwise_virtual_ck` instantiates. -/
def elwise_instantiate (dst_tp : tp D) (src_tp : List (tp D)) : Except (fault D E) (expr_single_t D M E) :=
  match dst_tp with
  | .fixed_dim dim_size stride el =>
    if src_all_strided src_tp then do
      let taken ← src_tp.mapM (take_strided .expected_strided dst_tp dim_size)
      let child ← elwise_handler el (taken.map (·.2))
      return fun dst src => opchild child ((⟨dim_size, stride, taken.map (·.1)⟩ : strided_expr_kernel_extra).single dst src)
    else if src_all_strided_or_var src_tp then do
      let taken ← src_tp.mapM (take_source dst_tp (strided_fits dim_size))
      let child ← elwise_handler el (taken.map (·.2))
      return strided_or_var_to_strided_run mem "strided" "var" child ⟨dim_size, stride, taken.map (·.1)⟩
    else .error (.cannot_evaluate src_tp dst_tp)
  | .var_dim target_alignment dst_md el =>
    if src_all_strided_or_var src_tp then do
      let undim := dst_tp.get_ndim
      let child ← elwise_handler el (src_tp.map (child_of undim))
      let ck : elwise_ck := ⟨dst_md.blockref, target_alignment, dst_md.stride, dst_md.offset⟩
      return fun dst src m => do
        let (data, call) ← of_error (ck.single (mem.vddd m) (mem.vddd m dst) (operands undim src_tp src))
        opchild child call (if (mem.vddd m dst).begin ≠ 0 then m else mem.store dst data m)
    else .error (.cannot_evaluate src_tp dst_tp)
  | _ => .error (.cannot_evaluate src_tp dst_tp)

end

/-! ## What the kernels are for -/

section
variable (vddd : ℤ → var_dim_type_data)

/-- The element of a source for element `j` of the destination: a single one is repeated. -/
def broadcast_element (op : operand) (j : ℕ) : ℤ := op.element vddd (if op.size vddd = 1 then 0 else j)

/-- The child at every element, with the elements of the sources. -/
def run_elements (child : expr_single_t D M E) (place : ℕ → ℤ) (ops : List operand) (size : ℕ) : M → Except (fault D E) M :=
  events (fun j => child (place j) (ops.map fun op => broadcast_element vddd op j)) (List.range size)

end

/-- What a call may leave: every element of the destination is written by the child, an
allocated destination keeps its size, and another gets the size of the sources. -/
def Elementwise (mem : memory M) (child : expr_single_t D M E) (dst_tp : tp D) (src_tp : List (tp D)) (dst : ℤ) (src : List ℤ)
    (m m' : M) : Prop :=
  let vddd := mem.vddd m
  let ops := operands dst_tp.get_ndim src_tp src
  match dst_tp with
  | .fixed_dim dim_size stride _ =>
    BroadcastsTo (sizes vddd ops) dim_size ∧
      run_elements vddd child (fun j => dst + j * stride) ops dim_size m = .ok m'
  | .var_dim target_alignment md _ =>
    if (vddd dst).begin ≠ 0 then
      BroadcastsTo (sizes vddd ops) (vddd dst).size ∧
        run_elements vddd child (fun j => (vddd dst).begin + md.offset + j * md.stride) ops (vddd dst).size m = .ok m'
    else
      md.offset = 0 ∧ ∃ size, IsBroadcast (sizes vddd ops) size ∧
        let begin := elwise_ck.allocate ⟨md.blockref, target_alignment, md.stride, md.offset⟩ size
        run_elements vddd child (fun j => begin + j * md.stride) ops size (mem.store dst ⟨begin, size⟩ m) = .ok m'
  | _ => False

/-- A dimension of size one repeats its element. -/
def Repeats : tp D → Prop
  | .fixed_dim dim_size stride _ => dim_size = 1 → stride = 0
  | _ => True

/-- A call throws or does what it is for, and it leaves what the newer kernel leaves. -/
def Meets (E : Type) (mem : memory M) (dst_tp : tp D) (src_tp : List (tp D)) (dst : ℤ) (src : List ℤ) (m : M) : Prop :=
  ∀ (elwise_handler : expr_kernel_generator D M E) k m', make_elwise_dimension_expr_kernel mem elwise_handler dst_tp src_tp = .ok k →
    k dst src m = .ok m' →
    (∃ child, elwise_handler (child_of dst_tp.get_ndim dst_tp) (src_tp.map (child_of dst_tp.get_ndim)) = .ok child ∧
      Elementwise mem child dst_tp src_tp dst src m m') ∧
    ∀ k' m'', elwise_instantiate mem elwise_handler dst_tp src_tp = .ok k' → k' dst src m = .ok m'' → m'' = m'

/-- A source that a kernel into a var dimension takes. -/
def Taken (undim : ℕ) (src_tp : tp D) : Prop :=
  match src_tp with
  | .fixed_dim dim_size _ _ => src_tp.get_ndim < undim ∨ dim_size = 1
  | .var_dim .. => True
  | _ => src_tp.get_ndim = 0

/-- A var destination that has more than one element, for sources that broadcast to it. -/
def Misplaced (mem : memory M) (dst_tp : tp D) (src_tp : List (tp D)) (dst : ℤ) (src : List ℤ) (m : M) : Prop :=
  let vddd := mem.vddd m
  match dst_tp with
  | .var_dim _ md _ => (vddd dst).begin ≠ 0 ∧ 1 < (vddd dst).size ∧ md.stride ≠ 0 ∧
      (0 < src_tp.length ∧ src_tp.length ≤ 6 ∧ ∀ s ∈ src_tp, Taken dst_tp.get_ndim s) ∧
      BroadcastsTo (sizes vddd (operands dst_tp.get_ndim src_tp src)) (vddd dst).size
  | _ => False

/-! ## One source -/

theorem modified_element (vddd : ℤ → var_dim_type_data) (op : operand) (j : ℕ) :
    (op.modified vddd).1 + j * (op.modified vddd).2 = broadcast_element vddd op j := by
  unfold operand.modified broadcast_element operand.element
  split_ifs
  · simp
  · rfl

/-- The fields of a kernel, and those of the newer one. -/
structure Same (f : src_field × ℤ) (op : operand) : Prop where
  stride : f.1.src_stride = op.m_src_stride
  offset : f.1.src_offset = op.m_src_offset
  is_var : f.1.is_src_var = op.m_is_src_var
  src : f.2 = op.src
  repeats : op.m_is_src_var = false → op.m_src_size = 1 → op.m_src_stride = 0

section
variable {vddd : ℤ → var_dim_type_data} {f : src_field × ℤ} {op : operand}

/-- A source whose size is one or known to fit. -/
theorem Same.modified (h : Same f op) (hvar : op.m_is_src_var = false) : op.modified vddd = (f.2, f.1.src_stride) := by
  unfold operand.modified operand.data operand.size
  rw [hvar, h.src, h.stride]
  simp only [Bool.false_eq_true, if_false]
  split_ifs with h1
  · rw [h.repeats hvar h1]
  · rfl

theorem Same.modified_var (h : Same f op) (hvar : op.m_is_src_var = true) :
    op.modified vddd = ((vddd f.2).begin + f.1.src_offset, if (vddd f.2).size = 1 then 0 else f.1.src_stride) := by
  unfold operand.modified operand.data operand.size
  rw [hvar, h.src, h.stride, h.offset]
  rfl

theorem Same.size_var (h : Same f op) (hvar : op.m_is_src_var = true) : op.size vddd = (vddd f.2).size := by
  unfold operand.size
  rw [hvar, h.src]
  rfl

theorem size_fixed (hvar : op.m_is_src_var = false) : op.size vddd = op.m_src_size := by
  unfold operand.size
  rw [hvar]
  rfl

theorem broadcast_source_iff (h : Same f op) {dst_name src_name : String} {dim_size : ℕ}
    (hfits : op.m_is_src_var = false → op.m_src_size = 1 ∨ op.m_src_size = dim_size) {src : ℤ × ℤ} :
    broadcast_source vddd dst_name src_name dim_size f = .ok src ↔
      (op.size vddd = 1 ∨ op.size vddd = dim_size) ∧ src = op.modified vddd := by
  unfold broadcast_source
  cases hvar : op.m_is_src_var with
  | true =>
    rw [h.is_var, hvar, h.size_var hvar, h.modified_var hvar, if_pos rfl]
    by_cases h1 : (vddd f.2).size = 1
    · rw [if_pos h1, if_pos h1, and_iff_right (Or.inl h1), Except.ok.injEq]
      exact eq_comm
    · rw [if_neg h1, if_neg h1]
      by_cases h2 : (vddd f.2).size = dim_size
      · rw [if_pos h2, and_iff_right (Or.inr h2), Except.ok.injEq]
        exact eq_comm
      · rw [if_neg h2]
        exact iff_of_false nofun fun h => h.1.elim h1 h2
  | false =>
    rw [h.is_var, hvar, size_fixed hvar, h.modified hvar, if_neg Bool.false_ne_true, and_iff_right (hfits hvar), Except.ok.injEq]
    exact eq_comm

theorem broadcast_with_iff (h : Same f op) {dim_size : ℕ} (hone : op.m_is_src_var = false → op.m_src_size = 1) {r : ℕ × ℤ × ℤ} :
    broadcast_with vddd dim_size f = .ok r ↔ broadcast_step vddd dim_size op = .ok r := by
  rw [broadcast_step_eq]
  unfold broadcast_with
  cases hvar : op.m_is_src_var with
  | true =>
    rw [h.is_var, hvar, h.size_var hvar, h.modified_var hvar, if_pos rfl]
    by_cases h1 : (vddd f.2).size = 1
    · rw [if_pos h1, if_pos h1, if_pos (Or.inl h1)]
    · rw [if_neg h1, if_neg h1]
      by_cases h2 : (vddd f.2).size = dim_size
      · have hone : dim_size ≠ 1 := fun hone => h1 (h2.trans hone)
        rw [if_neg hone, if_pos h2, if_pos (Or.inr h2)]
      · rw [if_neg (not_or.mpr ⟨h1, h2⟩), if_neg h2]
        split_ifs
        · rfl
        · exact iff_of_false nofun nofun
  | false =>
    rw [h.is_var, hvar, size_fixed hvar, h.modified hvar, if_neg Bool.false_ne_true, if_pos (Or.inl (hone hvar))]

end

/-! ## All the sources -/

section
variable {vddd : ℤ → var_dim_type_data} {dim_size : ℕ} {fs : List (src_field × ℤ)} {ops : List operand}

/-- A source that fits, as far as its type says. -/
def Fitted (dim_size : ℕ) (f : src_field × ℤ) (op : operand) : Prop :=
  Same f op ∧ (op.m_is_src_var = false → op.m_src_size = 1 ∨ op.m_src_size = dim_size)

theorem broadcast_each_iff (h : List.Forall₂ (Fitted dim_size) fs ops) {dst_name src_name : String} {srcs : List (ℤ × ℤ)} :
    fs.mapM (broadcast_source vddd dst_name src_name dim_size) = .ok srcs ↔
      BroadcastsTo (sizes vddd ops) dim_size ∧ srcs = ops.map (operand.modified vddd) := by
  rw [← broadcast_to_dst_iff]
  induction h generalizing srcs with
  | nil => rw [List.mapM_nil, List.mapM_nil]
  | @cons f op fs ops hf _ ih =>
    have hop (src : ℤ × ℤ) : broadcast_source vddd dst_name src_name dim_size f = .ok src ↔
        broadcast_to_dst vddd dim_size op = .ok src := by
      rw [broadcast_source_iff hf.1 hf.2, broadcast_to_dst_eq]
      split_ifs with hsize
      · rw [and_iff_right hsize, Except.ok.injEq]
        exact eq_comm
      · exact iff_of_false (fun h => hsize h.1) nofun
    rw [List.mapM_cons, List.mapM_cons]
    simp only [bind_eq_ok, hop, ih]

theorem broadcast_sources_iff (h : List.Forall₂ (Fitted 1) fs ops) {r : ℕ × List (ℤ × ℤ)} :
    broadcast_sources vddd dim_size fs = .ok r ↔ broadcast_all vddd dim_size ops = .ok r := by
  induction h generalizing dim_size r with
  | nil => exact Iff.rfl
  | @cons f op fs ops hf _ ih =>
    have hop (r : ℕ × ℤ × ℤ) : broadcast_with vddd dim_size f = .ok r ↔ broadcast_step vddd dim_size op = .ok r :=
      broadcast_with_iff hf.1 fun hvar => (hf.2 hvar).elim id id
    unfold broadcast_sources broadcast_all
    simp only [bind_eq_ok, hop, ih]

end

section
variable {dst_tp : tp D} {src_tp : List (tp D)} {src : List ℤ}

/-- What is taken of one source. -/
structure TakenAs (dst_tp : tp D) (fits : ℕ → Prop) (s : tp D) (f : src_field) (child : tp D) : Prop where
  child : child = child_of dst_tp.get_ndim s
  same (p : ℤ) : Same (f, p) (operand_of dst_tp.get_ndim s p)
  fits (p : ℤ) : (operand_of dst_tp.get_ndim s p).m_is_src_var = false →
    (operand_of dst_tp.get_ndim s p).m_src_size = 1 ∨ fits (operand_of dst_tp.get_ndim s p).m_src_size

theorem takenAs_lower {s : tp D} (h : s.get_ndim < dst_tp.get_ndim) (fits : ℕ → Prop) :
    TakenAs dst_tp fits s ⟨0, 0, false⟩ s := by
  have hop (p : ℤ) : operand_of dst_tp.get_ndim s p = ⟨0, 0, 1, false, p⟩ := if_pos h
  have hchild : child_of dst_tp.get_ndim s = s := if_pos h
  refine ⟨hchild.symm, fun p => ?_, fun p => ?_⟩
  · rw [hop]
    exact ⟨rfl, rfl, rfl, rfl, fun _ _ => rfl⟩
  · rw [hop]
    exact fun _ => Or.inl rfl

theorem takenAs_fixed {dim_size : ℕ} {stride : ℤ} {el : tp D} (h : ¬ (tp.fixed_dim dim_size stride el).get_ndim < dst_tp.get_ndim)
    (hs : Repeats (.fixed_dim dim_size stride el)) {fits : ℕ → Prop} (hfits : dim_size = 1 ∨ fits dim_size) :
    TakenAs dst_tp fits (.fixed_dim dim_size stride el) ⟨stride, 0, false⟩ el := by
  have hop (p : ℤ) : operand_of dst_tp.get_ndim (.fixed_dim dim_size stride el) p = ⟨stride, 0, dim_size, false, p⟩ := if_neg h
  have hchild : child_of dst_tp.get_ndim (.fixed_dim dim_size stride el) = el := if_neg h
  refine ⟨hchild.symm, fun p => ?_, fun p => ?_⟩
  · rw [hop]
    exact ⟨rfl, rfl, rfl, rfl, fun _ => hs⟩
  · rw [hop]
    exact fun _ => hfits

theorem takenAs_var {al : ℕ} {md : var_dim_type_arrmeta} {el : tp D} (h : ¬ (tp.var_dim al md el).get_ndim < dst_tp.get_ndim)
    (fits : ℕ → Prop) : TakenAs dst_tp fits (.var_dim al md el) ⟨md.stride, md.offset, true⟩ el := by
  have hop (p : ℤ) : operand_of dst_tp.get_ndim (.var_dim al md el) p = ⟨md.stride, md.offset, 0, true, p⟩ := if_neg h
  have hchild : child_of dst_tp.get_ndim (.var_dim al md el) = el := if_neg h
  refine ⟨hchild.symm, fun p => ?_, fun p => ?_⟩
  · rw [hop]
    exact ⟨rfl, rfl, rfl, rfl, nofun⟩
  · rw [hop]
    exact nofun

theorem take_strided_ok {unexpected : tp D → fault D E} {size : ℕ} {s : tp D} {r : ℤ × tp D} (hs : Repeats s)
    (h : take_strided unexpected dst_tp size s = .ok r) :
    TakenAs dst_tp (· = size) s ⟨r.1, 0, false⟩ r.2 := by
  unfold take_strided at h
  split_ifs at h with hlower
  · cases h
    exact takenAs_lower hlower _
  · cases s with
    | fixed_dim src_size stride el =>
      dsimp only at h
      split_ifs at h with hsize
      cases h
      refine takenAs_fixed hlower hs ?_
      by_contra hne
      exact hsize ⟨fun h1 => hne (Or.inl h1), fun h2 => hne (Or.inr h2.symm)⟩
    | _ => cases h

theorem take_source_ok {fits : ℕ → Bool} {s : tp D} {r : src_field × tp D} (hs : Repeats s)
    (h : (take_source dst_tp fits s : Except (fault D E) _) = .ok r) : TakenAs dst_tp (fun n => fits n = true) s r.1 r.2 := by
  unfold take_source at h
  split_ifs at h with hlower
  · cases h
    exact takenAs_lower hlower _
  · cases s with
    | fixed_dim src_size stride el =>
      dsimp only at h
      split_ifs at h with hsize
      cases h
      exact takenAs_fixed hlower hs (Or.inr hsize)
    | var_dim al md el =>
      cases h
      exact takenAs_var hlower _
    | _ => cases h

section
variable {β : Type} {fits : ℕ → Prop} {field : β × tp D → src_field} {taken : List (β × tp D)}

theorem takenAs_children (h : List.Forall₂ (fun s r => TakenAs dst_tp fits s (field r) r.2) src_tp taken) :
    taken.map (·.2) = src_tp.map (child_of dst_tp.get_ndim) :=
  map_of_forall₂ h fun _ _ hr => hr.child

theorem takenAs_fields (h : List.Forall₂ (fun s r => TakenAs dst_tp fits s (field r) r.2) src_tp taken)
    (hlen : src.length = src_tp.length) :
    List.Forall₂ (fun f op => Same f op ∧ (op.m_is_src_var = false → op.m_src_size = 1 ∨ fits op.m_src_size))
      ((taken.map field).zip src) (operands dst_tp.get_ndim src_tp src) := by
  induction h generalizing src with
  | nil => exact .nil
  | cons hr _ ih =>
    cases src with
    | nil => cases hlen
    | cons p src => exact .cons ⟨hr.same p, hr.fits p⟩ (ih (Nat.succ.inj hlen))

end
end

/-! ## One call -/

section
variable {vddd : ℤ → var_dim_type_data} {child : expr_single_t D M E} {ops : List operand}

theorem run_elements_congr {place place' : ℕ → ℤ} {size : ℕ} (h : ∀ j < size, place j = place' j) :
    run_elements vddd child place ops size = run_elements vddd child place' ops size := by
  apply events_congr
  intro j hj
  rw [h j (List.mem_range.mp hj)]

theorem opchild_modified (dst dst_stride : ℤ) (size : ℕ) (m : M) :
    opchild child ⟨dst, dst_stride, ops.map (operand.modified vddd), size⟩ m =
      run_elements vddd child (fun j => dst + j * dst_stride) ops size m := by
  unfold opchild run_elements
  congr 1
  funext j
  dsimp only
  rw [List.map_map]
  congr 1
  exact List.map_congr_left fun op _ => modified_element vddd op j

theorem run_elements_single (dst dst_stride : ℤ) (size : ℕ) :
    run_elements vddd child (fun j => dst + j * if size ≤ 1 then 0 else dst_stride) ops size =
      run_elements vddd child (fun j => dst + j * dst_stride) ops size := by
  apply run_elements_congr
  intro j hj
  split_ifs with h1
  · obtain rfl : j = 0 := by omega
    simp
  · rfl

theorem of_error_ok {α : Type} {x : Except error α} {a : α} : (of_error x : Except (fault D E) α) = .ok a ↔ x = .ok a := by
  cases x with
  | ok b => exact ⟨fun h => congrArg Except.ok (Except.ok.inj h), fun h => congrArg Except.ok (Except.ok.inj h)⟩
  | error e => exact iff_of_false nofun nofun

end

section
variable {mem : memory M} {child : expr_single_t D M E} {ops : List operand} {src : List ℤ} {fields : List src_field}

/-- A kernel into a strided dimension. -/
theorem to_strided_run_iff {dim_size : ℕ} (h : List.Forall₂ (Fitted dim_size) (fields.zip src) ops) {dst_name src_name : String}
    {dst stride : ℤ} {m m' : M} :
    strided_or_var_to_strided_run mem dst_name src_name child ⟨dim_size, stride, fields⟩ dst src m = .ok m' ↔
      BroadcastsTo (sizes (mem.vddd m) ops) dim_size ∧
        run_elements (mem.vddd m) child (fun j => dst + j * stride) ops dim_size m = .ok m' := by
  unfold strided_or_var_to_strided_run strided_or_var_to_strided_expr_kernel_extra.single
  simp only [bind_eq_ok, of_error_ok, broadcast_each_iff h, pure_eq_ok, Except.ok.injEq]
  constructor
  · rintro ⟨call, ⟨srcs, ⟨hsizes, rfl⟩, rfl⟩, hrun⟩
    rw [opchild_modified] at hrun
    exact ⟨hsizes, hrun⟩
  · rintro ⟨hsizes, hrun⟩
    rw [← opchild_modified] at hrun
    exact ⟨_, ⟨_, ⟨hsizes, rfl⟩, rfl⟩, hrun⟩

/-- Where all sources are strided, the kernel for strided sources does what the one for both does. -/
theorem strided_run {α : Type} (mem : memory M) (taken : List (ℤ × α)) (dst_name src_name : String) (dim_size : ℕ) (stride dst : ℤ) (m : M) :
    opchild child ((⟨dim_size, stride, taken.map (·.1)⟩ : strided_expr_kernel_extra).single dst src) m =
      strided_or_var_to_strided_run mem dst_name src_name child
        ⟨dim_size, stride, taken.map fun r => ⟨r.1, 0, false⟩⟩ dst src m := by
  have hsrcs : (((taken.map fun r => (⟨r.1, 0, false⟩ : src_field)).zip src).mapM
      (broadcast_source (mem.vddd m) dst_name src_name dim_size)) = .ok (src.zip (taken.map (·.1))) := by
    induction taken generalizing src with
    | nil =>
      rw [List.map_nil, List.map_nil, List.zip_nil_right]
      rfl
    | cons r taken ih =>
      cases src with
      | nil => rfl
      | cons p src =>
        rw [List.map_cons, List.zip_cons_cons, List.mapM_cons, ih]
        rfl
  unfold strided_or_var_to_strided_run strided_or_var_to_strided_expr_kernel_extra.single
  rw [hsrcs]
  rfl

/-- What a kernel into a var dimension leaves, when the elements of an allocated one are `stride` apart. -/
def ToVar (mem : memory M) (child : expr_single_t D M E) (md : var_dim_type_arrmeta) (allocate : ℕ → ℤ) (stride : ℤ)
    (ops : List operand) (dst : ℤ) (m m' : M) : Prop :=
  let vddd := mem.vddd m
  if (vddd dst).begin ≠ 0 then
    BroadcastsTo (sizes vddd ops) (vddd dst).size ∧
      run_elements vddd child (fun j => (vddd dst).begin + md.offset + j * stride) ops (vddd dst).size m = .ok m'
  else
    md.offset = 0 ∧ ∃ size, IsBroadcast (sizes vddd ops) size ∧
      run_elements vddd child (fun j => allocate size + j * md.stride) ops size (mem.store dst ⟨allocate size, size⟩ m) = .ok m'

/-- The kernel leaves the elements of an allocated destination no distance apart. -/
theorem to_var_run_iff (h : List.Forall₂ (Fitted 1) (fields.zip src) ops) {al : ℕ} {md : var_dim_type_arrmeta} {dst : ℤ} {m m' : M} :
    (of_error ((⟨md.blockref, al, md.stride, md.offset, fields⟩ : strided_or_var_to_var_expr_kernel_extra).single
        (mem.vddd m) dst src) >>= fun r => store_and_run mem child dst r m) = .ok m' ↔
      ToVar mem child md (elwise_ck.allocate ⟨md.blockref, al, md.stride, md.offset⟩) 0 ops dst m m' := by
  have hfits : List.Forall₂ (Fitted (mem.vddd m dst).size) (fields.zip src) ops :=
    h.imp fun f op hf => ⟨hf.1, fun hvar => Or.inl ((hf.2 hvar).elim id id)⟩
  unfold strided_or_var_to_var_expr_kernel_extra.single ToVar
  dsimp only
  split_ifs with hbegin hoffset
  · simp only [bind_eq_ok, of_error_ok, broadcast_each_iff hfits, pure_eq_ok, Except.ok.injEq]
    constructor
    · rintro ⟨r, ⟨srcs, ⟨hsizes, rfl⟩, rfl⟩, hrun⟩
      rw [store_and_run, opchild_modified] at hrun
      exact ⟨hsizes, hrun⟩
    · rintro ⟨hsizes, hrun⟩
      rw [← opchild_modified] at hrun
      exact ⟨_, ⟨_, ⟨hsizes, rfl⟩, rfl⟩, hrun⟩
  · exact iff_of_false nofun fun h => hoffset h.1
  · have hoffset := not_not.mp hoffset
    simp only [bind_eq_ok, of_error_ok, broadcast_sources_iff h, pure_eq_ok, Except.ok.injEq]
    constructor
    · rintro ⟨r, ⟨⟨size, srcs⟩, hsrcs, rfl⟩, hrun⟩
      obtain ⟨hsize, rfl⟩ := (broadcast_all_iff (mem.vddd m)).mp hsrcs
      rw [store_and_run, opchild_modified, run_elements_single] at hrun
      exact ⟨hoffset, size, (isBroadcast_one_cons _ _).mp hsize, hrun⟩
    · rintro ⟨-, size, hsize, hrun⟩
      rw [← run_elements_single, ← opchild_modified] at hrun
      exact ⟨_, ⟨_, (broadcast_all_iff (mem.vddd m)).mpr ⟨(isBroadcast_one_cons _ _).mpr hsize, rfl⟩, rfl⟩, hrun⟩

/-- The newer kernel. -/
theorem elwise_run_iff {al : ℕ} {md : var_dim_type_arrmeta} {dst : ℤ} {m m' : M} :
    (do
      let (data, call) ← (of_error ((⟨md.blockref, al, md.stride, md.offset⟩ : elwise_ck).single
        (mem.vddd m) (mem.vddd m dst) ops) : Except (fault D E) _)
      opchild child call (if (mem.vddd m dst).begin ≠ 0 then m else mem.store dst data m)) = .ok m' ↔
      ToVar mem child md (elwise_ck.allocate ⟨md.blockref, al, md.stride, md.offset⟩) md.stride ops dst m m' := by
  unfold elwise_ck.single ToVar elwise_ck.opchild
  dsimp only
  by_cases hbegin : (mem.vddd m dst).begin ≠ 0
  · simp only [if_pos hbegin, bind_eq_ok, of_error_ok, broadcast_to_dst_iff, pure_eq_ok, Except.ok.injEq]
    constructor
    · rintro ⟨r, ⟨srcs, ⟨hsizes, rfl⟩, rfl⟩, hrun⟩
      rw [opchild_modified, run_elements_single] at hrun
      exact ⟨hsizes, hrun⟩
    · rintro ⟨hsizes, hrun⟩
      rw [← run_elements_single, ← opchild_modified] at hrun
      exact ⟨_, ⟨_, ⟨hsizes, rfl⟩, rfl⟩, hrun⟩
  by_cases hoffset : md.offset ≠ 0
  · simp only [if_neg hbegin, if_pos hoffset]
    exact iff_of_false nofun fun h => hoffset h.1
  · simp only [if_neg hbegin, if_neg hoffset, bind_eq_ok, of_error_ok, pure_eq_ok, Except.ok.injEq]
    have hoffset := not_not.mp hoffset
    constructor
    · rintro ⟨r, ⟨⟨size, srcs⟩, hsrcs, rfl⟩, hrun⟩
      obtain ⟨hsize, rfl⟩ := (broadcast_all_iff (mem.vddd m)).mp hsrcs
      rw [opchild_modified, run_elements_single] at hrun
      exact ⟨hoffset, size, (isBroadcast_one_cons _ _).mp hsize, hrun⟩
    · rintro ⟨-, size, hsize, hrun⟩
      rw [← run_elements_single, ← opchild_modified] at hrun
      exact ⟨_, ⟨_, (broadcast_all_iff (mem.vddd m)).mpr ⟨(isBroadcast_one_cons _ _).mpr hsize, rfl⟩, rfl⟩, hrun⟩

end

/-! ## What is made -/

section
variable {mem : memory M} {elwise_handler : expr_kernel_generator D M E} {src_tp : List (tp D)}

/-- A kernel whose calls leave what `R` says, for the child that the handler makes. -/
def Makes (elwise_handler : expr_kernel_generator D M E) (el : tp D) (undim : ℕ) (src_tp : List (tp D))
    (R : expr_single_t D M E → ℤ → List ℤ → M → M → Prop) (k : expr_single_t D M E) : Prop :=
  ∃ child, elwise_handler el (src_tp.map (child_of undim)) = .ok child ∧
    ∀ dst src, src.length = src_tp.length → ∀ m m', k dst src m = .ok m' ↔ R child dst src m m'

theorem TakenAs.mono {dst_tp s child : tp D} {fits fits' : ℕ → Prop} {f : src_field} (h : TakenAs dst_tp fits s f child)
    (hfits : ∀ n, fits n → n = 1 ∨ fits' n) : TakenAs dst_tp fits' s f child :=
  ⟨h.child, h.same, fun p hvar => (h.fits p hvar).elim Or.inl (hfits _)⟩

variable {dim_size : ℕ} {stride : ℤ} {el : tp D} {k : expr_single_t D M E}

theorem strided_fits_iff (size src_size : ℕ) : strided_fits size src_size = true ↔ src_size = 1 ∨ src_size = size := by
  unfold strided_fits
  rw [Bool.or_eq_true, decide_eq_true_iff, decide_eq_true_iff, eq_comm (a := size)]

/-- Into a strided dimension, where the sources are strided or var. -/
theorem mixed_makes {dst_name src_name : String} {taken : List (src_field × tp D)} (hsrc : ∀ s ∈ src_tp, Repeats s)
    (htaken : (src_tp.mapM (take_source (.fixed_dim dim_size stride el) (strided_fits dim_size)) : Except (fault D E) _) = .ok taken)
    (h : (do
      let child ← elwise_handler el (taken.map (·.2))
      return strided_or_var_to_strided_run mem dst_name src_name child ⟨dim_size, stride, taken.map (·.1)⟩ :
        Except (fault D E) (expr_single_t D M E)) = .ok k) :
    Makes elwise_handler el (tp.fixed_dim dim_size stride el).get_ndim src_tp
      (fun child => Elementwise mem child (.fixed_dim dim_size stride el) src_tp) k := by
  obtain ⟨child, hchild, h⟩ := bind_eq_ok.mp h
  cases h
  have hall := forall₂_of_mapM (R := fun s r => TakenAs (.fixed_dim dim_size stride el) (· = dim_size) s r.1 r.2) htaken
    fun s hs r hr => (take_source_ok (hsrc s hs) hr).mono fun n hn => (strided_fits_iff dim_size n).mp hn
  rw [takenAs_children hall] at hchild
  exact ⟨child, hchild, fun dst src hlen m m' => to_strided_run_iff (takenAs_fields hall hlen)⟩

/-- Into a strided dimension, where the sources are strided. -/
theorem strided_makes (mem : memory M) {unexpected : tp D → fault D E} {taken : List (ℤ × tp D)} (hsrc : ∀ s ∈ src_tp, Repeats s)
    (htaken : src_tp.mapM (take_strided unexpected (.fixed_dim dim_size stride el) dim_size) = .ok taken)
    (h : (do
      let child ← elwise_handler el (taken.map (·.2))
      return fun dst src => opchild child ((⟨dim_size, stride, taken.map (·.1)⟩ : strided_expr_kernel_extra).single dst src) :
        Except (fault D E) (expr_single_t D M E)) = .ok k) :
    Makes elwise_handler el (tp.fixed_dim dim_size stride el).get_ndim src_tp
      (fun child => Elementwise mem child (.fixed_dim dim_size stride el) src_tp) k := by
  obtain ⟨child, hchild, h⟩ := bind_eq_ok.mp h
  cases h
  have hall := forall₂_of_mapM (R := fun s r => TakenAs (.fixed_dim dim_size stride el) (· = dim_size) s ⟨r.1, 0, false⟩ r.2)
    htaken fun s hs r hr => take_strided_ok (hsrc s hs) hr
  rw [takenAs_children hall] at hchild
  refine ⟨child, hchild, fun dst src hlen m m' => ?_⟩
  beta_reduce
  rw [strided_run mem taken "strided dim" "var dim"]
  exact to_strided_run_iff (takenAs_fields hall hlen)

variable {al : ℕ} {md : var_dim_type_arrmeta}

/-- Into a strided dimension. -/
theorem make_fixed (hsrc : ∀ s ∈ src_tp, Repeats s)
    (h : make_elwise_dimension_expr_kernel mem elwise_handler (.fixed_dim dim_size stride el) src_tp = .ok k) :
    Makes elwise_handler el (tp.fixed_dim dim_size stride el).get_ndim src_tp
      (fun child => Elementwise mem child (.fixed_dim dim_size stride el) src_tp) k := by
  unfold make_elwise_dimension_expr_kernel at h
  dsimp only at h
  split_ifs at h
  · unfold make_elwise_strided_dimension_expr_kernel at h
    split_ifs at h
    obtain ⟨taken, htaken, h⟩ := bind_eq_ok.mp h
    exact strided_makes mem hsrc htaken h
  · unfold make_elwise_strided_or_var_to_strided_dimension_expr_kernel at h
    split_ifs at h
    obtain ⟨taken, htaken, h⟩ := bind_eq_ok.mp h
    exact mixed_makes hsrc htaken h

theorem elwise_fixed (hsrc : ∀ s ∈ src_tp, Repeats s)
    (h : elwise_instantiate mem elwise_handler (.fixed_dim dim_size stride el) src_tp = .ok k) :
    Makes elwise_handler el (tp.fixed_dim dim_size stride el).get_ndim src_tp
      (fun child => Elementwise mem child (.fixed_dim dim_size stride el) src_tp) k := by
  unfold elwise_instantiate at h
  dsimp only at h
  split_ifs at h
  · obtain ⟨taken, htaken, h⟩ := bind_eq_ok.mp h
    exact strided_makes mem hsrc htaken h
  · obtain ⟨taken, htaken, h⟩ := bind_eq_ok.mp h
    exact mixed_makes hsrc htaken h

/-- Into a var dimension, but for the places in an allocated one. -/
theorem make_var (hsrc : ∀ s ∈ src_tp, Repeats s)
    (h : make_elwise_dimension_expr_kernel mem elwise_handler (.var_dim al md el) src_tp = .ok k) :
    Makes elwise_handler el (tp.var_dim al md el).get_ndim src_tp
      (fun child dst src => ToVar mem child md (elwise_ck.allocate ⟨md.blockref, al, md.stride, md.offset⟩) 0
        (operands (tp.var_dim al md el).get_ndim src_tp src) dst) k := by
  unfold make_elwise_dimension_expr_kernel at h
  dsimp only at h
  split_ifs at h
  unfold make_elwise_strided_or_var_to_var_dimension_expr_kernel at h
  split_ifs at h
  obtain ⟨taken, htaken, h⟩ := bind_eq_ok.mp h
  obtain ⟨child, hchild, h⟩ := bind_eq_ok.mp h
  cases h
  have hall := forall₂_of_mapM (R := fun s r => TakenAs (.var_dim al md el) (· = 1) s r.1 r.2) htaken
    fun s hs r hr => (take_source_ok (hsrc s hs) hr).mono fun n hn => Or.inl (of_decide_eq_true hn)
  rw [takenAs_children hall] at hchild
  exact ⟨child, hchild, fun dst src hlen m m' => to_var_run_iff (takenAs_fields hall hlen)⟩

theorem elwise_var (h : elwise_instantiate mem elwise_handler (.var_dim al md el) src_tp = .ok k) :
    Makes elwise_handler el (tp.var_dim al md el).get_ndim src_tp
      (fun child => Elementwise mem child (.var_dim al md el) src_tp) k := by
  unfold elwise_instantiate at h
  dsimp only at h
  split_ifs at h
  obtain ⟨child, hchild, h⟩ := bind_eq_ok.mp h
  cases h
  exact ⟨child, hchild, fun dst src _ m m' => elwise_run_iff⟩

end

/-! ## A destination with elements -/

section
variable {mem : memory M} {al : ℕ} {md : var_dim_type_arrmeta} {el : tp D} {src_tp : List (tp D)}

theorem child_of_dst (dst_tp : tp D) : child_of dst_tp.get_ndim dst_tp = match dst_tp with
    | .fixed_dim _ _ el => el
    | .var_dim _ _ el => el
    | _ => dst_tp := if_neg (lt_irrefl _)

/-- The elements of an allocated destination are at one place when there is at most one. -/
theorem toVar_zero {child : expr_single_t D M E} {allocate : ℕ → ℤ} {ops : List operand} {dst : ℤ} {m m' : M}
    (h : ¬ ((mem.vddd m dst).begin ≠ 0 ∧ 1 < (mem.vddd m dst).size ∧ md.stride ≠ 0 ∧
      BroadcastsTo (sizes (mem.vddd m) ops) (mem.vddd m dst).size)) :
    ToVar mem child md allocate 0 ops dst m m' ↔ ToVar mem child md allocate md.stride ops dst m m' := by
  unfold ToVar
  dsimp only
  split_ifs with hbegin
  · refine and_congr_right fun hsizes => ?_
    have hplace : run_elements (mem.vddd m) child (fun j => (mem.vddd m dst).begin + md.offset + j * 0) ops (mem.vddd m dst).size =
        run_elements (mem.vddd m) child (fun j => (mem.vddd m dst).begin + md.offset + j * md.stride) ops (mem.vddd m dst).size := by
      apply run_elements_congr
      intro j hj
      by_cases hstride : md.stride = 0
      · rw [hstride]
      · have hone : ¬ 1 < (mem.vddd m dst).size := fun hone => h ⟨hbegin, hone, hstride, hsizes⟩
        obtain rfl : j = 0 := by omega
        simp
    rw [hplace]
  · rfl

/-- The sources that a kernel into a var dimension takes. -/
theorem taken_iff {s : tp D} (dst_tp : tp D) (hdst : dst_tp.get_ndim ≠ 0) :
    (src_all_strided_or_var [s] = true ∧ ∃ r, (take_source dst_tp var_fits s : Except (fault D E) _) = .ok r) ↔
      Taken dst_tp.get_ndim s := by
  unfold src_all_strided_or_var take_source Taken var_fits
  rw [List.all_cons, List.all_nil, Bool.and_true]
  cases s with
  | scalar d =>
    have hlower : (tp.scalar d).get_ndim < dst_tp.get_ndim := Nat.pos_of_ne_zero hdst
    rw [if_pos hlower]
    exact iff_of_true ⟨rfl, _, rfl⟩ rfl
  | fixed_dim dim_size stride el =>
    rw [and_iff_right rfl]
    split_ifs with hlower
    · exact iff_of_true ⟨_, rfl⟩ (Or.inl hlower)
    · dsimp only
      split_ifs with hsize
      · exact iff_of_true ⟨_, rfl⟩ (Or.inr (of_decide_eq_true hsize))
      · exact iff_of_false nofun fun h => h.elim hlower fun h1 => hsize (decide_eq_true h1)
  | var_dim al md el =>
    rw [and_iff_right rfl]
    split_ifs
    · exact iff_of_true ⟨_, rfl⟩ trivial
    · exact iff_of_true ⟨_, rfl⟩ trivial
  | offset_dim el =>
    exact iff_of_false (fun h => absurd (of_decide_eq_true h.1) (Nat.succ_ne_zero _)) (Nat.succ_ne_zero _)

theorem taken_of_make {elwise_handler : expr_kernel_generator D M E} {k : expr_single_t D M E}
    (h : make_elwise_dimension_expr_kernel mem elwise_handler (.var_dim al md el) src_tp = .ok k) :
    (∀ s ∈ src_tp, Taken (tp.var_dim al md el).get_ndim s) ∧ 0 < src_tp.length ∧ src_tp.length ≤ 6 := by
  unfold make_elwise_dimension_expr_kernel at h
  dsimp only at h
  split_ifs at h with hdispatch
  unfold make_elwise_strided_or_var_to_var_dimension_expr_kernel at h
  split_ifs at h with hcount
  obtain ⟨taken, htaken, -⟩ := bind_eq_ok.mp h
  refine ⟨fun s hs => (taken_iff (E := E) (.var_dim al md el) (Nat.succ_ne_zero _)).mp ⟨?_, ok_of_mapM htaken s hs⟩, by omega⟩
  unfold src_all_strided_or_var at hdispatch ⊢
  rw [List.all_cons, List.all_nil, Bool.and_true]
  exact List.all_eq_true.mp hdispatch s hs

/-- A kernel is made for sources that are taken, whatever its child is. -/
theorem make_of_taken (mem : memory M) (child : expr_single_t D M E) (hlen : 0 < src_tp.length ∧ src_tp.length ≤ 6)
    (h : ∀ s ∈ src_tp, Taken (tp.var_dim al md el).get_ndim s) :
    ∃ k, make_elwise_dimension_expr_kernel mem (fun _ _ => .ok child) (.var_dim al md el) src_tp = .ok k := by
  have hall (s : tp D) (hs : s ∈ src_tp) := (taken_iff (E := E) (.var_dim al md el) (Nat.succ_ne_zero _)).mpr (h s hs)
  have hdispatch : src_all_strided_or_var src_tp = true := by
    unfold src_all_strided_or_var at hall ⊢
    rw [List.all_eq_true]
    intro s hs
    simpa using (hall s hs).1
  have hcount : ¬ (src_tp.length = 0 ∨ 6 < src_tp.length) := by omega
  unfold make_elwise_dimension_expr_kernel make_elwise_strided_or_var_to_var_dimension_expr_kernel
  dsimp only
  rw [if_pos hdispatch, if_neg hcount]
  rcases mapM_cases (take_source (E := E) (.var_dim al md el) var_fits) src_tp with
    ⟨taken, htaken, -⟩ | ⟨front, s, back, e, rfl, -, he, -⟩
  · rw [htaken]
    exact ⟨_, rfl⟩
  · obtain ⟨r, hr⟩ := (hall s (List.mem_append_right _ List.mem_cons_self)).2
    rw [hr] at he
    cases he

end

theorem isBroadcast_unique {sizes : List ℕ} {size size' : ℕ} (h : IsBroadcast sizes size) (h' : IsBroadcast sizes size') :
    size = size' := by
  obtain ⟨hall, hmem⟩ := h
  obtain ⟨hall', hmem'⟩ := h'
  rcases hmem with rfl | hmem
  · rcases hmem' with rfl | hmem'
    · rfl
    · exact (hall size' hmem').elim Eq.symm Eq.symm
  · rcases hall' size hmem with rfl | heq
    · exact hmem'.elim Eq.symm fun hmem' => (hall size' hmem').elim Eq.symm Eq.symm
    · exact heq

section
variable {mem : memory M} {child : expr_single_t D M E} {dst_tp : tp D} {src_tp : List (tp D)} {dst : ℤ} {src : List ℤ} {m : M}

/-- There is one thing for a call to leave. -/
theorem elementwise_unique {m' m'' : M} (h : Elementwise mem child dst_tp src_tp dst src m m')
    (h' : Elementwise mem child dst_tp src_tp dst src m m'') : m'' = m' := by
  cases dst_tp with
  | fixed_dim dim_size stride el => exact Except.ok.inj (h'.2.symm.trans h.2)
  | var_dim al md el =>
    unfold Elementwise at h h'
    dsimp only at h h'
    split_ifs at h h'
    · exact Except.ok.inj (h'.2.symm.trans h.2)
    · obtain ⟨-, size, hsize, hrun⟩ := h
      obtain ⟨-, size', hsize', hrun'⟩ := h'
      obtain rfl := isBroadcast_unique hsize hsize'
      exact Except.ok.inj (hrun'.symm.trans hrun)
  | _ => exact h.elim

/-- Where nothing is misplaced, a call does what it is for. -/
theorem meets_of_not_misplaced (hsrc : ∀ s ∈ src_tp, Repeats s) (hlen : src.length = src_tp.length)
    (h : ¬ Misplaced mem dst_tp src_tp dst src m) : Meets E mem dst_tp src_tp dst src m := by
  intro elwise_handler k m' hk hm'
  cases dst_tp with
  | fixed_dim dim_size stride el =>
    rw [child_of_dst]
    obtain ⟨child, hchild, hiff⟩ := make_fixed hsrc hk
    have hdone := (hiff dst src hlen m m').mp hm'
    refine ⟨⟨child, hchild, hdone⟩, fun k' m'' hk' hm'' => ?_⟩
    obtain ⟨child', hchild', hiff'⟩ := elwise_fixed hsrc hk'
    obtain rfl := Except.ok.inj (hchild.symm.trans hchild')
    exact elementwise_unique hdone ((hiff' dst src hlen m m'').mp hm'')
  | var_dim al md el =>
    rw [child_of_dst]
    obtain ⟨child, hchild, hiff⟩ := make_var hsrc hk
    obtain ⟨htaken, hcount⟩ := taken_of_make hk
    have hdone : Elementwise mem child (.var_dim al md el) src_tp dst src m m' :=
      (toVar_zero fun hall => h ⟨hall.1, hall.2.1, hall.2.2.1, ⟨hcount.1, hcount.2, htaken⟩, hall.2.2.2⟩).mp
        ((hiff dst src hlen m m').mp hm')
    refine ⟨⟨child, hchild, hdone⟩, fun k' m'' hk' hm'' => ?_⟩
    obtain ⟨child', hchild', hiff'⟩ := elwise_var hk'
    obtain rfl := Except.ok.inj (hchild.symm.trans hchild')
    exact elementwise_unique hdone ((hiff' dst src hlen m m'').mp hm'')
  | _ => cases hk

end

/-! ## The exact condition -/

/-- A child that does nothing at one place, and throws at every other. -/
def only_at (place : ℤ) : expr_single_t D M E := fun dst _ m => if dst = place then .ok m else .error (.runtime_error "")

theorem only_at_eq (place dst : ℤ) (src : List ℤ) (m : M) :
    (only_at place : expr_single_t D M E) dst src m = if dst = place then .ok m else .error (.runtime_error "") := rfl

section
variable {vddd : ℤ → var_dim_type_data} {ops : List operand} {place : ℕ → ℤ} {size : ℕ} {m m' : M}

theorem run_only_at {p : ℤ} (h : ∀ j < size, place j = p) :
    run_elements vddd (only_at p : expr_single_t D M E) place ops size m = .ok m := by
  unfold run_elements
  induction size with
  | zero => rfl
  | succ size ih =>
    rw [List.range_succ, events_append, ih fun j hj => h j (Nat.lt_succ_of_lt hj), ok_bind]
    unfold events
    rw [List.foldlM_cons]
    beta_reduce
    rw [only_at_eq, if_pos (h size (Nat.lt_succ_self size))]
    rfl

theorem only_at_of_run {p : ℤ} (h : run_elements vddd (only_at p : expr_single_t D M E) place ops size m = .ok m') :
    ∀ j < size, place j = p := by
  unfold run_elements at h
  induction size generalizing m' with
  | zero => exact fun j hj => absurd hj (Nat.not_lt_zero j)
  | succ size ih =>
    rw [List.range_succ, events_append] at h
    obtain ⟨m₁, hfirst, hlast⟩ := bind_eq_ok.mp h
    intro j hj
    rcases Nat.lt_succ_iff_lt_or_eq.mp hj with hj | rfl
    · exact ih hfirst j hj
    · obtain ⟨m₂, hcall, -⟩ := bind_eq_ok.mp hlast
      beta_reduce at hcall
      rw [only_at_eq] at hcall
      by_contra hne
      rw [if_neg hne] at hcall
      cases hcall

end

/-- The kernel does what it is for exactly where its destination is not a var
dimension that is allocated with more than one element: in such a one it writes
every result to the first. -/
theorem meets_iff (mem : memory M) (dst_tp : tp D) (src_tp : List (tp D)) (dst : ℤ) (src : List ℤ) (m : M)
    (hsrc : ∀ s ∈ src_tp, Repeats s) (hlen : src.length = src_tp.length) :
    Meets E mem dst_tp src_tp dst src m ↔ ¬ Misplaced mem dst_tp src_tp dst src m := by
  refine ⟨fun hmeets hmis => ?_, meets_of_not_misplaced hsrc hlen⟩
  cases dst_tp with
  | var_dim al md el =>
    obtain ⟨hbegin, hone, hstride, ⟨hpos, hsix, htaken⟩, hsizes⟩ := hmis
    let place := (mem.vddd m dst).begin + md.offset
    obtain ⟨k, hk⟩ := make_of_taken mem (only_at place : expr_single_t D M E) ⟨hpos, hsix⟩ htaken
    obtain ⟨child, hchild, hiff⟩ := make_var hsrc hk
    obtain rfl := Except.ok.inj hchild
    -- all the results go to the first element
    have hrun : k dst src m = .ok m := by
      rw [hiff dst src hlen]
      unfold ToVar
      dsimp only
      rw [if_pos hbegin]
      refine ⟨hsizes, run_only_at fun j _ => ?_⟩
      rw [mul_zero, add_zero]
    obtain ⟨⟨child, hchild, hdone⟩, -⟩ := hmeets _ k m hk hrun
    obtain rfl := Except.ok.inj hchild
    unfold Elementwise at hdone
    dsimp only at hdone
    rw [if_pos hbegin] at hdone
    have hplace := only_at_of_run hdone.2 1 hone
    apply hstride
    simpa [place] using hplace
  | _ => exact hmis

/-- Two var dims of two elements each, at 0 and at 8. -/
def two_and_two : memory (ℤ → ℤ) where
  vddd _ p := if p = 0 then ⟨100, 2⟩ else ⟨200, 2⟩
  store _ _ m := m

def var_int : tp Unit := .var_dim 8 ⟨.objectarray fun _ => 300, 8, 0⟩ (.scalar ())

/-- A kernel that copies. -/
def copy : expr_single_t Unit (ℤ → ℤ) Empty := fun dst src m => .ok fun p => if p = dst then m (src.headD 0) else m p

/-- Two elements are copied to an allocated destination of two: both go to the first. -/
theorem second_not_written : ¬ ∀ (mem : memory (ℤ → ℤ)) (dst_tp : tp Unit) (src_tp : List (tp Unit)) (dst : ℤ) (src : List ℤ)
    (m : ℤ → ℤ), (∀ s ∈ src_tp, Repeats s) → src.length = src_tp.length → Meets Empty mem dst_tp src_tp dst src m := by
  intro h
  have hmeets := h two_and_two var_int [var_int] 0 [8] id (by simp [var_int, Repeats]) rfl
  obtain ⟨⟨child, hchild, hdone⟩, -⟩ := hmeets (fun _ _ => .ok copy) _ _ rfl rfl
  obtain rfl := Except.ok.inj hchild
  have hsecond := congrArg (fun r => r.toOption.map fun m => m 108) hdone.2
  revert hsecond
  decide

/-- Into a destination with no data, for the same sources. -/
theorem meets_iff_fresh : Meets Empty ⟨fun _ p => if p = 0 then ⟨0, 0⟩ else ⟨200, 2⟩, fun _ _ m => m⟩ var_int [var_int] 0 [8]
    (id : ℤ → ℤ) :=
  (meets_iff _ _ _ _ _ _ (by simp [var_int, Repeats]) rfl).mpr fun h => h.1 rfl

end Dynd.ElwiseExpr
