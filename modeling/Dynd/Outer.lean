import Dynd.Elwise
/-!
# Outer products

`outer_ck` gives every source new axes of size one, before and behind its own,
and leaves the rest to the elementwise kernels. The arrmeta of a source's own
dims is copied by a loop that moves the caller's pointer along.

`outer_calls` and `outer_shape` say what the kernel runs and what shape its
result has, for all sources, and `outer_iff` when all that is asked of it holds.
-/
namespace Dynd.Outer
open Lib FixedDim Elwise

variable {D M E : Type}

/-! ## Types -/

def with_new_axis (t : tp D) (i new_ndim : ℕ) : tp D :=
  ⟨t.shape.take i ++ List.replicate new_ndim 1 ++ t.shape.drop i, t.dtype⟩

def with_replaced_dtype (t replacement : tp D) : tp D := ⟨t.shape ++ replacement.shape, replacement.dtype⟩

def resolve_dst_type (child : child_arrfunc D M E) (src_tp : List (tp D)) : tp D :=
  src_tp.foldr (fun s t => if s.shape = [] then t else with_replaced_dtype s t) (child.resolve_dst_type src_tp)

/-! ## The new sources -/

/-- The arrmeta of a new axis. -/
def axis : size_stride_t := ⟨1, 0⟩

/-- The loop over the dims a source has. It leaves the arrmeta behind them in the caller's array. -/
def copy_dims : ℕ → arrmeta → Option (List size_stride_t × arrmeta)
  | 0, src_arrmeta => some ([], src_arrmeta)
  | n + 1, src_arrmeta =>
    match src_arrmeta.dims with
    | [] => none
    | m :: dims => (copy_dims n ⟨dims, src_arrmeta.el⟩).map fun (copied, left) => (m :: copied, left)

/-- A source with its new axes, of `ndim` in all and `j` before its own, and what is left in the caller's array. The holder
of the new arrmeta is cleared when it is made, and what follows the dims is not written to. -/
def new_source (arrmeta_size : D → ℕ) (ndim j : ℕ) (src : operand D) : Option (operand D × arrmeta) := do
  let new_tp := with_new_axis src.tp 0 j
  let new_tp := with_new_axis new_tp new_tp.shape.length (ndim - new_tp.shape.length)
  let (copied, left) ← copy_dims src.tp.shape.length src.arrmeta
  let dims := List.replicate j axis ++ copied
  let dims := dims ++ List.replicate (new_tp.shape.length - dims.length) axis
  return (⟨new_tp, ⟨dims, List.replicate (arrmeta_size src.tp.dtype) 0⟩⟩, left)

def new_sources (arrmeta_size : D → ℕ) (ndim : ℕ) : ℕ → List (operand D) → Option (List (operand D) × List arrmeta)
  | _, [] => some ([], [])
  | j, src :: srcs => do
    let (new_src, left) ← new_source arrmeta_size ndim j src
    let (new_srcs, lefts) ← new_sources arrmeta_size ndim (j + src.tp.shape.length) srcs
    return (new_src :: new_srcs, left :: lefts)

/-- The kernel, and the caller's `src_arrmeta` array. -/
def instantiate (arrmeta_size : D → ℕ) (child : child_arrfunc D M E) (dst : operand D) (srcs : List (operand D)) :
    Except (fault E) (expr_single_t M E) × List arrmeta :=
  match new_sources arrmeta_size (srcs.map (·.tp.shape.length)).sum 0 srcs with
  | none => (.error .undefined_behavior, srcs.map (·.arrmeta))
  | some (new_srcs, left) => (elwise_instantiate child dst.tp.dtype dst.tp.shape dst.arrmeta new_srcs, left)

/-! ## What is asked of it -/

/-- An array of fixed dims: its arrmeta has the sizes of its type. -/
structure source (D : Type) extends operand D where
  sizes : arrmeta.dims.map (·.dim_size) = tp.shape

/-- The shapes of the sources, in order. -/
def concatenated (srcs : List (source D)) : List ℤ := srcs.flatMap (·.tp.shape)

/-- The offset of a source's element: its own part of the index. -/
def place : List (source D) → ℕ → List ℕ → ℤ
  | [], _, _ => 0
  | src :: _, 0, idx => strideOffset src.arrmeta.dims idx
  | src :: srcs, i + 1, idx => place srcs i (idx.drop src.tp.shape.length)

/-- The child at every index, made for the elements of the sources. -/
def prescribed (child : child_arrfunc D M E) (dst : source D) (srcs : List (source D)) : Except (fault E) (expr_single_t M E) :=
  runs (concatenated srcs) dst.arrmeta.dims (place srcs) <$>
    child.instantiate dst.tp.dtype dst.arrmeta.el (srcs.map fun s => (s.tp.dtype, s.arrmeta.el))

structure Lifts (arrmeta_size : D → ℕ) (child : child_arrfunc D M E) (srcs : List (source D)) : Prop where
  calls : ∀ dst : source D, dst.tp.shape = concatenated srcs →
    (instantiate arrmeta_size child dst.tooperand (srcs.map (·.tooperand))).1 = prescribed child dst srcs
  shape : (resolve_dst_type child (srcs.map (·.tp))).shape =
    concatenated srcs ++ (child.resolve_dst_type (srcs.map fun s => ⟨[], s.tp.dtype⟩)).shape
  unchanged : ∀ dst : source D, dst.tp.shape = concatenated srcs →
    (instantiate arrmeta_size child dst.tooperand (srcs.map (·.tooperand))).2 = srcs.map (·.arrmeta)

/-! ## A new source -/

theorem copy_dims_eq (dims : List size_stride_t) (el : List UInt8) : copy_dims dims.length ⟨dims, el⟩ = some (dims, ⟨[], el⟩) := by
  induction dims with
  | nil => rfl
  | cons m dims ih =>
    rw [List.length_cons, copy_dims]
    dsimp only
    rw [ih]
    rfl

/-- The dims of a new source. -/
def widened (j : ℕ) (dims : List size_stride_t) (behind : ℕ) : List size_stride_t :=
  List.replicate j axis ++ dims ++ List.replicate behind axis

theorem source.length (src : source D) : src.arrmeta.dims.length = src.tp.shape.length := by
  rw [← src.sizes, List.length_map]

/-- The loops over the dims, one after the other. -/
theorem new_source_eq (arrmeta_size : D → ℕ) (src : source D) (j behind : ℕ) :
    new_source arrmeta_size (j + src.tp.shape.length + behind) j src.tooperand =
      some (⟨⟨List.replicate j 1 ++ src.tp.shape ++ List.replicate behind 1, src.tp.dtype⟩,
        ⟨widened j src.arrmeta.dims behind, List.replicate (arrmeta_size src.tp.dtype) 0⟩⟩, ⟨[], src.arrmeta.el⟩) := by
  have hcopied : copy_dims src.tp.shape.length src.arrmeta = some (src.arrmeta.dims, ⟨[], src.arrmeta.el⟩) := by
    rw [← src.length]
    exact copy_dims_eq src.arrmeta.dims src.arrmeta.el
  have hshape : (with_new_axis src.tp 0 j).shape = List.replicate j 1 ++ src.tp.shape := rfl
  have hlength : (List.replicate j (1 : ℤ) ++ src.tp.shape).length = j + src.tp.shape.length := by
    rw [List.length_append, List.length_replicate]
  have hbehind : j + src.tp.shape.length + behind - (j + src.tp.shape.length) = behind := Nat.add_sub_cancel_left _ _
  have hwide : with_new_axis (with_new_axis src.tp 0 j) (j + src.tp.shape.length) behind =
      ⟨List.replicate j 1 ++ src.tp.shape ++ List.replicate behind 1, src.tp.dtype⟩ := by
    unfold with_new_axis
    rw [List.take_zero, List.nil_append, List.drop_zero, ← hlength, List.take_length, List.drop_length, List.append_nil]
  unfold new_source
  dsimp only
  rw [hshape, hlength, hbehind, hwide, hcopied]
  change some _ = some _
  unfold widened
  dsimp only
  rw [List.length_append, hlength, List.length_replicate, List.length_append, List.length_replicate, src.length, hbehind]

/-- The axes in front do not move the source, and those behind do not either. -/
theorem strideOffset_widened (j : ℕ) (dims : List size_stride_t) (behind : ℕ) (idx : List ℕ) :
    strideOffset (widened j dims behind) idx = strideOffset dims (idx.drop j) := by
  have hbehind (behind : ℕ) (idx : List ℕ) : strideOffset (List.replicate behind axis) idx = 0 := by
    induction behind generalizing idx with
    | zero => rfl
    | succ n ih =>
      rw [List.replicate_succ, strideOffset, ih]
      exact (add_zero _).trans (mul_zero _)
  have hown (dims : List size_stride_t) (idx : List ℕ) :
      strideOffset (dims ++ List.replicate behind axis) idx = strideOffset dims idx := by
    induction dims generalizing idx with
    | nil => exact hbehind behind idx
    | cons m dims ih => rw [List.cons_append, strideOffset, strideOffset, ih]
  unfold widened
  rw [List.append_assoc]
  induction j generalizing idx with
  | zero => exact hown dims idx
  | succ j ih =>
    rw [List.replicate_succ, List.cons_append, strideOffset, ih, ← List.drop_one, List.drop_drop, Nat.add_comm 1]
    exact (congrArg (· + _) (mul_zero _)).trans (zero_add _)

/-- A new axis fits any size. -/
theorem axes_fit (shape : List ℤ) :
    List.Forall₂ (fun m d => m.dim_size = 1 ∨ m.dim_size = d) (List.replicate shape.length axis) shape := by
  induction shape with
  | nil => exact .nil
  | cons d shape ih => exact .cons (Or.inl rfl) ih

theorem dims_fit (dims : List size_stride_t) :
    List.Forall₂ (fun m d => m.dim_size = 1 ∨ m.dim_size = d) dims (dims.map (·.dim_size)) := by
  induction dims with
  | nil => exact .nil
  | cons m dims ih => exact .cons (Or.inr rfl) ih

theorem fits_widened (arrmeta_size : D → ℕ) (src : source D) (front back : List ℤ) : Fits (front ++ src.tp.shape ++ back)
    (⟨⟨List.replicate front.length 1 ++ src.tp.shape ++ List.replicate back.length 1, src.tp.dtype⟩,
      ⟨widened front.length src.arrmeta.dims back.length, List.replicate (arrmeta_size src.tp.dtype) 0⟩⟩ : operand D) := by
  refine ⟨by simp, ?_⟩
  have hown := dims_fit src.arrmeta.dims
  rw [src.sizes] at hown
  exact List.rel_append (List.rel_append (axes_fit front) hown) (axes_fit back)

/-! ## All of them -/

/-- The new sources from one on, when the shapes of those before it are `front`. By induction on the sources that are left. -/
theorem new_sources_eq (arrmeta_size : D → ℕ) (srcs : List (source D)) (front : List ℤ) :
    ∃ new_srcs, new_sources arrmeta_size (front ++ concatenated srcs).length front.length (srcs.map (·.tooperand)) =
        some (new_srcs, srcs.map fun s => ⟨[], s.arrmeta.el⟩) ∧
      (∀ s ∈ new_srcs, Fits (front ++ concatenated srcs) s) ∧
      (∀ i idx, sourceOffsets new_srcs i idx = place srcs i (idx.drop front.length)) ∧
      (new_srcs.map fun s => (s.tp.dtype, s.arrmeta.el)) =
        srcs.map fun s => (s.tp.dtype, List.replicate (arrmeta_size s.tp.dtype) 0) := by
  induction srcs generalizing front with
  | nil =>
    refine ⟨[], rfl, fun s hs => absurd hs List.not_mem_nil, fun i idx => ?_, rfl⟩
    unfold sourceOffsets
    rw [List.map_nil, List.getD_nil]
    rfl
  | cons src srcs ih =>
    obtain ⟨new_srcs, hnew, hfits, hoffsets, hels⟩ := ih (front ++ src.tp.shape)
    have hshape : front ++ concatenated (src :: srcs) = front ++ src.tp.shape ++ concatenated srcs := by
      unfold concatenated
      rw [List.flatMap_cons, List.append_assoc]
    have hlength : (front ++ src.tp.shape ++ concatenated srcs).length =
        front.length + src.tp.shape.length + (concatenated srcs).length := by
      rw [List.length_append, List.length_append]
    have hfirst := new_source_eq arrmeta_size src front.length (concatenated srcs).length
    rw [← hlength] at hfirst
    rw [@List.length_append _ front] at hnew
    rw [hshape]
    refine ⟨_ :: new_srcs, ?_, List.forall_mem_cons.mpr ⟨fits_widened arrmeta_size src front (concatenated srcs), hfits⟩, ?_,
      congrArg₂ List.cons rfl hels⟩
    · rw [List.map_cons, new_sources, hfirst]
      change (new_sources arrmeta_size _ (front.length + src.tp.shape.length) _).bind _ = _
      rw [hnew]
      rfl
    · intro i idx
      cases i with
      | zero => exact strideOffset_widened front.length src.arrmeta.dims (concatenated srcs).length idx
      | succ i =>
        have hrest := hoffsets i idx
        rw [List.length_append, ← List.drop_drop] at hrest
        exact hrest

/-- What `instantiate` makes, and what it leaves. -/
theorem instantiate_eq (arrmeta_size : D → ℕ) (child : child_arrfunc D M E) (dst : source D) (srcs : List (source D))
    (hdst : dst.tp.shape = concatenated srcs) : instantiate arrmeta_size child dst.tooperand (srcs.map (·.tooperand)) =
      (runs (concatenated srcs) dst.arrmeta.dims (place srcs) <$> child.instantiate dst.tp.dtype dst.arrmeta.el
        (srcs.map fun s => (s.tp.dtype, List.replicate (arrmeta_size s.tp.dtype) 0)), srcs.map fun s => ⟨[], s.arrmeta.el⟩) := by
  obtain ⟨new_srcs, hnew, hfits, hoffsets, hels⟩ := new_sources_eq arrmeta_size srcs []
  have hndim : ((srcs.map (·.tooperand)).map (·.tp.shape.length)).sum = (concatenated srcs).length := by
    unfold concatenated
    rw [List.length_flatMap, List.map_map]
    rfl
  have hplace : sourceOffsets new_srcs = place srcs := by
    funext i idx
    exact hoffsets i idx
  rw [List.nil_append] at hnew hfits
  unfold instantiate
  rw [hndim, show 0 = ([] : List ℤ).length from rfl, hnew]
  dsimp only
  rw [elwise_runs child dst.tp.dtype dst.tp.shape dst.arrmeta dst.sizes (by rwa [hdst]), hdst, hplace]
  unfold instantiate_child
  rw [hels]

/-- The child is run at every index, in C order, on the elements that are the index's own parts. What it is made for has
zeros where the arrmeta of the elements was. -/
theorem outer_calls (arrmeta_size : D → ℕ) (child : child_arrfunc D M E) (dst : source D) (srcs : List (source D))
    (hdst : dst.tp.shape = concatenated srcs) :
    (instantiate arrmeta_size child dst.tooperand (srcs.map (·.tooperand))).1 =
      runs (concatenated srcs) dst.arrmeta.dims (place srcs) <$> child.instantiate dst.tp.dtype dst.arrmeta.el
        (srcs.map fun s => (s.tp.dtype, List.replicate (arrmeta_size s.tp.dtype) 0)) :=
  congrArg Prod.fst (instantiate_eq arrmeta_size child dst srcs hdst)

/-- The shapes of the sources, in order, before that of the child's result. -/
theorem outer_shape (child : child_arrfunc D M E) (src_tp : List (tp D)) :
    (resolve_dst_type child src_tp).shape = src_tp.flatMap (·.shape) ++ (child.resolve_dst_type src_tp).shape := by
  unfold resolve_dst_type
  generalize child.resolve_dst_type src_tp = t
  induction src_tp with
  | nil => rfl
  | cons s src_tp ih =>
    rw [List.foldr_cons, List.flatMap_cons, List.append_assoc, ← ih]
    split_ifs with h
    · rw [h, List.nil_append]
    · rfl

/-! ## When it lifts -/

/-- The caller's array is as it was, when no source has a dim. -/
theorem unchanged_iff (srcs : List (source D)) :
    (srcs.map fun s => (⟨[], s.arrmeta.el⟩ : arrmeta)) = srcs.map (·.arrmeta) ↔ ∀ s ∈ srcs, s.tp.shape = [] := by
  rw [List.map_inj_left]
  refine forall₂_congr fun s _ => ?_
  have hshape : s.tp.shape = [] ↔ s.arrmeta.dims = [] := by
    rw [← s.sizes, List.map_eq_nil_iff]
  rw [hshape]
  obtain ⟨⟨-, ⟨dims, el⟩⟩, -⟩ := s
  constructor
  · intro h
    exact (congrArg arrmeta.dims h).symm
  · rintro rfl
    rfl

/-- An array of any shape. -/
def source.of_shape (shape : List ℤ) (dtype : D) (el : List UInt8) : source D where
  tp := ⟨shape, dtype⟩
  arrmeta := ⟨shape.map (⟨·, 0⟩), el⟩
  sizes := by
    rw [List.map_map]
    exact List.map_id shape

/-- Lifting leaves the array as it was for scalars only. -/
theorem Lifts.scalars {arrmeta_size : D → ℕ} {child : child_arrfunc D M E} {srcs : List (source D)}
    (h : Lifts arrmeta_size child srcs) : ∀ s ∈ srcs, s.tp.shape = [] := by
  intro s hs
  have hleft := h.unchanged (source.of_shape (concatenated srcs) s.tp.dtype []) rfl
  rw [instantiate_eq arrmeta_size child _ srcs rfl] at hleft
  exact (unchanged_iff srcs).mp hleft s hs

theorem place_nil (srcs : List (source D)) (i : ℕ) : place srcs i [] = 0 := by
  have hnone (dims : List size_stride_t) : strideOffset dims [] = 0 := by
    induction dims with
    | nil => rfl
    | cons m dims ih =>
      rw [strideOffset, List.tail_nil, ih]
      exact (add_zero _).trans (zero_mul _)
  induction srcs generalizing i with
  | nil => rfl
  | cons s srcs ih =>
    cases i with
    | zero => exact hnone s.arrmeta.dims
    | succ i =>
      rw [place, List.drop_nil]
      exact ih i

/-- Scalars are run once, where they are. -/
theorem runs_scalars (srcs : List (source D)) (op : expr_single_t M E) : runs [] [] (place srcs) op = op := by
  funext dst src x
  change (op (dst + 0) (fun i => src i + place srcs i []) x >>= pure) = _
  have hsrc : (fun i => src i + place srcs i []) = src := by
    funext i
    rw [place_nil, add_zero]
  rw [hsrc, add_zero, bind_pure]

theorem concatenated_scalars {srcs : List (source D)} (h : ∀ s ∈ srcs, s.tp.shape = []) : concatenated srcs = [] :=
  List.flatMap_eq_nil_iff.mpr h

/-- All that is asked of it holds when the sources are scalars, whose arrmeta the child makes nothing of. Any dim moves the
pointer of the caller's array, and the arrmeta behind the dims is not carried over. -/
theorem outer_iff (arrmeta_size : D → ℕ) (child : child_arrfunc D M E) (srcs : List (source D)) :
    Lifts arrmeta_size child srcs ↔ (∀ s ∈ srcs, s.tp.shape = []) ∧ ∀ dst_dtype dst_el,
      child.instantiate dst_dtype dst_el (srcs.map fun s => (s.tp.dtype, List.replicate (arrmeta_size s.tp.dtype) 0)) =
        child.instantiate dst_dtype dst_el (srcs.map fun s => (s.tp.dtype, s.arrmeta.el)) := by
  have hruns : (runs [] [] (place srcs) : expr_single_t M E → expr_single_t M E) = id := by
    funext op
    exact runs_scalars srcs op
  constructor
  · intro h
    have hscalars := h.scalars
    refine ⟨hscalars, fun dst_dtype dst_el => ?_⟩
    have hcalls := h.calls (source.of_shape [] dst_dtype dst_el) (concatenated_scalars hscalars).symm
    rw [outer_calls arrmeta_size child _ srcs (concatenated_scalars hscalars).symm] at hcalls
    unfold prescribed at hcalls
    rw [concatenated_scalars hscalars] at hcalls
    change runs [] [] (place srcs) <$> _ = runs [] [] (place srcs) <$> _ at hcalls
    rwa [hruns, id_map, id_map] at hcalls
  · rintro ⟨hscalars, hzeros⟩
    refine ⟨fun dst hdst => ?_, ?_, fun dst hdst => ?_⟩
    · rw [outer_calls arrmeta_size child dst srcs hdst, hzeros]
      rfl
    · have hels : (srcs.map fun s => (⟨[], s.tp.dtype⟩ : tp D)) = srcs.map (·.tp) := by
        refine List.map_congr_left fun s hs => ?_
        rw [← hscalars s hs]
      rw [outer_shape, hels, List.flatMap_map]
      rfl
    · rw [instantiate_eq arrmeta_size child dst srcs hdst]
      exact (unchanged_iff srcs).mpr hscalars

/-- An array of two elements, and a child that looks at nothing. Made again with the same array, it has no arrmeta to read. -/
theorem pointer_moved : ¬ Lifts (fun _ : Unit => 0)
    (⟨fun _ => ⟨[], ()⟩, fun _ _ _ => .ok fun _ _ m => .ok m⟩ : child_arrfunc Unit Unit Empty) [source.of_shape [2] () []] :=
  fun h => List.cons_ne_nil _ _ (h.scalars _ List.mem_cons_self)

end Dynd.Outer
