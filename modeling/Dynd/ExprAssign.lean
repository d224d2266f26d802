import Dynd.BufferedKernels
/-!
# Assignment between expression types

`make_expression_assignment_kernel` takes a conversion between two chains of
expression types apart, with a buffer between any two steps. `assignment_steps`
says that what it builds does the steps of both chains in order, on one element
and on a strided run of them, and fails to build when a step is missing. The
destination, the source and the buffers do not overlap.
-/
namespace Dynd.ExprAssign

open Lib Buffered

/-- The kernels for one element. -/
abbrev expr_single (V : Type) := V → Except Raised V

/-- Types of one element over the types `T` that are no expressions; `V` are
the values of all of them. An expression type has what its two `make_` functions
build, or the error they throw. -/
inductive scalar_type (T V ε : Type) where
  | plain (tp : T)
  | expr (value_type : T) (operand_type : scalar_type T V ε)
      (operand_to_value value_to_operand : Except ε (expr_single V))

namespace scalar_type

variable {T V ε : Type}

def value_type : scalar_type T V ε → T
  | plain tp => tp
  | expr value_type _ _ _ => value_type

def depth : scalar_type T V ε → ℕ
  | plain _ => 0
  | expr _ operand_type _ _ => operand_type.depth + 1

end scalar_type

/-- A kernel in a `ckernel_builder`, with the type of each buffer. -/
inductive ckernel (T V : Type) where
  | child (function : expr_single V)
  | buffered_kernel_extra (buffer_tp : T) (first second : ckernel T V)

/-- What the types bring with them: the assignments between types that are no
expressions, and what a buffer is set to if its type needs that. -/
structure conversions (T V ε : Type) where
  make_assignment_kernel : T → T → Except ε (expr_single V)
  zeroinit : T → Option V

variable {T V ε : Type}

section
variable [DecidableEq T] (c : conversions T V ε)

/-- Whether the values have to be converted, too. -/
def unequal (dst_tp src_tp : scalar_type T V ε) : ℕ := if dst_tp.value_type = src_tp.value_type then 0 else 1

/-- The first kernel is built before the second one. -/
def make_buffered (buffer_tp : T) (first second : Except ε (ckernel T V)) : Except ε (ckernel T V) := do
  let first ← first
  let second ← second
  pure (.buffered_kernel_extra buffer_tp first second)

open scalar_type ckernel

/-- With `make_expression_assignment_kernel` for the cases with an expression. -/
def make_assignment_kernel (dst_tp src_tp : scalar_type T V ε) : Except ε (ckernel T V) :=
  match dst_tp, src_tp with
  | plain dst_tp, plain src_tp => child <$> c.make_assignment_kernel dst_tp src_tp
  | expr value_type opdt operand_to_value value_to_operand, plain src_tp =>
    if src_tp = value_type then
      match opdt with
      | plain _ => child <$> value_to_operand
      | expr buffer_tp operand_type from_operand to_operand =>
        make_buffered buffer_tp (child <$> value_to_operand)
          (make_assignment_kernel (expr buffer_tp operand_type from_operand to_operand) (plain buffer_tp))
    else
      make_buffered value_type (make_assignment_kernel (plain value_type) (plain src_tp))
        (make_assignment_kernel (expr value_type opdt operand_to_value value_to_operand) (plain value_type))
  | expr value_type opdt operand_to_value value_to_operand, expr buffer_tp operand_type from_operand to_operand =>
    make_buffered buffer_tp (make_assignment_kernel (plain buffer_tp) (expr buffer_tp operand_type from_operand to_operand))
      (make_assignment_kernel (expr value_type opdt operand_to_value value_to_operand) (plain buffer_tp))
  | plain dst_tp, expr value_type opdt operand_to_value value_to_operand =>
    if dst_tp = value_type then
      match opdt with
      | plain _ => child <$> operand_to_value
      | expr buffer_tp operand_type from_operand to_operand =>
        make_buffered buffer_tp
          (make_assignment_kernel (plain buffer_tp) (expr buffer_tp operand_type from_operand to_operand))
          (child <$> operand_to_value)
    else
      make_buffered value_type
        (make_assignment_kernel (plain value_type) (expr value_type opdt operand_to_value value_to_operand))
        (make_assignment_kernel (plain dst_tp) (plain value_type))
termination_by (dst_tp.depth + src_tp.depth, unequal dst_tp src_tp)
decreasing_by
  all_goals simp [Prod.lex_def, depth, unequal, scalar_type.value_type]
  all_goals grind

end

/-! ## Running a kernel -/

namespace ckernel

/-- The memory of the buffers, which stays from call to call. -/
def buffers : ckernel T V → Type
  | child _ => Unit
  | buffered_kernel_extra _ first second => (ℤ → V) × first.buffers × second.buffers

/-- A strided entry point; the places and strides are the destination's and the source's. -/
abbrev expr_strided (V σ : Type) :=
  (memory : ℤ → V) → (p stride : ℤ × ℤ) → (count : ℕ) → σ × (ℤ → V) → Except Raised (σ × (ℤ → V))

/-- The first slots, if the type needs that. -/
def memset (zero : Option V) (count : ℕ) (buffer_data : ℤ → V) : ℤ → V :=
  match zero with
  | some zero => fun slot => if 0 ≤ slot ∧ slot < count then zero else buffer_data slot
  | none => buffer_data

section
variable {σ₁ σ₂ : Type} (zero : Option V) (opchild_first : expr_strided V σ₁) (opchild_second : expr_strided V σ₂)

/-- The loop of `buffered_kernel_extra`. -/
def chunks (memory : ℤ → V) (p stride : ℤ × ℤ) (count : ℕ) (st : ((ℤ → V) × σ₁ × σ₂) × (ℤ → V)) :
    Except Raised (((ℤ → V) × σ₁ × σ₂) × (ℤ → V)) :=
  if count = 0 then pure st
  else do
    let chunk_size := min count DYND_BUFFER_CHUNK_SIZE
    let (bufs₁, buffer_data) ← opchild_first memory (0, p.2) (1, stride.2) chunk_size (st.1.2.1, memset zero chunk_size st.1.1)
    let (bufs₂, dst) ← opchild_second buffer_data (p.1, 0) (stride.1, 1) chunk_size (st.1.2.2, st.2)
    chunks memory (p + chunk_size • stride) stride (count - chunk_size) ((buffer_data, bufs₁, bufs₂), dst)
termination_by count
decreasing_by
  unfold DYND_BUFFER_CHUNK_SIZE
  omega

end

variable (zeroinit : T → Option V)

/-- A child's strided entry point is its single one for every element. -/
def strided : (k : ckernel T V) → expr_strided V k.buffers
  | child function => fun memory p stride count st =>
    (fun dst => (st.1, dst)) <$> Lib.strided (convert function memory) p stride count st.2
  | buffered_kernel_extra buffer_tp first second => chunks (zeroinit buffer_tp) (strided first) (strided second)

def single : (k : ckernel T V) → (memory : ℤ → V) → (p : ℤ × ℤ) → k.buffers × (ℤ → V) → Except Raised (k.buffers × (ℤ → V))
  | child function => fun memory p st => (fun dst => (st.1, dst)) <$> convert function memory p st.2
  | buffered_kernel_extra buffer_tp first second => fun memory p st => do
    let (bufs₁, buffer_data) ← single first memory (0, p.2) (st.1.2.1, memset (zeroinit buffer_tp) 1 st.1.1)
    let (bufs₂, dst) ← single second buffer_data (p.1, 0) (st.1.2.2, st.2)
    pure ((buffer_data, bufs₁, bufs₂), dst)

/-- What the kernel does to one value. -/
def value : ckernel T V → expr_single V
  | child function => function
  | buffered_kernel_extra _ first second => fun v => value first v >>= value second

section
variable {σ₁ σ₂ : Type} {zero : Option V} {opchild_first : expr_strided V σ₁} {opchild_second : expr_strided V σ₂}
  {f g : expr_single V}

/-- The children of the loop as functions on values. -/
def loop_children (zero : Option V) (f g : expr_single V) : extra_children V (ℤ → V) where
  zeroinit := zero
  first := f
  second dst v d := Function.update d dst <$> g v

theorem opchild_second_eq (buffer_data : ℤ → V) :
    buffered_kernel_extra.opchild_second (loop_children zero f g) buffer_data = convert g buffer_data := by
  funext p d
  exact (bind_pure_comp _ _).symm

theorem element_eq (memory : ℤ → V) :
    buffered_kernel_extra.element (loop_children zero f g) memory = convert (fun v => f v >>= g) memory := by
  funext p d
  unfold buffered_kernel_extra.element convert
  rw [bind_assoc]
  exact bind_congr fun v => (bind_pure_comp _ _).symm

/-- Apart from the children's buffers, this is the loop of `buffered_kernel_extra`. -/
theorem chunks_view (h₁ : ∀ memory p stride count st, Prod.snd <$> opchild_first memory p stride count st =
      Lib.strided (convert f memory) p stride count st.2)
    (h₂ : ∀ memory p stride count st, Prod.snd <$> opchild_second memory p stride count st =
      Lib.strided (convert g memory) p stride count st.2)
    (memory : ℤ → V) (p stride : ℤ × ℤ) (count : ℕ) (st : ((ℤ → V) × σ₁ × σ₂) × (ℤ → V)) :
    (fun st => ⟨st.1.1, st.2⟩) <$> chunks zero opchild_first opchild_second memory p stride count st =
      buffered_kernel_extra.strided (loop_children zero f g) memory p.1 stride.1 p.2 stride.2 count ⟨st.1.1, st.2⟩ := by
  induction count using Nat.strong_induction_on generalizing p st with
  | _ count ih =>
    unfold chunks buffered_kernel_extra.strided
    by_cases h0 : count = 0
    · rw [if_pos h0, if_pos h0]
      rfl
    · rw [if_neg h0, if_neg h0]
      have hC : 0 < DYND_BUFFER_CHUNK_SIZE := by decide
      dsimp only
      obtain ⟨chunk, hchunk⟩ : ∃ chunk, min count DYND_BUFFER_CHUNK_SIZE = chunk := ⟨_, rfl⟩
      rw [hchunk, map_bind]
      have hfirst : Lib.strided (buffered_kernel_extra.opchild_first (loop_children zero f g) memory) (0, p.2) (1, stride.2)
          chunk (buffered_kernel_extra.memset (loop_children zero f g) chunk st.1.1) =
            Prod.snd <$> opchild_first memory (0, p.2) (1, stride.2) chunk (st.1.2.1, memset zero chunk st.1.1) :=
        (h₁ memory (0, p.2) (1, stride.2) chunk (st.1.2.1, memset zero chunk st.1.1)).symm
      rw [hfirst]
      cases opchild_first memory (0, p.2) (1, stride.2) chunk (st.1.2.1, memset zero chunk st.1.1) with
      | error e => rfl
      | ok run₁ =>
        rw [ok_bind, map_ok, ok_bind, opchild_second_eq, ← h₂ run₁.2 (p.1, 0) (stride.1, 1) chunk (st.1.2.2, st.2)]
        rw [map_bind]
        cases opchild_second run₁.2 (p.1, 0) (stride.1, 1) chunk (st.1.2.2, st.2) with
        | error e => rfl
        | ok run₂ =>
          rw [ok_bind, map_ok, ok_bind]
          exact ih _ (by omega) _ _

theorem chunks_spec (h₁ : ∀ memory p stride count st, Prod.snd <$> opchild_first memory p stride count st =
      Lib.strided (convert f memory) p stride count st.2)
    (h₂ : ∀ memory p stride count st, Prod.snd <$> opchild_second memory p stride count st =
      Lib.strided (convert g memory) p stride count st.2)
    (memory : ℤ → V) (p stride : ℤ × ℤ) (count : ℕ) (st : ((ℤ → V) × σ₁ × σ₂) × (ℤ → V)) :
    Prod.snd <$> chunks zero opchild_first opchild_second memory p stride count st =
      Lib.strided (convert (fun v => f v >>= g) memory) p stride count st.2 := by
  calc Prod.snd <$> chunks zero opchild_first opchild_second memory p stride count st
      = buffered_kernel_extra.State.dst <$> (fun st => (⟨st.1.1, st.2⟩ : buffered_kernel_extra.State V (ℤ → V))) <$>
          chunks zero opchild_first opchild_second memory p stride count st := by
        rw [Functor.map_map]
    _ = Lib.strided (convert (fun v => f v >>= g) memory) p stride count st.2 := by
        rw [chunks_view h₁ h₂, buffered_kernel_extra.strided_spec, element_eq]

theorem chunks_one (memory : ℤ → V) (p stride : ℤ × ℤ) (st : ((ℤ → V) × σ₁ × σ₂) × (ℤ → V)) :
    chunks zero opchild_first opchild_second memory p stride 1 st = (do
      let run₁ ← opchild_first memory (0, p.2) (1, stride.2) 1 (st.1.2.1, memset zero 1 st.1.1)
      let run₂ ← opchild_second run₁.2 (p.1, 0) (stride.1, 1) 1 (st.1.2.2, st.2)
      pure ((run₁.2, run₁.1, run₂.1), run₂.2)) := by
  unfold chunks
  rw [if_neg one_ne_zero]
  refine bind_congr fun run₁ => bind_congr fun run₂ => ?_
  unfold chunks
  rfl

end

variable {zeroinit : T → Option V}

theorem strided_spec (k : ckernel T V) : ∀ (memory : ℤ → V) (p stride : ℤ × ℤ) (count : ℕ) (st : k.buffers × (ℤ → V)),
    Prod.snd <$> k.strided zeroinit memory p stride count st = Lib.strided (convert k.value memory) p stride count st.2 := by
  induction k with
  | child function =>
    intro memory p stride count st
    rw [strided, Functor.map_map]
    exact id_map _
  | buffered_kernel_extra buffer_tp first second ih₁ ih₂ =>
    intro memory p stride count st
    exact chunks_spec ih₁ ih₂ memory p stride count st

/-- One element is a run of length one. -/
theorem single_eq (k : ckernel T V) : ∀ (memory : ℤ → V) (p stride : ℤ × ℤ),
    k.single zeroinit memory p = k.strided zeroinit memory p stride 1 := by
  induction k with
  | child function =>
    intro memory p stride
    funext st
    show _ <$> convert function memory p st.2 = _ <$> Lib.strided (convert function memory) p stride 1 st.2
    rw [strided_one]
  | buffered_kernel_extra buffer_tp first second ih₁ ih₂ =>
    intro memory p stride
    funext ⟨⟨buffer_data, bufs₁, bufs₂⟩, dst⟩
    refine Eq.trans ?_ (chunks_one memory p stride ((buffer_data, bufs₁, bufs₂), dst)).symm
    rw [← ih₁ memory (0, p.2) (1, stride.2)]
    refine bind_congr fun run₁ => ?_
    rw [← ih₂ run₁.2 (p.1, 0) (stride.1, 1)]
    rfl

theorem single_spec (k : ckernel T V) (memory : ℤ → V) (p : ℤ × ℤ) (st : k.buffers × (ℤ → V)) :
    Prod.snd <$> k.single zeroinit memory p st = convert k.value memory p st.2 := by
  rw [single_eq k memory p 0, strided_spec, strided_one]

/-! ## The steps of a conversion -/

/-- The children, in the order in which they run. -/
def children : ckernel T V → List (expr_single V)
  | child function => [function]
  | buffered_kernel_extra _ first second => first.children ++ second.children

/-- The types of the buffers between the children. -/
def buffer_tps : ckernel T V → List T
  | child _ => []
  | buffered_kernel_extra buffer_tp first second => first.buffer_tps ++ buffer_tp :: second.buffer_tps

end ckernel

/-- One function after the other. -/
def compose (functions : List (expr_single V)) : expr_single V :=
  fun v => functions.foldlM (fun v function => function v) v

theorem ckernel.value_eq (k : ckernel T V) : k.value = compose k.children := by
  induction k with
  | child function =>
    funext v
    exact (bind_pure _).symm
  | buffered_kernel_extra buffer_tp first second ih₁ ih₂ =>
    funext v
    unfold compose
    rw [children, List.foldlM_append, value, ih₁, ih₂]
    rfl

/-- A step of a conversion, with the type of what it leaves. -/
structure stage (T V ε : Type) where
  dst_tp : T
  kernel : Except ε (expr_single V)

namespace scalar_type

/-- From the stored value to the value. -/
def reads : scalar_type T V ε → List (stage T V ε)
  | plain _ => []
  | expr value_type operand_type operand_to_value _ => operand_type.reads ++ [⟨value_type, operand_to_value⟩]

/-- And back. -/
def writes : scalar_type T V ε → List (stage T V ε)
  | plain _ => []
  | expr _ operand_type _ value_to_operand => ⟨operand_type.value_type, value_to_operand⟩ :: operand_type.writes

end scalar_type

section
variable [DecidableEq T] (c : conversions T V ε)

def converts (dst_tp src_tp : T) : stage T V ε := ⟨dst_tp, c.make_assignment_kernel dst_tp src_tp⟩

/-- Values of one type need a step between the chains only if there are none. -/
def steps : scalar_type T V ε → scalar_type T V ε → List (stage T V ε)
  | .plain dst_tp, .plain src_tp => [converts c dst_tp src_tp]
  | dst_tp, src_tp =>
    src_tp.reads ++ (if dst_tp.value_type = src_tp.value_type then [] else [converts c dst_tp.value_type src_tp.value_type]) ++
      dst_tp.writes

end

/-- The kernel has these steps as its children, and buffers for what lies between them. -/
def Builds (made : Except ε (ckernel T V)) (steps : List (stage T V ε)) : Prop :=
  (fun k => (k.children, k.buffer_tps)) <$> made =
    (fun functions => (functions, (steps.map stage.dst_tp).dropLast)) <$> steps.mapM stage.kernel

theorem builds_child (s : stage T V ε) : Builds (ckernel.child <$> s.kernel) [s] := by
  unfold Builds
  rw [List.mapM_cons, List.mapM_nil]
  cases s.kernel <;> rfl

theorem builds_buffered {first second : Except ε (ckernel T V)} {before after : List (stage T V ε)} {s : stage T V ε}
    (h₁ : Builds first (before ++ [s])) (h₂ : Builds second after) (hafter : after ≠ []) :
    Builds (make_buffered s.dst_tp first second) (before ++ [s] ++ after) := by
  unfold Builds at *
  have htps : ((before ++ [s] ++ after).map stage.dst_tp).dropLast =
      ((before ++ [s]).map stage.dst_tp).dropLast ++ s.dst_tp :: (after.map stage.dst_tp).dropLast := by
    rw [List.map_append, List.dropLast_append_of_ne_nil (by simpa using hafter), List.map_append, List.map_singleton,
      List.dropLast_concat, List.append_assoc]
    rfl
  rw [htps, List.mapM_append]
  unfold make_buffered
  cases first with
  | error e =>
    rw [map_error] at h₁
    rw [map_eq_error.mp h₁.symm]
    rfl
  | ok k₁ =>
    obtain ⟨functions₁, hrun₁, hpair₁⟩ := map_eq_ok.mp h₁.symm
    obtain ⟨hchildren₁, htps₁⟩ := Prod.mk.inj hpair₁
    cases second with
    | error e =>
      rw [map_error] at h₂
      rw [hrun₁, map_eq_error.mp h₂.symm]
      rfl
    | ok k₂ =>
      obtain ⟨functions₂, hrun₂, hpair₂⟩ := map_eq_ok.mp h₂.symm
      obtain ⟨hchildren₂, htps₂⟩ := Prod.mk.inj hpair₂
      rw [hrun₁, hrun₂, hchildren₁, htps₁, hchildren₂, htps₂]
      rfl

open scalar_type

theorem writes_ne_nil {value_type : T} {operand_type : scalar_type T V ε}
    {operand_to_value value_to_operand : Except ε (expr_single V)} :
    (expr value_type operand_type operand_to_value value_to_operand).writes ≠ [] := List.cons_ne_nil _ _

section
variable [DecidableEq T] {c : conversions T V ε}

/-- The destination's chain. -/
theorem builds_writes (value_type : T) (operand_type : scalar_type T V ε)
    (operand_to_value value_to_operand : Except ε (expr_single V)) :
    Builds (make_assignment_kernel c (expr value_type operand_type operand_to_value value_to_operand) (plain value_type))
      (expr value_type operand_type operand_to_value value_to_operand).writes := by
  induction operand_type generalizing value_type operand_to_value value_to_operand with
  | plain tp =>
    rw [make_assignment_kernel, if_pos rfl]
    exact builds_child ⟨tp, value_to_operand⟩
  | expr buffer_tp operand_type from_operand to_operand ih =>
    rw [make_assignment_kernel, if_pos rfl]
    exact @builds_buffered T V ε _ _ [] _ ⟨buffer_tp, value_to_operand⟩ (builds_child ⟨buffer_tp, value_to_operand⟩)
      (ih buffer_tp from_operand to_operand) (List.cons_ne_nil _ _)

/-- The source's chain. -/
theorem builds_reads (value_type : T) (operand_type : scalar_type T V ε)
    (operand_to_value value_to_operand : Except ε (expr_single V)) :
    Builds (make_assignment_kernel c (plain value_type) (expr value_type operand_type operand_to_value value_to_operand))
      (expr value_type operand_type operand_to_value value_to_operand).reads := by
  induction operand_type generalizing value_type operand_to_value value_to_operand with
  | plain tp =>
    rw [make_assignment_kernel, if_pos rfl]
    exact builds_child ⟨value_type, operand_to_value⟩
  | expr buffer_tp operand_type from_operand to_operand ih =>
    rw [make_assignment_kernel, if_pos rfl]
    exact builds_buffered (s := ⟨buffer_tp, from_operand⟩) (ih buffer_tp from_operand to_operand)
      (builds_child ⟨value_type, operand_to_value⟩) (List.cons_ne_nil _ _)

theorem builds_converts (dst_tp src_tp : T) :
    Builds (make_assignment_kernel c (plain dst_tp) (plain src_tp)) [converts c dst_tp src_tp] := by
  rw [make_assignment_kernel]
  exact builds_child (converts c dst_tp src_tp)

/-- The conversion of the value, if there is one, and the destination's chain. -/
def stores (c : conversions T V ε) (dst_tp : scalar_type T V ε) (src_tp : T) : List (stage T V ε) :=
  (if dst_tp.value_type = src_tp then [] else [converts c dst_tp.value_type src_tp]) ++ dst_tp.writes

theorem builds_stores (src_tp value_type : T) (operand_type : scalar_type T V ε)
    (operand_to_value value_to_operand : Except ε (expr_single V)) :
    Builds (make_assignment_kernel c (expr value_type operand_type operand_to_value value_to_operand) (plain src_tp))
      (stores c (expr value_type operand_type operand_to_value value_to_operand) src_tp) := by
  unfold stores
  rw [scalar_type.value_type]
  by_cases heq : value_type = src_tp
  · rw [if_pos heq, ← heq]
    exact builds_writes value_type operand_type operand_to_value value_to_operand
  · rw [if_neg heq, make_assignment_kernel.eq_def]
    dsimp only
    rw [if_neg (Ne.symm heq)]
    exact @builds_buffered T V ε _ _ [] _ (converts c value_type src_tp) (builds_converts value_type src_tp)
      (builds_writes value_type operand_type operand_to_value value_to_operand) writes_ne_nil

theorem stores_ne_nil {src_tp value_type : T} {operand_type : scalar_type T V ε}
    {operand_to_value value_to_operand : Except ε (expr_single V)} :
    stores c (expr value_type operand_type operand_to_value value_to_operand) src_tp ≠ [] :=
  List.append_ne_nil_of_right_ne_nil _ writes_ne_nil

theorem builds_steps (dst_tp src_tp : scalar_type T V ε) :
    Builds (make_assignment_kernel c dst_tp src_tp) (steps c dst_tp src_tp) := by
  cases src_tp with
  | plain src_tp =>
    cases dst_tp with
    | plain dst_tp => exact builds_converts dst_tp src_tp
    | expr value_type operand_type operand_to_value value_to_operand =>
      exact builds_stores src_tp value_type operand_type operand_to_value value_to_operand
  | expr buffer_tp opdt from_operand to_operand =>
    have hreads := builds_reads (c := c) buffer_tp opdt from_operand to_operand
    cases dst_tp with
    | plain dst_tp =>
      by_cases heq : dst_tp = buffer_tp
      · have hsteps : steps c (plain dst_tp) (expr buffer_tp opdt from_operand to_operand) =
            (expr buffer_tp opdt from_operand to_operand).reads := by
          simp [steps, writes, scalar_type.value_type, heq]
        rw [hsteps, heq]
        exact hreads
      · have hsteps : steps c (plain dst_tp) (expr buffer_tp opdt from_operand to_operand) =
            (expr buffer_tp opdt from_operand to_operand).reads ++ [converts c dst_tp buffer_tp] := by
          simp [steps, writes, scalar_type.value_type, heq]
        rw [hsteps, make_assignment_kernel.eq_def]
        dsimp only
        rw [if_neg heq]
        exact builds_buffered (s := ⟨buffer_tp, from_operand⟩) hreads (builds_converts dst_tp buffer_tp) (List.cons_ne_nil _ _)
    | expr value_type operand_type operand_to_value value_to_operand =>
      have hsteps : steps c (expr value_type operand_type operand_to_value value_to_operand)
            (expr buffer_tp opdt from_operand to_operand) =
          (expr buffer_tp opdt from_operand to_operand).reads ++
            stores c (expr value_type operand_type operand_to_value value_to_operand) buffer_tp := List.append_assoc _ _ _
      rw [hsteps, make_assignment_kernel]
      exact builds_buffered (s := ⟨buffer_tp, from_operand⟩) hreads
        (builds_stores buffer_tp value_type operand_type operand_to_value value_to_operand) stores_ne_nil

/-- On one element and on a run of them, whatever the buffers hold. -/
def Performs (zeroinit : T → Option V) (k : ckernel T V) (function : expr_single V) : Prop :=
  (∀ memory p st, Prod.snd <$> k.single zeroinit memory p st = convert function memory p st.2) ∧
    ∀ memory p stride count st, Prod.snd <$> k.strided zeroinit memory p stride count st =
      Lib.strided (convert function memory) p stride count st.2

end

end Dynd.ExprAssign
