import Dynd.Broadcast
import Dynd.BroadcastToShape
import Dynd.Lib.Odometer
/-!
# Array iterators

`array_iter`: an index counts through the broadcast shape, and each operand
has a chain of records, the one of its last dimension first, that hands its
data pointer down from the dimension that counts on.

`iterates_iff`: an iterator visits every index once, in C order, at the
addresses that broadcasting assigns, unless an operand is a scalar whose type
is not builtin; its chain is asked of a type that has none.
-/
namespace Dynd.ArrayIter
open Lib FixedDim Broadcast BroadcastToShape

/-! ## Operands -/

/-- The type of the elements. A string, bytes or expression type has an iterdata size, and no other that is not builtin. -/
inductive dtype where
  | builtin
  | extended (print : String) (has_iterdata_size : Bool)

/-- An array of fixed dims. -/
structure operand where
  dims : List size_stride_t
  tp : dtype
  data : ℤ
  sizes : ∀ m ∈ dims, 0 ≤ m.dim_size
  normalized : ∀ m ∈ dims, m.dim_size = 1 → m.stride = 0

def operand.shape (op : operand) : List ℤ := op.dims.map (·.dim_size)

inductive error where
  | broadcast_error (e : BroadcastToShape.broadcast_error)
  | broadcast_error_inputs (e : Broadcast.broadcast_error)
  | runtime_error (what : String)

/-! ## The chain of an operand -/

/-- `fixed_dim_type_iterdata`, and the terminator, whose data is not set when it is made. -/
inductive iterdata where
  | fixed_dim (data stride : ℤ)
  | terminator (data : Option ℤ)

/-- `none` where memory behind the chain, or data that was not set, is read. -/
def incr : List iterdata → ℕ → Option (List iterdata × ℤ)
  | [], _ => none
  | .fixed_dim data stride :: rest, 0 => some (.fixed_dim (data + stride) stride :: rest, data + stride)
  | .fixed_dim _ stride :: rest, level + 1 => do
    let (rest, data) ← incr rest level
    return (.fixed_dim data stride :: rest, data)
  | .terminator data :: rest, _ => do return (.terminator data :: rest, ← data)

def reset : List iterdata → ℤ → ℕ → Option (List iterdata × ℤ)
  | [], _, _ => none
  | .fixed_dim _ stride :: rest, data, ndim =>
    if ndim = 1 then some (.fixed_dim data stride :: rest, data)
    else do
      let (rest, data) ← reset rest data (ndim - 1)
      return (.fixed_dim data stride :: rest, data)
  | .terminator _ :: rest, data, _ => some (.terminator (some data) :: rest, data)

/-- The inner dimensions are placed before the outer ones. -/
def iterdata_construct : List size_stride_t → List iterdata
  | [] => []
  | md :: dims => iterdata_construct dims ++ [.fixed_dim 0 md.stride]

/-- `get_broadcasted_iterdata_size` and `broadcasted_iterdata_construct`; a type that is not builtin has the functions of its class. -/
def broadcasted_iterdata_construct (op : operand) : Except error (List iterdata) :=
  match op.dims, op.tp with
  | [], .builtin => .ok [.terminator none]
  | [], .extended print has_iterdata_size =>
    if has_iterdata_size then
      .error (.runtime_error ("iterdata_default_construct: dynd type " ++ print ++ " is not uniformly iterable"))
    else .error (.runtime_error ("get_iterdata_size: dynd type " ++ print ++ " is not uniformly iterable"))
  | dims, _ => .ok (iterdata_construct dims ++ [.terminator none])

/-! ## The iterator -/

structure array_iter where
  m_iterindex : List ℕ
  m_itershape : List ℤ
  m_data : List ℤ
  m_iterdata : List (List iterdata)

/-- All the chains are made and set to the start; `own` are the operands that are not broadcast. A chain that
cannot be set is undefined behaviour. -/
def init (m_itershape : List ℤ) (own broadcasted : List operand) : Except error (Option array_iter) :=
  let ndim := m_itershape.length
  if ndim ≠ 0 then do
    let chains ← broadcasted.mapM broadcasted_iterdata_construct
    let chains := own.map (fun op => iterdata_construct op.dims) ++ chains
    let started := (chains.zip (own ++ broadcasted)).mapM fun (chain, op) => reset chain op.data ndim
    return started.map fun started =>
      ⟨List.replicate ndim 0, m_itershape, started.map (·.2), started.map (·.1)⟩
  else .ok (some ⟨[], [], (own ++ broadcasted).map (·.data), []⟩)

/-- `array_iter<1, 0>` and `array_iter<1, 1>`: the operands are broadcast to the one that is written. -/
def make_write (dst : operand) (srcs : List operand) : Except error (Option array_iter) :=
  match srcs.find? fun src => !shape_can_broadcast dst.shape src.shape with
  | some src => .error (.broadcast_error ⟨dst.shape, src.shape⟩)
  | none => init dst.shape [dst] srcs

/-- `array_iter<0, 2>`: the operands are broadcast together. -/
def make_read (ops : List operand) : Except error (Option array_iter) :=
  match broadcast_input_shapes (ops.map operand.shape) with
  | .error e => .error (.broadcast_error_inputs e)
  | .ok result => init result.out_shape [] ops

/-- False, and the index of the start, at the end. -/
def array_iter.next (it : array_iter) : Option (Bool × array_iter) :=
  match odometer it.m_itershape it.m_itershape.length it.m_iterindex with
  | (m_iterindex, none) => some (false, { it with m_iterindex := m_iterindex })
  | (m_iterindex, some i) => do
    let moved ← it.m_iterdata.mapM fun chain => incr chain (it.m_itershape.length - i - 1)
    return (true, ⟨m_iterindex, it.m_itershape, moved.map (·.2), moved.map (·.1)⟩)

/-- `do { visit } while (iter.next())`, in at most so many visits. -/
def array_iter.visits : ℕ → array_iter → Option (List (List ℕ × List ℤ))
  | 0, _ => none
  | fuel + 1, it => do
    let (more, next) ← it.next
    let rest ← if more then visits fuel next else some []
    return (it.m_iterindex, it.m_data) :: rest

/-! ## What is visited -/

/-- The element that broadcasting assigns to an index: the last dims are aligned, and one of size one repeats its element. -/
def operand.address (op : operand) (index : List ℕ) : ℤ :=
  op.data + elementOffset op.dims (index.drop (index.length - op.dims.length))

/-- Every index of the shape, with the address of each operand's element. -/
def Visits (made : Except error (Option array_iter)) (shape : List ℤ) (ops : List operand) : Prop :=
  ∃ it fuel, made = .ok (some it) ∧
    it.visits fuel = some ((multiIndices shape).map fun index => (index, ops.map (·.address index)))

/-- What an iterator is made of. -/
inductive arguments where
  | write (dst : operand) (srcs : List operand)
  | read (ops : List operand)

namespace arguments

def make : arguments → Except error (Option array_iter)
  | write dst srcs => make_write dst srcs
  | read ops => make_read ops

def operands : arguments → List operand
  | write dst srcs => dst :: srcs
  | read ops => ops

/-- The operands that are broadcast. -/
def broadcasted : arguments → List operand
  | write _ srcs => srcs
  | read ops => ops

/-- The shape of the iteration, where the operands broadcast. -/
def shape : arguments → Option (List ℤ)
  | write dst srcs => if ∀ src ∈ srcs, shape_can_broadcast dst.shape src.shape then some dst.shape else none
  | read ops => (broadcast_input_shapes (ops.map operand.shape)).toOption.map (·.out_shape)

/-- Operands that broadcast to a shape without a zero are visited as they should be. -/
def Iterates (args : arguments) : Prop :=
  ∀ shape, args.shape = some shape → (∀ d ∈ shape, d ≠ 0) → Visits args.make shape args.operands

end arguments

/-- Scalars that are broadcast have a builtin type. -/
def BuiltinScalars (ops : List operand) : Prop := ∀ op ∈ ops, op.dims = [] → op.tp = .builtin

/-! ## The records of an operand -/

/-- The record of a dimension. -/
def iterdata.IsDim : iterdata → Prop
  | .fixed_dim _ _ => True
  | .terminator _ => False

/-- The record, with its data set. -/
def iterdata.set (data : ℤ) : iterdata → iterdata
  | .fixed_dim _ stride => .fixed_dim data stride
  | .terminator old => .terminator old

/-- The chain of some dims at an index, the inner ones first. -/
def chainAt : ℤ → List size_stride_t → List ℕ → List iterdata
  | _, [], _ => []
  | data, md :: dims, index =>
    chainAt (data + index.headI * md.stride) dims index.tail ++ [.fixed_dim (data + index.headI * md.stride) md.stride]

theorem length_chainAt (data : ℤ) (dims : List size_stride_t) (index : List ℕ) : (chainAt data dims index).length = dims.length := by
  induction dims generalizing data index with
  | nil => rfl
  | cons md dims ih =>
    rw [chainAt, List.length_append, ih]
    rfl

theorem chainAt_isDim {data : ℤ} {dims : List size_stride_t} {index : List ℕ} : ∀ r ∈ chainAt data dims index, r.IsDim := by
  induction dims generalizing data index with
  | nil =>
    intro r hr
    cases hr
  | cons md dims ih =>
    intro r hr
    rw [chainAt] at hr
    rcases List.mem_append.mp hr with hr | hr
    · exact ih r hr
    · cases List.mem_singleton.mp hr
      trivial

theorem chainAt_zeros (data : ℤ) (md : size_stride_t) (dims : List size_stride_t) (n : ℕ) :
    chainAt data (md :: dims) (List.replicate n 0) =
      chainAt data dims (List.replicate (n - 1) 0) ++ [.fixed_dim data md.stride] := by
  have hhead : (List.replicate n 0).headI = 0 := by
    cases n <;> rfl
  rw [chainAt, hhead, Nat.cast_zero, zero_mul, add_zero, List.tail_replicate]

/-- All records of a chain that starts again have the same data. -/
theorem map_set_chainAt (data start : ℤ) (dims : List size_stride_t) (index : List ℕ) (n : ℕ) :
    (chainAt data dims index).map (iterdata.set start) = chainAt start dims (List.replicate n 0) := by
  induction dims generalizing data index n with
  | nil => rfl
  | cons md dims ih =>
    rw [chainAt_zeros, chainAt, List.map_append, ih]
    rfl

/-- The records that are made are those of a chain, but for the data. -/
theorem map_set_construct (data : ℤ) (dims : List size_stride_t) (n : ℕ) :
    (iterdata_construct dims).map (iterdata.set data) = chainAt data dims (List.replicate n 0) := by
  induction dims generalizing n with
  | nil => rfl
  | cons md dims ih =>
    rw [chainAt_zeros, iterdata_construct, List.map_append, ih]
    rfl

theorem length_construct (dims : List size_stride_t) : (iterdata_construct dims).length = dims.length := by
  induction dims with
  | nil => rfl
  | cons md dims ih =>
    rw [iterdata_construct, List.length_append, ih]
    rfl

theorem construct_isDim {dims : List size_stride_t} : ∀ r ∈ iterdata_construct dims, r.IsDim := by
  induction dims with
  | nil =>
    intro r hr
    cases hr
  | cons md dims ih =>
    intro r hr
    rcases List.mem_append.mp hr with hr | hr
    · exact ih r hr
    · cases List.mem_singleton.mp hr
      trivial

variable {chain tail : List iterdata} {data : ℤ}

/-- What the records behind a chain give is handed down through it. -/
theorem incr_through (hchain : ∀ r ∈ chain, r.IsDim) (level : ℕ) : incr (chain ++ tail) (chain.length + level) =
    (incr tail level).map fun (moved, data) => (chain.map (iterdata.set data) ++ moved, data) := by
  induction chain with
  | nil =>
    rw [List.nil_append, List.length_nil, Nat.zero_add]
    exact Option.map_id'.symm
  | cons r chain ih =>
    obtain ⟨hr, hrest⟩ := List.forall_mem_cons.mp hchain
    cases r with
    | terminator old => cases hr
    | fixed_dim old stride =>
      rw [List.cons_append, List.length_cons, Nat.add_right_comm, incr, ih hrest]
      cases incr tail level <;> rfl

theorem reset_through (hchain : ∀ r ∈ chain, r.IsDim) (data : ℤ) {ndim : ℕ} (hndim : chain.length < ndim) :
    reset (chain ++ tail) data ndim =
      (reset tail data (ndim - chain.length)).map fun (moved, data) => (chain.map (iterdata.set data) ++ moved, data) := by
  induction chain generalizing ndim with
  | nil =>
    rw [List.nil_append, List.length_nil, Nat.sub_zero]
    exact Option.map_id'.symm
  | cons r chain ih =>
    obtain ⟨hr, hrest⟩ := List.forall_mem_cons.mp hchain
    rw [List.length_cons] at hndim
    cases r with
    | terminator old => cases hr
    | fixed_dim old stride =>
      rw [List.cons_append, reset, if_neg (by omega), ih hrest (by omega), List.length_cons, Nat.sub_sub, Nat.add_comm 1]
      cases reset tail data (ndim - (chain.length + 1)) <;> rfl

/-- The records behind the last dim are not reached. -/
theorem reset_within (hchain : ∀ r ∈ chain, r.IsDim) (hne : chain ≠ []) (data : ℤ) :
    reset (chain ++ tail) data chain.length = some (chain.map (iterdata.set data) ++ tail, data) := by
  induction chain with
  | nil => exact absurd rfl hne
  | cons r chain ih =>
    obtain ⟨hr, hrest⟩ := List.forall_mem_cons.mp hchain
    cases r with
    | terminator old => cases hr
    | fixed_dim old stride =>
      rw [List.cons_append, reset, List.length_cons]
      rcases chain with _ | ⟨r, chain⟩
      · exact if_pos rfl
      · rw [if_neg (by simp), Nat.add_sub_cancel, ih hrest (List.cons_ne_nil _ _)]
        rfl

/-- The offset of the element at an index, as the records add it up. -/
def offset : List size_stride_t → List ℕ → ℤ
  | [], _ => 0
  | md :: dims, index => index.headI * md.stride + offset dims index.tail

theorem offset_zeros (dims : List size_stride_t) (n : ℕ) : offset dims (List.replicate n 0) = 0 := by
  induction dims generalizing n with
  | nil => rfl
  | cons md dims ih =>
    have hhead : (List.replicate n 0).headI = 0 := by
      cases n <;> rfl
    rw [offset, hhead, List.tail_replicate, ih, Nat.cast_zero, zero_mul, add_zero]

/-- A step within the dims of the chain. By induction on the axis that counts on, which is reached through the
records of the dims behind it. -/
theorem incr_within {axis : ℕ} {index next : List ℕ} (h : Carry axis index next) {dims : List size_stride_t}
    (hlen : index.length = dims.length) (data : ℤ) (tail : List iterdata) :
    incr (chainAt data dims index ++ tail) (dims.length - axis - 1) =
      some (chainAt data dims next ++ tail, data + offset dims next) := by
  induction h generalizing dims data tail with
  | here i index =>
    obtain ⟨md, dims, rfl⟩ := List.exists_cons_of_length_eq_add_one hlen.symm
    have hthrough := @incr_through (chainAt (data + i * md.stride) dims index) (.fixed_dim (data + i * md.stride) md.stride :: tail)
      chainAt_isDim 0
    have hnext : data + ((i + 1 : ℕ) : ℤ) * md.stride = data + i * md.stride + md.stride := by
      push_cast
      ring
    rw [length_chainAt] at hthrough
    rw [chainAt, chainAt, offset, List.headI_cons, List.headI_cons, List.tail_cons, List.tail_cons, offset_zeros, hnext, add_zero,
      List.append_assoc, List.append_assoc, List.length_cons, Nat.sub_zero, Nat.add_sub_cancel]
    refine hthrough.trans ?_
    rw [incr, Option.map_some]
    dsimp only
    rw [map_set_chainAt _ _ _ _ index.length, hnext]
    rfl
  | behind i h ih =>
    obtain ⟨md, dims, rfl⟩ := List.exists_cons_of_length_eq_add_one hlen.symm
    rw [chainAt, chainAt, offset, List.headI_cons, List.headI_cons, List.tail_cons, List.tail_cons, List.append_assoc,
      List.append_assoc, List.length_cons, Nat.add_sub_add_right, ← add_assoc]
    exact ih (Nat.succ.inj hlen) _ _

/-! ## The chain of an operand -/

namespace operand
variable (op : operand)

/-- The chain is at an index of the iteration. The record behind it is reached only if the operand has fewer dims. -/
def Follows (index : List ℕ) (chain : List iterdata) : Prop :=
  op.dims.length ≤ index.length ∧
    ∃ tail, chain = chainAt op.data op.dims (index.drop (index.length - op.dims.length)) ++ tail ∧
      (op.dims.length < index.length → tail = [.terminator (some op.data)])

variable {op}

/-- A size of one has a stride of zero, so the records need not tell it apart. -/
theorem elementOffset_eq {dims : List size_stride_t} (hdims : ∀ m ∈ dims, m.dim_size = 1 → m.stride = 0) {index : List ℕ}
    (hlen : index.length = dims.length) : elementOffset dims index = offset dims index := by
  induction dims generalizing index with
  | nil =>
    obtain rfl := List.length_eq_zero_iff.mp hlen
    rfl
  | cons m dims ih =>
    obtain ⟨i, index, rfl⟩ := List.exists_cons_of_length_eq_add_one hlen
    obtain ⟨hm, hdims⟩ := List.forall_mem_cons.mp hdims
    rw [elementOffset, offset, ih hdims (Nat.succ.inj hlen), List.headI_cons, List.tail_cons]
    by_cases hone : m.dim_size = 1
    · rw [hm hone, mul_zero, mul_zero]
    · rw [if_neg hone]

theorem address_eq {index : List ℕ} (hle : op.dims.length ≤ index.length) :
    op.address index = op.data + offset op.dims (index.drop (index.length - op.dims.length)) := by
  rw [address, elementOffset_eq op.normalized]
  rw [List.length_drop]
  omega

theorem address_zeros {ndim : ℕ} (hle : op.dims.length ≤ ndim) : op.address (List.replicate ndim 0) = op.data := by
  rw [address_eq (by rwa [List.length_replicate]), List.drop_replicate, offset_zeros, add_zero]

/-- A step of the iteration leads the chain to the next index, and gives the address of its element. -/
theorem Follows.incr {axis : ℕ} {index next : List ℕ} (hcarry : Carry axis index next) {chain : List iterdata}
    (h : op.Follows index chain) : ∃ moved, incr chain (index.length - axis - 1) = some (moved, op.address next) ∧
      op.Follows next moved := by
  obtain ⟨hle, tail, rfl, htail⟩ := h
  have haxis := hcarry.lt
  have hlen := hcarry.length
  have hfollows : op.Follows next (chainAt op.data op.dims (next.drop (next.length - op.dims.length)) ++ tail) :=
    ⟨hlen ▸ hle, tail, rfl, hlen ▸ htail⟩
  refine ⟨_, ?_, hfollows⟩
  rw [address_eq (hlen ▸ hle), hlen]
  rcases le_or_gt (index.length - op.dims.length) axis with hin | hbefore
  · have hwithin := @incr_within _ _ _ (hcarry.drop hin) op.dims (by rw [List.length_drop]; omega) op.data tail
    have hlevel : op.dims.length - (axis - (index.length - op.dims.length)) - 1 = index.length - axis - 1 := by omega
    rwa [hlevel] at hwithin
  · -- an axis that the operand does not have counts on: its own start again
    rw [hcarry.drop_zero hbefore, offset_zeros, add_zero, htail (by omega)]
    have hthrough := @incr_through (chainAt op.data op.dims (index.drop (index.length - op.dims.length))) [.terminator (some op.data)]
      chainAt_isDim (index.length - op.dims.length - axis - 1)
    have hlevel : op.dims.length + (index.length - op.dims.length - axis - 1) = index.length - axis - 1 := by omega
    rw [length_chainAt, hlevel] at hthrough
    rw [hthrough, ← map_set_chainAt op.data op.data op.dims (index.drop (index.length - op.dims.length))]
    rfl

/-- The chain that is made and reset is at the first index. -/
theorem follows_reset {ndim : ℕ} (hpos : 0 < ndim) (hle : op.dims.length ≤ ndim) {tail : List iterdata}
    (htail : op.dims.length < ndim → tail = [.terminator none]) :
    ∃ chain, reset (iterdata_construct op.dims ++ tail) op.data ndim = some (chain, op.address (List.replicate ndim 0)) ∧
      op.Follows (List.replicate ndim 0) chain := by
  rw [address_zeros hle]
  unfold Follows
  rw [List.length_replicate, List.drop_replicate, ← map_set_construct]
  rcases hle.lt_or_eq with hlt | heq
  · refine ⟨(iterdata_construct op.dims).map (iterdata.set op.data) ++ [.terminator (some op.data)], ?_, hle, _, rfl, fun _ => rfl⟩
    rw [htail hlt, reset_through construct_isDim op.data (by rwa [length_construct])]
    rfl
  · refine ⟨(iterdata_construct op.dims).map (iterdata.set op.data) ++ tail, ?_, hle, tail, rfl, fun hlt => absurd heq hlt.ne⟩
    have hne : iterdata_construct op.dims ≠ [] := by
      rw [← List.length_pos_iff, length_construct, heq]
      exact hpos
    have hwithin := @reset_within (iterdata_construct op.dims) tail construct_isDim hne op.data
    rwa [length_construct, heq] at hwithin

end operand

/-! ## The loop over the iterator -/

/-- Computations that all give something. -/
theorem mapM_some {α β γ : Type} {R : α → β → Prop} {S : α → γ → Prop} {f : β → Option γ} {as : List α} {bs : List β}
    (h : List.Forall₂ R as bs) (hf : ∀ a b, R a b → ∃ c, f b = some c ∧ S a c) :
    ∃ cs, bs.mapM f = some cs ∧ List.Forall₂ S as cs := by
  induction h with
  | nil => exact ⟨[], rfl, .nil⟩
  | cons hab _ ih =>
    obtain ⟨c, hc, hs⟩ := hf _ _ hab
    obtain ⟨cs, hcs, hall⟩ := ih
    refine ⟨c :: cs, ?_, .cons hs hall⟩
    rw [List.mapM_cons, hc, hcs]
    rfl

variable {ops : List operand} {shape : List ℤ} {r : ℕ} {it : array_iter}

/-- The iterator is at the `r`-th index of the shape. -/
structure At (ops : List operand) (shape : List ℤ) (r : ℕ) (it : array_iter) : Prop where
  index : it.m_iterindex = digits shape r
  itershape : it.m_itershape = shape
  data : it.m_data = ops.map (·.address (digits shape r))
  follows : shape ≠ [] → List.Forall₂ (fun op chain => op.Follows (digits shape r) chain) ops it.m_iterdata

/-- What the chains give, and the chains themselves. -/
theorem moved_data {index : List ℕ} {moved : List (List iterdata × ℤ)}
    (h : List.Forall₂ (fun (op : operand) m => m.2 = op.address index ∧ op.Follows index m.1) ops moved) :
    moved.map (·.2) = ops.map (·.address index) ∧
      List.Forall₂ (fun op chain => op.Follows index chain) ops (moved.map (·.1)) := by
  induction h with
  | nil => exact ⟨rfl, .nil⟩
  | cons hfirst _ ih => exact ⟨congrArg₂ List.cons hfirst.1 ih.1, .cons hfirst.2 ih.2⟩

theorem At.next (hshape : ∀ d ∈ shape, 0 < d) (hr : r < volume shape) (h : At ops shape r it) :
    (r + 1 = volume shape ∧ ∃ last, it.next = some (false, last)) ∨
      r + 1 < volume shape ∧ ∃ next, it.next = some (true, next) ∧ At ops shape (r + 1) next := by
  unfold array_iter.next
  rw [h.index, h.itershape]
  obtain ⟨hlast, hloop⟩ | ⟨hmore, axis, hloop, hcarry⟩ := odometer_digits hshape hr
  · left
    rw [hloop]
    exact ⟨hlast, _, rfl⟩
  · right
    refine ⟨hmore, ?_⟩
    have hne : shape ≠ [] := by
      rintro rfl
      exact absurd hcarry.lt (Nat.not_lt_zero axis)
    obtain ⟨moved, hmoved, hall⟩ := mapM_some (S := fun (op : operand) (m : List iterdata × ℤ) =>
      m.2 = op.address (digits shape (r + 1)) ∧ op.Follows (digits shape (r + 1)) m.1) (h.follows hne) fun op chain hop => by
        obtain ⟨moved, hincr, hfollows⟩ := hop.incr hcarry
        exact ⟨_, hincr, rfl, hfollows⟩
    rw [length_digits] at hmoved
    obtain ⟨hdata, hfollows⟩ := moved_data hall
    rw [hloop]
    dsimp only
    rw [hmoved]
    exact ⟨_, rfl, rfl, rfl, hdata, fun _ => hfollows⟩

theorem visits_last {last : array_iter} (h : it.next = some (false, last)) (fuel : ℕ) :
    it.visits (fuel + 1) = some [(it.m_iterindex, it.m_data)] := by
  rw [array_iter.visits, h]
  rfl

theorem visits_more {next : array_iter} (h : it.next = some (true, next)) (fuel : ℕ) :
    it.visits (fuel + 1) = (next.visits fuel).map ((it.m_iterindex, it.m_data) :: ·) := by
  rw [array_iter.visits, h]
  change (next.visits fuel).bind _ = _
  cases next.visits fuel <;> rfl

/-- The loop visits the index it is at and all behind it. By induction on how many these are. -/
theorem At.visits (hshape : ∀ d ∈ shape, 0 < d) {n : ℕ} (hn : r + n + 1 = volume shape) (h : At ops shape r it) :
    it.visits (n + 1) = some ((List.range' r (n + 1)).map fun r => (digits shape r, ops.map (·.address (digits shape r)))) := by
  induction n generalizing r it with
  | zero =>
    obtain ⟨-, last, hnext⟩ | ⟨hmore, -⟩ := h.next hshape (by omega)
    · rw [visits_last hnext, h.index, h.data]
      rfl
    · omega
  | succ n ih =>
    obtain ⟨hlast, -⟩ | ⟨-, next, hnext, hat⟩ := h.next hshape (by omega)
    · omega
    · rw [visits_more hnext, ih (by omega) hat, h.index, h.data, List.range'_succ]
      rfl

theorem multiIndices_eq (shape : List ℤ) : multiIndices shape = (List.range (volume shape)).map (digits shape) := by
  induction shape with
  | nil => rfl
  | cons d shape ih => rw [multiIndices_cons, map_digits_cons, ih]

theorem At.visits_all (hshape : ∀ d ∈ shape, 0 < d) (h : At ops shape 0 it) : ∃ fuel, it.visits fuel =
    some ((multiIndices shape).map fun index => (index, ops.map (·.address index))) := by
  have hpos := volume_pos hshape
  have hrun := h.visits hshape (n := volume shape - 1) (by omega)
  refine ⟨_, hrun.trans ?_⟩
  rw [multiIndices_eq, List.map_map, List.range_eq_range', Nat.sub_add_cancel hpos]
  rfl

/-! ## How it is made -/

variable {own broadcasted : List operand}

theorem construct_ok (h : BuiltinScalars broadcasted) : broadcasted.mapM broadcasted_iterdata_construct =
    .ok (broadcasted.map fun op => iterdata_construct op.dims ++ [.terminator none]) := by
  apply mapM_eq_map
  intro op hop
  unfold broadcasted_iterdata_construct
  cases hdims : op.dims with
  | nil =>
    rw [h op hop hdims]
    rfl
  | cons md dims => rfl

theorem construct_refused (h : ¬ BuiltinScalars broadcasted) (chains : List (List iterdata)) :
    broadcasted.mapM broadcasted_iterdata_construct ≠ .ok chains := by
  intro hok
  apply h
  intro op hop hdims
  obtain ⟨chain, hchain⟩ := ok_of_mapM hok op hop
  unfold broadcasted_iterdata_construct at hchain
  rw [hdims] at hchain
  cases htp : op.tp with
  | builtin => rfl
  | extended print has_iterdata_size =>
    rw [htp] at hchain
    cases has_iterdata_size <;> cases hchain

/-- A chain, with what is behind it, beside its operand. -/
def Ready (ndim : ℕ) (op : operand) (p : List iterdata × operand) : Prop :=
  p.2 = op ∧ op.dims.length ≤ ndim ∧
    ∃ tail, p.1 = iterdata_construct op.dims ++ tail ∧ (op.dims.length < ndim → tail = [.terminator none])

theorem ready_zip {ndim : ℕ} {l : List operand} {chain : operand → List iterdata} (h : ∀ op ∈ l, Ready ndim op (chain op, op)) :
    List.Forall₂ (Ready ndim) l ((l.map chain).zip l) := by
  induction l with
  | nil => exact .nil
  | cons op l ih =>
    obtain ⟨hop, hl⟩ := List.forall_mem_cons.mp h
    exact .cons hop (ih hl)

/-- The iterator starts at the first index. -/
theorem init_at (hown : ∀ op ∈ own, op.dims.length = shape.length) (hle : ∀ op ∈ broadcasted, op.dims.length ≤ shape.length)
    (h : shape = [] ∨ BuiltinScalars broadcasted) :
    ∃ it, init shape own broadcasted = .ok (some it) ∧ At (own ++ broadcasted) shape 0 it := by
  rcases Nat.eq_zero_or_pos shape.length with hzero | hpos
  · obtain rfl := List.length_eq_zero_iff.mp hzero
    have hdata : (own ++ broadcasted).map (·.data) = (own ++ broadcasted).map (·.address []) := by
      apply List.map_congr_left
      intro op hop
      have hdims : op.dims.length ≤ 0 := by
        rcases List.mem_append.mp hop with hop | hop
        · exact (hown op hop).le
        · exact hle op hop
      exact (operand.address_zeros hdims).symm
    exact ⟨⟨[], [], (own ++ broadcasted).map (·.data), []⟩, rfl, rfl, rfl, hdata, fun hne => absurd rfl hne⟩
  · have hbuiltin : BuiltinScalars broadcasted := h.resolve_left (List.length_pos_iff.mp hpos)
    have hready := List.rel_append
      (@ready_zip shape.length _ (fun op => iterdata_construct op.dims) fun op hop =>
        ⟨rfl, (hown op hop).le, [], (List.append_nil _).symm, fun hlt => absurd (hown op hop) hlt.ne⟩)
      (@ready_zip _ _ (fun op => iterdata_construct op.dims ++ [.terminator none]) fun op hop =>
        ⟨rfl, hle op hop, _, rfl, fun _ => rfl⟩)
    obtain ⟨started, hstarted, hall⟩ := mapM_some (S := fun (op : operand) (m : List iterdata × ℤ) =>
      m.2 = op.address (List.replicate shape.length 0) ∧ op.Follows (List.replicate shape.length 0) m.1)
      (f := fun p : List iterdata × operand => reset p.1 p.2.data shape.length) hready fun op p hp => by
        obtain ⟨hop, hdims, tail, hchain, htail⟩ := hp
        obtain ⟨chain, hreset, hfollows⟩ := operand.follows_reset hpos hdims htail
        refine ⟨(chain, op.address (List.replicate shape.length 0)), ?_, rfl, hfollows⟩
        rw [hop, hchain]
        exact hreset
    obtain ⟨hdata, hfollows⟩ := moved_data hall
    refine ⟨⟨List.replicate shape.length 0, shape, started.map (·.2), started.map (·.1)⟩, ?_, ?_⟩
    · unfold init
      dsimp only
      rw [if_pos hpos.ne', construct_ok hbuiltin, ok_bind, List.zip_append (by rw [List.length_map]), hstarted]
      rfl
    · rw [← digits_zero] at hdata hfollows
      exact ⟨(digits_zero shape).symm, rfl, hdata, fun _ => hfollows⟩

theorem init_refused (hne : shape ≠ []) (h : ¬ BuiltinScalars broadcasted) (it : array_iter) :
    init shape own broadcasted ≠ .ok (some it) := by
  intro hok
  unfold init at hok
  dsimp only at hok
  rw [if_pos (List.length_pos_iff.mpr hne).ne'] at hok
  obtain ⟨chains, hchains, -⟩ := bind_eq_ok.mp hok
  exact construct_refused h chains hchains

/-- Where the operands fit the shape, only scalars that are not builtin keep the iterator from running. -/
theorem visits_iff (hshape : ∀ d ∈ shape, 0 < d) (hown : ∀ op ∈ own, op.dims.length = shape.length)
    (hle : ∀ op ∈ broadcasted, op.dims.length ≤ shape.length) :
    Visits (init shape own broadcasted) shape (own ++ broadcasted) ↔ shape = [] ∨ BuiltinScalars broadcasted := by
  constructor
  · rintro ⟨it, fuel, hmade, -⟩
    by_contra hnot
    obtain ⟨hne, hscalars⟩ := not_or.mp hnot
    exact init_refused hne hscalars it hmade
  · intro h
    obtain ⟨it, hmade, hat⟩ := init_at hown hle h
    obtain ⟨fuel, hvisits⟩ := hat.visits_all hshape
    exact ⟨it, fuel, hmade, hvisits⟩

theorem broadcastSize_nonneg {s x r : ℤ} (hs : 0 ≤ s) (hx : 0 ≤ x) (h : broadcastSize s x = some r) : 0 ≤ r := by
  unfold broadcastSize at h
  rw [if_neg (not_lt.mpr hx), if_pos hs] at h
  split_ifs at h
  · cases h
    exact hx
  · cases h
    exact hs

theorem broadcastColumn_nonneg {c : List ℤ} (hc : ∀ x ∈ c, 0 ≤ x) {s r : ℤ} (hs : 0 ≤ s) (h : c.foldlM broadcastSize s = some r) :
    0 ≤ r := by
  induction c generalizing s with
  | nil =>
    cases h
    exact hs
  | cons x c ih =>
    obtain ⟨hx, hc⟩ := List.forall_mem_cons.mp hc
    rw [List.foldlM_cons] at h
    obtain ⟨s', hs', h⟩ := Option.bind_eq_some_iff.mp h
    exact ih hc (broadcastSize_nonneg hs hx hs') h

/-- The broadcast shape has a size for each axis of every operand, and none is negative. -/
theorem broadcast_shape {result : BroadcastResult} (h : broadcast_input_shapes (ops.map operand.shape) = .ok result) :
    (∀ op ∈ ops, op.dims.length ≤ result.out_shape.length) ∧ ∀ d ∈ result.out_shape, 0 ≤ d := by
  have hsizes : ∀ op ∈ ops.map operand.shape, ∀ s ∈ op, 0 ≤ s := by
    intro op hop s hs
    obtain ⟨op, -, rfl⟩ := List.mem_map.mp hop
    obtain ⟨m, hm, rfl⟩ := List.mem_map.mp hs
    exact op.sizes m hm
  have hvalid : ValidSizes (ops.map operand.shape) := by
    intro op hop s hs
    have := hsizes op hop s hs
    omega
  rcases broadcast_input_shapes_spec hvalid with ⟨-, herror⟩ | ⟨-, shape, hlen, hcolumn, hok⟩
  · rw [herror] at h
    cases h
  · obtain rfl := Except.ok.inj (hok.symm.trans h)
    refine ⟨fun op hop => ?_, fun d hd => ?_⟩
    · have hundim : op.shape.length ≤ broadcastUndim (ops.map operand.shape) :=
        (undim_le_iff _ _).mp le_rfl _ (List.mem_map_of_mem hop)
      rw [operand.shape, List.length_map] at hundim
      exact hundim.trans hlen.ge
    · obtain ⟨k, hk, rfl⟩ := List.mem_iff_getElem.mp hd
      have hget := hcolumn k (hk.trans_eq hlen)
      rw [List.getD_eq_getElem _ _ hk] at hget
      refine broadcastColumn_nonneg (fun x hx => ?_) zero_le_one hget
      obtain ⟨op, hop, hx⟩ := List.mem_filterMap.mp hx
      exact hsizes op hop x (List.mem_reverse.mp (List.mem_of_getElem? hx))

theorem pos_of_nonneg {shape : List ℤ} (h : ∀ d ∈ shape, 0 ≤ d) (hne : ∀ d ∈ shape, d ≠ 0) : ∀ d ∈ shape, 0 < d :=
  fun d hd => lt_of_le_of_ne (h d hd) (hne d hd).symm

/-- Every index is visited once, in C order, at the addresses that broadcasting assigns, where there is nothing to iterate over
or no scalar that is not builtin is broadcast, and nowhere else. -/
theorem iterates_iff (args : arguments) : args.Iterates ↔
    ∀ shape, args.shape = some shape → (∀ d ∈ shape, d ≠ 0) → shape = [] ∨ BuiltinScalars args.broadcasted := by
  unfold arguments.Iterates
  apply forall_congr'
  intro shape
  apply imp_congr_right
  intro hshape
  apply imp_congr_right
  intro hne
  cases args with
  | write dst srcs =>
    obtain ⟨hfits, heq⟩ := Option.ite_none_right_eq_some.mp hshape
    obtain rfl := Option.some.inj heq
    have hmake : make_write dst srcs = init dst.shape [dst] srcs := by
      unfold make_write
      rw [List.find?_eq_none.mpr fun src hsrc => by rw [hfits src hsrc]; decide]
    have hsizes : ∀ d ∈ dst.shape, 0 ≤ d := by
      intro d hd
      obtain ⟨m, hm, rfl⟩ := List.mem_map.mp hd
      exact dst.sizes m hm
    rw [arguments.make, hmake]
    refine @visits_iff _ [dst] _ (pos_of_nonneg hsizes hne) (fun op hop => ?_) fun op hop => ?_
    · cases List.mem_singleton.mp hop
      exact (List.length_map _).symm
    · have hfit := hfits op hop
      unfold shape_can_broadcast at hfit
      have hle : op.shape.length ≤ dst.shape.length := by
        by_contra hlong
        rw [if_neg hlong] at hfit
        cases hfit
      rwa [operand.shape, List.length_map] at hle
  | read ops =>
    obtain ⟨result, hresult, rfl⟩ := Option.map_eq_some_iff.mp hshape
    have hok := toOption_ok.mp hresult
    obtain ⟨hle, hnonneg⟩ := broadcast_shape hok
    have hmake : make_read ops = init result.out_shape [] ops := by
      unfold make_read
      rw [hok]
    rw [arguments.make, hmake]
    exact @visits_iff _ [] _ (pos_of_nonneg hnonneg hne) (fun op hop => absurd hop List.not_mem_nil) hle

/-! ## A scalar that is not builtin -/

def two_elements : operand where
  dims := [⟨2, 8⟩]
  tp := .builtin
  data := 0
  sizes := by simp
  normalized := by simp

def string_scalar : operand where
  dims := []
  tp := .extended "string" true
  data := 64
  sizes := by simp
  normalized := by simp

/-- An array of two integers with a string. -/
theorem string_not_iterated : ¬ ∀ args : arguments, args.Iterates := by
  intro h
  have hshape : (arguments.read [two_elements, string_scalar]).shape = some [2] := rfl
  obtain ⟨it, fuel, hmade, -⟩ := h (.read [two_elements, string_scalar]) [2] hshape (by simp)
  cases hmade

end Dynd.ArrayIter
