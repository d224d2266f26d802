import Dynd.FixedDim
import Dynd.Lib.Reachable
/-!
# Pointers

A pointer's data is an address, and its arrmeta an offset that indexing adds
up. Each operation of `pointer_type` finds the target by itself, and goes on
with the operation of the target type.
-/
namespace Dynd.PointerType
open Lib LinearIndex
open FixedDim (dim_size_t size_stride_t toSize)

/-! ## Types, arrmeta and memory -/

/-- The builtin types: their sizes, and how the bytes of a value are printed. -/
class Builtin (B : Type) where
  get_data_size : B → ℕ
  print_builtin_scalar : B → List UInt8 → String

/-- The types that a pointer's target is made of here, and pointers. -/
inductive type (B : Type) where
  | builtin (id : B)
  | fixed_dim (dim_size : dim_size_t) (element_tp : type B)
  | tuple (field_types : List (type B))
  | struct (field_names : List String) (field_types : List (type B))
  | pointer (target_tp : type B)

/-- The arrmeta of a type, with that of the types it holds. -/
inductive arrmeta where
  | builtin
  | fixed_dim (md : size_stride_t) (element : arrmeta)
  | tuple (data_offsets : List ℤ) (fields : List arrmeta)
  | pointer (offset : ℤ) (target : arrmeta)

/-- `undefined_behaviour`: the arrmeta is not the type's. -/
inductive array_error (B : Type) where
  | index (e : index_error)
  | index_out_of_bounds (i0 dimension_size : ℤ)
  | too_many_indices (tp : type B) (nindices ndim : ℕ)
  | broadcast_error
  | runtime_error (what : String) (tp : type B)
  | undefined_behaviour

abbrev memory := ℤ → UInt8

/-- `*reinterpret_cast<const char *const *>(a)` -/
def memory.read_pointer (m : memory) (a : ℤ) : ℤ := Nat.ofDigits 256 ((List.range 8).map fun (i : ℕ) => (m (a + i)).toNat)

def memory.bytes (m : memory) (a : ℤ) (size : ℕ) : List UInt8 := (List.range size).map fun (i : ℕ) => m (a + i)

/-- The bytes are read before any is written. -/
def memory.copy (m : memory) (dst src : ℤ) (size : ℕ) : memory :=
  fun a => if dst ≤ a ∧ a < dst + size then m (src + (a - dst)) else m a

/-- The pointer is the eight bytes of another. -/
theorem memory.read_pointer_copy (m : memory) (dst src : ℤ) :
    (m.copy dst src 8).read_pointer dst = m.read_pointer src := by
  unfold read_pointer
  congr 1
  refine List.map_congr_left fun i hi => ?_
  have hi : i < 8 := List.mem_range.mp hi
  rw [copy, if_pos (by omega)]
  congr 2
  omega

section
variable {B : Type}

mutual
/-- `type::operator==` -/
def type.eq [DecidableEq B] : type B → type B → Bool
  | .builtin id, .builtin id' => id = id'
  | .fixed_dim n tp, .fixed_dim n' tp' => n = n' && tp.eq tp'
  | .tuple tps, .tuple tps' => type_array_eq tps tps'
  | .struct names tps, .struct names' tps' => names = names' && type_array_eq tps tps'
  | .pointer tp, .pointer tp' => tp.eq tp'
  | _, _ => false

def type_array_eq [DecidableEq B] : List (type B) → List (type B) → Bool
  | [], [] => true
  | tp :: tps, tp' :: tps' => tp.eq tp' && type_array_eq tps tps'
  | _, _ => false
end

mutual
theorem type.eq_self [DecidableEq B] : ∀ tp : type B, tp.eq tp = true
  | .builtin id => by simp [type.eq]
  | .fixed_dim n tp => by simp [type.eq, tp.eq_self]
  | .tuple tps => by simp [type.eq, type_array_eq_self tps]
  | .struct names tps => by simp [type.eq, type_array_eq_self tps]
  | .pointer tp => by simp [type.eq, tp.eq_self]

theorem type_array_eq_self [DecidableEq B] : ∀ tps : List (type B), type_array_eq tps tps = true
  | [] => rfl
  | tp :: tps => by simp [type_array_eq, tp.eq_self, type_array_eq_self tps]
end

namespace type

def is_builtin : type B → Bool
  | .builtin _ => true
  | _ => false

def is_pointer : type B → Bool
  | .pointer _ => true
  | _ => false

/-- The flag that a pointer inherits from its target. -/
def is_scalar : type B → Bool
  | .builtin _ => true
  | .pointer target_tp => target_tp.is_scalar
  | _ => false

end type

/-! ## Single indices -/

def apply_single_index (i0 dimension_size : ℤ) : Option ℤ :=
  if 0 ≤ i0 then if i0 < dimension_size then some i0 else none
  else if -dimension_size ≤ i0 then some (i0 + dimension_size)
  else none

/-- `at_single`: the type, and where `inout_arrmeta` and `inout_data` point to. -/
def at_single (i0 : ℤ) : type B → arrmeta → ℤ → Except (array_error B) (type B × arrmeta × ℤ)
  | .fixed_dim n element_tp, .fixed_dim md element, data =>
    match apply_single_index i0 n.val with
    | some i => .ok (element_tp, element, data + i * md.stride)
    | none => .error (.index_out_of_bounds i0 n.val)
  | .struct _ tps, .tuple data_offsets fields, data =>
    match apply_single_index i0 tps.length with
    | some i =>
      match tps[i.toNat]?, fields[i.toNat]?, data_offsets[i.toNat]? with
      | some tp, some field, some data_offset => .ok (tp, field, data + data_offset)
      | _, _, _ => .error .undefined_behaviour
    | none => .error (.index_out_of_bounds i0 tps.length)
  -- `*inout_data` is the address of the pointer: it is not dereferenced here
  | .pointer target_tp, .pointer offset target, data => at_single i0 target_tp target (data + offset)
  | .builtin id, _, _ => .error (.too_many_indices (.builtin id) 1 0)
  | .tuple tps, _, _ => .error (.too_many_indices (.tuple tps) 1 0)
  | _, _, _ => .error .undefined_behaviour

/-! ## Ranges of indices -/

/-- Where an error is said to be is left out. -/
def resolve (r : irange) (n : dim_size_t) : Except (array_error B) Resolved :=
  match apply_single_linear_index r n.toIntptr none with
  | .ok o => .ok o
  | .error e => .error (.index e)

/-- A struct has fewer than 2^63 fields. -/
def field_count (tps : List (type B)) : dim_size_t := toSize tps.length

/-- The index of the `i`-th field that is left. -/
def idx (o : Resolved) (i : ℕ) : ℕ := (o.start_index + i * o.index_stride).toNat

/-- The names of a struct's fields that are left. -/
def keptNames (o : Resolved) (names : List String) : List String :=
  (List.range o.dimension_size.toNat).map fun i => names.getD (idx o i) ""

/-- The type that a range makes of a tuple or struct `tp`: its fields, once the rest of the indices has been applied to them. -/
def apply_to_fields (o : Resolved) (tp : type B) (make : List (type B) → type B) (fields : List (Except (array_error B) (type B)))
    (indices : List irange) : Except (array_error B) (type B) :=
  if o.remove_dimension then fields.getD o.start_index.toNat (.error .undefined_behaviour)
  -- a do-nothing index keeps the type
  else if indices = [] ∧ o.start_index = 0 ∧ o.index_stride = 1 ∧ o.dimension_size = fields.length then .ok tp
  else do
    let tps ← (List.range o.dimension_size.toNat).mapM fun i => fields.getD (idx o i) (.error .undefined_behaviour)
    return make tps

mutual
/-- `apply_linear_index` of the types. -/
def apply_to_type : type B → List irange → ℕ → Except (array_error B) (type B)
  | tp, [], _ => .ok tp
  | .builtin id, r :: indices, current_i =>
    .error (.too_many_indices (.builtin id) (current_i + (r :: indices).length) current_i)
  | .fixed_dim n element_tp, r :: indices, current_i => do
    let o ← resolve r n
    let tp ← apply_to_type element_tp indices (current_i + 1)
    return if o.remove_dimension then tp else .fixed_dim (toSize o.dimension_size) tp
  | .tuple tps, r :: indices, current_i => do
    let o ← resolve r (field_count tps)
    apply_to_fields o (.tuple tps) .tuple (apply_to_types tps indices (current_i + 1)) indices
  | .struct names tps, r :: indices, current_i => do
    let o ← resolve r (field_count tps)
    apply_to_fields o (.struct names tps) (.struct (keptNames o names)) (apply_to_types tps indices (current_i + 1)) indices
  | .pointer target_tp, r :: indices, current_i => .pointer <$> apply_to_type target_tp (r :: indices) current_i

def apply_to_types : List (type B) → List irange → ℕ → List (Except (array_error B) (type B))
  | [], _, _ => []
  | tp :: tps, indices, current_i => apply_to_type tp indices current_i :: apply_to_types tps indices current_i
end

/-- What the rest of the indices does: to a type, its arrmeta and the resulting type. -/
abbrev Next (B : Type) := type B → arrmeta → type B → Except (array_error B) (arrmeta × ℤ)

/-- A field with the rest of the indices applied, and its data offset. -/
def apply_to_field (next : Next B) (tp : type B) (data_offset : ℤ) (field : arrmeta) (result_tp : type B) :
    Except (array_error B) (arrmeta × ℤ) :=
  if tp.is_builtin then .ok (.builtin, data_offset)
  else do
    let (out, offset) ← next tp field result_tp
    return (out, data_offset + offset)

/-- `base_tuple_type::apply_linear_index` of the arrmeta, for one range and the rest. -/
def apply_range_to_fields (r : irange) (next : Next B) (tps : List (type B)) (data_offsets : List ℤ) (fields : List arrmeta)
    (result_tp : type B) : Except (array_error B) (arrmeta × ℤ) := do
  let o ← resolve r (field_count tps)
  if o.remove_dimension then
    let i := o.start_index.toNat
    match tps[i]?, data_offsets[i]?, fields[i]? with
    | some tp, some data_offset, some field => apply_to_field next tp data_offset field result_tp
    | _, _, _ => throw .undefined_behaviour
  else
    let result_tps := match result_tp with
      | .tuple tps | .struct _ tps => tps
      | _ => []
    let outs ← (List.range o.dimension_size.toNat).mapM fun i =>
      match result_tps[i]?, data_offsets[idx o i]?, fields[idx o i]? with
      -- it goes on with the type of the result's field, not with the type of the field
      | some tp, some data_offset, some field => apply_to_field next tp data_offset field tp
      | _, _, _ => throw .undefined_behaviour
    return (.tuple (outs.map Prod.snd) (outs.map Prod.fst), 0)

/-- `apply_linear_index` of the arrmeta, for one range and the rest. -/
def apply_range (r : irange) (next : Next B) : Next B
  | .fixed_dim n element_tp, .fixed_dim md element, result_tp => do
    let o ← resolve r n
    let offset := md.stride * o.start_index
    if o.remove_dimension then apply_to_field next element_tp offset element result_tp
    else
      let out_md : size_stride_t := ⟨o.dimension_size, md.stride * o.index_stride⟩
      let result_etp := match result_tp with
        | .fixed_dim _ tp => tp
        | tp => tp
      let (out, offset) ← apply_to_field next element_tp offset element result_etp
      return (.fixed_dim out_md out, offset)
  | .tuple tps, .tuple data_offsets fields, result_tp => apply_range_to_fields r next tps data_offsets fields result_tp
  | .struct _ tps, .tuple data_offsets fields, result_tp => apply_range_to_fields r next tps data_offsets fields result_tp
  | _, _, _ => .error .undefined_behaviour

/-- `pointer_type::apply_linear_index` of the arrmeta: the target's offset is added to the pointer's own. -/
def through_pointers (next : Next B) : Next B
  | .pointer target_tp, .pointer offset target, .pointer result_tp =>
    if target_tp.is_builtin then .ok (.pointer offset target, 0)
    else do
      let (out, more) ← through_pointers next target_tp target result_tp
      return (.pointer (offset + more) out, 0)
  | .pointer _, _, _ => .error .undefined_behaviour
  | tp, md, result_tp => next tp md result_tp

/-- `apply_linear_index` of the arrmeta: the new arrmeta, and the offset to the data. With no more indices it is copied. -/
def apply_to_arrmeta : List irange → Next B
  | [], _, md, _ => .ok (md, 0)
  | r :: indices, tp, md, result_tp => through_pointers (apply_range r (apply_to_arrmeta indices)) tp md result_tp

/-- An array: its type, arrmeta and data pointer. -/
structure array (B : Type) where
  tp : type B
  md : arrmeta
  data : ℤ

def at_array (indices : List irange) (a : array B) : Except (array_error B) (array B) := do
  if a.tp.is_scalar then
    if indices ≠ [] then throw (.too_many_indices a.tp indices.length 0)
    return a
  else
    let tp ← apply_to_type a.tp indices 0
    let (md, offset) ← apply_to_arrmeta indices a.tp a.md tp
    return ⟨tp, md, a.data + offset⟩

/-! ## Printing and shapes -/

section
variable [Builtin B]

/-- How the texts of the elements of a dimension are laid out, for the calls that print them. -/
abbrev Summarized (B : Type) := ℤ → (ℤ → Except (array_error B) String) → Except (array_error B) String

mutual
def print_data (strided_array_summarized : Summarized B) (m : memory) :
    type B → arrmeta → ℤ → Except (array_error B) String
  | .builtin id, _, data => .ok (Builtin.print_builtin_scalar id (m.bytes data (Builtin.get_data_size id)))
  | .fixed_dim n element_tp, .fixed_dim md element, data =>
    strided_array_summarized n.val fun i =>
      print_data strided_array_summarized m element_tp element (data + i * md.stride)
  | .tuple tps, .tuple data_offsets fields, data => do
    let texts ← print_fields strided_array_summarized m tps data_offsets fields data
    return "[" ++ ", ".intercalate texts ++ "]"
  | .struct _ tps, .tuple data_offsets fields, data => do
    let texts ← print_fields strided_array_summarized m tps data_offsets fields data
    return "[" ++ ", ".intercalate texts ++ "]"
  | .pointer target_tp, .pointer offset target, data =>
    print_data strided_array_summarized m target_tp target (m.read_pointer data + offset)
  | _, _, _ => .error .undefined_behaviour

def print_fields (strided_array_summarized : Summarized B) (m : memory) :
    List (type B) → List ℤ → List arrmeta → ℤ → Except (array_error B) (List String)
  | [], _, _, _ => .ok []
  | tp :: tps, data_offset :: data_offsets, field :: fields, data => do
    let text ← print_data strided_array_summarized m tp field (data + data_offset)
    let texts ← print_fields strided_array_summarized m tps data_offsets fields data
    return text :: texts
  | _, _, _, _ => .error .undefined_behaviour
end

end

def too_many_dimensions (tp : type B) : array_error B := .runtime_error "requested too many dimensions from type " tp

/-- A size that the fields do not agree on is -1. `none` is an entry that no type wrote. -/
def merge_shape (out tmp : List (Option ℤ)) : List (Option ℤ) :=
  out.zipWith (fun o t => if o ≠ some (-1) ∧ o ≠ t then some (-1) else o) tmp

mutual
/-- `get_shape`: the `ndim - i` entries from `i` on. A dimension of one element passes its data on. -/
def get_shape (m : memory) : type B → ℕ → arrmeta → Option ℤ → Except (array_error B) (List (Option ℤ))
  | .builtin id, _, _, _ => .error (too_many_dimensions (.builtin id))
  | .fixed_dim n element_tp, ndim, .fixed_dim _ element, data =>
    if ndim ≤ 1 then .ok [some n.val]
    else if element_tp.is_builtin then .error (too_many_dimensions (.fixed_dim n element_tp))
    else do
      let shape ← get_shape m element_tp (ndim - 1) element (if n.val = 1 then data else none)
      return some n.val :: shape
  | .tuple tps, ndim, .tuple _ fields, _ => do
    if ndim ≤ 1 then return [some tps.length]
    let shapes ← get_field_shapes m tps (ndim - 1) fields
    return some tps.length :: (shapes.tail.foldl merge_shape (shapes.headD (List.replicate (ndim - 1) none)))
  | .struct _ tps, ndim, .tuple _ fields, _ => do
    if ndim ≤ 1 then return [some tps.length]
    let shapes ← get_field_shapes m tps (ndim - 1) fields
    return some tps.length :: (shapes.tail.foldl merge_shape (shapes.headD (List.replicate (ndim - 1) none)))
  | .pointer target_tp, ndim, .pointer offset target, data =>
    if target_tp.is_builtin then .error (too_many_dimensions target_tp)
    else get_shape m target_tp ndim target (data.map fun data => m.read_pointer data + offset)
  | _, _, _, _ => .error .undefined_behaviour

def get_field_shapes (m : memory) : List (type B) → ℕ → List arrmeta → Except (array_error B) (List (List (Option ℤ)))
  | [], _, _ => .ok []
  | tp :: tps, ndim, field :: fields => do
    let shape ← get_shape m tp ndim field none
    let shapes ← get_field_shapes m tps ndim fields
    return shape :: shapes
  | _, _, [] => .error .undefined_behaviour
end

/-! ## Assignment -/

/-- The bytes that a kernel copies: `size` of them from `src` to `dst`. -/
structure move where
  dst : ℤ
  src : ℤ
  size : ℕ
deriving DecidableEq

def move.shift (dst src : ℤ) (c : move) : move := ⟨dst + c.dst, src + c.src, c.size⟩

section
variable [Builtin B]

mutual
/-- `make_assignment_kernel` from a type to itself: what the kernel copies, relative to its two data
pointers. `copy_ck::instantiate` of a field calls the same. -/
def make_identical_assignment_kernel : type B → arrmeta → arrmeta → Except (array_error B) (List move)
  | .builtin id, _, _ => .ok [⟨0, 0, Builtin.get_data_size id⟩]
  | .fixed_dim n element_tp, .fixed_dim dst_md dst_element, .fixed_dim src_md src_element =>
    -- Check for a broadcasting error
    if src_md.dim_size ≠ 1 ∧ n.val ≠ src_md.dim_size then .error .broadcast_error
    else do
      let child ← make_identical_assignment_kernel element_tp dst_element src_element
      return (List.range n.val.toNat).flatMap fun (i : ℕ) => child.map (move.shift (i * dst_md.stride) (i * src_md.stride))
  | .tuple tps, .tuple dst_offsets dst_fields, .tuple src_offsets src_fields =>
    make_field_kernels tps dst_offsets dst_fields src_offsets src_fields
  | .struct _ tps, .tuple dst_offsets dst_fields, .tuple src_offsets src_fields =>
    make_field_kernels tps dst_offsets dst_fields src_offsets src_fields
  | .pointer _, _, _ => .ok [⟨0, 0, 8⟩]
  | _, _, _ => .error .undefined_behaviour

def make_field_kernels : List (type B) → List ℤ → List arrmeta → List ℤ → List arrmeta →
    Except (array_error B) (List move)
  | [], _, _, _, _ => .ok []
  | tp :: tps, dst_offset :: dst_offsets, dst_field :: dst_fields, src_offset :: src_offsets, src_field :: src_fields => do
    let child ← make_identical_assignment_kernel tp dst_field src_field
    let children ← make_field_kernels tps dst_offsets dst_fields src_offsets src_fields
    return child.map (move.shift dst_offset src_offset) ++ children
  | _, _, _, _, _ => .error .undefined_behaviour
end

/-- The kernels of an assignment from a pointer. -/
inductive kernel where
  | moves (l : List move)
  /-- `operand_to_value_ck`, on its child -/
  | operand_to_value (child : kernel)

/-- What a kernel copies when it is called. -/
def kernel.single (m : memory) (dst : ℤ) : kernel → ℤ → List move
  | .moves l, src => l.map (move.shift dst src)
  | .operand_to_value child, src => child.single m dst (m.read_pointer src)

/-- The memory after the kernel. -/
def kernel.run (k : kernel) (m : memory) (dst src : ℤ) : memory :=
  (k.single m dst src).foldl (fun m c => m.copy c.dst c.src c.size) m

/-- `make_operand_to_value_assignment_kernel` of a pointer with this target and arrmeta. -/
def make_operand_to_value_assignment_kernel (target_tp : type B) (dst_md src_md : arrmeta) : Except (array_error B) kernel :=
  match src_md with
  | .pointer _ target => do
    let child ← make_identical_assignment_kernel target_tp dst_md target
    return .operand_to_value (.moves child)
  | _ => .error .undefined_behaviour

/-- `pointer_type::make_assignment_kernel` from `pointer[target_tp]`. What else it may do, for a
destination of other types, is left to other kernels: `none`. -/
def make_assignment_kernel [DecidableEq B] (dst_tp : type B) (dst_md : arrmeta) (target_tp : type B) (src_md : arrmeta) :
    Except (array_error B) (Option kernel) :=
  if dst_tp.is_pointer && dst_tp.eq (.pointer target_tp) then .ok (some (.moves [⟨0, 0, 8⟩]))
  -- `make_expression_assignment_kernel`, where the pointer's value is the target: its operand is no expression
  else if !dst_tp.is_pointer && dst_tp.eq target_tp then
    some <$> make_operand_to_value_assignment_kernel target_tp dst_md src_md
  else .ok none

end

/-! ## Indexing through a pointer -/

/-- The pointer at `data` to an array, seen through the address `base` that it holds. -/
def pointer_to (data base : ℤ) (t : array B) : array B := ⟨.pointer t.tp, .pointer (t.data - base) t.md, data⟩

theorem apply_to_arrmeta_pointer {r : irange} {indices : List irange} {target_tp result_tp : type B} {offset : ℤ}
    {target : arrmeta} (h : target_tp.is_builtin = false) :
    apply_to_arrmeta (r :: indices) (.pointer target_tp) (.pointer offset target) (.pointer result_tp) =
      (fun o => (.pointer (offset + o.2) o.1, 0)) <$> apply_to_arrmeta (r :: indices) target_tp target result_tp := by
  simp only [apply_to_arrmeta, through_pointers, h, Bool.false_eq_true, if_false]
  rfl

/-- Indexing a pointer is indexing its target: what the target's data pointer moves by is added to the offset. -/
theorem at_array_pointer_to {indices : List irange} {data base : ℤ} {t a' : array B} :
    at_array indices (pointer_to data base t) = .ok a' ↔
      ∃ t', at_array indices t = .ok t' ∧ a' = pointer_to data base t' := by
  have hscalar : (pointer_to data base t).tp.is_scalar = t.tp.is_scalar := rfl
  unfold at_array
  rw [hscalar]
  by_cases hs : t.tp.is_scalar
  · by_cases hi : indices = []
    · simp [hs, hi, eq_comm]
    · simp [hs, hi]
  have hbuiltin : t.tp.is_builtin = false := by
    cases htp : t.tp <;> simp_all [type.is_scalar, type.is_builtin]
  simp only [hs, Bool.false_eq_true, if_false]
  cases indices with
  | nil =>
    simp only [apply_to_type, apply_to_arrmeta, ok_bind, pure_eq_ok, Except.ok.injEq, add_zero]
    constructor
    · rintro rfl
      exact ⟨t, rfl, rfl⟩
    · rintro ⟨t', rfl, rfl⟩
      rfl
  | cons r indices =>
    simp only [pointer_to, apply_to_type, bind_eq_ok, map_eq_ok, pure_eq_ok, Except.ok.injEq]
    constructor
    · rintro ⟨_, ⟨tp, htp, rfl⟩, _, hout, rfl⟩
      rw [apply_to_arrmeta_pointer hbuiltin] at hout
      obtain ⟨⟨out, more⟩, htarget, rfl⟩ := map_eq_ok.mp hout
      refine ⟨⟨tp, out, t.data + more⟩, ⟨tp, htp, (out, more), htarget, rfl⟩, ?_⟩
      simp only [array.mk.injEq, arrmeta.pointer.injEq, true_and, and_true, add_zero]
      omega
    · rintro ⟨_, ⟨tp, htp, ⟨out, more⟩, hout, rfl⟩, rfl⟩
      have hpointer := @apply_to_arrmeta_pointer _ r indices _ tp (t.data - base) t.md hbuiltin
      rw [hout] at hpointer
      refine ⟨_, ⟨tp, htp, rfl⟩, _, hpointer, ?_⟩
      simp only [array.mk.injEq, arrmeta.pointer.injEq, true_and, and_true, add_zero]
      omega

/-- One indexing of an array. -/
def Indexed (a a' : array B) : Prop := ∃ indices, at_array indices a = .ok a'

/-- However often a pointer is indexed, it stays a pointer to what the target is indexed to. -/
theorem reachable_pointer_to {data base : ℤ} {t a : array B} (h : Reachable (fun a => a = pointer_to data base t) Indexed a) :
    ∃ t', Reachable (fun a => a = t) Indexed t' ∧ a = pointer_to data base t' := by
  induction h with
  | init h => exact ⟨t, .init rfl, h⟩
  | step _ hstep ih =>
    obtain ⟨t', ht', rfl⟩ := ih
    obtain ⟨indices, hstep⟩ := hstep
    obtain ⟨t'', hindexed, rfl⟩ := at_array_pointer_to.mp hstep
    exact ⟨t'', .step ht' ⟨indices, hindexed⟩, rfl⟩

/-! ## The target that the operations see -/

/-- The target element of a pointer with this offset in its arrmeta. -/
def target_data (m : memory) (offset data : ℤ) : ℤ := m.read_pointer data + offset

/-- Where `at_single` arrives is as far from one address as from another. -/
theorem at_single_shift (i0 : ℤ) (a b : ℤ) : ∀ (tp : type B) (md : arrmeta),
    at_single i0 tp md b = (fun r => (r.1, r.2.1, r.2.2 + (b - a))) <$> at_single i0 tp md a
  | .builtin _, .builtin | .builtin _, .fixed_dim _ _ | .builtin _, .tuple _ _ | .builtin _, .pointer _ _ => rfl
  | .tuple _, .builtin | .tuple _, .fixed_dim _ _ | .tuple _, .tuple _ _ | .tuple _, .pointer _ _ => rfl
  | .fixed_dim _ _, .builtin | .fixed_dim _ _, .tuple _ _ | .fixed_dim _ _, .pointer _ _ => rfl
  | .struct _ _, .builtin | .struct _ _, .fixed_dim _ _ | .struct _ _, .pointer _ _ => rfl
  | .pointer _, .builtin | .pointer _, .fixed_dim _ _ | .pointer _, .tuple _ _ => rfl
  | .fixed_dim n element_tp, .fixed_dim md element => by
    simp only [at_single]
    split
    · simp only [map_ok, Except.ok.injEq, Prod.mk.injEq, true_and]
      omega
    · rfl
  | .struct names tps, .tuple data_offsets fields => by
    simp only [at_single]
    split
    · split
      · simp only [map_ok, Except.ok.injEq, Prod.mk.injEq, true_and]
        omega
      · rfl
    · rfl
  | .pointer target_tp, .pointer offset target => by
    simp only [at_single]
    rw [at_single_shift i0 (a + offset) (b + offset) target_tp target]
    simp

theorem at_single_pointer (i0 : ℤ) (target_tp : type B) (offset : ℤ) (target : arrmeta) (data : ℤ) :
    at_single i0 (.pointer target_tp) (.pointer offset target) data = at_single i0 target_tp target (data + offset) := rfl

/-- The type can be indexed at all. -/
def Indexable (tp : type B) (md : arrmeta) : Prop := ∃ i0 r, at_single i0 tp md 0 = .ok r

/-- `at_single` follows the pointer only where the pointer holds its own address. -/
theorem at_single_pointer_iff {m : memory} {target_tp : type B} {offset data : ℤ} {target : arrmeta} :
    (∀ i0, at_single i0 (.pointer target_tp) (.pointer offset target) data =
        at_single i0 target_tp target (target_data m offset data)) ↔
      (Indexable target_tp target → m.read_pointer data = data) := by
  constructor
  · rintro h ⟨i0, r, hr⟩
    have hi := h i0
    rw [at_single_pointer, at_single_shift i0 0 (data + offset), at_single_shift i0 0 (target_data m offset data), hr] at hi
    simp only [map_ok, Except.ok.injEq, Prod.mk.injEq, true_and, target_data] at hi
    omega
  · intro h i0
    rw [at_single_pointer, at_single_shift i0 0 (data + offset), at_single_shift i0 0 (target_data m offset data)]
    cases hr : at_single i0 target_tp target 0 with
    | error e => rfl
    | ok r => rw [target_data, h ⟨i0, r, hr⟩]

theorem get_shape_pointer {m : memory} {target_tp : type B} {offset data : ℤ} {target : arrmeta} (ndim : ℕ) :
    get_shape m (.pointer target_tp) ndim (.pointer offset target) (some data) =
      get_shape m target_tp ndim target (some (target_data m offset data)) := by
  rw [get_shape]
  split_ifs with h
  · cases target_tp <;> simp_all [type.is_builtin, get_shape]
  · rfl

section
variable [Builtin B]

/-- Assigning the type to itself copies bytes. -/
def Moves (tp : type B) (dst_md src_md : arrmeta) : Prop :=
  ∃ l, make_identical_assignment_kernel tp dst_md src_md = .ok l ∧ l ≠ []

theorem shift_eq_iff {l : List move} {dst a b : ℤ} :
    l.map (move.shift dst a) = l.map (move.shift dst b) ↔ (l ≠ [] → a = b) := by
  constructor
  · intro h hl
    obtain ⟨c, l, rfl⟩ := List.exists_cons_of_ne_nil hl
    have hc := (List.cons.inj h).1
    simp only [move.shift, move.mk.injEq, true_and, and_true] at hc
    omega
  · intro h
    cases l with
    | nil => rfl
    | cons c l => rw [h (List.cons_ne_nil c l)]

/-- What an assignment copies, when its kernel is called. -/
def assign_moves [DecidableEq B] (m : memory) (dst_tp : type B) (dst_md : arrmeta) (dst : ℤ) (target_tp : type B)
    (src_md : arrmeta) (src : ℤ) : Except (array_error B) (Option (List move)) :=
  Option.map (fun k => k.single m dst src) <$> make_assignment_kernel dst_tp dst_md target_tp src_md

/-- The assignment of a pointer to a value reads at the address it holds, without the offset. -/
theorem assign_moves_pointer [DecidableEq B] {m : memory} {target_tp : type B} {dst_md target : arrmeta} {dst offset data : ℤ}
    (hp : target_tp.is_pointer = false) :
    assign_moves m target_tp dst_md dst target_tp (.pointer offset target) data =
      (fun l => some (l.map (move.shift dst (m.read_pointer data)))) <$>
        make_identical_assignment_kernel target_tp dst_md target := by
  unfold assign_moves make_assignment_kernel
  rw [hp, target_tp.eq_self]
  simp only [Bool.false_and, Bool.false_eq_true, if_false, Bool.not_false, Bool.and_self, if_true,
    make_operand_to_value_assignment_kernel]
  cases make_identical_assignment_kernel target_tp dst_md target <;> rfl

/-- All operations on a pointer see the target element, and go on with the operation of its type. The
pointer is assigned to a value with arrmeta `dst_md` at `dst`, and to a pointer with this arrmeta at `dst`. -/
structure Transparent [DecidableEq B] (summarized : Summarized B) (m : memory) (target_tp : type B) (offset : ℤ)
    (target : arrmeta) (data : ℤ) (dst_md : arrmeta) (dst_offset : ℤ) (dst_target : arrmeta) (dst : ℤ) : Prop where
  at_single : ∀ i0, at_single i0 (.pointer target_tp) (.pointer offset target) data =
    at_single i0 target_tp target (target_data m offset data)
  get_shape : ∀ ndim, get_shape m (.pointer target_tp) ndim (.pointer offset target) (some data) =
    get_shape m target_tp ndim target (some (target_data m offset data))
  print_data : print_data summarized m (.pointer target_tp) (.pointer offset target) data =
    print_data summarized m target_tp target (target_data m offset data)
  to_value : assign_moves m target_tp dst_md dst target_tp (.pointer offset target) data =
    (fun l => some (l.map (move.shift dst (target_data m offset data)))) <$>
      make_identical_assignment_kernel target_tp dst_md target
  to_pointer : ∃ k, make_assignment_kernel (.pointer target_tp) (.pointer dst_offset dst_target) target_tp
      (.pointer offset target) = .ok (some k) ∧
    target_data (k.run m dst data) dst_offset dst = target_data m offset data

variable [DecidableEq B] {m : memory} {target_tp : type B} {offset data dst_offset dst : ℤ} {target dst_md dst_target : arrmeta}

theorem to_value_iff (hp : target_tp.is_pointer = false) :
    assign_moves m target_tp dst_md dst target_tp (.pointer offset target) data =
        (fun l => some (l.map (move.shift dst (target_data m offset data)))) <$>
          make_identical_assignment_kernel target_tp dst_md target ↔
      (Moves target_tp dst_md target → offset = 0) := by
  rw [assign_moves_pointer hp]
  cases hl : make_identical_assignment_kernel target_tp dst_md target with
  | error e => simp [Moves, hl]
  | ok l =>
    have hmoves : Moves target_tp dst_md target ↔ l ≠ [] := by simp [Moves, hl]
    have hzero : m.read_pointer data = target_data m offset data ↔ offset = 0 := by
      unfold target_data
      omega
    rw [hmoves, map_ok, map_ok, Except.ok.injEq, Option.some.injEq, shift_eq_iff, hzero]

/-- A pointer that is assigned to a pointer leads to the same element when the two offsets are equal. -/
theorem to_pointer_iff : (∃ k, make_assignment_kernel (.pointer target_tp) (.pointer dst_offset dst_target) target_tp
      (.pointer offset target) = .ok (some k) ∧ target_data (k.run m dst data) dst_offset dst = target_data m offset data) ↔
    dst_offset = offset := by
  have hkernel : make_assignment_kernel (.pointer target_tp) (.pointer dst_offset dst_target) target_tp
      (.pointer offset target) = .ok (some (.moves [⟨0, 0, 8⟩])) := by
    rw [make_assignment_kernel, type.eq_self]
    rfl
  have hrun : (kernel.moves [⟨0, 0, 8⟩]).run m dst data = m.copy dst data 8 := by
    simp [kernel.run, kernel.single, move.shift]
  have htarget : target_data (m.copy dst data 8) dst_offset dst = m.read_pointer data + dst_offset := by
    rw [target_data, memory.read_pointer_copy]
  rw [hkernel]
  simp only [Except.ok.injEq, Option.some.injEq]
  constructor
  · rintro ⟨k, rfl, h⟩
    rw [hrun, htarget, target_data] at h
    omega
  · rintro rfl
    exact ⟨_, rfl, by rw [hrun, htarget, target_data]⟩

/-- Printing and the shape always see the target. `at_single` does not, unless there is nothing to index
or the pointer holds its own address; assigning to a value does where there is no offset, or nothing to
copy, and assigning to a pointer where that has the same offset. -/
theorem transparent_iff {summarized : Summarized B} (hp : target_tp.is_pointer = false) :
    Transparent summarized m target_tp offset target data dst_md dst_offset dst_target dst ↔
      (Indexable target_tp target → m.read_pointer data = data) ∧ (Moves target_tp dst_md target → offset = 0) ∧
        dst_offset = offset := by
  constructor
  · intro h
    exact ⟨at_single_pointer_iff.mp h.at_single, (to_value_iff hp).mp h.to_value, to_pointer_iff.mp h.to_pointer⟩
  · rintro ⟨hat, hvalue, hpointer⟩
    exact {
      at_single := at_single_pointer_iff.mpr hat
      get_shape := get_shape_pointer
      print_data := by rw [print_data, target_data]
      to_value := (to_value_iff hp).mpr hvalue
      to_pointer := to_pointer_iff.mpr hpointer }

end

end

/-! ## A sliced pointer -/

/-- Signed integers of some bytes, the lowest first. -/
structure int_type where
  data_size : ℕ
deriving DecidableEq

instance : Builtin int_type where
  get_data_size tp := tp.data_size
  print_builtin_scalar tp bytes := toString ((Nat.ofDigits 256 (bytes.map UInt8.toNat) : ℤ).bmod (256 ^ tp.data_size))

def int32 : type int_type := .builtin ⟨4⟩

/-- The elements of a short dimension in one row. -/
def in_one_row : Summarized int_type := fun n text => do
  let texts ← (List.range n.toNat).mapM fun (i : ℕ) => text i
  return "[" ++ ", ".intercalate texts ++ "]"

/-- The pointer at 16 holds the address 100. -/
def pointer_at_16 : memory := fun a => if a = 16 then 100 else 0

theorem pointer_to_int32 : Transparent in_one_row pointer_at_16 int32 0 .builtin 16 .builtin 0 .builtin 32 := by
  refine (transparent_iff rfl).mpr ⟨?_, fun _ => rfl, rfl⟩
  rintro ⟨i0, r, h⟩
  cases h

/-- `pointer[3 * int32]`, indexed to its second element. -/
theorem sliced_pointer_loses_offset : ¬ ∀ (t a : array int_type) (offset : ℤ),
    Reachable (fun a => a = pointer_to 16 100 t) Indexed a → a.tp = .pointer int32 → a.md = .pointer offset .builtin →
      Transparent in_one_row pointer_at_16 int32 offset .builtin a.data .builtin offset .builtin 32 := by
  intro h
  let t : array int_type := ⟨.fixed_dim ⟨3, by decide⟩ int32, .fixed_dim ⟨3, 4⟩ .builtin, 100⟩
  let one : irange := ⟨⟨1, by decide⟩, ⟨1, by decide⟩, ⟨0, by decide⟩⟩
  have hindexed : at_array [one] (pointer_to 16 100 t) = .ok ⟨.pointer int32, .pointer 4 .builtin, 16⟩ := rfl
  have hmoves : Moves int32 .builtin .builtin := ⟨[⟨0, 0, 4⟩], rfl, List.cons_ne_nil _ _⟩
  have hvalue := (h t _ 4 (.step (.init rfl) ⟨[one], hindexed⟩) rfl rfl).to_value
  exact absurd ((to_value_iff rfl).mp hvalue hmoves) (by decide)

end Dynd.PointerType
