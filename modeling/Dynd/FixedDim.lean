import Dynd.LinearIndex
/-!
# Arrays of fixed dimensions

A fixed dimension keeps its size twice: in the type, and beside the stride in
the array's arrmeta. Assignment trusts the stored stride: a source dimension
of size one is broadcast only if its stride is zero. The stride invariant is
that, and this module says what it gives and which indexing keeps it.
-/
namespace Dynd.FixedDim
open Lib LinearIndex

/-! ## Types and arrays -/

/-- `fixed_dim_type_arrmeta`. -/
structure size_stride_t where
  dim_size : ℤ
  stride : ℤ
deriving DecidableEq, Repr

/-- The size of a fixed dimension. -/
abbrev dim_size_t := {d : ℤ // 0 ≤ d ∧ d < 2 ^ 63}

def dim_size_t.zero : dim_size_t := ⟨0, by decide⟩

def dim_size_t.toIntptr (d : dim_size_t) : intptr_t :=
  ⟨d.val, by
    have := d.property
    constructor <;> omega⟩

@[simp] theorem dim_size_t.toIntptr_val (d : dim_size_t) : d.toIntptr.val = d.val := rfl

/-- The flags that decide which types share memory with bytes. -/
structure type_flags where
  (blockref destructor not_host_readable : Bool)
deriving DecidableEq

/-- What an array asks of the type of its elements, which is no dimension. -/
class ElementType (T : Type) where
  get_data_size : T → ℕ
  get_data_alignment : T → ℕ
  get_flags : T → type_flags
  is_builtin : T → Bool
  /-- `get_kind() == expr_kind` -/
  is_expr : T → Bool
  /-- `get_kind() == string_kind` -/
  is_string : T → Bool
  /-- `[begin, end)` of the string that is stored at an address -/
  string_extent : T → ℤ → Option (ℤ × ℤ)
  /-- string, json and bytes types have one layout -/
  is_string_layout : T → Bool
  /-- `none` when the constructor of `view_type` throws -/
  make_view : T → T → Option T
  make_unaligned : T → T

/-- `dims * … * dtype`. -/
structure FixedType (T : Type) where
  dims : List dim_size_t
  dtype : T
deriving DecidableEq

/-- `data` is the address of the first element. -/
structure FixedArray (T : Type) where
  tp : FixedType T
  arrmeta : List size_stride_t
  data : ℤ
deriving DecidableEq

inductive array_error where
  | index (e : index_error)
  | too_many_indices (nindices ndim : ℕ)
  | broadcast_error
  /-- another kernel takes over: the array is printed into a string -/
  | any_to_string
  | invalid_argument (message : String)
  | type_error (message : String)
  | runtime_error (message : String)
  /-- outside the arrmeta, or a division by zero -/
  | undefined_behaviour
deriving DecidableEq

section
variable {T : Type} [ElementType T]

def get_default_data_size (dtype : T) : List dim_size_t → ℤ
  | [] => ElementType.get_data_size dtype
  | d :: dims => d.val * get_default_data_size dtype dims

def arrmeta_default_construct (dtype : T) : List dim_size_t → List size_stride_t
  | [] => []
  | d :: dims => ⟨d.val, if 1 < d.val then get_default_data_size dtype dims else 0⟩ :: arrmeta_default_construct dtype dims

/-- `nd::empty`, with its data at a given address. -/
def empty (tp : FixedType T) (data : ℤ) : FixedArray T := ⟨tp, arrmeta_default_construct tp.dtype tp.dims, data⟩

end

/-! ## Indexing -/

/-- What the function throws becomes an error of the array. -/
def resolve (r : irange) (n : dim_size_t) (current_i : ℕ) (root : List dim_size_t) : Except array_error Resolved :=
  match apply_single_linear_index r n.toIntptr (some ⟨current_i, root.map (·.toIntptr)⟩) with
  | .ok o => .ok o
  | .error e => .error (.index e)

/-- `make_fixed_dim` of a resolved size: it is in range (`resolve_size`). -/
def toSize (z : ℤ) : dim_size_t := if h : 0 ≤ z ∧ z < 2 ^ 63 then ⟨z, h⟩ else dim_size_t.zero

/-- `fixed_dim_type::apply_linear_index` of the type. -/
def applyToType (root : List dim_size_t) : ℕ → List irange → List dim_size_t → Except array_error (List dim_size_t)
  | _, [], dims => .ok dims
  | i, r :: indices, [] => .error (.too_many_indices (i + (r :: indices).length) i)
  | i, r :: indices, d :: dims => do
    let o ← resolve r d i root
    let rest ← applyToType root (i + 1) indices dims
    return if o.remove_dimension then rest else toSize o.dimension_size :: rest

/-- `fixed_dim_type::apply_linear_index` of the arrmeta, with the offset to the first element. -/
def applyToArrmeta (root : List dim_size_t) : ℕ → List irange → List dim_size_t → List size_stride_t →
    Except array_error (List size_stride_t × ℤ)
  | _, [], dims, md =>
    -- If there are no more indices, copy the rest verbatim
    if dims.length ≤ md.length then .ok (md.take dims.length, 0) else .error .undefined_behaviour
  | i, r :: indices, [], _ => .error (.too_many_indices (i + (r :: indices).length) i)
  | _, _ :: _, _ :: _, [] => .error .undefined_behaviour
  | i, r :: indices, d :: dims, m :: md => do
    let o ← resolve r d i root
    let (out_md, offset) ← applyToArrmeta root (i + 1) indices dims md
    return (if o.remove_dimension then out_md else ⟨o.dimension_size, m.stride * o.index_stride⟩ :: out_md,
      m.stride * o.start_index + offset)

variable {T : Type} [ElementType T]

/-- The type comes first: its errors are the ones that are seen. -/
def at_array (indices : List irange) (a : FixedArray T) : Except array_error (FixedArray T) := do
  if a.tp.dims = [] then
    if indices ≠ [] then throw (.too_many_indices indices.length 0)
    return a
  else
    let dims ← applyToType a.tp.dims 0 indices a.tp.dims
    let (out_md, offset) ← applyToArrmeta a.tp.dims 0 indices a.tp.dims a.arrmeta
    return ⟨⟨dims, a.tp.dtype⟩, out_md, a.data + offset⟩

/-! ## Assignment -/

/-- The loop of the kernel: `size` times the child, the source moved by `src_stride`. -/
def strided (size src_stride : ℤ) (child : List ℤ) : List ℤ :=
  (List.range size.toNat).flatMap fun (i : ℕ) => child.map (i * src_stride + ·)

/-- `fixed_dim_type::make_assignment_kernel`: the offsets the kernel reads from
the source, one for each element of the destination. -/
def make_assignment_kernel (dst_dtype : T) : List dim_size_t → List dim_size_t → List size_stride_t → Except array_error (List ℤ)
  | [], [], _ => .ok [0]
  | [], _ :: _, _ => .error (if ElementType.is_string dst_dtype then .any_to_string else .broadcast_error)
  | d :: dst, src, md => do
    if src.length < (d :: dst).length then
      let child ← make_assignment_kernel dst_dtype dst src md
      return strided d.val 0 child
    else
      match src, md with
      | _ :: src, m :: md =>
        -- Check for a broadcasting error
        if m.dim_size ≠ 1 ∧ d.val ≠ m.dim_size then throw .broadcast_error
        let child ← make_assignment_kernel dst_dtype dst src md
        return strided d.val m.stride child
      | _, _ => throw .undefined_behaviour

/-- The offsets that assigning `a` to a destination reads. -/
def assign_reads (dst : FixedType T) (a : FixedArray T) : Except array_error (List ℤ) :=
  make_assignment_kernel dst.dtype dst.dims a.tp.dims a.arrmeta

/-! ## The stride invariant -/

/-- A dimension of at most one element has stride zero. -/
def size_stride_t.Normalized (m : size_stride_t) : Prop := m.dim_size ≤ 1 → m.stride = 0

/-- Every dimension of the type has its arrmeta, and every arrmeta is normalized. -/
structure StrideInvariant (a : FixedArray T) : Prop where
  length : a.arrmeta.length = a.tp.dims.length
  normalized : ∀ m ∈ a.arrmeta, m.Normalized

/-- The indices of an array's elements, the last one moving fastest. -/
def multiIndices : List ℤ → List (List ℕ)
  | [] => [[]]
  | d :: dims => (List.range d.toNat).flatMap fun i => (multiIndices dims).map (i :: ·)

/-- Where an element is; a dimension of size one has its element 0 at every index. -/
def elementOffset : List size_stride_t → List ℕ → ℤ
  | m :: md, i :: idx => (if m.dim_size = 1 then 0 else i) * m.stride + elementOffset md idx
  | _, _ => 0

/-- Assignment broadcasts: each element of the destination is read from the element of the
source at its last indices, and from element 0 where the source has size one. -/
def ReadsBroadcast (a : FixedArray T) : Prop := ∀ dst reads, assign_reads dst a = .ok reads →
  reads = (multiIndices (dst.dims.map (·.val))).map fun idx =>
    elementOffset a.arrmeta (idx.drop (dst.dims.length - a.tp.dims.length))

/-! ## Default construction -/

theorem arrmeta_default_construct_spec (dtype : T) (dims : List dim_size_t) :
    (arrmeta_default_construct dtype dims).length = dims.length ∧
      ∀ m ∈ arrmeta_default_construct dtype dims, m.Normalized := by
  induction dims with
  | nil => exact ⟨rfl, fun m hm => by cases hm⟩
  | cons d dims ih =>
    refine ⟨by simp [arrmeta_default_construct, ih.1], ?_⟩
    rw [arrmeta_default_construct, List.forall_mem_cons]
    refine ⟨?_, ih.2⟩
    intro hle
    exact if_neg (not_lt.2 hle)

theorem default_length (dtype : T) (dims : List dim_size_t) : (arrmeta_default_construct dtype dims).length = dims.length :=
  (arrmeta_default_construct_spec dtype dims).1

theorem default_sizes (dtype : T) (dims : List dim_size_t) :
    (arrmeta_default_construct dtype dims).map (·.dim_size) = dims.map (·.val) := by
  induction dims with
  | nil => rfl
  | cons d dims ih => rw [arrmeta_default_construct, List.map_cons, List.map_cons, ih]

theorem empty_invariant (tp : FixedType T) (data : ℤ) : StrideInvariant (empty tp data) := by
  obtain ⟨hlen, hnorm⟩ := arrmeta_default_construct_spec tp.dtype tp.dims
  exact ⟨hlen, hnorm⟩

/-! ## Assignment broadcasts -/

theorem multiIndices_cons (d : ℤ) (dims : List ℤ) :
    multiIndices (d :: dims) = (List.range d.toNat).flatMap fun i => (multiIndices dims).map (i :: ·) := rfl

/-- One more dimension of the destination: each index moves the source by its stride. -/
theorem strided_map (d s : ℤ) (dst : List ℤ) (f : List ℕ → ℤ) :
    strided d s ((multiIndices dst).map f) =
      (multiIndices (d :: dst)).map fun idx => idx.headI * s + f idx.tail := by
  simp only [strided, multiIndices_cons, List.map_flatMap, List.map_map]
  rfl

/-- A source of fewer dimensions stays where it is. -/
theorem make_assignment_kernel_lower (dtype : T) (d : dim_size_t) (dst : List dim_size_t) {src : List dim_size_t}
    (md : List size_stride_t) (h : src.length < (d :: dst).length) : make_assignment_kernel dtype (d :: dst) src md =
      strided d.val 0 <$> make_assignment_kernel dtype dst src md := by
  rw [make_assignment_kernel.eq_def]
  simp only [if_pos h]
  rfl

theorem make_assignment_kernel_cons (dtype : T) (d : dim_size_t) (dst : List dim_size_t) (s : dim_size_t)
    (src : List dim_size_t) (m : size_stride_t) (md : List size_stride_t) (h : ¬ src.length < dst.length) :
    make_assignment_kernel dtype (d :: dst) (s :: src) (m :: md) =
      if m.dim_size ≠ 1 ∧ d.val ≠ m.dim_size then .error .broadcast_error
      else strided d.val m.stride <$> make_assignment_kernel dtype dst src md := by
  rw [make_assignment_kernel.eq_def]
  simp only [List.length_cons, Nat.add_lt_add_iff_right, if_neg h]
  split_ifs <;> rfl

theorem make_assignment_kernel_reads (dtype : T) (dst : List dim_size_t) :
    ∀ (src : List dim_size_t) (md : List size_stride_t) (reads : List ℤ), md.length = src.length →
      (∀ m ∈ md, m.Normalized) → make_assignment_kernel dtype dst src md = .ok reads →
      reads = (multiIndices (dst.map (·.val))).map fun idx => elementOffset md (idx.drop (dst.length - src.length)) := by
  induction dst with
  | nil =>
    intro src md reads hlen _ h
    cases src with
    | nil =>
      obtain rfl := List.length_eq_zero_iff.1 hlen
      cases h
      rfl
    | cons => cases h
  | cons d dst ih =>
    intro src md reads hlen hnorm h
    by_cases hlt : src.length < (d :: dst).length
    · rw [make_assignment_kernel_lower dtype d dst md hlt] at h
      obtain ⟨child, hchild, rfl⟩ := map_eq_ok.1 h
      rw [ih src md child hlen hnorm hchild, strided_map, List.map_cons]
      -- the new axis does not move the source
      refine List.map_congr_left fun idx _ => ?_
      have hdrop : (d :: dst).length - src.length = dst.length - src.length + 1 := by
        rw [List.length_cons] at hlt ⊢
        omega
      rw [hdrop, List.drop_tail, mul_zero, zero_add]
    · rcases src with _ | ⟨s, src⟩
      · exact absurd (Nat.zero_lt_succ _) hlt
      obtain ⟨m, md, rfl⟩ := List.exists_cons_of_length_eq_add_one hlen
      rw [List.forall_mem_cons] at hnorm
      rw [List.length_cons, List.length_cons, Nat.add_lt_add_iff_right] at hlt
      rw [make_assignment_kernel_cons dtype d dst s src m md hlt] at h
      split_ifs at h with hb
      obtain ⟨child, hchild, rfl⟩ := map_eq_ok.1 h
      rw [ih src md child (Nat.succ.inj hlen) hnorm.2 hchild, strided_map, List.map_cons]
      refine List.map_congr_left fun idx hidx => ?_
      rw [multiIndices_cons] at hidx
      obtain ⟨i, -, hi⟩ := List.mem_flatMap.1 hidx
      obtain ⟨idx, -, rfl⟩ := List.mem_map.1 hi
      have hdst : dst.length - src.length = 0 := by omega
      rw [List.length_cons, List.length_cons, Nat.add_sub_add_right, hdst, List.drop_zero, List.drop_zero, elementOffset,
        List.headI_cons, List.tail_cons]
      by_cases h1 : m.dim_size = 1
      · rw [if_pos h1, hnorm.1 h1.le, mul_zero, mul_zero]
      · rw [if_neg h1]

/-- A source that keeps the stride invariant is broadcast: a dimension of size one gives its
element 0 to every index of the destination. -/
theorem StrideInvariant.readsBroadcast {a : FixedArray T} (h : StrideInvariant a) : ReadsBroadcast a :=
  fun dst reads => make_assignment_kernel_reads dst.dtype dst.dims a.tp.dims a.arrmeta reads h.length h.normalized

/-! ## Indexing -/

theorem resolve_spec {r : irange} {n : dim_size_t} {i : ℕ} {root : List dim_size_t} {o : Resolved}
    (h : resolve r n i root = .ok o) : (o.remove_dimension = true ↔ r.step.val = 0) ∧ 0 ≤ o.dimension_size ∧
      o.dimension_size = (r.denotes n.val).length ∧ o.dimension_size ≤ n.val := by
  unfold resolve at h
  cases he : apply_single_linear_index r n.toIntptr (some ⟨i, root.map (·.toIntptr)⟩) with
  | error e =>
    rw [he] at h
    cases h
  | ok o' =>
    rw [he] at h
    obtain rfl := Except.ok.inj h
    have hspec := resolved_spec n.property.1 he
    rwa [n.toIntptr_val] at hspec

/-- The size of the new dimension is the number of indices the range denotes. -/
theorem resolve_size {r : irange} {n : dim_size_t} {i : ℕ} {root : List dim_size_t} {o : Resolved}
    (h : resolve r n i root = .ok o) : (toSize o.dimension_size).val = (r.denotes n.val).length := by
  obtain ⟨-, h0, hlen, hle⟩ := resolve_spec h
  have := n.property
  rw [toSize, dif_pos ⟨h0, by omega⟩]
  exact hlen

/-- The slices that leave at most one element of a dimension do it to a dimension of stride zero. -/
def KeepsStrides (indices : List irange) (dims : List dim_size_t) (md : List size_stride_t) : Prop :=
  ∀ (k : ℕ) (r : irange) (d : dim_size_t) (m : size_stride_t), indices[k]? = some r → dims[k]? = some d →
    md[k]? = some m → r.step.val ≠ 0 → (r.denotes d.val).length ≤ 1 → m.stride = 0

theorem KeepsStrides.tail {r : irange} {indices : List irange} {d : dim_size_t} {dims : List dim_size_t}
    {m : size_stride_t} {md : List size_stride_t} (h : KeepsStrides (r :: indices) (d :: dims) (m :: md)) :
    KeepsStrides indices dims md := fun k => h (k + 1)

theorem applyToArrmeta_spec (root : List dim_size_t) (indices : List irange) :
    ∀ (i : ℕ) (dims dims' : List dim_size_t) (md md' : List size_stride_t) (offset : ℤ),
      md.length = dims.length → (∀ m ∈ md, m.Normalized) → KeepsStrides indices dims md →
      applyToType root i indices dims = .ok dims' → applyToArrmeta root i indices dims md = .ok (md', offset) →
      md'.length = dims'.length ∧ ∀ m ∈ md', m.Normalized := by
  induction indices with
  | nil =>
    intro i dims dims' md md' offset hlen hnorm _ htp hmd
    cases htp
    rw [applyToArrmeta, if_pos hlen.ge] at hmd
    cases hmd
    rw [← hlen, List.take_length]
    exact ⟨rfl, hnorm⟩
  | cons r indices ih =>
    intro i dims dims' md md' offset hlen hnorm hkeep htp hmd
    rcases dims with _ | ⟨d, dims⟩
    · cases htp
    obtain ⟨m, md, rfl⟩ := List.exists_cons_of_length_eq_add_one hlen
    rw [List.forall_mem_cons] at hnorm
    rw [applyToType] at htp
    rw [applyToArrmeta] at hmd
    obtain ⟨o, ho, htp⟩ := bind_eq_ok.1 htp
    rw [ho, ok_bind] at hmd
    obtain ⟨rest, hrest, htp⟩ := bind_eq_ok.1 htp
    obtain ⟨⟨out_md, off⟩, hout, hmd⟩ := bind_eq_ok.1 hmd
    cases htp
    cases hmd
    obtain ⟨hlen', hnorm'⟩ := ih _ _ _ _ _ _ (Nat.succ.inj hlen) hnorm.2 hkeep.tail hrest hout
    obtain ⟨hremove, -, hsize, -⟩ := resolve_spec ho
    by_cases hr : o.remove_dimension
    · rw [if_pos hr, if_pos hr]
      exact ⟨hlen', hnorm'⟩
    · rw [if_neg hr, if_neg hr]
      refine ⟨by simp [hlen'], List.forall_mem_cons.2 ⟨?_, hnorm'⟩⟩
      intro hle
      have hcount : ((r.denotes d.val).length : ℤ) ≤ 1 := hsize ▸ hle
      have hstride : m.stride = 0 := hkeep 0 r d m rfl rfl rfl (fun h0 => hr (hremove.2 h0)) (by exact_mod_cast hcount)
      rw [hstride, zero_mul]

omit [ElementType T] in
/-- Indexing keeps the stride invariant when its slices to at most one element are of
dimensions of stride zero. -/
theorem at_array_invariant {indices : List irange} {a b : FixedArray T} (ha : StrideInvariant a)
    (hkeep : KeepsStrides indices a.tp.dims a.arrmeta) (h : at_array indices a = .ok b) : StrideInvariant b := by
  unfold at_array at h
  split_ifs at h with hdims hidx
  · cases h
  · cases h
    exact ha
  · obtain ⟨dims, htp, h⟩ := bind_eq_ok.1 h
    obtain ⟨⟨out_md, offset⟩, hmd, h⟩ := bind_eq_ok.1 h
    cases h
    obtain ⟨hlen, hnorm⟩ := applyToArrmeta_spec _ _ _ _ _ _ _ _ ha.length ha.normalized hkeep htp hmd
    exact ⟨hlen, hnorm⟩

end Dynd.FixedDim
