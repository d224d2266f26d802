import Dynd.ArrayElements
import Dynd.ArrayViews
/-!
# Reshaping an array

`nd::reshape` gives the data of an array a new shape with the strides of
C order, whatever the array's own strides are. `reshape_iff` says when the
elements are the array's all the same. A product of sizes that leaves
`intptr_t` is undefined behaviour, and so is a shape of no dimensions, whose
last stride is written in front of the strides.
-/
namespace Dynd.FixedDim
open Lib LinearIndex

/-! ## The function -/

/-- The product of two `intptr_t`. -/
def mulIntptr (x y : ℤ) : Except array_error ℤ := if IntptrRange (x * y) then .ok (x * y) else .error .undefined_behaviour

/-- The loop `size *= shape[i]`. -/
def totalSize (shape : List ℤ) : Except array_error ℤ := shape.foldlM mulIntptr 1

/-- The strides, from the last one on. -/
def reshapeStrides (data_size : ℤ) : List ℤ → Except array_error (List ℤ)
  | [] => .error .undefined_behaviour
  | [_] => .ok [data_size]
  | _ :: d :: shape => do
    let strides ← reshapeStrides data_size (d :: shape)
    let stride ← mulIntptr d strides.headI
    return stride :: strides

/-- An array whose sizes need not be sizes. -/
structure strided_array (T : Type) where
  dtype : T
  arrmeta : List size_stride_t
  data : ℤ
deriving DecidableEq

section
variable {T : Type} [ElementType T] (get_arrmeta_size : T → ℕ) (print_type : T → String)

/-- `make_strided_array_from_data`, with nowhere to put the element type's arrmeta. -/
def make_strided_array_from_data (uniform_tp : T) (shape strides : List ℤ) (data_ptr : ℤ) : Except array_error (strided_array T) :=
  if !ElementType.is_builtin uniform_tp && 0 < get_arrmeta_size uniform_tp then
    .error (.runtime_error s!"Cannot make a strided array with type {print_type uniform_tp} from a preexisting data pointer")
  else .ok ⟨uniform_tp, List.zipWith (fun dim_size stride => ⟨dim_size, if dim_size > 1 then stride else 0⟩) shape strides, data_ptr⟩

/-- `get_readwrite_originptr` throws where the array is not `writable`. -/
def reshape (writable : Bool) (a : FixedArray T) (shape : List intptr_t) : Except array_error (strided_array T) := do
  let shape := shape.map (·.val)
  let old_size ← totalSize (sizes a.tp.dims)
  let size ← totalSize shape
  if old_size ≠ size then
    throw (.invalid_argument
      s!"dynd reshape: cannot reshape to a different total number of elements, from {old_size} to {size}")
  let strides ← reshapeStrides (ElementType.get_data_size a.tp.dtype) shape
  if !writable then throw (.runtime_error "tried to write to a dynd array that is not writable")
  make_strided_array_from_data get_arrmeta_size print_type a.tp.dtype shape strides a.data

/-! ## What it is for -/

/-- The bytes of a value. -/
def readValue (mem : ℤ → UInt8) (data_size : ℕ) (address : ℤ) : List UInt8 := (List.range data_size).map fun k : ℕ => mem (address + k)

/-- The values of an array's elements in C order. -/
def elements (mem : ℤ → UInt8) (data_size : ℕ) (shape : List ℤ) (md : List size_stride_t) (data : ℤ) : List (List UInt8) :=
  (multiIndices shape).map fun idx => readValue mem data_size (data + strideOffset md idx)

/-- The call throws, or it returns an array of the shape with the same elements, whatever they are. -/
def ReshapesRight (a : FixedArray T) (shape : List intptr_t) : Except array_error (strided_array T) → Prop
  | .error e => e ≠ .undefined_behaviour
  | .ok b => b.dtype = a.tp.dtype ∧ b.arrmeta.map (·.dim_size) = shape.map (·.val) ∧
    ∀ mem, elements mem (ElementType.get_data_size b.dtype) (b.arrmeta.map (·.dim_size)) b.arrmeta b.data =
      elements mem (ElementType.get_data_size a.tp.dtype) (sizes a.tp.dims) a.arrmeta a.data

end

/-- Every product that the loop over the sizes computes is an `intptr_t`. -/
def ProductsFit (shape : List ℤ) : Prop := ∀ k ≤ shape.length, IntptrRange (shape.take k).prod

/-- So is every stride that is computed. -/
def StridesFit (data_size : ℤ) (shape : List ℤ) : Prop :=
  ∀ k, 0 < k → k < shape.length → IntptrRange (data_size * (shape.drop k).prod)

/-- The elements follow one another in C order. -/
def CContiguous (data_size : ℤ) : List ℤ → List size_stride_t → Prop
  | d :: shape, m :: md => (1 < d → m.stride = data_size * shape.prod) ∧ CContiguous data_size shape md
  | _, _ => True

/-- The place of an element in C order. -/
def rank : List ℤ → List ℕ → ℤ
  | _ :: shape, i :: idx => i * shape.prod + rank shape idx
  | _, _ => 0

/-! ## The loops -/

open Classical in
theorem foldlM_mulIntptr {acc : ℤ} (shape : List ℤ) : shape.foldlM mulIntptr acc =
    if ∀ k, 0 < k → k ≤ shape.length → IntptrRange (acc * (shape.take k).prod) then .ok (acc * shape.prod)
    else .error .undefined_behaviour := by
  induction shape generalizing acc with
  | nil =>
    rw [if_pos (by intro k h0 hk; simp at hk; omega)]
    simp
  | cons d shape ih =>
    rw [List.foldlM_cons, mulIntptr]
    by_cases hd : IntptrRange (acc * d)
    · rw [if_pos hd]
      change List.foldlM mulIntptr (acc * d) shape = _
      rw [ih, List.prod_cons, ← mul_assoc]
      refine if_congr ?_ rfl rfl
      constructor
      · intro h k h0 hk
        cases k with
        | zero => omega
        | succ k =>
          rw [List.take_succ_cons, List.prod_cons, ← mul_assoc]
          rcases Nat.eq_zero_or_pos k with rfl | hpos
          · simpa using hd
          · exact h k hpos (Nat.le_of_succ_le_succ hk)
      · intro h k h0 hk
        have h := h (k + 1) (Nat.succ_pos k) (Nat.succ_le_succ hk)
        rwa [List.take_succ_cons, List.prod_cons, ← mul_assoc] at h
    · rw [if_neg hd, if_neg]
      · rfl
      · intro h
        have h := h 1 Nat.one_pos (by simp)
        simp at h
        exact hd h

open Classical in
theorem totalSize_eq (shape : List ℤ) : totalSize shape =
    if ProductsFit shape then .ok shape.prod else .error .undefined_behaviour := by
  rw [totalSize, foldlM_mulIntptr, one_mul]
  refine if_congr ?_ rfl rfl
  simp only [one_mul]
  constructor
  · intro h k hk
    rcases Nat.eq_zero_or_pos k with rfl | hpos
    · simp [IntptrRange]
    · exact h k hpos hk
  · exact fun h k _ hk => h k hk

/-- The strides of C order. -/
def cOrderStrides (data_size : ℤ) : List ℤ → List ℤ
  | [] => []
  | _ :: shape => data_size * shape.prod :: cOrderStrides data_size shape

theorem stridesFit_cons {data_size d d' : ℤ} {shape : List ℤ} : StridesFit data_size (d :: d' :: shape) ↔
    IntptrRange (data_size * (d' :: shape).prod) ∧ StridesFit data_size (d' :: shape) := by
  constructor
  · intro h
    refine ⟨h 1 Nat.one_pos (by simp), fun k h0 hk => ?_⟩
    exact h (k + 1) (Nat.succ_pos k) (Nat.succ_lt_succ hk)
  · rintro ⟨h1, h⟩ k h0 hk
    match k with
    | 1 => exact h1
    | k + 2 => exact h (k + 1) (Nat.succ_pos k) (Nat.lt_of_succ_lt_succ hk)

open Classical in
theorem reshapeStrides_eq (data_size : ℤ) (shape : List ℤ) : reshapeStrides data_size shape =
    if shape ≠ [] ∧ StridesFit data_size shape then .ok (cOrderStrides data_size shape)
    else .error .undefined_behaviour := by
  induction shape with
  | nil => simp [reshapeStrides]
  | cons d shape ih =>
    cases shape with
    | nil =>
      rw [if_pos ⟨List.cons_ne_nil _ _, fun k h0 hk => by simp at hk; omega⟩]
      simp [reshapeStrides, cOrderStrides]
    | cons d' shape =>
      rw [reshapeStrides, ih]
      by_cases hfit : StridesFit data_size (d' :: shape)
      · rw [if_pos ⟨List.cons_ne_nil _ _, hfit⟩]
        have hmul : d' * (cOrderStrides data_size (d' :: shape)).headI = data_size * (d' :: shape).prod := by
          rw [cOrderStrides, List.headI_cons, List.prod_cons]
          ring
        change (mulIntptr d' (cOrderStrides data_size (d' :: shape)).headI >>= fun stride =>
          pure (stride :: cOrderStrides data_size (d' :: shape))) = _
        rw [mulIntptr, hmul]
        by_cases hstride : IntptrRange (data_size * (d' :: shape).prod)
        · rw [if_pos hstride, if_pos ⟨List.cons_ne_nil _ _, stridesFit_cons.2 ⟨hstride, hfit⟩⟩]
          rfl
        · rw [if_neg hstride, if_neg fun h => hstride (stridesFit_cons.1 h.2).1]
          rfl
      · rw [if_neg fun h => hfit h.2, if_neg fun h => hfit (stridesFit_cons.1 h.2).2]
        rfl

/-! ## C order -/

theorem range_mul (d P : ℕ) : List.range (d * P) = (List.range d).flatMap fun i => (List.range P).map (i * P + ·) := by
  induction d with
  | zero => simp
  | succ d ih =>
    rw [Nat.succ_mul, List.range_add, ih, List.range_succ, List.flatMap_append]
    simp

/-- The indices of a shape in order have the places `0, 1, …`. -/
theorem map_rank {shape : List ℤ} (h : ∀ d ∈ shape, 0 ≤ d) :
    (multiIndices shape).map (rank shape) = (List.range shape.prod.toNat).map fun i : ℕ => (i : ℤ) := by
  induction shape with
  | nil => simp [multiIndices, rank]
  | cons d shape ih =>
    obtain ⟨hd, h⟩ := List.forall_mem_cons.1 h
    have hprod : 0 ≤ shape.prod := List.prod_nonneg h
    rw [multiIndices_cons, List.prod_cons, Int.toNat_mul hd hprod, range_mul, List.map_flatMap, List.map_flatMap]
    congr 1
    funext i
    have hrow : ((multiIndices shape).map (i :: ·)).map (rank (d :: shape)) =
        ((multiIndices shape).map (rank shape)).map (i * shape.prod + ·) := by
      rw [List.map_map, List.map_map]
      rfl
    rw [hrow, ih h, List.map_map, List.map_map]
    refine List.map_congr_left fun j _ => ?_
    rw [Function.comp_apply, Function.comp_apply, Nat.cast_add, Nat.cast_mul, Int.toNat_of_nonneg hprod]

/-- Elements that follow one another have their place times the unit as their offset. -/
theorem CContiguous.offset {unit : ℤ} {shape : List ℤ} {md : List size_stride_t} (hlen : md.length = shape.length)
    (h : CContiguous unit shape md) {idx : List ℕ} (hidx : idx ∈ multiIndices shape) :
    strideOffset md idx = unit * rank shape idx := by
  induction shape generalizing md idx with
  | nil =>
    rw [List.length_eq_zero_iff.1 hlen]
    simp [strideOffset, rank]
  | cons d shape ih =>
    obtain ⟨i, rest, rfl, hi, hrest⟩ := mem_multiIndices_cons.1 hidx
    obtain ⟨m, md, rfl⟩ := List.exists_cons_of_length_eq_add_one hlen
    obtain ⟨hm, h⟩ := h
    have hfirst : i * m.stride = i * (unit * shape.prod) := by
      rcases Nat.eq_zero_or_pos i with rfl | hpos
      · simp
      · rw [hm (by omega)]
    rw [strideOffset, List.headI_cons, List.tail_cons, ih (Nat.succ.inj hlen) h hrest, rank, hfirst]
    ring

/-- Where every dimension has an element, the offsets leave no other strides. -/
theorem cContiguous_of_offset {unit : ℤ} {shape : List ℤ} {md : List size_stride_t} (hlen : md.length = shape.length)
    (hpos : ∀ d ∈ shape, 0 < d) (h : ∀ idx ∈ multiIndices shape, strideOffset md idx = unit * rank shape idx) :
    CContiguous unit shape md := by
  induction shape generalizing md with
  | nil => trivial
  | cons d shape ih =>
    obtain ⟨hd, hpos⟩ := List.forall_mem_cons.1 hpos
    obtain ⟨m, md, rfl⟩ := List.exists_cons_of_length_eq_add_one hlen
    have hlen : md.length = shape.length := Nat.succ.inj hlen
    have hrow : ∀ i : ℕ, (i : ℤ) < d → ∀ idx ∈ multiIndices shape,
        i * m.stride + strideOffset md idx = unit * (i * shape.prod + rank shape idx) :=
      fun i hi idx hidx => h (i :: idx) (mem_multiIndices_cons.2 ⟨i, idx, rfl, hi, hidx⟩)
    constructor
    · intro hlong
      obtain ⟨idx, hidx⟩ := exists_mem_multiIndices hpos
      have h0 := hrow 0 (by simpa using hd) idx hidx
      have h1 := hrow 1 (by simpa using hlong) idx hidx
      simp only [Nat.cast_zero, Nat.cast_one, zero_mul, zero_add, one_mul] at h0 h1
      rw [mul_add, h0] at h1
      exact add_right_cancel h1
    · refine ih hlen hpos fun idx hidx => ?_
      have h0 := hrow 0 (by simpa using hd) idx hidx
      rwa [Nat.cast_zero, zero_mul, zero_mul, zero_add, zero_add] at h0

/-! ## The elements -/

theorem readValue_injective {data_size : ℕ} (h : 0 < data_size) {x y : ℤ}
    (heq : ∀ mem, readValue mem data_size x = readValue mem data_size y) : x = y := by
  -- a memory that tells the first byte at `x` from every other one
  have hx := heq fun address => if address = x then 1 else 0
  have hfirst := List.map_inj_left.1 hx 0 (List.mem_range.2 h)
  by_contra hne
  simp only [Nat.cast_zero, add_zero, if_true, if_neg (Ne.symm hne)] at hfirst
  exact absurd hfirst (by decide)

theorem elements_cOrder {data_size : ℕ} {shape : List ℤ} {md : List size_stride_t} (hlen : md.length = shape.length)
    (h : CContiguous data_size shape md) (hshape : ∀ d ∈ shape, 0 ≤ d) (mem : ℤ → UInt8) (data : ℤ) :
    elements mem data_size shape md data =
      (List.range shape.prod.toNat).map fun i : ℕ => readValue mem data_size (data + data_size * i) := by
  have hrank : (List.range shape.prod.toNat).map (fun i : ℕ => readValue mem data_size (data + data_size * i)) =
      ((multiIndices shape).map (rank shape)).map fun i => readValue mem data_size (data + data_size * i) := by
    rw [map_rank hshape, List.map_map]
    rfl
  rw [hrank, List.map_map]
  refine List.map_congr_left fun idx hidx => ?_
  rw [h.offset hlen hidx]
  rfl

/-- The elements are the values that follow one another in memory, whatever it holds, exactly when the array is contiguous. -/
theorem elements_contiguous_iff {data_size : ℕ} {shape : List ℤ} {md : List size_stride_t} (hlen : md.length = shape.length)
    (hpos : ∀ d ∈ shape, 0 < d) (data : ℤ) :
    (∀ mem, elements mem data_size shape md data =
      (List.range shape.prod.toNat).map fun i : ℕ => readValue mem data_size (data + data_size * i)) ↔
    data_size = 0 ∨ CContiguous data_size shape md := by
  have hnonneg : ∀ d ∈ shape, 0 ≤ d := fun d hd => (hpos d hd).le
  have hrank : ∀ mem, (List.range shape.prod.toNat).map (fun i : ℕ => readValue mem data_size (data + data_size * i)) =
      (multiIndices shape).map fun idx => readValue mem data_size (data + data_size * rank shape idx) := by
    intro mem
    have h := congrArg (List.map fun i => readValue mem data_size (data + data_size * i)) (map_rank hnonneg)
    rw [List.map_map, List.map_map] at h
    exact h.symm
  simp only [hrank, elements]
  constructor
  · intro h
    rcases Nat.eq_zero_or_pos data_size with h0 | h0
    · exact Or.inl h0
    · refine Or.inr (cContiguous_of_offset hlen hpos fun idx hidx => ?_)
      have := readValue_injective h0 fun mem => List.map_inj_left.1 (h mem) idx hidx
      exact add_left_cancel this
  · rintro (rfl | h) mem
    · rfl
    · exact List.map_congr_left fun idx hidx => by rw [h.offset hlen hidx]

/-! ## The result -/

/-- The arrmeta of a reshaped array. -/
def cOrderArrmeta (data_size : ℤ) (shape : List ℤ) : List size_stride_t :=
  List.zipWith (fun dim_size stride => ⟨dim_size, if dim_size > 1 then stride else 0⟩) shape (cOrderStrides data_size shape)

theorem cOrderArrmeta_cons (data_size d : ℤ) (shape : List ℤ) : cOrderArrmeta data_size (d :: shape) =
    ⟨d, if d > 1 then data_size * shape.prod else 0⟩ :: cOrderArrmeta data_size shape := rfl

theorem map_cOrderArrmeta (data_size : ℤ) (shape : List ℤ) : (cOrderArrmeta data_size shape).map (·.dim_size) = shape := by
  induction shape with
  | nil => rfl
  | cons d shape ih => rw [cOrderArrmeta_cons, List.map_cons, ih]

theorem cOrderArrmeta_contiguous (data_size : ℤ) (shape : List ℤ) : CContiguous data_size shape (cOrderArrmeta data_size shape) := by
  induction shape with
  | nil => trivial
  | cons d shape ih =>
    rw [cOrderArrmeta_cons]
    exact ⟨fun hd => if_pos hd, ih⟩

theorem length_cOrderArrmeta (data_size : ℤ) (shape : List ℤ) : (cOrderArrmeta data_size shape).length = shape.length := by
  have h := congrArg List.length (map_cOrderArrmeta data_size shape)
  rwa [List.length_map] at h

section
variable {T : Type} [ElementType T] {get_arrmeta_size : T → ℕ} {print_type : T → String}
  {writable : Bool} {a : FixedArray T} {shape : List intptr_t}

/-- The type of the elements has nowhere else to keep what it needs. -/
def HasNoArrmeta (get_arrmeta_size : T → ℕ) (tp : T) : Prop := ElementType.is_builtin tp = true ∨ get_arrmeta_size tp = 0

theorem make_strided_array_ok {uniform_tp : T} (h : HasNoArrmeta get_arrmeta_size uniform_tp) (data_size : ℤ) (shape : List ℤ)
    (data_ptr : ℤ) : make_strided_array_from_data get_arrmeta_size print_type uniform_tp shape (cOrderStrides data_size shape) data_ptr =
      .ok ⟨uniform_tp, cOrderArrmeta data_size shape, data_ptr⟩ := by
  apply if_neg
  rcases h with h | h <;> simp [h]

theorem make_strided_array_error (print_type : T → String) {uniform_tp : T} (h : ¬ HasNoArrmeta get_arrmeta_size uniform_tp)
    (shape strides : List ℤ) (data_ptr : ℤ) : ∃ e, make_strided_array_from_data get_arrmeta_size print_type uniform_tp shape strides data_ptr = .error e ∧
      e ≠ .undefined_behaviour := by
  refine ⟨_, if_pos ?_, by simp⟩
  rw [HasNoArrmeta, not_or] at h
  simp [h.1, Nat.pos_of_ne_zero h.2]

/-- The array that the sizes of an array with as many elements lead to. -/
def reshaped (a : FixedArray T) (shape : List intptr_t) : strided_array T :=
  ⟨a.tp.dtype, cOrderArrmeta (ElementType.get_data_size a.tp.dtype) (shape.map (·.val)), a.data⟩

/-- What the reshaped array is, where it is one: the strides are of C order, and the data stays in place. -/
theorem reshaped_right_iff (hmd : a.arrmeta.length = a.tp.dims.length)
    (hprod : (sizes a.tp.dims).prod = (shape.map (·.val)).prod) :
    ReshapesRight a shape (.ok (reshaped a shape)) ↔ (sizes a.tp.dims).prod = 0 ∨ ((∀ d ∈ shape, 0 < d.val) ∧
      (ElementType.get_data_size a.tp.dtype = 0 ∨ CContiguous (ElementType.get_data_size a.tp.dtype) (sizes a.tp.dims) a.arrmeta)) := by
  set ds := ElementType.get_data_size a.tp.dtype
  set new := shape.map (·.val)
  have hlen : a.arrmeta.length = (sizes a.tp.dims).length := by rw [hmd, sizes, List.length_map]
  have hold : ∀ d ∈ sizes a.tp.dims, 0 ≤ d := by
    intro d hd
    obtain ⟨d, -, rfl⟩ := List.mem_map.1 hd
    exact d.property.1
  have hright : ReshapesRight a shape (.ok (reshaped a shape)) ↔
      ∀ mem, elements mem ds new (cOrderArrmeta ds new) a.data = elements mem ds (sizes a.tp.dims) a.arrmeta a.data := by
    simp only [ReshapesRight, reshaped, map_cOrderArrmeta, true_and]
    rfl
  rw [hright]
  by_cases h0 : (sizes a.tp.dims).prod = 0
  · -- neither has an element
    have hnone : multiIndices (sizes a.tp.dims) = [] := multiIndices_eq_nil (List.prod_eq_zero_iff.1 h0) le_rfl
    have hnone' : multiIndices new = [] := multiIndices_eq_nil (List.prod_eq_zero_iff.1 (hprod.symm.trans h0)) le_rfl
    simp [elements, hnone, hnone', h0]
  have hpos : ∀ d ∈ sizes a.tp.dims, 0 < d :=
    fun d hd => lt_of_le_of_ne (hold d hd) fun h => h0 (List.prod_eq_zero (h ▸ hd))
  rw [or_iff_right h0]
  by_cases hnew : ∀ d ∈ shape, 0 < d.val
  · have hnew' : ∀ d ∈ new, 0 ≤ d := by
      intro d hd
      obtain ⟨d', hd', rfl⟩ := List.mem_map.1 hd
      exact (hnew d' hd').le
    have hrow := fun mem => elements_cOrder (length_cOrderArrmeta ds new) (cOrderArrmeta_contiguous ds new) hnew' mem a.data
    rw [and_iff_right hnew, ← elements_contiguous_iff hlen hpos a.data]
    simp only [hrow, ← hprod]
    exact forall_congr' fun mem => eq_comm
  · refine iff_of_false (fun h => ?_) fun h => hnew h.1
    push Not at hnew
    obtain ⟨d, hd, hneg⟩ := hnew
    have hnone : multiIndices new = [] := multiIndices_eq_nil (List.mem_map_of_mem hd) hneg
    obtain ⟨idx, hidx⟩ := exists_mem_multiIndices hpos
    have h := h fun _ => 0
    rw [elements, elements, hnone, List.map_nil, eq_comm, List.map_eq_nil_iff] at h
    rw [h] at hidx
    cases hidx

theorem reshape_of_ne (hold : ProductsFit (sizes a.tp.dims)) (hnew : ProductsFit (shape.map (·.val)))
    (hprod : (sizes a.tp.dims).prod ≠ (shape.map (·.val)).prod) : reshape get_arrmeta_size print_type writable a shape =
      .error (.invalid_argument
        s!"dynd reshape: cannot reshape to a different total number of elements, from {(sizes a.tp.dims).prod} to {(shape.map (·.val)).prod}") := by
  simp only [reshape, totalSize_eq, if_pos hold, if_pos hnew, ok_bind, if_pos hprod]
  rfl

/-- With as many elements, the strides of C order are all that is computed. -/
theorem reshape_of_eq (hold : ProductsFit (sizes a.tp.dims)) (hnew : ProductsFit (shape.map (·.val)))
    (hprod : (sizes a.tp.dims).prod = (shape.map (·.val)).prod) : reshape get_arrmeta_size print_type writable a shape =
      (reshapeStrides (ElementType.get_data_size a.tp.dtype) (shape.map (·.val)) >>= fun strides =>
        if writable = true then make_strided_array_from_data get_arrmeta_size print_type a.tp.dtype (shape.map (·.val)) strides a.data
        else .error (.runtime_error "tried to write to a dynd array that is not writable")) := by
  simp only [reshape, totalSize_eq, if_pos hold, if_pos hnew, ok_bind, if_neg (not_not.2 hprod)]
  cases writable <;> rfl

/-- A reshape throws, or gives the array's elements in C order, exactly when no product leaves `intptr_t`, the shape has a
dimension, and the array that is relabelled has no element, or it is contiguous and the sizes are positive. -/
theorem reshape_iff (get_arrmeta_size : T → ℕ) (print_type : T → String) (writable : Bool) (a : FixedArray T) (shape : List intptr_t)
    (hmd : a.arrmeta.length = a.tp.dims.length) :
    ReshapesRight a shape (reshape get_arrmeta_size print_type writable a shape) ↔
      ProductsFit (sizes a.tp.dims) ∧ ProductsFit (shape.map (·.val)) ∧
      ((sizes a.tp.dims).prod = (shape.map (·.val)).prod →
        shape ≠ [] ∧ StridesFit (ElementType.get_data_size a.tp.dtype) (shape.map (·.val)) ∧
        (writable = true → HasNoArrmeta get_arrmeta_size a.tp.dtype →
          (sizes a.tp.dims).prod = 0 ∨ ((∀ d ∈ shape, 0 < d.val) ∧ (ElementType.get_data_size a.tp.dtype = 0 ∨
            CContiguous (ElementType.get_data_size a.tp.dtype) (sizes a.tp.dims) a.arrmeta)))) := by
  have hub : ¬ ReshapesRight a shape (.error .undefined_behaviour) := fun h => h rfl
  by_cases hold : ProductsFit (sizes a.tp.dims)
  swap
  · rw [reshape, totalSize_eq, if_neg hold]
    exact iff_of_false hub fun h => hold h.1
  by_cases hnew : ProductsFit (shape.map (·.val))
  swap
  · rw [reshape, totalSize_eq, if_pos hold, totalSize_eq, if_neg hnew]
    exact iff_of_false hub fun h => hnew h.2.1
  rw [and_iff_right hold, and_iff_right hnew]
  by_cases hprod : (sizes a.tp.dims).prod = (shape.map (·.val)).prod
  swap
  · rw [reshape_of_ne hold hnew hprod]
    exact iff_of_true (by simp [ReshapesRight]) fun h => absurd h hprod
  rw [reshape_of_eq hold hnew hprod, reshapeStrides_eq, forall_prop_of_true hprod]
  by_cases hfit : shape.map (·.val) ≠ [] ∧ StridesFit (ElementType.get_data_size a.tp.dtype) (shape.map (·.val))
  swap
  · rw [if_neg hfit]
    exact iff_of_false hub fun h => hfit ⟨fun hnil => h.1 (List.map_eq_nil_iff.1 hnil), h.2.1⟩
  rw [if_pos hfit, ok_bind, and_iff_right (show shape ≠ [] from fun h => hfit.1 (by rw [h]; rfl)), and_iff_right hfit.2]
  cases writable with
  | false => exact iff_of_true (by simp [ReshapesRight]) (by simp)
  | true =>
    rw [if_pos rfl, forall_prop_of_true rfl]
    by_cases hdt : HasNoArrmeta get_arrmeta_size a.tp.dtype
    · rw [make_strided_array_ok hdt, forall_prop_of_true hdt]
      exact reshaped_right_iff hmd hprod
    · obtain ⟨e, he, hne⟩ := make_strided_array_error print_type hdt (shape.map (·.val))
        (cOrderStrides (ElementType.get_data_size a.tp.dtype) (shape.map (·.val))) a.data
      rw [he]
      exact iff_of_true hne fun h => absurd h hdt

end

theorem reshape_two_by_three : ReshapesRight twoByThree [⟨3, by decide⟩, ⟨2, by decide⟩]
    (reshape (fun _ => 0) (fun _ => "int32") true twoByThree [⟨3, by decide⟩, ⟨2, by decide⟩]) := by
  refine (reshape_iff (fun _ => 0) (fun _ => "int32") true twoByThree [⟨3, by decide⟩, ⟨2, by decide⟩] rfl).2
    ⟨by unfold ProductsFit; decide, by unfold ProductsFit; decide, fun _ => ⟨by decide, ?_, fun _ _ => .inr ⟨by decide, .inr ?_⟩⟩⟩
  · rintro k h0 hk
    match k with
    | 1 => decide
  · exact ⟨fun _ => rfl, fun _ => rfl, trivial⟩

/-- The transposed view has its second element three places on. -/
theorem reshape_three_by_two : ¬ ReshapesRight threeByTwo [⟨6, by decide⟩]
    (reshape (fun _ => 0) (fun _ => "int32") true threeByTwo [⟨6, by decide⟩]) := by
  have hout : reshape (fun _ => 0) (fun _ => "int32") true threeByTwo [⟨6, by decide⟩] = .ok ⟨int32, [⟨6, 4⟩], 16⟩ := by decide
  rw [hout]
  intro h
  have hmem := h.2.2 fun address => if address = 20 then 1 else 0
  revert hmem
  decide

end Dynd.FixedDim
