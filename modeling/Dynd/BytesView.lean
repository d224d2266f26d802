import Dynd.Lib.RowMajor
import Dynd.ReorderStrides
/-!
# Viewing nested arrays as bytes

`view_as_bytes` of an array whose type nests fixed dimensions, `var`
dimensions, pointers and strings. It peels the type from the outside: what it
holds at each point is a row of items at a single stride. A view that succeeds
is over the bytes of the elements and no others. Fixed dimensions that are not
in C order are sorted first, so their elements come in the order of memory.
-/
namespace Dynd.BytesView
open Lib FixedDim

/-! ## Types and memory -/

/-- A type with its arrmeta. -/
inductive view_type where
  | fixed_dim (dim_size : dim_size_t) (stride : ℤ) (element_tp : view_type)
  | var_dim (blockref : Option ℕ) (stride offset : ℤ) (element_tp : view_type)
  | pointer (blockref : Option ℕ) (offset : ℤ) (target_tp : view_type)
  | string (blockref : Option ℕ)
  /-- every other type -/
  | dtype (data_size : ℕ) (flags : type_flags)
deriving DecidableEq

/-- What is stored at an address, by the type it is read as. -/
structure Memory where
  /-- `var_dim_type_data`: `begin` and `size` -/
  var_data : ℤ → ℤ × ℕ
  pointer : ℤ → ℤ
  /-- `string_type_data`: `begin` and `end` -/
  string_data : ℤ → ℤ × ℤ
  /-- the bytes that the references of a value lead to -/
  referenced : ℤ → List ℤ

/-- The flags that the view asks for: a `var` dimension and a pointer own no objects. -/
def view_type.destructor : view_type → Bool
  | fixed_dim _ _ element_tp => element_tp.destructor
  | dtype _ flags => flags.destructor
  | _ => false

structure nested_array where
  data_memblock : ℕ
  data_pointer : ℤ
  tp : view_type
deriving DecidableEq

/-! ## The view -/

/-- The variables of the loop. `data_tp` is `none` for the uninitialized type,
and a `data_dim_size` of `-1` is a single item. -/
structure Refined where
  data_ref : ℕ
  data_ptr : ℤ
  data_tp : Option view_type
  data_dim_size : ℤ
  data_stride : ℤ
deriving DecidableEq

/-- All the strided dimensions in a row, and the type within them. -/
def strided_dims : view_type → List size_stride_t × view_type
  | .fixed_dim dim_size stride element_tp =>
    let (dims, el_tp) := strided_dims element_tp
    (⟨dim_size, stride⟩ :: dims, el_tp)
  | tp => ([], tp)

/-- `shape_sorted` and `strides_sorted`, which are filled in from their ends. -/
def sort_dims (std : std_sort) (dims : List size_stride_t) : List size_stride_t :=
  ((strides_to_axis_perm std (dims.map (·.stride))).map fun i_perm => dims.getD i_perm ⟨0, 0⟩).reverse

/-- We couldn't view this as bytes. -/
def Refined.failed (s : Refined) : Refined := { s with data_tp := none, data_dim_size := -1 }

def refine_bytes_view (std : std_sort) (mem : Memory) (s : Refined) : Refined :=
  match s.data_tp with
  | none => s
  | some (.fixed_dim dim_size stride element_tp) =>
    let (dims, el_tp) := strided_dims (.fixed_dim dim_size stride element_tp)
    -- If the strides weren't sorted in C order, sort them
    let dims := if strides_sorted dims then dims else sort_dims std dims
    match collapse dims (s.data_dim_size, s.data_stride) with
    | none => s.failed
    | some (data_dim_size, data_stride) =>
      { s with data_tp := some el_tp, data_dim_size := data_dim_size, data_stride := data_stride }
  | some (.var_dim blockref stride offset element_tp) =>
    -- We can only allow leading var_dim
    if s.data_dim_size ≠ -1 then s.failed
    else
      let d := mem.var_data s.data_ptr
      { data_ref := blockref.getD s.data_ref
        data_ptr := d.1 + offset
        data_tp := some element_tp
        data_dim_size := if d.2 ≠ 1 then d.2 else s.data_dim_size
        data_stride := if d.2 ≠ 1 then stride else s.data_stride }
  | some (.pointer blockref offset target_tp) =>
    -- We can only strip away leading pointers
    if s.data_dim_size ≠ -1 then s.failed
    else
      { s with
        data_ref := blockref.getD s.data_ref
        data_ptr := mem.pointer s.data_ptr + offset
        data_tp := some target_tp }
  | some (.string blockref) =>
    -- We can only view leading strings
    if s.data_dim_size ≠ -1 then s.failed
    else
      let str_ptr := mem.string_data s.data_ptr
      { data_ref := blockref.getD s.data_ref
        data_ptr := str_ptr.1
        data_tp := none
        data_dim_size := str_ptr.2 - str_ptr.1
        data_stride := 1 }
  | some (.dtype data_tp_size _) =>
    -- If the data type has a fixed size, check if it fits the strides
    if data_tp_size > 0 then
      if s.data_dim_size = -1 then { s with data_tp := none, data_dim_size := data_tp_size, data_stride := 1 }
      else if (data_tp_size : ℤ) = s.data_stride then
        { s with data_tp := none, data_dim_size := s.data_dim_size * data_tp_size, data_stride := 1 }
      else s.failed
    else s.failed

def view_type.depth : view_type → ℕ
  | fixed_dim _ _ element_tp => element_tp.depth + 1
  | var_dim _ _ _ element_tp => element_tp.depth + 1
  | pointer _ _ target_tp => target_tp.depth + 1
  | string _ => 1
  | dtype _ _ => 1

/-- How far the type still is from being peeled. -/
def Refined.depth (s : Refined) : ℕ := (s.data_tp.map view_type.depth).getD 0

theorem strided_dims_depth (tp : view_type) : (strided_dims tp).2.depth ≤ tp.depth := by
  induction tp with
  | fixed_dim dim_size stride element_tp ih => exact ih.trans (Nat.le_succ _)
  | _ => exact le_refl _

/-- Each step peels the type. -/
theorem refine_depth (std : std_sort) (mem : Memory) {s : Refined} (h : s.data_tp.isSome = true) :
    (refine_bytes_view std mem s).depth < s.depth := by
  obtain ⟨data_ref, data_ptr, data_tp, data_dim_size, data_stride⟩ := s
  cases data_tp with
  | none => cases h
  | some tp =>
    cases tp with
    | fixed_dim n stride element_tp =>
      have hle := strided_dims_depth element_tp
      rw [refine_bytes_view]
      dsimp only [strided_dims]
      cases collapse _ (data_dim_size, data_stride) with
      | none => exact Nat.succ_pos _
      | some r => exact Nat.lt_succ_of_le hle
    | var_dim blockref stride offset element_tp =>
      rw [refine_bytes_view]
      dsimp only
      split_ifs
      · exact Nat.succ_pos _
      all_goals exact Nat.lt_succ_self _
    | pointer blockref offset target_tp =>
      rw [refine_bytes_view]
      dsimp only
      split_ifs
      · exact Nat.succ_pos _
      · exact Nat.lt_succ_self _
    | string blockref =>
      rw [refine_bytes_view]
      dsimp only
      split_ifs <;> exact Nat.succ_pos _
    | dtype data_size flags =>
      rw [refine_bytes_view]
      dsimp only
      split_ifs <;> exact Nat.succ_pos _

/-- `while (data_tp.get_type_id() != uninitialized_type_id)`. -/
def refineLoop (std : std_sort) (mem : Memory) (s : Refined) : Refined :=
  if _h : s.data_tp.isSome then refineLoop std mem (refine_bytes_view std mem s) else s
termination_by s.depth
decreasing_by exact refine_depth std mem _h

/-- The bytes extents of the result, and its reference. -/
structure bytes_view where
  begin : ℤ
  finish : ℤ
  blockref : ℕ
deriving DecidableEq

def view_as_bytes (std : std_sort) (mem : Memory) (target_alignment : ℕ) (arr : nested_array) : Option bytes_view :=
  if arr.tp.destructor then
    -- Can't view arrays of object type
    none
  else
    let s := refineLoop std mem ⟨arr.data_memblock, arr.data_pointer, some arr.tp, -1, 0⟩
    if s.data_dim_size < 0 || !offset_is_aligned s.data_ptr target_alignment then none
    else some ⟨s.data_ptr, s.data_ptr + s.data_dim_size, s.data_ref⟩

/-! ## What the bytes are -/

/-- The addresses from `begin` on. -/
def addresses (begin : ℤ) (n : ℕ) : List ℤ := (List.range n).map fun i : ℕ => begin + i

def bytes_view.bytes (v : bytes_view) : List ℤ := addresses v.begin (v.finish - v.begin).toNat

/-- The element's data is not all in the element. -/
def HoldsReferences (flags : type_flags) : Bool := flags.blockref || flags.destructor

/-- The bytes of the elements, one element after the other. -/
def view_type.bytes (mem : Memory) : view_type → ℤ → List ℤ
  | fixed_dim dim_size stride element_tp, data =>
    (List.range dim_size.val.toNat).flatMap fun i : ℕ => element_tp.bytes mem (data + i * stride)
  | var_dim _ stride offset element_tp, data =>
    let d := mem.var_data data
    (List.range d.2).flatMap fun i : ℕ => element_tp.bytes mem (d.1 + offset + i * stride)
  | pointer _ offset target_tp, data => target_tp.bytes mem (mem.pointer data + offset)
  | string _, data =>
    let d := mem.string_data data
    addresses d.1 (d.2 - d.1).toNat
  | dtype data_size flags, data => if HoldsReferences flags then mem.referenced data else addresses data data_size

def nested_array.bytes (mem : Memory) (arr : nested_array) : List ℤ := arr.tp.bytes mem arr.data_pointer

/-! ## Rows of strided dimensions -/

/-- The offsets of the elements of a row of dimensions. -/
def rowOffsets (dims : List size_stride_t) : List ℤ := offsets (fun m : size_stride_t => m.dim_size.toNat) (·.stride) dims

/-- The offsets of the items that the variables of the loop stand for. -/
def items (data_dim_size data_stride : ℤ) : List ℤ :=
  if data_dim_size = -1 then [0] else multiples data_dim_size.toNat data_stride

/-- A count of items. -/
def IsCount (n : ℤ) : Prop := n = -1 ∨ 0 ≤ n

theorem rowOffsets_cons (m : size_stride_t) (dims : List size_stride_t) : rowOffsets (m :: dims) =
    (List.range m.dim_size.toNat).flatMap fun i : ℕ => (rowOffsets dims).map (i * m.stride + ·) := rfl

theorem rowOffsets_one {m : size_stride_t} (hm : m.dim_size = 1) (dims : List size_stride_t) :
    rowOffsets (m :: dims) = rowOffsets dims :=
  @offsets_one _ (fun m : size_stride_t => m.dim_size.toNat) (·.stride) _ (by omega) dims

theorem items_single (data_stride : ℤ) : items (-1) data_stride = [0] := if_pos rfl

theorem items_count {n : ℤ} (hn : 0 ≤ n) (data_stride : ℤ) : items n data_stride = multiples n.toNat data_stride :=
  if_neg (by omega)

theorem strided_dims_sizes (tp : view_type) : ∀ m ∈ (strided_dims tp).1, 0 ≤ m.dim_size := by
  induction tp with
  | fixed_dim dim_size stride element_tp ih => exact List.forall_mem_cons.2 ⟨dim_size.2.1, ih⟩
  | _ => exact List.forall_mem_nil _

/-- The elements of a type are those of the type within its strided dimensions, at each offset. -/
theorem strided_dims_bytes (mem : Memory) (tp : view_type) (data : ℤ) :
    tp.bytes mem data = (rowOffsets (strided_dims tp).1).flatMap fun o => (strided_dims tp).2.bytes mem (data + o) := by
  induction tp generalizing data with
  | fixed_dim dim_size stride element_tp ih =>
    have hel : ∀ i : ℕ, element_tp.bytes mem (data + i * stride) =
        (rowOffsets (strided_dims element_tp).1).flatMap fun o =>
          (strided_dims element_tp).2.bytes mem (data + (i * stride + o)) := by
      intro i
      rw [ih]
      simp only [add_assoc]
    have hdims : strided_dims (.fixed_dim dim_size stride element_tp) =
        (⟨dim_size, stride⟩ :: (strided_dims element_tp).1, (strided_dims element_tp).2) := rfl
    rw [view_type.bytes, hdims, rowOffsets_cons, List.flatMap_assoc]
    refine List.flatMap_congr fun i _ => ?_
    rw [hel, List.flatMap_map]
  | _ => simp [strided_dims, rowOffsets, offsets]

/-- Collapsing keeps the offsets, in their order. -/
theorem collapse_items {dims : List size_stride_t} (hdims : ∀ m ∈ dims, 0 ≤ m.dim_size) {n s n' s' : ℤ} (hn : IsCount n)
    (h : collapse dims (n, s) = some (n', s')) :
    IsCount n' ∧ items n' s' = (items n s).flatMap fun o => (rowOffsets dims).map (o + ·) := by
  induction dims generalizing n s with
  | nil =>
    obtain ⟨rfl, rfl⟩ := Prod.mk.inj (Option.some.inj h)
    refine ⟨hn, ?_⟩
    simp [rowOffsets, offsets]
  | cons m dims ih =>
    obtain ⟨hm, hdims⟩ := List.forall_mem_cons.1 hdims
    rw [collapse] at h
    split_ifs at h with h1 hsingle hfit
    · -- an axis of one element
      obtain ⟨hn', hitems⟩ := ih hdims hn h
      exact ⟨hn', by rw [hitems, rowOffsets_one h1]⟩
    · -- the first dimension
      obtain ⟨hn', hitems⟩ := ih hdims (.inr hm) h
      refine ⟨hn', ?_⟩
      rw [hitems, hsingle, items_single, items_count hm, multiples, List.flatMap_map, List.flatMap_singleton, rowOffsets_cons]
      simp only [zero_add, List.map_id']
    · -- a dimension that the one before it steps over
      have hcount : 0 ≤ n := hn.resolve_left hsingle
      obtain ⟨hn', hitems⟩ := ih hdims (.inr (mul_nonneg hcount hm)) h
      refine ⟨hn', ?_⟩
      have hfit : m.dim_size.toNat * m.stride = s := by
        rw [Int.toNat_of_nonneg hm]
        exact not_not.1 hfit
      have hprod : (n * m.dim_size).toNat = n.toNat * m.dim_size.toNat := Int.toNat_mul hcount hm
      rw [hitems, items_count (mul_nonneg hcount hm), items_count hcount, hprod, ← multiples_flatMap, hfit,
        List.flatMap_assoc]
      refine List.flatMap_congr fun o _ => ?_
      simp only [multiples, rowOffsets_cons, List.map_flatMap, List.flatMap_map, List.map_map,
        Function.comp_def, add_assoc]

theorem sort_dims_perm (std : std_sort) (dims : List size_stride_t) : (sort_dims std dims).Perm dims := by
  obtain ⟨hperm, -⟩ := strides_to_axis_perm_spec std (dims.map (·.stride))
  have hself : (List.range dims.length).map (fun i => dims.getD i ⟨0, 0⟩) = dims := by
    apply List.ext_getElem (by simp)
    intro i hi hi'
    rw [List.getElem_map, List.getElem_range, List.getD_eq_getElem _ _ hi']
  rw [List.length_map] at hperm
  refine (List.reverse_perm _).trans ?_
  have := hperm.map fun i => dims.getD i ⟨0, 0⟩
  rwa [hself] at this

/-! ## C order -/

/-- The dimensions that do more than repeat an element of the one around them. -/
def long (dims : List size_stride_t) : List size_stride_t := dims.filter (·.dim_size ≠ 1)

/-- The strides shrink inwards, those of dimensions of size one apart. -/
def COrder (dims : List size_stride_t) : Prop := (long dims).Pairwise fun a b => b.stride ≤ a.stride

theorem long_cons_one {m : size_stride_t} (hm : m.dim_size = 1) (dims : List size_stride_t) : long (m :: dims) = long dims :=
  List.filter_cons_of_neg (by simpa using hm)

theorem long_cons {m : size_stride_t} (hm : m.dim_size ≠ 1) (dims : List size_stride_t) :
    long (m :: dims) = m :: long dims :=
  List.filter_cons_of_pos (by simpa using hm)

theorem rowOffsets_long (dims : List size_stride_t) : rowOffsets (long dims) = rowOffsets dims := by
  induction dims with
  | nil => rfl
  | cons m dims ih =>
    by_cases hm : m.dim_size = 1
    · rw [long_cons_one hm, rowOffsets_one hm, ih]
    · rw [long_cons hm, rowOffsets_cons, rowOffsets_cons, ih]

/-- Collapsing to a row of positive stride, the strides shrink strictly. -/
theorem collapse_shrinks {dims : List size_stride_t} (hdims : ∀ m ∈ dims, 1 ≤ m.dim_size) {n s n' s' : ℤ} (hn : IsCount n)
    (hpos : n' ≠ -1 → 0 < s') (h : collapse dims (n, s) = some (n', s')) :
    (long dims).Pairwise (fun a b => b.stride < a.stride) ∧
      (n ≠ -1 → 0 < s ∧ ∀ m ∈ long dims, m.stride < s) := by
  induction dims generalizing n s with
  | nil =>
    obtain ⟨rfl, rfl⟩ := Prod.mk.inj (Option.some.inj h)
    exact ⟨List.Pairwise.nil, fun hne => ⟨hpos hne, List.forall_mem_nil _⟩⟩
  | cons m dims ih =>
    obtain ⟨hm, hdims⟩ := List.forall_mem_cons.1 hdims
    rw [collapse] at h
    split_ifs at h with h1 hsingle hfit
    · rw [long_cons_one h1]
      exact ih hdims hn h
    · obtain ⟨hrest, hfirst⟩ := ih hdims (.inr (by omega)) h
      obtain ⟨-, hlt⟩ := hfirst (by omega)
      rw [long_cons h1]
      exact ⟨List.pairwise_cons.2 ⟨hlt, hrest⟩, fun hne => absurd hsingle hne⟩
    · have hcount : 0 ≤ n * m.dim_size := mul_nonneg (hn.resolve_left hsingle) (by omega)
      obtain ⟨hrest, hfirst⟩ := ih hdims (.inr hcount) h
      obtain ⟨hstride, hlt⟩ := hfirst (by omega)
      have hfit : m.dim_size * m.stride = s := not_not.1 hfit
      have hs : m.stride < s := by
        rw [← hfit]
        exact lt_mul_of_one_lt_left hstride (by omega)
      rw [long_cons h1]
      refine ⟨List.pairwise_cons.2 ⟨hlt, hrest⟩, fun _ => ⟨hstride.trans hs, ?_⟩⟩
      exact List.forall_mem_cons.2 ⟨hs, fun b hb => (hlt b hb).trans hs⟩

/-- Sorting the dimensions keeps which offsets there are, and their order where they were in C order. -/
theorem sorted_offsets {dims dims' : List size_stride_t} (hperm : dims'.Perm dims) (hdims : ∀ m ∈ dims, 0 ≤ m.dim_size)
    {n s n' s' : ℤ} (hn : IsCount n) (hpos : n' ≠ -1 → 0 < s') (h : collapse dims' (n, s) = some (n', s')) :
    (rowOffsets dims').Perm (rowOffsets dims) ∧ (COrder dims → rowOffsets dims' = rowOffsets dims) := by
  have hoffsets : (rowOffsets dims').Perm (rowOffsets dims) := offsets_perm hperm
  refine ⟨hoffsets, fun horder => ?_⟩
  by_cases hempty : ∃ m ∈ dims, m.dim_size.toNat = 0
  · have h0 : rowOffsets dims = [] := offsets_empty hempty
    rw [h0] at hoffsets ⊢
    exact hoffsets.eq_nil
  · have hlarge : ∀ m ∈ dims', 1 ≤ m.dim_size := by
      intro m hm
      have hm := hperm.subset hm
      have h0 := hdims m hm
      have hne : m.dim_size.toNat ≠ 0 := fun he => hempty ⟨m, hm, he⟩
      omega
    obtain ⟨hstrict, -⟩ := collapse_shrinks hlarge hn hpos h
    have hlong : (long dims').Perm (long dims) := hperm.filter _
    have hsame : long dims' = long dims := by
      refine hlong.eq_of_pairwise ?_ (hstrict.imp le_of_lt) horder
      intro a b ha hb hab hba
      by_contra hne
      have hb' : b ∈ long dims' := hlong.symm.subset hb
      obtain hlt | hlt := pairwise_either hstrict ha hb' hne <;> omega
    rw [← rowOffsets_long dims', hsame, rowOffsets_long]

/-! ## The loop -/

/-- The elements hold their own data. -/
def view_type.Plain : view_type → Prop
  | fixed_dim _ _ element_tp => element_tp.Plain
  | var_dim _ _ _ element_tp => element_tp.Plain
  | pointer _ _ target_tp => target_tp.Plain
  | string _ => True
  | dtype _ flags => HoldsReferences flags = false

/-- Every row of strided dimensions is in C order. -/
def view_type.InOrder : view_type → Prop
  | fixed_dim dim_size stride element_tp =>
    COrder (strided_dims (.fixed_dim dim_size stride element_tp)).1 ∧ element_tp.InOrder
  | var_dim _ _ _ element_tp => element_tp.InOrder
  | pointer _ _ target_tp => target_tp.InOrder
  | string _ => True
  | dtype _ _ => True

/-- The bytes that the variables of the loop stand for. -/
def Refined.bytes (mem : Memory) (s : Refined) : List ℤ :=
  match s.data_tp with
  | some tp => (items s.data_dim_size s.data_stride).flatMap fun o => tp.bytes mem (s.data_ptr + o)
  | none => addresses s.data_ptr s.data_dim_size.toNat

/-- What holds before each step. -/
structure Refined.Good (s : Refined) : Prop where
  count : IsCount s.data_dim_size
  plain : ∀ tp ∈ s.data_tp, tp.Plain

/-- What is left of the type is in C order. -/
def Refined.InOrder (s : Refined) : Prop := ∀ tp ∈ s.data_tp, tp.InOrder

section
variable (std : std_sort) (mem : Memory)

theorem refineLoop_none {s : Refined} (h : s.data_tp = none) : refineLoop std mem s = s := by
  rw [refineLoop, dif_neg (by simp [h])]

theorem refineLoop_some {s : Refined} (h : s.data_tp.isSome = true) :
    refineLoop std mem s = refineLoop std mem (refine_bytes_view std mem s) := by
  rw [refineLoop, dif_pos h]

/-- The loop peels the whole type. -/
theorem refineLoop_done (s : Refined) : (refineLoop std mem s).data_tp = none := by
  induction hd : s.depth using Nat.strong_induction_on generalizing s with
  | _ d ih =>
    subst hd
    by_cases hsome : s.data_tp.isSome
    · rw [refineLoop_some std mem hsome]
      exact ih _ (refine_depth std mem hsome) _ rfl
    · have hnone : s.data_tp = none := by simpa using hsome
      rw [refineLoop_none std mem hnone, hnone]

/-- The loop ends with bytes. -/
def Succeeds (s : Refined) : Prop := 0 ≤ (refineLoop std mem s).data_dim_size

theorem not_succeeds_failed (s : Refined) : ¬ Succeeds std mem s.failed := by
  rw [Succeeds, refineLoop_none std mem rfl]
  exact (by decide : ¬ (0 : ℤ) ≤ -1)

theorem strided_dims_inner (tp : view_type) (n : dim_size_t) (stride : ℤ) (element_tp : view_type) :
    (strided_dims tp).2 ≠ .fixed_dim n stride element_tp := by
  induction tp with
  | fixed_dim n' stride' element_tp' ih => exact ih
  | _ => simp [strided_dims]

theorem strided_dims_plain {tp : view_type} (h : tp.Plain) : (strided_dims tp).2.Plain := by
  induction tp with
  | fixed_dim n stride element_tp ih => exact ih h
  | _ => exact h

theorem strided_dims_inOrder {tp : view_type} (h : tp.InOrder) : (strided_dims tp).2.InOrder := by
  induction tp with
  | fixed_dim n stride element_tp ih => exact ih h.2
  | _ => exact h

/-- More than one item is viewed only at a positive stride. -/
theorem stride_pos {s : Refined} {tp : view_type} (htp : s.data_tp = some tp)
    (hne : ∀ n stride element_tp, tp ≠ .fixed_dim n stride element_tp) (hmany : s.data_dim_size ≠ -1)
    (h : Succeeds std mem s) : 0 < s.data_stride := by
  obtain ⟨data_ref, data_ptr, _, data_dim_size, data_stride⟩ := s
  obtain rfl : _ = some tp := htp
  rw [Succeeds, refineLoop_some std mem (by rfl)] at h
  cases tp with
  | fixed_dim n stride element_tp => exact absurd rfl (hne n stride element_tp)
  | dtype data_size flags =>
    rw [refine_bytes_view] at h
    dsimp only at h hmany ⊢
    split_ifs at h with hsize hfit
    · omega
    all_goals exact absurd h (not_succeeds_failed std mem _)
  | _ =>
    rw [refine_bytes_view] at h
    dsimp only at h hmany
    rw [if_pos hmany] at h
    exact absurd h (not_succeeds_failed std mem _)

theorem addresses_eq (begin : ℤ) (n : ℕ) : addresses begin n = (multiples n 1).map (begin + ·) := by
  simp [addresses, multiples]

/-- Items that touch are one row of bytes. -/
theorem addresses_items (begin : ℤ) (n m : ℕ) :
    ((multiples n m).flatMap fun o => addresses (begin + o) m) = addresses begin (n * m) := by
  rw [addresses_eq, ← multiples_flatMap, List.map_flatMap, mul_one]
  refine List.flatMap_congr fun o _ => ?_
  rw [addresses_eq, List.map_map]
  refine List.map_congr_left fun x _ => ?_
  rw [Function.comp_apply, add_assoc]

/-- What a step keeps: the bytes, and their order where it is C order. -/
structure Keeps (mem : Memory) (s s' : Refined) : Prop where
  good : s'.Good
  bytes : (s'.bytes mem).Perm (s.bytes mem)
  order : s.InOrder → s'.bytes mem = s.bytes mem ∧ s'.InOrder

/-- The outermost type is peeled off, and the bytes stay in their order. -/
theorem Keeps.peel {s s' : Refined} {tp tp' : view_type} (hgood : s.Good) (htp : s.data_tp = some tp)
    (htp' : s'.data_tp = some tp') (hcount : IsCount s'.data_dim_size) (hplain : tp.Plain → tp'.Plain)
    (horder : tp.InOrder → tp'.InOrder) (hbytes : s'.bytes mem = s.bytes mem) : Keeps mem s s' := by
  refine ⟨⟨hcount, fun t ht => ?_⟩, List.Perm.of_eq hbytes, fun h => ⟨hbytes, fun t ht => ?_⟩⟩
  · obtain rfl := Option.some.inj (htp'.symm.trans ht)
    exact hplain (hgood.plain tp htp)
  · obtain rfl := Option.some.inj (htp'.symm.trans ht)
    exact horder (h tp htp)

/-- The type is peeled to its end. -/
theorem Keeps.finish {s s' : Refined} (htp' : s'.data_tp = none) (hcount : IsCount s'.data_dim_size)
    (hbytes : s'.bytes mem = s.bytes mem) : Keeps mem s s' := by
  refine ⟨⟨hcount, fun t ht => ?_⟩, List.Perm.of_eq hbytes, fun _ => ⟨hbytes, fun t ht => ?_⟩⟩
  all_goals
    rw [htp'] at ht
    cases ht

theorem Keeps.trans {s₁ s₂ s₃ : Refined} (h₁ : Keeps mem s₁ s₂) (h₂ : Keeps mem s₂ s₃) : Keeps mem s₁ s₃ where
  good := h₂.good
  bytes := h₂.bytes.trans h₁.bytes
  order h := by
    obtain ⟨hb₁, ho₁⟩ := h₁.order h
    obtain ⟨hb₂, ho₂⟩ := h₂.order ho₁
    exact ⟨hb₂.trans hb₁, ho₂⟩

theorem bytes_single (data_ref : ℕ) (data_ptr : ℤ) (tp : view_type) (data_stride : ℤ) :
    Refined.bytes mem ⟨data_ref, data_ptr, some tp, -1, data_stride⟩ = tp.bytes mem data_ptr := by
  simp [Refined.bytes, items_single]

theorem bytes_many (data_ref : ℕ) (data_ptr : ℤ) (tp : view_type) (n : ℕ) (data_stride : ℤ) :
    Refined.bytes mem ⟨data_ref, data_ptr, some tp, n, data_stride⟩ =
      (multiples n data_stride).flatMap fun o => tp.bytes mem (data_ptr + o) := by
  rw [Refined.bytes]
  dsimp only
  rw [items_count (Int.natCast_nonneg n), Int.toNat_natCast]

/-- A step over a row of strided dimensions that does not fail collapses them, in some order. -/
theorem refine_row {data_ref : ℕ} {data_ptr data_dim_size data_stride : ℤ} {n : dim_size_t} {stride : ℤ}
    {element_tp : view_type} (h : Succeeds std mem (refine_bytes_view std mem
      ⟨data_ref, data_ptr, some (.fixed_dim n stride element_tp), data_dim_size, data_stride⟩)) :
    ∃ dims' n' s', dims'.Perm (strided_dims (.fixed_dim n stride element_tp)).1 ∧
      collapse dims' (data_dim_size, data_stride) = some (n', s') ∧
      refine_bytes_view std mem ⟨data_ref, data_ptr, some (.fixed_dim n stride element_tp), data_dim_size, data_stride⟩ =
        ⟨data_ref, data_ptr, some (strided_dims (.fixed_dim n stride element_tp)).2, n', s'⟩ := by
  let tp := view_type.fixed_dim n stride element_tp
  let dims := (strided_dims tp).1
  let dims' := if strides_sorted dims then dims else sort_dims std dims
  have hperm : dims'.Perm dims := by
    dsimp only [dims']
    split_ifs
    · exact List.Perm.refl _
    · exact sort_dims_perm std dims
  have hstep : refine_bytes_view std mem ⟨data_ref, data_ptr, some tp, data_dim_size, data_stride⟩ =
      match collapse dims' (data_dim_size, data_stride) with
      | none => ⟨data_ref, data_ptr, none, -1, data_stride⟩
      | some (n', s') => ⟨data_ref, data_ptr, some (strided_dims tp).2, n', s'⟩ := rfl
  rw [hstep] at h ⊢
  cases hcollapse : collapse dims' (data_dim_size, data_stride) with
  | none =>
    rw [hcollapse] at h
    exact absurd h (not_succeeds_failed std mem ⟨data_ref, data_ptr, some tp, data_dim_size, data_stride⟩)
  | some r => exact ⟨dims', r.1, r.2, hperm, hcollapse, rfl⟩

/-- A row of strided dimensions is collapsed. -/
theorem refine_fixed_dim {s : Refined} {n : dim_size_t} {stride : ℤ} {element_tp : view_type}
    (htp : s.data_tp = some (.fixed_dim n stride element_tp)) (hgood : s.Good)
    (h : Succeeds std mem (refine_bytes_view std mem s)) : Keeps mem s (refine_bytes_view std mem s) := by
  obtain ⟨data_ref, data_ptr, _, data_dim_size, data_stride⟩ := s
  obtain rfl : _ = some _ := htp
  obtain ⟨hcount, hplain⟩ := hgood
  let tp := view_type.fixed_dim n stride element_tp
  let dims := (strided_dims tp).1
  have hsizes : ∀ m ∈ dims, 0 ≤ m.dim_size := strided_dims_sizes tp
  obtain ⟨dims', n', s', hperm, hcollapse, hstep⟩ := refine_row std mem h
  rw [hstep] at h ⊢
  obtain ⟨hcount', hitems⟩ := collapse_items (fun m hm => hsizes m (hperm.subset hm)) hcount hcollapse
  have hpos : n' ≠ -1 → 0 < s' := fun hmany => stride_pos std mem rfl (strided_dims_inner tp) hmany h
  obtain ⟨hset, hsame⟩ := sorted_offsets hperm hsizes hcount hpos hcollapse
  have hbytes : ∀ o : ℤ, tp.bytes mem (data_ptr + o) =
      ((rowOffsets dims).map (o + ·)).flatMap fun o' => (strided_dims tp).2.bytes mem (data_ptr + o') := by
    intro o
    rw [strided_dims_bytes, List.flatMap_map]
    simp only [add_assoc]
    rfl
  have hnew : Refined.bytes mem ⟨data_ref, data_ptr, some (strided_dims tp).2, n', s'⟩ =
      (items data_dim_size data_stride).flatMap fun o =>
        ((rowOffsets dims').map (o + ·)).flatMap fun o' => (strided_dims tp).2.bytes mem (data_ptr + o') := by
    rw [Refined.bytes]
    dsimp only
    rw [hitems, List.flatMap_assoc]
  have hold : Refined.bytes mem ⟨data_ref, data_ptr, some tp, data_dim_size, data_stride⟩ =
      (items data_dim_size data_stride).flatMap fun o =>
        ((rowOffsets dims).map (o + ·)).flatMap fun o' => (strided_dims tp).2.bytes mem (data_ptr + o') := by
    rw [Refined.bytes]
    dsimp only
    simp only [hbytes]
  refine ⟨⟨hcount', ?_⟩, ?_, fun horder => ⟨?_, ?_⟩⟩
  · rintro _ ⟨⟩
    exact strided_dims_plain (hplain tp rfl)
  · rw [hnew, hold]
    exact List.Perm.flatMap_left _ fun o _ => (hset.map _).flatMap_right _
  · rw [hnew, hold, hsame (horder tp rfl).1]
  · rintro _ ⟨⟩
    exact strided_dims_inOrder (horder tp rfl)

/-- A step of the loop keeps the bytes. -/
theorem refine_keeps {s : Refined} (htp : s.data_tp.isSome = true) (hgood : s.Good)
    (h : Succeeds std mem (refine_bytes_view std mem s)) : Keeps mem s (refine_bytes_view std mem s) := by
  obtain ⟨data_ref, data_ptr, data_tp, data_dim_size, data_stride⟩ := s
  cases data_tp with
  | none => cases htp
  | some tp =>
    cases tp with
    | fixed_dim n stride element_tp => exact refine_fixed_dim std mem rfl hgood h
    | var_dim blockref stride offset element_tp =>
      rw [refine_bytes_view] at h ⊢
      dsimp only at h ⊢
      split_ifs at h ⊢ with hmany hsize
      · exact absurd h (not_succeeds_failed std mem _)
      · have hsingle : data_dim_size = -1 := not_not.1 hmany
        refine .peel mem hgood rfl rfl (.inr (Int.natCast_nonneg _)) id id ?_
        rw [hsingle, bytes_single, bytes_many, view_type.bytes, multiples, List.flatMap_map]
      · have hsingle : data_dim_size = -1 := not_not.1 hmany
        have hone : (mem.var_data data_ptr).2 = 1 := not_not.1 hsize
        refine .peel mem hgood rfl rfl (.inl hsingle) id id ?_
        rw [hsingle, bytes_single, bytes_single, view_type.bytes, hone]
        simp
    | pointer blockref offset target_tp =>
      rw [refine_bytes_view] at h ⊢
      dsimp only at h ⊢
      split_ifs at h ⊢ with hmany
      · exact absurd h (not_succeeds_failed std mem _)
      · have hsingle : data_dim_size = -1 := not_not.1 hmany
        refine .peel mem hgood rfl rfl (.inl hsingle) id id ?_
        rw [hsingle, bytes_single, bytes_single, view_type.bytes]
    | string blockref =>
      rw [refine_bytes_view] at h ⊢
      dsimp only at h ⊢
      split_ifs at h ⊢ with hmany
      · exact absurd h (not_succeeds_failed std mem _)
      · have hsingle : data_dim_size = -1 := not_not.1 hmany
        have hlen : 0 ≤ (mem.string_data data_ptr).2 - (mem.string_data data_ptr).1 := by
          rw [Succeeds, refineLoop_none std mem rfl] at h
          exact h
        refine .finish mem rfl (.inr hlen) ?_
        rw [hsingle, bytes_single, view_type.bytes]
        rfl
    | dtype data_size flags =>
      have hown : HoldsReferences flags = false := hgood.plain _ rfl
      rw [refine_bytes_view] at h ⊢
      dsimp only at h ⊢
      split_ifs at h ⊢ with hsize hsingle hfit
      · refine .finish mem rfl (.inr (Int.natCast_nonneg _)) ?_
        rw [hsingle, bytes_single, view_type.bytes, if_neg (by simp [hown])]
        rfl
      · obtain ⟨n, rfl⟩ := Int.eq_ofNat_of_zero_le (hgood.count.resolve_left hsingle)
        subst hfit
        have hbytes : ∀ o : ℤ, view_type.bytes mem (.dtype data_size flags) (data_ptr + o) =
            addresses (data_ptr + o) data_size := fun o => if_neg (by simp [hown])
        have htotal : ((n : ℤ) * data_size).toNat = n * data_size := by
          rw [← Nat.cast_mul, Int.toNat_natCast]
        refine .finish mem rfl (.inr (by positivity)) ?_
        rw [bytes_many, funext hbytes, addresses_items]
        exact congrArg (addresses data_ptr) htotal
      · exact absurd h (not_succeeds_failed std mem _)
      · exact absurd h (not_succeeds_failed std mem _)

/-- A loop that ends with bytes keeps them. -/
theorem refineLoop_keeps {s : Refined} (hgood : s.Good) (h : Succeeds std mem s) : Keeps mem s (refineLoop std mem s) := by
  induction hd : s.depth using Nat.strong_induction_on generalizing s with
  | _ d ih =>
    subst hd
    by_cases hsome : s.data_tp.isSome
    · have hnext : Succeeds std mem (refine_bytes_view std mem s) := by
        rw [Succeeds, ← refineLoop_some std mem hsome]
        exact h
      have hstep := refine_keeps std mem hsome hgood hnext
      rw [refineLoop_some std mem hsome]
      exact hstep.trans mem (ih _ (refine_depth std mem hsome) hstep.good hnext rfl)
    · have hnone : s.data_tp = none := by simpa using hsome
      rw [refineLoop_none std mem hnone]
      exact .finish mem hnone hgood.count rfl

/-! ## What is refused -/

/-- Some data is behind a pointer. -/
def view_type.Indirect : view_type → Prop
  | fixed_dim _ _ element_tp => element_tp.Indirect
  | var_dim _ _ _ _ => True
  | pointer _ _ _ => True
  | string _ => True
  | dtype _ _ => False

/-- Data is behind a pointer below a dimension that does not have exactly one element. -/
def view_type.NestedIndirect (mem : Memory) : view_type → ℤ → Prop
  | fixed_dim dim_size _ element_tp, data =>
    if dim_size.val = 1 then element_tp.NestedIndirect mem data else element_tp.Indirect
  | var_dim _ _ offset element_tp, data =>
    let d := mem.var_data data
    if d.2 = 1 then element_tp.NestedIndirect mem (d.1 + offset) else element_tp.Indirect
  | pointer _ offset target_tp, data => target_tp.NestedIndirect mem (mem.pointer data + offset)
  | string _, _ => False
  | dtype _ _, _ => False

theorem strided_dims_indirect {tp : view_type} (h : tp.Indirect) : (strided_dims tp).2.Indirect := by
  induction tp with
  | fixed_dim n stride element_tp ih => exact ih h
  | _ => exact h

theorem strided_dims_nested {tp : view_type} {data : ℤ} (h : tp.NestedIndirect mem data) :
    ((∀ m ∈ (strided_dims tp).1, m.dim_size = 1) ∧ (strided_dims tp).2.NestedIndirect mem data) ∨
      ((∃ m ∈ (strided_dims tp).1, m.dim_size ≠ 1) ∧ (strided_dims tp).2.Indirect) := by
  induction tp with
  | fixed_dim n stride element_tp ih =>
    rw [view_type.NestedIndirect] at h
    split_ifs at h with h1
    · obtain ⟨hall, hin⟩ | ⟨⟨m, hm, hlong⟩, hin⟩ := ih h
      · exact .inl ⟨List.forall_mem_cons.2 ⟨h1, hall⟩, hin⟩
      · exact .inr ⟨⟨m, List.mem_cons_of_mem _ hm, hlong⟩, hin⟩
    · exact .inr ⟨⟨_, List.mem_cons_self, h1⟩, strided_dims_indirect h⟩
  | _ => exact .inl ⟨List.forall_mem_nil _, h⟩

/-- Items that are counted, and a dimension that is, stay counted. -/
theorem collapse_counted {dims : List size_stride_t} (hdims : ∀ m ∈ dims, 0 ≤ m.dim_size) {n s n' s' : ℤ} (hn : IsCount n)
    (hlong : n ≠ -1 ∨ ∃ m ∈ dims, m.dim_size ≠ 1) (h : collapse dims (n, s) = some (n', s')) : n' ≠ -1 := by
  induction dims generalizing n s with
  | nil =>
    obtain ⟨rfl, rfl⟩ := Prod.mk.inj (Option.some.inj h)
    simpa using hlong
  | cons m dims ih =>
    obtain ⟨hm, hdims⟩ := List.forall_mem_cons.1 hdims
    rw [collapse] at h
    split_ifs at h with h1 hsingle hfit
    · refine ih hdims hn (hlong.imp_right ?_) h
      rintro ⟨m', hm', hne⟩
      obtain rfl | hm' := List.mem_cons.1 hm'
      · exact absurd h1 hne
      · exact ⟨m', hm', hne⟩
    · exact ih hdims (.inr hm) (.inl (by omega)) h
    · have hcount := mul_nonneg (hn.resolve_left hsingle) hm
      exact ih hdims (.inr hcount) (.inl (by omega)) h

/-- One of several items is not followed to where it points. -/
theorem indirect_fails {s : Refined} {tp : view_type} (htp : s.data_tp = some tp)
    (hne : ∀ n stride element_tp, tp ≠ .fixed_dim n stride element_tp) (hin : tp.Indirect) (hmany : s.data_dim_size ≠ -1) :
    ¬ Succeeds std mem s := by
  obtain ⟨data_ref, data_ptr, _, data_dim_size, data_stride⟩ := s
  obtain rfl : _ = some tp := htp
  rw [Succeeds, refineLoop_some std mem (by rfl)]
  cases tp with
  | fixed_dim n stride element_tp => exact absurd rfl (hne n stride element_tp)
  | dtype data_size flags => exact hin.elim
  | _ =>
    rw [refine_bytes_view]
    dsimp only at hmany ⊢
    rw [if_pos hmany]
    exact not_succeeds_failed std mem _

theorem collapse_ones {dims : List size_stride_t} (hdims : ∀ m ∈ dims, m.dim_size = 1) (n s : ℤ) :
    collapse dims (n, s) = some (n, s) := by
  induction dims with
  | nil => rfl
  | cons m dims ih =>
    obtain ⟨hm, hdims⟩ := List.forall_mem_cons.1 hdims
    rw [collapse, if_pos hm, ih hdims]

/-- Counted items are not viewed through a pointer, below more dimensions either. -/
theorem counted_indirect_fails {data_ref : ℕ} {data_ptr data_dim_size data_stride : ℤ} {tp : view_type} (hin : tp.Indirect)
    (hcount : 0 ≤ data_dim_size) : ¬ Succeeds std mem ⟨data_ref, data_ptr, some tp, data_dim_size, data_stride⟩ := by
  cases tp with
  | fixed_dim n stride element_tp =>
    intro h
    rw [Succeeds, refineLoop_some std mem (by rfl)] at h
    obtain ⟨dims', n', s', hperm, hcollapse, hstep⟩ := refine_row std mem h
    have hsizes : ∀ m ∈ dims', 0 ≤ m.dim_size := fun m hm => strided_dims_sizes _ m (hperm.subset hm)
    have hmany : n' ≠ -1 := collapse_counted hsizes (.inr hcount) (.inl (by omega)) hcollapse
    rw [hstep] at h
    exact indirect_fails std mem rfl (strided_dims_inner _) (strided_dims_indirect hin) hmany h
  | _ => exact indirect_fails std mem rfl (by simp) hin (by dsimp only; omega)

/-- Nested data behind pointers is refused. -/
theorem nested_fails {data_ref : ℕ} {data_ptr data_stride : ℤ} {tp : view_type} (hnested : tp.NestedIndirect mem data_ptr) :
    ¬ Succeeds std mem ⟨data_ref, data_ptr, some tp, -1, data_stride⟩ := by
  induction hd : tp.depth using Nat.strong_induction_on generalizing tp data_ref data_ptr data_stride with
  | _ d ih =>
    subst hd
    intro h
    rw [Succeeds, refineLoop_some std mem (by rfl)] at h
    cases tp with
    | fixed_dim n stride element_tp =>
      obtain ⟨dims', n', s', hperm, hcollapse, hstep⟩ := refine_row std mem h
      have hsizes : ∀ m ∈ dims', 0 ≤ m.dim_size := fun m hm => strided_dims_sizes _ m (hperm.subset hm)
      rw [hstep] at h
      obtain ⟨hall, hin⟩ | ⟨⟨m, hm, hlong⟩, hin⟩ := strided_dims_nested mem hnested
      · rw [collapse_ones fun m hm => hall m (hperm.subset hm)] at hcollapse
        obtain ⟨rfl, rfl⟩ := Prod.mk.inj (Option.some.inj hcollapse)
        exact ih _ (Nat.lt_succ_of_le (strided_dims_depth element_tp)) hin rfl h
      · have hmany : n' ≠ -1 := collapse_counted hsizes (.inl rfl) (.inr ⟨m, hperm.symm.subset hm, hlong⟩) hcollapse
        exact indirect_fails std mem rfl (strided_dims_inner _) hin hmany h
    | var_dim blockref stride offset element_tp =>
      rw [view_type.NestedIndirect] at hnested
      rw [refine_bytes_view] at h
      dsimp only at hnested h
      by_cases hone : (mem.var_data data_ptr).2 = 1
      · rw [if_pos hone] at hnested
        simp only [hone, ne_eq, not_true_eq_false, if_false] at h
        exact ih _ (Nat.lt_succ_self _) hnested rfl h
      · rw [if_neg hone] at hnested
        simp only [hone, ne_eq, not_true_eq_false, not_false_eq_true, if_false, if_true] at h
        exact counted_indirect_fails std mem hnested (Int.natCast_nonneg _) h
    | pointer blockref offset target_tp =>
      have hnested : target_tp.NestedIndirect mem (mem.pointer data_ptr + offset) := hnested
      exact ih _ (Nat.lt_succ_self _) hnested rfl h
    | string blockref => exact hnested
    | dtype data_size flags => exact hnested

end

/-! ## The view of an array -/

/-- A view is over the bytes of the elements, each one once, and in the order
of the elements where the strides are in C order. Where the bytes are no
interval there is no view, and none of nested data behind pointers. -/
theorem view_as_bytes_spec (std : std_sort) (mem : Memory) (target_alignment : ℕ) {arr : nested_array}
    (hplain : arr.tp.Plain) :
    (∀ v, view_as_bytes std mem target_alignment arr = some v →
      v.bytes.Perm (arr.bytes mem) ∧ (arr.tp.InOrder → v.bytes = arr.bytes mem)) ∧
    ((¬ ∃ begin n, (addresses begin n).Perm (arr.bytes mem)) → view_as_bytes std mem target_alignment arr = none) ∧
    (arr.tp.NestedIndirect mem arr.data_pointer → view_as_bytes std mem target_alignment arr = none) := by
  let start : Refined := ⟨arr.data_memblock, arr.data_pointer, some arr.tp, -1, 0⟩
  have hgood : start.Good := by
    refine ⟨.inl rfl, ?_⟩
    rintro _ ⟨⟩
    exact hplain
  have hview : ∀ v, view_as_bytes std mem target_alignment arr = some v → Succeeds std mem start ∧
      v.bytes = (refineLoop std mem start).bytes mem := by
    intro v hv
    rw [view_as_bytes] at hv
    dsimp only at hv
    split_ifs at hv with hdestructor hrefused
    have hnonneg : 0 ≤ (refineLoop std mem start).data_dim_size := by
      by_contra hneg
      exact hrefused (Bool.or_eq_true_iff.2 (.inl (decide_eq_true (not_le.1 hneg))))
    obtain rfl := Option.some.inj hv
    refine ⟨hnonneg, ?_⟩
    rw [bytes_view.bytes, add_sub_cancel_left, Refined.bytes, refineLoop_done]
  have hsound : ∀ v, view_as_bytes std mem target_alignment arr = some v →
      v.bytes.Perm (arr.bytes mem) ∧ (arr.tp.InOrder → v.bytes = arr.bytes mem) := by
    intro v hv
    obtain ⟨hsucceeds, hbytes⟩ := hview v hv
    have hkeeps := refineLoop_keeps std mem hgood hsucceeds
    have hstart : start.bytes mem = arr.bytes mem := bytes_single mem _ _ _ _
    rw [hbytes, ← hstart]
    refine ⟨hkeeps.bytes, fun horder => (hkeeps.order ?_).1⟩
    rintro _ ⟨⟩
    exact horder
  refine ⟨hsound, fun hno => ?_, fun hnested => ?_⟩
  · cases hv : view_as_bytes std mem target_alignment arr with
    | none => rfl
    | some v => exact absurd ⟨v.begin, _, (hsound v hv).1⟩ hno
  · cases hv : view_as_bytes std mem target_alignment arr with
    | none => rfl
    | some v => exact absurd (hview v hv).1 (nested_fails std mem hnested)

/-! ## An array in the order of memory -/

def noMemory : Memory := ⟨fun _ => (0, 0), fun _ => 0, fun _ => (0, 0), fun _ => []⟩

theorem two_size : (0 : ℤ) ≤ 2 ∧ (2 : ℤ) < 2 ^ 63 := by decide

/-- Two by two bytes, with the strides of Fortran order. -/
def fortran : nested_array :=
  ⟨0, 0, .fixed_dim ⟨2, two_size⟩ 1 (.fixed_dim ⟨2, two_size⟩ 2 (.dtype 1 ⟨false, false, false⟩))⟩

theorem view_fortran : view_as_bytes default noMemory 1 fortran = some ⟨0, 4, 0⟩ := by
  have hrow : refine_bytes_view default noMemory ⟨0, 0, some fortran.tp, -1, 0⟩ =
      ⟨0, 0, some (.dtype 1 ⟨false, false, false⟩), 4, 1⟩ := by decide
  have hloop : refineLoop default noMemory ⟨0, 0, some fortran.tp, -1, 0⟩ = ⟨0, 0, none, 4, 1⟩ := by
    rw [refineLoop_some _ _ (by rfl), hrow, refineLoop_some _ _ (by rfl)]
    exact refineLoop_none _ _ rfl
  have hdata : refineLoop default noMemory ⟨fortran.data_memblock, fortran.data_pointer, some fortran.tp, -1, 0⟩ =
      ⟨0, 0, none, 4, 1⟩ := hloop
  rw [view_as_bytes, if_neg (by decide), hdata]
  rfl

/-- The bytes of a view need not be in the order of the elements. -/
theorem memory_order : ¬ ∀ std mem target_alignment arr, arr.tp.Plain → ∀ v,
    view_as_bytes std mem target_alignment arr = some v → v.bytes = arr.bytes mem := by
  intro h
  have := h default noMemory 1 fortran rfl _ view_fortran
  revert this
  decide

theorem view_as_bytes_fortran : (∀ v, view_as_bytes default noMemory 1 fortran = some v →
      v.bytes.Perm (fortran.bytes noMemory) ∧ (fortran.tp.InOrder → v.bytes = fortran.bytes noMemory)) ∧
    ((¬ ∃ begin n, (addresses begin n).Perm (fortran.bytes noMemory)) →
      view_as_bytes default noMemory 1 fortran = none) ∧
    (fortran.tp.NestedIndirect noMemory fortran.data_pointer → view_as_bytes default noMemory 1 fortran = none) :=
  @view_as_bytes_spec default noMemory 1 fortran rfl

end Dynd.BytesView
