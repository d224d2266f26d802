import Dynd.Categorical
import Dynd.Lib.ByteMemory
import Dynd.Lib.CountingSort
import Dynd.Lib.Events
import Dynd.Take
/-!
# Grouping

`nd::groupby` and the kernel that evaluates it: the sizes of the groups are
counted, one buffer is carved up, and a second pass copies each element behind
those of its group before it.

`groups_iff`: the groups are right when both arrays are strided and the groups
go to a pod block. The block of elements with a destructor is an objectarray
block; the kernel asks it for its pod allocator, which it does not have.
-/
namespace Dynd.Groupby
open Lib Categorical VarDim

variable {α E : Type}

/-! ## Arrays and types -/

/-- The leading dimension of an array, and whether `get_as_strided` answers for it. A var dimension is not strided. -/
structure values where
  ndim : ℕ
  dim_size : ℕ
  is_strided : Bool
  stride : ℤ
  origin : ℤ

/-- The `by` array as groups: its bytes, or the expression that gives the category at an address. -/
structure by_values (α : Type) extends values where
  element_tp : String
  bytes : ByteMemory
  expression : Option (ℤ → Except String α)

/-- A categorical type, of different categories. -/
structure groups_type (α : Type) where
  tp : category_type α
  cs : List α
  ct : categorical_type α
  weak : StrictWeak tp.sorting_less
  differ : cs.Pairwise (Differ tp.sorting_less)
  built : Built tp cs ct
  storage : ct.m_storage_type = storage_of ct.m_categories.length

/-- The bytes of the `UIntType` of the kernel. -/
def size_of : storage_type → ℕ
  | .uint8 => 1
  | .uint16 => 2
  | .uint32 => 4

def groups_type.get_category_count (gt : groups_type α) : ℕ := gt.ct.m_categories.length

def groups_type.data_size (gt : groups_type α) : ℕ := size_of gt.ct.m_storage_type

inductive error (E : Type) where
  | runtime_error (what : String)
  | conversion (what : String)
  | category (e : Failure)
  | memory (f : fault)
  | child (e : E)
  | undefined

/-- An exception, not undefined behaviour. -/
def error.IsThrown : error E → Prop
  | .category .undefined => False
  | .memory .undefined => False
  | .undefined => False
  | _ => True

/-! ## The operation -/

/-- The constructor of the groupby type. -/
def make_groupby (data : values) (by_tp : by_values α) : Except (error E) Unit :=
  if 1 < by_tp.ndim then
    .error (.runtime_error ("to construct a groupby type, the by type, " ++ by_tp.element_tp ++ ", must have a categorical value type"))
  else if data.ndim < 1 then .error (.runtime_error "to construct a groupby type, its values type must have at least one array dimension")
  else if by_tp.ndim < 1 then .error (.runtime_error "to construct a groupby type, its values type must have at least one array dimension")
  else .ok ()

/-- The array made has pointers to both arrays. -/
def groupby (data : values) (by_groups : by_values α) : Except (error E) (values × by_values α) :=
  if data.ndim = 0 then .error (.runtime_error "'data' values provided to dynd groupby must have at least one dimension")
  else if by_groups.ndim = 0 then .error (.runtime_error "'by' values provided to dynd groupby must have at least one dimension")
  else if data.dim_size ≠ by_groups.dim_size then
    .error (.runtime_error ("'data' and 'by' values provided to dynd groupby have different sizes, " ++ toString data.dim_size ++
      " and " ++ toString by_groups.dim_size))
  else do
    make_groupby data by_groups
    return (data, by_groups)

/-- The value of the category at an address, as it is stored. -/
def value_at (gt : groups_type α) (read : ℤ → Except String α) (src : ℤ) : Except (error E) ℕ := do
  let category ← (read src).mapError .conversion
  let value ← (get_value_from_category gt.ct category).mapError .category
  return value.toNat

def copy_value (gt : groups_type α) (read : ℤ → Except String α) (p : ℤ × ℤ) (bytes : ByteMemory) :
    Except (error E) ByteMemory := do
  let value ← value_at gt read p.2
  return bytes.write p.1 (toBytes gt.data_size value)

/-- The values in a new array, one behind the other. -/
def eval_raw_copy (gt : groups_type α) (by_groups : by_values α) (read : ℤ → Except String α) : Except (error E) (by_values α) := do
  let stride : ℤ := if by_groups.dim_size ≤ 1 then 0 else gt.data_size
  let bytes ← strided (copy_value gt read) (0, by_groups.origin) (stride, by_groups.stride) by_groups.dim_size fun _ => 0
  return ⟨⟨by_groups.ndim, by_groups.dim_size, by_groups.is_strided, stride, 0⟩, by_groups.element_tp, bytes, none⟩

/-- An expression is evaluated, as there are two passes through the values. -/
def by_values_tmp (gt : groups_type α) (by_groups : by_values α) : Except (error E) (by_values α) :=
  match by_groups.expression with
  | none => .ok by_groups
  | some read => eval_raw_copy gt by_groups read

/-- The first pass: the sizes of the groups. -/
def count_value (width : ℕ) (bytes : ByteMemory) (p : ℤ) (cat_sizes : List ℕ) : Except (error E) (List ℕ) :=
  let value := bytes.word p width
  if cat_sizes.length ≤ value then
    .error (.runtime_error ("dynd groupby: 'by' array contains an out of bounds value " ++ toString value ++
      ", range is [0, " ++ toString cat_sizes.length ++ ")"))
  else .ok (cat_sizes.modify value (· + 1))

/-- Each group starts where the one before it ends. -/
def carve (stride out_begin : ℕ) : List ℕ → List var_dim_type_data
  | [] => []
  | csize :: sizes => ⟨out_begin, csize⟩ :: carve stride (out_begin + csize * stride) sizes

/-- The second pass: an element to where its group is. -/
def fill_value (width : ℕ) (bytes : ByteMemory) (stride : ℕ) (child : ℤ → ℤ → Heap → Except E Heap) (p : ℤ × ℤ)
    (st : List ℤ × Heap) : Except (error E) (List ℤ × Heap) :=
  let value := bytes.word p.1 width
  match st.1[value]? with
  | none => .error .undefined
  | some cp => do
    let heap ← (child cp p.2 st.2).mapError .child
    return (st.1.set value (cp + stride), heap)

/-- `groupby_to_value_assign_kernel::single`, with the var elements that it sets. -/
def single (al : allocator) (gt : groups_type α) (vad_md : var_dim_type_arrmeta) (blockref : memory_block) (data : values)
    (by_groups : by_values α) (child : ℤ → ℤ → Heap → Except E Heap) :
    Except (error E) (memory_block × List var_dim_type_data) := do
  let by_groups ← by_values_tmp gt by_groups
  if by_groups.is_strided = false then .error (.runtime_error "groupby: failed to get by_values as a strided array")
  else if vad_md.offset ≠ 0 then
    .error (.runtime_error "dynd groupby: destination var_dim offset must be zero to allocate output")
  else do
    let cat_sizes ← strided (count_value gt.data_size by_groups.bytes) by_groups.origin by_groups.stride by_groups.dim_size
      (List.replicate gt.get_category_count 0)
    let (block, out_begin) ← (pod_allocate al (by_groups.dim_size * vad_md.stride) vad_md.target_alignment blockref).mapError .memory
    let groups := carve vad_md.stride out_begin cat_sizes
    if data.is_strided = false then .error (.runtime_error "groupby: failed to get data_values as a strided array")
    else do
      let (_, heap) ← strided (fill_value gt.data_size by_groups.bytes vad_md.stride child) (by_groups.origin, data.origin)
        (by_groups.stride, data.stride) data.dim_size (groups.map fun group => (group.begin : ℤ), block.heap)
      return (block.set_heap heap, groups)

/-- The groups of `nd::groupby`, evaluated. -/
def evaluate (al : allocator) (gt : groups_type α) (vad_md : var_dim_type_arrmeta) (blockref : memory_block) (data : values)
    (by_groups : by_values α) (child : ℤ → ℤ → Heap → Except E Heap) :
    Except (error E) (memory_block × List var_dim_type_data) := do
  let (data, by_groups) ← groupby data by_groups
  single al gt vad_md blockref data by_groups child

/-! ## What the groups are -/

section
variable (al : allocator) (gt : groups_type α) (vad_md : var_dim_type_arrmeta) (blockref : memory_block) (data : values)
  (by_groups : by_values α)

/-- The `by` value of an element. -/
def by_value (i : ℕ) : Option ℕ :=
  match by_groups.expression with
  | none => some (by_groups.bytes.word (by_groups.origin + i * by_groups.stride) gt.data_size)
  | some read => (value_at gt read (by_groups.origin + i * by_groups.stride) : Except (error Empty) ℕ).toOption

def code (i : ℕ) : ℕ := (by_value gt by_groups i).getD 0

/-- Two arrays of one length, the second of categories. -/
def Arrays : Prop := data.ndim ≠ 0 ∧ by_groups.ndim = 1 ∧ data.dim_size = by_groups.dim_size

def InRange : Prop := ∀ i < by_groups.dim_size, ∃ v, by_value gt by_groups i = some v ∧ v < gt.get_category_count

/-- The elements of group `g`, in their order. -/
def members (g : ℕ) : List ℕ := positions (code gt by_groups) by_groups.dim_size g

/-- Where the element `i` is copied to. -/
def place (groups : List var_dim_type_data) (i : ℕ) : ℤ :=
  (groups.getD (code gt by_groups i) ⟨0, 0⟩).begin + same (code gt by_groups) i (code gt by_groups i) * vad_md.stride

/-- The groups have the sizes of their members, and evaluating copies every element in turn to its place in its group. -/
def Copies : Prop :=
  ∃ b out_begin groups, pod_allocate al (by_groups.dim_size * vad_md.stride) vad_md.target_alignment blockref = .ok (b, out_begin) ∧
    groups.length = gt.get_category_count ∧
    (∀ g (hg : g < groups.length), groups[g].size = (members gt by_groups g).length) ∧
    ∀ {E : Type} (child : ℤ → ℤ → Heap → Except E Heap), evaluate al gt vad_md blockref data by_groups child = (do
      let heap ← (events (fun i : ℕ => child (place gt vad_md by_groups groups i) (data.origin + i * data.stride))
        (List.range by_groups.dim_size) b.heap).mapError .child
      return (b.set_heap heap, groups))

/-- Element `k` of group `g` has the bytes of the data element that is its `k`-th member. -/
def Elements : Prop :=
  ∀ {E : Type} (element : ℤ → Except E (List UInt8)) (t : memory_block) (groups : List var_dim_type_data),
    (∀ src bytes, element src = .ok bytes → bytes.length ≤ vad_md.stride) →
    evaluate al gt vad_md blockref data by_groups (Take.assign_bytes element) = .ok (t, groups) →
    ∀ g (hg : g < groups.length), groups[g].size = (members gt by_groups g).length ∧
      ∀ k (hk : k < (members gt by_groups g).length), ∃ bytes,
        element (data.origin + (members gt by_groups g)[k] * data.stride) = .ok bytes ∧
          Take.Holds t.heap (groups[g].begin + k * vad_md.stride) bytes

/-- What the groups are promised for; memory may run out. -/
structure Proper : Prop where
  arrays : Arrays data by_groups
  in_range : InRange gt by_groups
  memory : pod_allocate al (by_groups.dim_size * vad_md.stride) vad_md.target_alignment blockref ≠ .error .bad_alloc

structure Groups : Prop where
  throws : ¬ Proper al gt vad_md blockref data by_groups → ∀ {E : Type} (child : ℤ → ℤ → Heap → Except E Heap),
    ∃ e, evaluate al gt vad_md blockref data by_groups child = .error e ∧ e.IsThrown
  copies : Proper al gt vad_md blockref data by_groups → Copies al gt vad_md blockref data by_groups
  elements : Proper al gt vad_md blockref data by_groups → Elements al gt vad_md blockref data by_groups
  once : Proper al gt vad_md blockref data by_groups → ∀ i < data.dim_size,
    ∃! p : ℕ × ℕ, p.1 < gt.get_category_count ∧ (members gt by_groups p.1)[p.2]? = some i

end

/-! ## The values -/

section
variable {gt : groups_type α} {by_groups : by_values α}

theorem groups_type.category_count (gt : groups_type α) : gt.get_category_count = gt.cs.length := gt.built.count

/-- The storage has room for the values, as far as 32 bits go. -/
theorem groups_type.storage_fits (gt : groups_type α) {v : ℕ} (hv : v < gt.get_category_count) (h32 : v < 2 ^ 32) :
    v < 256 ^ gt.data_size := by
  unfold groups_type.get_category_count at hv
  rw [groups_type.data_size, gt.storage, storage_of]
  split_ifs with h8 h16
  · change v < 256 ^ 1
    omega
  · change v < 256 ^ 2
    omega
  · change v < 256 ^ 4
    omega

/-- A category is refused, or it has a value that is in range. -/
theorem groups_type.value_cases (gt : groups_type α) (category : α) :
    (∃ what, get_value_from_category gt.ct category = .error (.runtime_error what)) ∨
      ∃ value, get_value_from_category gt.ct category = .ok value ∧ value.toNat < gt.get_category_count := by
  by_cases hcategory : ∀ c ∈ gt.cs, Differ gt.tp.sorting_less category c
  · exact Or.inl (gt.built.absent hcategory)
  · right
    push Not at hcategory
    obtain ⟨c, hc, hsame⟩ := hcategory
    unfold get_value_from_category
    rw [gt.built.category_tp]
    cases hsearch : binary_search gt.tp.sorting_less gt.ct.m_categories category 0 gt.ct.m_categories.length with
    | none =>
      have hmissing := binary_search_missing gt.weak gt.built.sorted le_rfl (fun j t _ hj => absurd hj (Nat.not_lt_zero j))
        (fun j t hj hle => by
          rw [List.getElem?_eq_none hle] at hj
          cases hj) hsearch
      have hequivalent : Equivalent gt.tp.sorting_less category c := by
        by_contra hnot
        exact hsame (not_equivalent_iff.mp hnot)
      exact absurd hequivalent (hmissing c (gt.built.perm.mem_iff.mpr hc))
    | some k =>
      obtain ⟨t, ht, -⟩ := binary_search_found hsearch
      obtain ⟨v, hv, hcategory⟩ := gt.built.index_to_value k t ht
      have hlt := (List.getElem?_eq_some_iff.mp hcategory).1
      dsimp only
      rw [hv]
      refine ⟨_, rfl, ?_⟩
      rw [gt.category_count, UInt32.toNat_ofNat']
      exact (Nat.mod_le v _).trans_lt hlt

/-- What an expression gives is stored as it is, or an exception. -/
theorem value_at_cases (gt : groups_type α) (read : ℤ → Except String α) (src : ℤ) :
    (∀ E : Type, ∃ e : error E, value_at gt read src = .error e ∧ e.IsThrown) ∨
      ∃ v, v < gt.get_category_count ∧ v < 256 ^ gt.data_size ∧
        ∀ E : Type, (value_at gt read src : Except (error E) ℕ) = .ok v := by
  unfold value_at
  cases read src with
  | error what => exact Or.inl fun E => ⟨.conversion what, rfl, trivial⟩
  | ok category =>
    obtain ⟨what, hwhat⟩ | ⟨value, hvalue, hlt⟩ := gt.value_cases category
    · left
      intro E
      refine ⟨.category (.runtime_error what), ?_, trivial⟩
      change (get_value_from_category gt.ct category).mapError _ >>= _ = _
      rw [hwhat]
      rfl
    · right
      refine ⟨value.toNat, hlt, gt.storage_fits hlt value.toNat_lt, fun E => ?_⟩
      change (get_value_from_category gt.ct category).mapError _ >>= _ = _
      rw [hvalue]
      rfl

theorem code_of_value {i v : ℕ} (h : by_value gt by_groups i = some v) : code gt by_groups i = v := by
  rw [code, h]
  rfl

theorem code_lt (hrange : InRange gt by_groups) {i : ℕ} (hi : i < by_groups.dim_size) :
    code gt by_groups i < gt.get_category_count := by
  obtain ⟨v, hv, hlt⟩ := hrange i hi
  rwa [code_of_value hv]

theorem nsmul_pair (a b c d : ℤ) (i : ℕ) : ((a, b) : ℤ × ℤ) + i • (c, d) = (a + i * c, b + i * d) := by
  rw [Prod.smul_mk, Prod.mk_add_mk, nsmul_eq_mul, nsmul_eq_mul]

/-- Both passes read these. -/
structure Evaluated (gt : groups_type α) (by_groups tmp : by_values α) : Prop where
  is_strided : tmp.is_strided = by_groups.is_strided
  dim_size : tmp.dim_size = by_groups.dim_size
  word : ∀ i < by_groups.dim_size, tmp.bytes.word (tmp.origin + i * tmp.stride) gt.data_size = code gt by_groups i

theorem evaluated_self (hexpression : by_groups.expression = none) : Evaluated gt by_groups by_groups where
  is_strided := rfl
  dim_size := rfl
  word := by
    intro i _
    rw [code, by_value, hexpression]
    rfl

theorem by_value_expression {read : ℤ → Except String α} (hexpression : by_groups.expression = some read) (i : ℕ) :
    by_value gt by_groups i = (value_at gt read (by_groups.origin + i * by_groups.stride) : Except (error Empty) ℕ).toOption := by
  rw [by_value, hexpression]

/-- The copy of an expression has its values. -/
theorem eval_raw_copy_evaluated {read : ℤ → Except String α} (hexpression : by_groups.expression = some read)
    (hrange : InRange gt by_groups) :
    ∃ tmp, (eval_raw_copy gt by_groups read : Except (error E) (by_values α)) = .ok tmp ∧ Evaluated gt by_groups tmp := by
  have hvalue (i : ℕ) (hi : i < by_groups.dim_size) :
      (value_at gt read (by_groups.origin + i * by_groups.stride) : Except (error E) ℕ) = .ok (code gt by_groups i) ∧
        code gt by_groups i < 256 ^ gt.data_size := by
    obtain ⟨v, hv, -⟩ := hrange i hi
    rw [code_of_value hv]
    rw [by_value_expression hexpression] at hv
    obtain herror | ⟨w, -, hw, hok⟩ := value_at_cases gt read (by_groups.origin + i * by_groups.stride)
    · obtain ⟨e, he, -⟩ := herror Empty
      rw [he] at hv
      cases hv
    · rw [hok Empty] at hv
      cases hv
      exact ⟨hok E, hw⟩
  unfold eval_raw_copy
  dsimp only
  set stride : ℤ := if by_groups.dim_size ≤ 1 then 0 else gt.data_size with hstride
  obtain ⟨bytes, hrun, hbytes⟩ : ∃ bytes : ByteMemory, strided (copy_value (E := E) gt read) (0, by_groups.origin)
      (stride, by_groups.stride) by_groups.dim_size (fun _ => 0) = .ok bytes ∧
        ∀ j < by_groups.dim_size, bytes.word (0 + j * stride) gt.data_size = code gt by_groups j := by
    refine strided_invariant
      (Q := fun i (bytes : ByteMemory) => ∀ j < i, bytes.word (0 + j * stride) gt.data_size = code gt by_groups j) ?_
      fun j hj => absurd hj (Nat.not_lt_zero j)
    intro i hi bytes hbytes
    obtain ⟨hok, hfits⟩ := hvalue i hi
    refine ⟨bytes.write (0 + i * stride) (toBytes gt.data_size (code gt by_groups i)), ?_, ?_⟩
    · rw [nsmul_pair, copy_value, hok]
      rfl
    · intro j hj
      rcases Nat.lt_succ_iff_lt_or_eq.mp hj with hlt | rfl
      · have hnext : (j + 1) * gt.data_size ≤ i * gt.data_size := Nat.mul_le_mul_right _ hlt
        rw [hstride, if_neg (by omega)] at hbytes ⊢
        rw [ByteMemory.word, ByteMemory.bytes_write_apart, ← ByteMemory.word, hbytes j hlt]
        left
        push_cast [← @Nat.cast_le ℤ] at hnext
        linarith
      · exact ByteMemory.word_write hfits
  rw [hrun]
  exact ⟨_, rfl, rfl, rfl, hbytes⟩

/-- An expression whose values are not all in range is not copied. -/
theorem eval_raw_copy_throws {read : ℤ → Except String α} (hexpression : by_groups.expression = some read)
    (hrange : ¬ InRange gt by_groups) :
    ∃ e : error E, eval_raw_copy gt by_groups read = .error e ∧ e.IsThrown := by
  have hcases := value_at_cases gt read
  cases hcopy : (eval_raw_copy gt by_groups read : Except (error E) (by_values α)) with
  | error e =>
    refine ⟨e, rfl, ?_⟩
    obtain hrun | ⟨bytes, -, hrun⟩ := bind_eq_error.mp hcopy
    · obtain ⟨i, -, bytes, hstep⟩ := error_of_strided hrun
      obtain hvalue | ⟨v, -, hwrite⟩ := bind_eq_error.mp hstep
      · obtain herror | ⟨v, -, -, hok⟩ := hcases _
        · obtain ⟨e', he', hthrown⟩ := herror E
          rw [he'] at hvalue
          cases hvalue
          exact hthrown
        · rw [hok E] at hvalue
          cases hvalue
      · cases hwrite
    · cases hrun
  | ok tmp =>
    obtain ⟨bytes, hrun, -⟩ := bind_eq_ok.mp hcopy
    have hall := strided_each (Q := fun (p : ℤ × ℤ) (_ : ByteMemory) => ∃ v, (value_at gt read p.2 : Except (error E) ℕ) = .ok v)
      (fun p x y hstep => ?_) (fun q k x y _ _ hq _ => hq) hrun
    · refine absurd (fun i hi => ?_) hrange
      obtain ⟨v, hv⟩ := hall i hi
      rw [nsmul_pair] at hv
      rw [by_value_expression hexpression]
      obtain herror | ⟨w, hlt, -, hok⟩ := hcases (by_groups.origin + i * by_groups.stride)
      · obtain ⟨e, he, -⟩ := herror E
        rw [he] at hv
        cases hv
      · rw [hok Empty]
        exact ⟨w, rfl, hlt⟩
    · obtain ⟨v, hv, -⟩ := bind_eq_ok.mp hstep
      exact ⟨v, hv⟩

end

/-! ## The passes -/

section
variable {gt : groups_type α} {by_groups tmp : by_values α}

theorem modify_map_range {β : Type} (f : ℕ → β) (h : β → β) (n v : ℕ) :
    ((List.range n).map f).modify v h = (List.range n).map fun g => if v = g then h (f g) else f g := by
  apply List.ext_getElem
  · rw [List.length_modify, List.length_map, List.length_map]
  · intro g hg hg'
    rw [List.getElem_modify]
    simp only [List.getElem_map, List.getElem_range]

theorem replicate_zero {code : ℕ → ℕ} (n : ℕ) : List.replicate n 0 = (List.range n).map (same code 0) := by
  apply List.ext_getElem
  · rw [List.length_replicate, List.length_map, List.length_range]
  · intro g hg hg'
    rw [List.getElem_replicate, List.getElem_map, same_zero]

/-- After the first `i` values, the sizes are how often each was there. -/
theorem count_pass (htmp : Evaluated gt by_groups tmp) (hrange : InRange gt by_groups) :
    (strided (count_value gt.data_size tmp.bytes) tmp.origin tmp.stride by_groups.dim_size (List.replicate gt.get_category_count 0) :
      Except (error E) (List ℕ)) =
      .ok ((List.range gt.get_category_count).map (same (code gt by_groups) by_groups.dim_size)) := by
  obtain ⟨sizes, hrun, rfl⟩ := strided_invariant (f := count_value (E := E) gt.data_size tmp.bytes) (p := tmp.origin) (s := tmp.stride)
    (n := by_groups.dim_size) (Q := fun i sizes => sizes = (List.range gt.get_category_count).map (same (code gt by_groups) i))
    (by
      rintro i hi sizes rfl
      have hlt := code_lt hrange hi
      refine ⟨_, ?_, rfl⟩
      unfold count_value
      rw [nsmul_eq_mul, htmp.word i hi, List.length_map, List.length_range, if_neg (by omega), modify_map_range]
      congr 1
      apply List.map_congr_left
      intro g _
      rw [same_succ]
      split_ifs <;> rfl) (replicate_zero gt.get_category_count)
  exact hrun

/-- A value out of range is found before anything is allocated. -/
theorem count_throws {bytes : ByteMemory} {width n count i : ℕ} {p s : ℤ} (hi : i < n) (hout : count ≤ bytes.word (p + i * s) width) :
    ∃ e : error E, strided (count_value width bytes) p s n (List.replicate count 0) = .error e ∧ e.IsThrown := by
  have hstep (q : ℤ) (x y : List ℕ) (h : count_value (E := E) width bytes q x = .ok y) :
      bytes.word q width < y.length ∧ y.length = x.length := by
    unfold count_value at h
    dsimp only at h
    split_ifs at h with hle
    cases h
    rw [List.length_modify]
    exact ⟨Nat.lt_of_not_le hle, rfl⟩
  cases hrun : strided (count_value (E := E) width bytes) p s n (List.replicate count 0) with
  | error e =>
    refine ⟨e, rfl, ?_⟩
    obtain ⟨j, -, sizes, hfail⟩ := error_of_strided hrun
    unfold count_value at hfail
    dsimp only at hfail
    split_ifs at hfail
    cases hfail
    trivial
  | ok sizes =>
    exfalso
    have hlen : sizes.length = count := strided_keeps (Q := fun sizes => sizes.length = count)
      (fun q x y hx h => (hstep q x y h).2.trans hx) List.length_replicate hrun
    have hall := strided_each (Q := fun q (sizes : List ℕ) => bytes.word q width < sizes.length) (fun q x y h => (hstep q x y h).1)
      (fun q k x y _ _ hq h => by rwa [(hstep _ x y h).2]) hrun i hi
    rw [nsmul_eq_mul, hlen] at hall
    exact absurd hall (Nat.not_lt.mpr hout)

theorem carve_append (stride : ℕ) : ∀ (sizes : List ℕ) (out_begin size : ℕ),
    carve stride out_begin (sizes ++ [size]) = carve stride out_begin sizes ++ [⟨out_begin + sizes.sum * stride, size⟩]
  | [], out_begin, size => by
    simp [carve]
  | first :: sizes, out_begin, size => by
    rw [List.cons_append, carve, carve, carve_append stride sizes, List.cons_append, List.sum_cons, add_mul, add_assoc]

/-- The sizes of the groups before `g` are the values below `g`. -/
theorem carve_sizes (code : ℕ → ℕ) (n stride out_begin count : ℕ) :
    ((List.range count).map (same code n)).sum = below code n count ∧
      carve stride out_begin ((List.range count).map (same code n)) =
        (List.range count).map fun g => ⟨out_begin + below code n g * stride, same code n g⟩ := by
  induction count with
  | zero => exact ⟨below_zero.symm, rfl⟩
  | succ count ih =>
    obtain ⟨hsum, hcarve⟩ := ih
    rw [List.range_succ, List.map_append, List.map_append, List.map_singleton, List.map_singleton, List.sum_append, carve_append,
      hsum, hcarve, below_succ, List.sum_singleton]
    exact ⟨rfl, rfl⟩

/-- The groups of the code, from `out_begin` on. -/
def carved (gt : groups_type α) (by_groups : by_values α) (stride out_begin : ℕ) : List var_dim_type_data :=
  (List.range gt.get_category_count).map fun g =>
    ⟨out_begin + below (code gt by_groups) by_groups.dim_size g * stride, same (code gt by_groups) by_groups.dim_size g⟩

theorem place_carved {vad_md : var_dim_type_arrmeta} {out_begin i : ℕ} (hrange : InRange gt by_groups) (hi : i < by_groups.dim_size) :
    place gt vad_md by_groups (carved gt by_groups vad_md.stride out_begin) i =
      out_begin + slot (code gt by_groups) by_groups.dim_size i * vad_md.stride := by
  have hlt := code_lt hrange hi
  unfold place
  rw [List.getD_eq_getElem _ _ (by rwa [carved, List.length_map, List.length_range])]
  simp only [carved, List.getElem_map, List.getElem_range, slot]
  push_cast
  ring

/-- The cursors after the first `i` elements: each group's behind its elements so far. -/
def cursors (gt : groups_type α) (by_groups : by_values α) (stride out_begin i : ℕ) : List ℤ :=
  (List.range gt.get_category_count).map fun g =>
    out_begin + (below (code gt by_groups) by_groups.dim_size g + same (code gt by_groups) i g : ℕ) * stride

theorem cursors_zero (gt : groups_type α) (by_groups : by_values α) (stride out_begin : ℕ) :
    (carved gt by_groups stride out_begin).map (fun group => (group.begin : ℤ)) = cursors gt by_groups stride out_begin 0 := by
  rw [carved, cursors, List.map_map]
  apply List.map_congr_left
  intro g _
  rw [Function.comp_apply, same_zero, add_zero]
  push_cast
  rfl

theorem cursors_slot {stride out_begin i : ℕ} (hlt : code gt by_groups i < gt.get_category_count) :
    (cursors gt by_groups stride out_begin i)[code gt by_groups i]? =
      some (out_begin + slot (code gt by_groups) by_groups.dim_size i * stride : ℤ) := by
  rw [cursors, List.getElem?_map, List.getElem?_range hlt]
  rfl

theorem cursors_succ (gt : groups_type α) (by_groups : by_values α) (stride out_begin i : ℕ) :
    (cursors gt by_groups stride out_begin i).set (code gt by_groups i)
      (out_begin + slot (code gt by_groups) by_groups.dim_size i * stride + stride) = cursors gt by_groups stride out_begin (i + 1) := by
  unfold cursors slot
  apply List.ext_getElem
  · rw [List.length_set, List.length_map, List.length_map]
  · intro g hg hg'
    rw [List.getElem_set]
    simp only [List.getElem_map, List.getElem_range]
    rw [same_succ]
    split_ifs with heq
    · subst heq
      push_cast
      ring
    · rw [add_zero]

/-- Every element in turn is copied to where the cursor of its group stands. -/
theorem fill_pass (vad_md : var_dim_type_arrmeta) (out_begin : ℕ) (data : values) (htmp : Evaluated gt by_groups tmp)
    (hrange : InRange gt by_groups) (child : ℤ → ℤ → Heap → Except E Heap) (h : Heap) :
    Does Prod.snd (fun (i : ℕ) h => (child (place gt vad_md by_groups (carved gt by_groups vad_md.stride out_begin) i)
        (data.origin + i * data.stride) h).mapError error.child)
      (strided (fill_value gt.data_size tmp.bytes vad_md.stride child) (tmp.origin, data.origin) (tmp.stride, data.stride)
        by_groups.dim_size (cursors gt by_groups vad_md.stride out_begin 0, h))
      (List.range by_groups.dim_size) h fun st => st.1 = cursors gt by_groups vad_md.stride out_begin by_groups.dim_size := by
  rw [← List.flatMap_singleton' (List.range by_groups.dim_size)]
  change Does Prod.snd _ _ _ (Prod.snd (cursors gt by_groups vad_md.stride out_begin 0, h)) _
  apply Does.strided (fun i (st : List ℤ × Heap) => st.1 = cursors gt by_groups vad_md.stride out_begin i)
  · rintro i hi ⟨pointers, heap⟩ rfl
    apply does_event (fun heap => (cursors gt by_groups vad_md.stride out_begin (i + 1), heap)) rfl
    · unfold fill_value
      dsimp only
      rw [nsmul_pair, htmp.word i hi, cursors_slot (code_lt hrange hi), place_carved hrange hi]
      dsimp only
      rw [cursors_succ]
      cases child (out_begin + slot (code gt by_groups) by_groups.dim_size i * vad_md.stride) (data.origin + i * data.stride) heap <;> rfl
    · exact fun _ => rfl
    · exact fun _ => rfl
  · rfl

end

/-! ## The memory -/

section
open PodMemoryBlock
variable {kind : block_kind} {s : PodMemoryBlock.State} {regions : List Region}

/-- What a chunk has room for is given out. -/
theorem hand_out_answers {out_begin size : ℕ} (hinside : s.heap.Inside out_begin size) :
    ∃ b begin, called_pod kind (hand_out kind out_begin size s) = .ok (b, begin) := by
  obtain ⟨h', hfill, -⟩ := zero_fill_spec kind (Nat.le_add_right out_begin size) (by rwa [Nat.add_sub_cancel_left])
  unfold hand_out
  rw [hfill]
  exact ⟨_, _, rfl⟩

/-- A pod block answers, or there is no memory left. -/
theorem pod_allocates (al : allocator) (hi : PodMemoryBlock.Inv kind s regions) (size k : ℕ) :
    (∃ b begin, pod_allocate al size (2 ^ k) (.pod kind s) = .ok (b, begin)) ∨
      pod_allocate al size (2 ^ k) (.pod kind s) = .error .bad_alloc := by
  have hcurrent := (align_up_spec s.emb.m_memory_current k).1
  unfold pod_allocate PodMemoryBlock.allocate
  dsimp only
  split_ifs with hroom
  · cases hmalloc : append_memory al.malloc
        (max (s.emb.m_total_allocated_capacity - ((s.emb.m_memory_end : ℤ) - s.emb.m_memory_current)) size).toNat
        { s with emb.m_total_allocated_capacity :=
            s.emb.m_total_allocated_capacity - ((s.emb.m_memory_end : ℤ) - s.emb.m_memory_current) } with
    | error t => exact Or.inr rfl
    | ok t =>
      unfold append_memory at hmalloc
      split at hmalloc
      · cases hmalloc
      · cases hmalloc
        left
        apply hand_out_answers
        apply (Heap.inside_malloc _ _ _).mono le_rfl
        apply Nat.add_le_add_left
        omega
  · left
    apply hand_out_answers
    obtain ⟨-, -, hend⟩ | ⟨-, hbegin, -, hmem⟩ := hi.linked.newest
    · exact Or.inl (by omega)
    · refine Or.inr ⟨_, hmem, hbegin.trans hcurrent, ?_⟩
      dsimp only
      omega

end

/-! ## The groups -/

section
variable {al : allocator} {gt : groups_type α} {vad_md : var_dim_type_arrmeta} {blockref b : memory_block} {data : values}
  {by_groups : by_values α} {out_begin : ℕ}

theorem by_values_tmp_evaluated (E : Type) (hrange : InRange gt by_groups) :
    ∃ tmp, (by_values_tmp gt by_groups : Except (error E) (by_values α)) = .ok tmp ∧ Evaluated gt by_groups tmp := by
  unfold by_values_tmp
  cases hexpression : by_groups.expression with
  | none => exact ⟨by_groups, rfl, evaluated_self hexpression⟩
  | some read => exact eval_raw_copy_evaluated hexpression hrange

theorem groupby_arrays (h : Arrays data by_groups) : (groupby data by_groups : Except (error E) _) = .ok (data, by_groups) := by
  obtain ⟨hndim, hby, hsize⟩ := h
  unfold groupby make_groupby
  rw [if_neg hndim, if_neg (by omega), if_neg (by omega), if_neg (by omega), if_neg (by omega), if_neg (by omega)]
  rfl

theorem groupby_throws (h : ¬ Arrays data by_groups) :
    ∃ e : error E, groupby data by_groups = .error e ∧ e.IsThrown := by
  unfold groupby make_groupby
  split_ifs with hndim hby hsize hmany
  · exact ⟨_, rfl, trivial⟩
  · exact ⟨_, rfl, trivial⟩
  · exact ⟨_, rfl, trivial⟩
  · exact ⟨_, rfl, trivial⟩
  · omega
  · omega
  · exact absurd ⟨hndim, by omega, by omega⟩ h

/-- A value that is not in range is found in either case. -/
theorem single_throws (hrange : ¬ InRange gt by_groups) (child : ℤ → ℤ → Heap → Except E Heap) :
    ∃ e, single al gt vad_md blockref data by_groups child = .error e ∧ e.IsThrown := by
  unfold single by_values_tmp
  cases hexpression : by_groups.expression with
  | some read =>
    obtain ⟨e, he, hthrown⟩ := eval_raw_copy_throws (E := E) hexpression hrange
    dsimp only
    rw [he]
    exact ⟨e, rfl, hthrown⟩
  | none =>
    obtain ⟨i, hi, hout⟩ : ∃ i < by_groups.dim_size,
        gt.get_category_count ≤ by_groups.bytes.word (by_groups.origin + i * by_groups.stride) gt.data_size := by
      unfold InRange by_value at hrange
      rw [hexpression] at hrange
      push Not at hrange
      obtain ⟨i, hi, hout⟩ := hrange
      exact ⟨i, hi, hout _ rfl⟩
    obtain ⟨e, he, hthrown⟩ := count_throws (E := E) hi hout
    dsimp only
    rw [ok_bind]
    by_cases hstrided : by_groups.is_strided = false
    · rw [if_pos hstrided]
      exact ⟨_, rfl, trivial⟩
    · rw [if_neg hstrided]
      by_cases hoffset : vad_md.offset ≠ 0
      · rw [if_pos hoffset]
        exact ⟨_, rfl, trivial⟩
      · rw [if_neg hoffset, he]
        exact ⟨e, rfl, hthrown⟩

/-- The kernel on values that are in range. -/
theorem single_in_range (al : allocator) (vad_md : var_dim_type_arrmeta) (blockref : memory_block) (data : values)
    (hrange : InRange gt by_groups) (child : ℤ → ℤ → Heap → Except E Heap) :
    ∃ tmp, Evaluated gt by_groups tmp ∧ single al gt vad_md blockref data by_groups child =
      if by_groups.is_strided = false then .error (.runtime_error "groupby: failed to get by_values as a strided array")
      else if vad_md.offset ≠ 0 then
        .error (.runtime_error "dynd groupby: destination var_dim offset must be zero to allocate output")
      else do
        let (block, out_begin) ← (pod_allocate al (by_groups.dim_size * vad_md.stride) vad_md.target_alignment blockref).mapError .memory
        if data.is_strided = false then .error (.runtime_error "groupby: failed to get data_values as a strided array")
        else do
          let (_, heap) ← strided (fill_value gt.data_size tmp.bytes vad_md.stride child) (tmp.origin, data.origin)
            (tmp.stride, data.stride) data.dim_size (cursors gt by_groups vad_md.stride out_begin 0, block.heap)
          return (block.set_heap heap, carved gt by_groups vad_md.stride out_begin) := by
  obtain ⟨tmp, htmp, heval⟩ := by_values_tmp_evaluated E hrange
  refine ⟨tmp, heval, ?_⟩
  unfold single
  rw [htmp, ok_bind, heval.is_strided, heval.dim_size, count_pass heval hrange]
  congr 2
  rw [ok_bind]
  congr 1
  funext ⟨block, out_begin⟩
  dsimp only
  rw [(carve_sizes _ _ _ _ _).2, ← cursors_zero]
  rfl

/-- All is in order: every element in turn is copied to its place. -/
theorem evaluate_copies (harrays : Arrays data by_groups) (hrange : InRange gt by_groups) (hby : by_groups.is_strided = true)
    (hdata : data.is_strided = true) (hoffset : vad_md.offset = 0)
    (hallocate : pod_allocate al (by_groups.dim_size * vad_md.stride) vad_md.target_alignment blockref = .ok (b, out_begin))
    (child : ℤ → ℤ → Heap → Except E Heap) :
    evaluate al gt vad_md blockref data by_groups child = (do
      let heap ← (events (fun i : ℕ => child (place gt vad_md by_groups (carved gt by_groups vad_md.stride out_begin) i)
        (data.origin + i * data.stride)) (List.range by_groups.dim_size) b.heap).mapError .child
      return (b.set_heap heap, carved gt by_groups vad_md.stride out_begin)) := by
  obtain ⟨tmp, heval, hsingle⟩ := single_in_range al vad_md blockref data hrange child
  rw [evaluate, groupby_arrays harrays]
  change single al gt vad_md blockref data by_groups child = _
  rw [hsingle, if_neg (by simp [hby]), if_neg (by simp [hoffset]), hallocate]
  change (if data.is_strided = false then _ else _) = _
  rw [if_neg (by simp [hdata]), harrays.2.2]
  have hfill := (fill_pass vad_md out_begin data heval hrange child b.heap).result
  rw [events_mapError] at hfill
  rw [← hfill]
  cases strided (fill_value gt.data_size tmp.bytes vad_md.stride child) (tmp.origin, data.origin) (tmp.stride, data.stride)
    by_groups.dim_size (cursors gt by_groups vad_md.stride out_begin 0, b.heap) with
  | error e => rfl
  | ok st => rfl

end

/-! ## The bytes of the groups -/

/-- Elements that are copied to places apart keep their bytes. -/
theorem events_holds {element : ℤ → Except E (List UInt8)} {stride : ℕ} {dst src : ℕ → ℤ}
    (hlen : ∀ src bytes, element src = .ok bytes → bytes.length ≤ stride) (n : ℕ)
    (hapart : ∀ i < n, ∀ j < n, i ≠ j → dst i + stride ≤ dst j ∨ dst j + stride ≤ dst i) (h h' : Heap)
    (hrun : events (fun i : ℕ => Take.assign_bytes element (dst i) (src i)) (List.range n) h = .ok h') :
    ∀ i < n, ∃ bytes, element (src i) = .ok bytes ∧ Take.Holds h' (dst i) bytes := by
  induction n generalizing h' with
  | zero => exact fun i hi => absurd hi (Nat.not_lt_zero i)
  | succ n ih =>
    rw [List.range_succ, events_append] at hrun
    obtain ⟨h₁, hfirst, hlast⟩ := bind_eq_ok.mp hrun
    obtain ⟨h₂, hwrite, hdone⟩ := bind_eq_ok.mp hlast
    cases hdone
    obtain ⟨bytes, hbytes, hstored⟩ := bind_eq_ok.mp hwrite
    cases hstored
    have hroom := hlen _ bytes hbytes
    intro i hi
    rcases Nat.lt_succ_iff_lt_or_eq.mp hi with hlt | rfl
    · obtain ⟨before, hbefore, hholds⟩ := ih (fun i hi j hj => hapart i (by omega) j (by omega)) h₁ hfirst i hlt
      have hfits := hlen _ before hbefore
      refine ⟨before, hbefore, fun k hk x hx => ?_⟩
      rw [← hholds k hk x hx]
      apply if_neg
      have hoff := hapart i (by omega) n (by omega) (by omega)
      omega
    · refine ⟨bytes, hbytes, fun k hk x hx => ?_⟩
      rw [show bytes.getD k 0 = bytes.getD ((x : ℤ) - dst i).toNat 0 by congr 1; omega]
      exact if_pos (by omega)

/-- Two of the places `begin + stride * slot` do not overlap. -/
theorem slots_apart {out_begin : ℤ} {i j stride : ℕ} (hne : i ≠ j) :
    out_begin + i * stride + stride ≤ out_begin + j * stride ∨ out_begin + j * stride + stride ≤ out_begin + i * stride := by
  rcases lt_or_gt_of_ne hne with hlt | hgt
  · have hle : ((i + 1 : ℕ) : ℤ) * stride ≤ j * stride := by
      exact_mod_cast Nat.mul_le_mul_right stride hlt
    left
    push_cast at hle
    linarith
  · have hle : ((j + 1 : ℕ) : ℤ) * stride ≤ i * stride := by
      exact_mod_cast Nat.mul_le_mul_right stride hgt
    right
    push_cast at hle
    linarith

section
variable {al : allocator} {gt : groups_type α} {vad_md : var_dim_type_arrmeta} {blockref b : memory_block} {data : values}
  {by_groups : by_values α} {out_begin : ℕ}

theorem copies_of_allocated (harrays : Arrays data by_groups) (hrange : InRange gt by_groups) (hby : by_groups.is_strided = true)
    (hdata : data.is_strided = true) (hoffset : vad_md.offset = 0)
    (hallocate : pod_allocate al (by_groups.dim_size * vad_md.stride) vad_md.target_alignment blockref = .ok (b, out_begin)) :
    Copies al gt vad_md blockref data by_groups := by
  refine ⟨b, out_begin, carved gt by_groups vad_md.stride out_begin, hallocate, ?_, fun g hg => ?_,
    evaluate_copies harrays hrange hby hdata hoffset hallocate⟩
  · rw [carved, List.length_map, List.length_range]
  · simp only [carved, List.getElem_map, List.getElem_range]
    exact length_positions.symm

theorem elements_of_allocated (harrays : Arrays data by_groups) (hrange : InRange gt by_groups) (hby : by_groups.is_strided = true)
    (hdata : data.is_strided = true) (hoffset : vad_md.offset = 0)
    (hallocate : pod_allocate al (by_groups.dim_size * vad_md.stride) vad_md.target_alignment blockref = .ok (b, out_begin)) :
    Elements al gt vad_md blockref data by_groups := by
  intro E element t groups hlen hevaluate g hg
  rw [evaluate_copies harrays hrange hby hdata hoffset hallocate] at hevaluate
  obtain ⟨heap, hevents, hresult⟩ := bind_eq_ok.mp hevaluate
  cases hresult
  obtain ⟨heap', hrun, rfl⟩ : ∃ heap', events (fun i : ℕ => Take.assign_bytes element
      (place gt vad_md by_groups (carved gt by_groups vad_md.stride out_begin) i) (data.origin + i * data.stride))
      (List.range by_groups.dim_size) b.heap = .ok heap' ∧ heap' = heap := by
    cases hrun : events (fun i : ℕ => Take.assign_bytes element
      (place gt vad_md by_groups (carved gt by_groups vad_md.stride out_begin) i) (data.origin + i * data.stride))
      (List.range by_groups.dim_size) b.heap with
    | error e =>
      rw [hrun] at hevents
      cases hevents
    | ok heap' =>
      rw [hrun] at hevents
      cases hevents
      exact ⟨_, rfl, rfl⟩
  have hholds := events_holds hlen by_groups.dim_size (fun i hi j hj hne => by
    rw [place_carved hrange hi, place_carved hrange hj]
    exact slots_apart (slot_ne hi hj hne)) b.heap heap' hrun
  refine ⟨?_, fun k hk => ?_⟩
  · simp only [carved, List.getElem_map, List.getElem_range]
    exact length_positions.symm
  · obtain ⟨i, hi⟩ : ∃ i, (members gt by_groups g)[k] = i := ⟨_, rfl⟩
    rw [hi]
    have hmember : (members gt by_groups g)[k]? = some i := by
      rw [List.getElem?_eq_getElem hk, hi]
    obtain ⟨hlt, -⟩ := mem_positions.mp (List.mem_of_getElem? hmember)
    obtain ⟨rfl, rfl⟩ := (position_unique hlt).mp hmember
    obtain ⟨bytes, hbytes, hat⟩ := hholds i hlt
    refine ⟨bytes, hbytes, ?_⟩
    rw [memory_block.heap_set_heap]
    unfold place at hat
    rwa [List.getD_eq_getElem _ _ hg] at hat

/-- The groups are a partition. -/
theorem member_once (hrange : InRange gt by_groups) {i : ℕ} (hi : i < by_groups.dim_size) :
    ∃! p : ℕ × ℕ, p.1 < gt.get_category_count ∧ (members gt by_groups p.1)[p.2]? = some i := by
  refine ⟨(code gt by_groups i, same (code gt by_groups) i (code gt by_groups i)), ⟨code_lt hrange hi, positions_same hi⟩, ?_⟩
  rintro ⟨g, k⟩ ⟨-, hk⟩
  obtain ⟨rfl, rfl⟩ := (position_unique hi).mp hk
  rfl

theorem throws_of_not_proper (h : ¬ Proper al gt vad_md blockref data by_groups) (child : ℤ → ℤ → Heap → Except E Heap) :
    ∃ e, evaluate al gt vad_md blockref data by_groups child = .error e ∧ e.IsThrown := by
  unfold evaluate
  by_cases harrays : Arrays data by_groups
  · rw [groupby_arrays harrays, ok_bind]
    dsimp only
    by_cases hrange : InRange gt by_groups
    · have hmemory : pod_allocate al (by_groups.dim_size * vad_md.stride) vad_md.target_alignment blockref = .error .bad_alloc := by
        by_contra hmemory
        exact h ⟨harrays, hrange, hmemory⟩
      obtain ⟨tmp, -, hsingle⟩ := single_in_range al vad_md blockref data hrange child
      rw [hsingle, hmemory]
      split_ifs
      · exact ⟨_, rfl, trivial⟩
      · exact ⟨_, rfl, trivial⟩
      · exact ⟨.memory .bad_alloc, rfl, trivial⟩
      · exact ⟨.memory .bad_alloc, rfl, trivial⟩
    · exact single_throws hrange child
  · obtain ⟨e, he, hthrown⟩ := groupby_throws (E := E) harrays
    rw [he]
    exact ⟨e, rfl, hthrown⟩

/-- What the kernel refuses is not copied. -/
theorem kept_of_copies (harrays : Arrays data by_groups) (hrange : InRange gt by_groups) (h : Copies al gt vad_md blockref data by_groups) :
    by_groups.is_strided = true ∧ data.is_strided = true ∧ vad_md.offset = 0 ∧ ∃ kind s, blockref = .pod kind s := by
  obtain ⟨b, out_begin, groups, hallocate, -, -, hevaluate⟩ := h
  obtain ⟨tmp, -, hsingle⟩ := single_in_range al vad_md blockref data hrange
    (fun _ _ h => (.ok h : Except Unit Heap))
  have hresult := hevaluate (fun _ _ h => (.ok h : Except Unit Heap))
  have hcopied (what : String) : evaluate al gt vad_md blockref data by_groups (fun _ _ h => (.ok h : Except Unit Heap)) ≠
      .error (.runtime_error what) := by
    rw [hresult]
    cases events (fun i : ℕ => (fun _ _ h => (.ok h : Except Unit Heap)) (place gt vad_md by_groups groups i)
      (data.origin + i * data.stride)) (List.range by_groups.dim_size) b.heap with
    | error e =>
      rintro ⟨⟩
    | ok heap =>
      rintro ⟨⟩
  unfold evaluate at hcopied
  rw [groupby_arrays harrays, ok_bind] at hcopied
  dsimp only at hcopied
  rw [hsingle, hallocate] at hcopied
  have hby : by_groups.is_strided = true := by
    rw [← Bool.not_eq_false]
    intro hby
    apply hcopied "groupby: failed to get by_values as a strided array"
    rw [if_pos hby]
  rw [if_neg (by simp [hby])] at hcopied
  have hoffset : vad_md.offset = 0 := by
    by_contra hoffset
    apply hcopied "dynd groupby: destination var_dim offset must be zero to allocate output"
    rw [if_pos hoffset]
  rw [if_neg (by simp [hoffset])] at hcopied
  have hdata : data.is_strided = true := by
    rw [← Bool.not_eq_false]
    intro hdata
    apply hcopied "groupby: failed to get data_values as a strided array"
    exact if_pos hdata
  refine ⟨hby, hdata, hoffset, ?_⟩
  cases blockref with
  | pod kind s => exact ⟨kind, s, rfl⟩
  | objectarray s => cases hallocate
  | other m_type heap => cases m_type <;> cases hallocate

end

section
variable {tp : category_type α} {cs : List α} {ct : categorical_type α}

/-- The types of different categories, in any order. -/
theorem exists_groups_type (hl : StrictWeak tp.sorting_less) (hscalar : tp.is_scalar = true) (hd : cs.Pairwise (Differ tp.sorting_less))
    (hmade : make_categorical_type ⟨true, tp, cs⟩ false = .ok ct) : ∃ gt : groups_type α, gt.ct = ct ∧ gt.cs = cs := by
  obtain ⟨ct', hmade', hbuilt⟩ := make_categorical_type_built hl hscalar hd
  rw [hmade] at hmade'
  cases hmade'
  refine ⟨⟨tp, cs, ct, hl, hd, hbuilt, ?_⟩, rfl, rfl⟩
  rw [hbuilt.count]
  unfold make_categorical_type at hmade
  dsimp only at hmade
  rw [if_neg (by decide), if_neg (by decide), hscalar, if_neg (by decide)] at hmade
  obtain ⟨uniques, -, hresult⟩ := bind_eq_ok.mp hmade
  cases hresult
  rfl

/-- The types of the sorted values that `factor_categorical` finds. -/
theorem exists_factored (hl : StrictWeak tp.sorting_less) (hs : cs.Pairwise fun a b => tp.sorting_less a b = true) (fixed : Bool)
    (hmade : make_categorical_type ⟨fixed, tp, cs⟩ true = .ok ct) : ∃ gt : groups_type α, gt.ct = ct ∧ gt.cs = cs := by
  cases hmade
  refine ⟨⟨tp, cs, _, hl, hs.imp Or.inl,
    ⟨rfl, hs, List.Perm.refl _, fun i c hi => ⟨i, ?_, hi⟩, fun i v hi => ?_, List.Perm.refl _⟩, rfl⟩, rfl, rfl⟩
  · exact List.getElem?_range (List.getElem?_eq_some_iff.mp hi).1
  · obtain ⟨hlt, rfl⟩ := List.getElem?_eq_some_iff.mp hi
    rw [List.getElem_range]
    rw [List.length_range] at hlt
    exact List.getElem?_range hlt

end

/-! ## Two types of data, in two groups -/

def numbers : category_type ℕ := ⟨"int32", toString, true, fun a b => decide (a < b), none⟩

def two_values : values := ⟨1, 2, true, 8, 0⟩

def two_by_values : by_values ℕ := ⟨⟨1, 2, true, 1, 0⟩, "categorical[int32, [0, 1]]", fun p => if p = 1 then 1 else 0, none⟩

theorem numbers_weak : StrictWeak numbers.sorting_less := by
  constructor
  · intro a
    simp [numbers]
  · intro a b c hab hbc
    simp only [numbers, decide_eq_true_eq] at *
    omega
  · intro a b c hab hbc
    simp only [numbers, decide_eq_false_iff_not] at *
    omega

theorem zero_one_differ : [0, 1].Pairwise (Differ numbers.sorting_less) := by
  simp [Differ, numbers]

end Dynd.Groupby
