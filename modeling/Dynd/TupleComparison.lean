import Mathlib.Tactic
/-!
# Comparison of tuples

Tuples and structs compare field by field. `make_tuple_comparison_kernel` has a
kernel for operands of one layout and another for operands whose arrmetas
differ; `compares_iff` says when what they answer is right.
-/
namespace Dynd.TupleComparison

/-! ## Operands -/

mutual

/-- Two values of one type: the arrmetas of a field that is no tuple, and for
the fields of a tuple where they are in the one and in the other. -/
inductive operands (B A : Type) where
  | scalar (tp : B) (src0_arrmeta src1_arrmeta : A)
  | tuple (fields : operand_fields B A)

inductive operand_fields (B A : Type) where
  | nil
  | cons (src0_data_offset src1_data_offset : ℕ) (field : operands B A) (rest : operand_fields B A)

end

section
variable {B A : Type} [DecidableEq A]

mutual

/-- `memcmp(src0_arrmeta, src1_arrmeta, ...) == 0` -/
def operands.matching : operands B A → Bool
  | .scalar _ src0_arrmeta src1_arrmeta => src0_arrmeta = src1_arrmeta
  | .tuple fields => fields.matching

def operand_fields.matching : operand_fields B A → Bool
  | .nil => true
  | .cons src0_data_offset src1_data_offset field rest =>
    src0_data_offset = src1_data_offset && field.matching && rest.matching

end

/-- Only the places of the fields differ. -/
def operand_fields.all_matching : operand_fields B A → Bool
  | .nil => true
  | .cons _ _ field rest => field.matching && rest.all_matching

end

/-- The comparisons of the fields that are no tuples: their answer for a type,
the arrmetas of the operands and the pointers to them. -/
structure comparisons (B A : Type) where
  sorting_less : B → A → A → ℤ → ℤ → Bool
  equal : B → A → A → ℤ → ℤ → Bool
  not_equal : B → A → A → ℤ → ℤ → Bool

/-- `*reinterpret_cast<int *>(dst) = value` -/
def write_int (value : Bool) : BitVec 32 := if value then 1 else 0

/-- `*reinterpret_cast<char *>(dst) = value`, for an `int` that held `dst` -/
def write_char (dst : BitVec 32) (value : Bool) : BitVec 32 := dst &&& 0xffffff00 ||| write_int value

/-- The first of two things, or the second. -/
def pick {T : Type} (swapped : Bool) (first second : T) : T := if swapped then second else first

/-! ## Kernels -/

section
variable {B A : Type} [DecidableEq A] (c : comparisons B A)
  /- What stands where an `int child_dst` is declared, by the positions of the fields. -/
  (stack : List ℕ → BitVec 32)

mutual

/-- The kernel `make_comparison_kernel` makes, with the arrmetas of the operands
exchanged or not, called for two pointers: what it leaves in `dst`. -/
def sorting_less (path : List ℕ) (swapped : Bool) (dst : BitVec 32) (src0 src1 : ℤ) : operands B A → BitVec 32
  | .scalar tp src0_arrmeta src1_arrmeta =>
    write_int (c.sorting_less tp (pick swapped src0_arrmeta src1_arrmeta) (pick swapped src1_arrmeta src0_arrmeta) src0 src1)
  | .tuple fields =>
    if fields.matching then matching_arrmeta_kernel path 0 swapped src0 src1 fields
    else diff_arrmeta_kernel path 0 swapped dst src0 src1 fields

/-- `tuple_compare_sorting_less_matching_arrmeta_kernel`, from field `i` on. The
arrmeta of the first operand is that of the second. -/
def matching_arrmeta_kernel (path : List ℕ) (i : ℕ) (swapped : Bool) (src0 src1 : ℤ) :
    operand_fields B A → BitVec 32
  | .nil => write_int false
  | .cons src0_data_offset src1_data_offset field rest =>
    let data_offset := pick swapped src0_data_offset src1_data_offset
    let child_dst := sorting_less (i :: path) swapped (stack (i :: path)) (src0 + data_offset) (src1 + data_offset) field
    if child_dst ≠ 0 then write_int true
    else
      let child_dst := sorting_less (i :: path) swapped child_dst (src1 + data_offset) (src0 + data_offset) field
      if child_dst ≠ 0 then write_int false
      else matching_arrmeta_kernel path (i + 1) swapped src0 src1 rest

/-- `tuple_compare_sorting_less_diff_arrmeta_kernel`, from field `i` on. -/
def diff_arrmeta_kernel (path : List ℕ) (i : ℕ) (swapped : Bool) (dst : BitVec 32) (src0 src1 : ℤ) :
    operand_fields B A → BitVec 32
  | .nil => write_char dst false
  | .cons src0_data_offset src1_data_offset field rest =>
    let offset0 := pick swapped src0_data_offset src1_data_offset
    let offset1 := pick swapped src1_data_offset src0_data_offset
    let child_dst := sorting_less (i :: path) swapped (stack (i :: path)) (src0 + offset0) (src1 + offset1) field
    if child_dst ≠ 0 then write_char dst true
    else
      let child_dst := sorting_less (i :: path) (!swapped) child_dst (src1 + offset1) (src0 + offset0) field
      if child_dst ≠ 0 then write_char dst false
      else diff_arrmeta_kernel path (i + 1) swapped dst src0 src1 rest

end

mutual

/-- `nd::equal`, for operands that are both given the arrmeta of the first, or each its own. -/
def equal (both : Bool) (src0 src1 : ℤ) : operands B A → BitVec 32
  | .scalar tp src0_arrmeta src1_arrmeta =>
    write_int (c.equal tp src0_arrmeta (pick both src1_arrmeta src0_arrmeta) src0 src1)
  | .tuple fields => equal_kernel both src0 src1 fields

/-- `equal_kernel<tuple_type_id, tuple_type_id>`: `instantiate` gives the child
the arrmeta of the first operand twice. -/
def equal_kernel (both : Bool) (src0 src1 : ℤ) : operand_fields B A → BitVec 32
  | .nil => write_int true
  | .cons src0_data_offset src1_data_offset field rest =>
    let child_dst := equal true (src0 + src0_data_offset) (src1 + (pick both src1_data_offset src0_data_offset : ℕ)) field
    if child_dst = 0 then write_int false else equal_kernel both src0 src1 rest

end

mutual

def not_equal (both : Bool) (src0 src1 : ℤ) : operands B A → BitVec 32
  | .scalar tp src0_arrmeta src1_arrmeta =>
    write_int (c.not_equal tp src0_arrmeta (pick both src1_arrmeta src0_arrmeta) src0 src1)
  | .tuple fields => not_equal_kernel both src0 src1 fields

/-- `not_equal_kernel<tuple_type_id, tuple_type_id>` -/
def not_equal_kernel (both : Bool) (src0 src1 : ℤ) : operand_fields B A → BitVec 32
  | .nil => write_int false
  | .cons src0_data_offset src1_data_offset field rest =>
    let child_dst := not_equal true (src0 + src0_data_offset) (src1 + (pick both src1_data_offset src0_data_offset : ℕ)) field
    if child_dst ≠ 0 then write_int true else not_equal_kernel both src0 src1 rest

end

end

/-! ## What they answer -/

/-- Which of two tuples is less, from what their fields say of the two orders: the first field that says anything. -/
def lexicographic : List (Bool × Bool) → Bool
  | [] => false
  | (less, greater) :: fields => less || !greater && lexicographic fields

theorem lexicographic_iff (fields : List (Bool × Bool)) : lexicographic fields = true ↔
    ∃ before less after, fields = before ++ (true, less) :: after ∧ ∀ field ∈ before, field = (false, false) := by
  induction fields with
  | nil => simp [lexicographic]
  | cons field fields ih =>
    obtain ⟨less, greater⟩ := field
    rw [lexicographic, Bool.or_eq_true, Bool.and_eq_true, ih]
    constructor
    · rintro (hless | ⟨hgreater, before, less', after, rfl, hbefore⟩)
      · exact ⟨[], greater, fields, by rw [hless]; rfl, by simp⟩
      · cases less with
        | true => exact ⟨[], greater, _, rfl, by simp⟩
        | false =>
          refine ⟨(false, greater) :: before, less', after, rfl, ?_⟩
          rw [List.forall_mem_cons]
          exact ⟨by simpa using hgreater, hbefore⟩
    · rintro ⟨before, less', after, hfields, hbefore⟩
      cases before with
      | nil =>
        left
        exact congrArg Prod.fst (List.cons.inj hfields).1
      | cons first before =>
        right
        obtain ⟨hfirst, hrest⟩ := List.cons.inj hfields
        rw [List.forall_mem_cons] at hbefore
        rw [hbefore.1] at hfirst
        exact ⟨by rw [(Prod.mk.inj hfirst).2]; rfl, before, less', after, hrest, hbefore.2⟩

section
variable {B A : Type} (c : comparisons B A)

mutual

/-- Each operand with its own arrmeta, of which `swapped` exchanges the two. -/
def less_than (swapped : Bool) (src0 src1 : ℤ) : operands B A → Bool
  | .scalar tp src0_arrmeta src1_arrmeta =>
    c.sorting_less tp (pick swapped src0_arrmeta src1_arrmeta) (pick swapped src1_arrmeta src0_arrmeta) src0 src1
  | .tuple fields => lexicographic (field_orders swapped src0 src1 fields)

def field_orders (swapped : Bool) (src0 src1 : ℤ) : operand_fields B A → List (Bool × Bool)
  | .nil => []
  | .cons src0_data_offset src1_data_offset field rest =>
    let offset0 := pick swapped src0_data_offset src1_data_offset
    let offset1 := pick swapped src1_data_offset src0_data_offset
    (less_than swapped (src0 + offset0) (src1 + offset1) field,
      less_than (!swapped) (src1 + offset1) (src0 + offset0) field) :: field_orders swapped src0 src1 rest

end

mutual

def all_equal (src0 src1 : ℤ) : operands B A → Bool
  | .scalar tp src0_arrmeta src1_arrmeta => c.equal tp src0_arrmeta src1_arrmeta src0 src1
  | .tuple fields => fields_equal src0 src1 fields

def fields_equal (src0 src1 : ℤ) : operand_fields B A → Bool
  | .nil => true
  | .cons src0_data_offset src1_data_offset field rest =>
    all_equal (src0 + src0_data_offset) (src1 + src1_data_offset) field && fields_equal src0 src1 rest

end

mutual

def some_differ (src0 src1 : ℤ) : operands B A → Bool
  | .scalar tp src0_arrmeta src1_arrmeta => c.not_equal tp src0_arrmeta src1_arrmeta src0 src1
  | .tuple fields => fields_differ src0 src1 fields

def fields_differ (src0 src1 : ℤ) : operand_fields B A → Bool
  | .nil => false
  | .cons src0_data_offset src1_data_offset field rest =>
    some_differ (src0 + src0_data_offset) (src1 + src1_data_offset) field || fields_differ src0 src1 rest

end

end

/-! ## Operands of one layout -/

theorem write_int_eq_zero (value : Bool) : write_int value = 0 ↔ value = false := by
  cases value <;> decide

theorem pick_self {T : Type} (swapped : Bool) (x : T) : pick swapped x x = x := by
  cases swapped <;> rfl

section
variable {B A : Type} [DecidableEq A] (c : comparisons B A) (stack : List ℕ → BitVec 32)

mutual

theorem less_than_swapped : (ops : operands B A) → ops.matching = true → ∀ swapped src0 src1,
    less_than c (!swapped) src0 src1 ops = less_than c swapped src0 src1 ops
  | .scalar tp src0_arrmeta src1_arrmeta, h, swapped, src0, src1 => by
    rw [operands.matching, decide_eq_true_iff] at h
    subst h
    simp only [less_than, pick_self]
  | .tuple fields, h, swapped, src0, src1 => by
    rw [operands.matching] at h
    simp only [less_than]
    rw [field_orders_swapped fields h swapped src0 src1]

theorem field_orders_swapped : (fields : operand_fields B A) → fields.matching = true → ∀ swapped src0 src1,
    field_orders c (!swapped) src0 src1 fields = field_orders c swapped src0 src1 fields
  | .nil, _, _, _, _ => rfl
  | .cons src0_data_offset src1_data_offset field rest, h, swapped, src0, src1 => by
    simp only [operand_fields.matching, Bool.and_eq_true, decide_eq_true_iff] at h
    obtain ⟨⟨rfl, hfield⟩, hrest⟩ := h
    simp only [field_orders, pick_self]
    rw [less_than_swapped field hfield swapped, less_than_swapped field hfield (!swapped),
      field_orders_swapped rest hrest swapped src0 src1]

end

mutual

/-- The kernel for one layout fills the whole `int`. -/
theorem sorting_less_of_matching : (ops : operands B A) → ops.matching = true → ∀ path swapped dst src0 src1,
    sorting_less c stack path swapped dst src0 src1 ops = write_int (less_than c swapped src0 src1 ops)
  | .scalar tp src0_arrmeta src1_arrmeta, _, path, swapped, dst, src0, src1 => by
    rw [sorting_less, less_than]
  | .tuple fields, h, path, swapped, dst, src0, src1 => by
    rw [operands.matching] at h
    rw [sorting_less, if_pos h, less_than]
    exact matching_arrmeta_kernel_eq fields h path 0 swapped src0 src1

theorem matching_arrmeta_kernel_eq : (fields : operand_fields B A) → fields.matching = true → ∀ path i swapped src0 src1,
    matching_arrmeta_kernel c stack path i swapped src0 src1 fields =
      write_int (lexicographic (field_orders c swapped src0 src1 fields))
  | .nil, _, _, _, _, _, _ => rfl
  | .cons src0_data_offset src1_data_offset field rest, h, path, i, swapped, src0, src1 => by
    simp only [operand_fields.matching, Bool.and_eq_true, decide_eq_true_iff] at h
    obtain ⟨⟨rfl, hfield⟩, hrest⟩ := h
    have hchild := sorting_less_of_matching field hfield (i :: path) swapped
    have hloop := matching_arrmeta_kernel_eq rest hrest path (i + 1) swapped src0 src1
    simp only [matching_arrmeta_kernel, field_orders, lexicographic, pick_self, hchild, hloop,
      less_than_swapped c field hfield swapped, ne_eq, write_int_eq_zero, Bool.not_eq_false]
    split_ifs with hless hgreater
    · rw [hless]
      rfl
    · rw [Bool.not_eq_true] at hless
      rw [hless, hgreater]
      rfl
    · rw [Bool.not_eq_true] at hless hgreater
      rw [hless, hgreater]
      rfl

end

mutual

theorem equal_of_matching : (ops : operands B A) → ops.matching = true → ∀ both src0 src1,
    equal c both src0 src1 ops = write_int (all_equal c src0 src1 ops)
  | .scalar tp src0_arrmeta src1_arrmeta, h, both, src0, src1 => by
    rw [operands.matching, decide_eq_true_iff] at h
    subst h
    rw [equal, all_equal, pick_self]
  | .tuple fields, h, both, src0, src1 => by
    rw [operands.matching] at h
    rw [equal, all_equal]
    exact equal_kernel_of_matching fields h both src0 src1

theorem equal_kernel_of_matching : (fields : operand_fields B A) → fields.matching = true → ∀ both src0 src1,
    equal_kernel c both src0 src1 fields = write_int (fields_equal c src0 src1 fields)
  | .nil, _, _, _, _ => rfl
  | .cons src0_data_offset src1_data_offset field rest, h, both, src0, src1 => by
    simp only [operand_fields.matching, Bool.and_eq_true, decide_eq_true_iff] at h
    obtain ⟨⟨rfl, hfield⟩, hrest⟩ := h
    simp only [equal_kernel, fields_equal, pick_self, equal_of_matching field hfield,
      equal_kernel_of_matching rest hrest, write_int_eq_zero]
    split_ifs with hdiffers
    · rw [hdiffers]
      rfl
    · rw [Bool.not_eq_false] at hdiffers
      rw [hdiffers, Bool.true_and]

end

mutual

theorem not_equal_of_matching : (ops : operands B A) → ops.matching = true → ∀ both src0 src1,
    not_equal c both src0 src1 ops = write_int (some_differ c src0 src1 ops)
  | .scalar tp src0_arrmeta src1_arrmeta, h, both, src0, src1 => by
    rw [operands.matching, decide_eq_true_iff] at h
    subst h
    rw [not_equal, some_differ, pick_self]
  | .tuple fields, h, both, src0, src1 => by
    rw [operands.matching] at h
    rw [not_equal, some_differ]
    exact not_equal_kernel_of_matching fields h both src0 src1

theorem not_equal_kernel_of_matching : (fields : operand_fields B A) → fields.matching = true → ∀ both src0 src1,
    not_equal_kernel c both src0 src1 fields = write_int (fields_differ c src0 src1 fields)
  | .nil, _, _, _, _ => rfl
  | .cons src0_data_offset src1_data_offset field rest, h, both, src0, src1 => by
    simp only [operand_fields.matching, Bool.and_eq_true, decide_eq_true_iff] at h
    obtain ⟨⟨rfl, hfield⟩, hrest⟩ := h
    simp only [not_equal_kernel, fields_differ, pick_self, not_equal_of_matching field hfield,
      not_equal_kernel_of_matching rest hrest, ne_eq, write_int_eq_zero, Bool.not_eq_false]
    split_ifs with hdiffers
    · rw [hdiffers]
      rfl
    · rw [Bool.not_eq_true] at hdiffers
      rw [hdiffers, Bool.false_or]

end

end

/-! ## Operands that differ in the places of the fields -/

section
variable {B A : Type} [DecidableEq A] (c : comparisons B A) (stack : List ℕ → BitVec 32)

theorem diff_arrmeta_kernel_eq : (fields : operand_fields B A) → fields.all_matching = true →
    ∀ path i swapped dst src0 src1, diff_arrmeta_kernel c stack path i swapped dst src0 src1 fields =
      write_char dst (lexicographic (field_orders c swapped src0 src1 fields))
  | .nil, _, _, _, _, _, _, _ => rfl
  | .cons src0_data_offset src1_data_offset field rest, h, path, i, swapped, dst, src0, src1 => by
    rw [operand_fields.all_matching, Bool.and_eq_true] at h
    have hchild := sorting_less_of_matching c stack field h.1 (i :: path)
    have hloop := diff_arrmeta_kernel_eq rest h.2 path (i + 1) swapped dst src0 src1
    simp only [diff_arrmeta_kernel, field_orders, lexicographic, hchild, hloop, ne_eq, write_int_eq_zero, Bool.not_eq_false]
    split_ifs with hless hgreater
    · rw [hless]
      rfl
    · rw [Bool.not_eq_true] at hless
      rw [hless, hgreater]
      rfl
    · rw [Bool.not_eq_true] at hless hgreater
      rw [hless, hgreater]
      rfl

theorem equal_kernel_of_all_matching : (fields : operand_fields B A) → fields.all_matching = true → ∀ src0 src1,
    equal_kernel c false src0 src1 fields = write_int (fields_equal c src0 src1 fields)
  | .nil, _, _, _ => rfl
  | .cons src0_data_offset src1_data_offset field rest, h, src0, src1 => by
    rw [operand_fields.all_matching, Bool.and_eq_true] at h
    simp only [equal_kernel, fields_equal, pick, equal_of_matching c field h.1, Bool.false_eq_true, if_false,
      equal_kernel_of_all_matching rest h.2, write_int_eq_zero]
    split_ifs with hdiffers
    · rw [hdiffers]
      rfl
    · rw [Bool.not_eq_false] at hdiffers
      rw [hdiffers, Bool.true_and]

theorem not_equal_kernel_of_all_matching : (fields : operand_fields B A) → fields.all_matching = true → ∀ src0 src1,
    not_equal_kernel c false src0 src1 fields = write_int (fields_differ c src0 src1 fields)
  | .nil, _, _, _ => rfl
  | .cons src0_data_offset src1_data_offset field rest, h, src0, src1 => by
    rw [operand_fields.all_matching, Bool.and_eq_true] at h
    simp only [not_equal_kernel, fields_differ, pick, not_equal_of_matching c field h.1, Bool.false_eq_true, if_false,
      not_equal_kernel_of_all_matching rest h.2, ne_eq, write_int_eq_zero, Bool.not_eq_false]
    split_ifs with hdiffers
    · rw [hdiffers]
      rfl
    · rw [Bool.not_eq_true] at hdiffers
      rw [hdiffers, Bool.false_or]

end

/-! ## When the answers are right -/

section
variable {B A : Type} [DecidableEq A]

/-- What the three kernels of a tuple leave in an `int` that held `dst`. -/
structure Compares (fields : operand_fields B A) (dst : BitVec 32) : Prop where
  sorting_less : ∀ (c : comparisons B A) (stack : List ℕ → BitVec 32) (src0 src1 : ℤ),
    sorting_less c stack [] false dst src0 src1 (.tuple fields) =
      write_int (lexicographic (field_orders c false src0 src1 fields))
  equal : ∀ (c : comparisons B A) (src0 src1 : ℤ),
    equal_kernel c false src0 src1 fields = write_int (fields_equal c src0 src1 fields)
  not_equal : ∀ (c : comparisons B A) (src0 src1 : ℤ),
    not_equal_kernel c false src0 src1 fields = write_int (fields_differ c src0 src1 fields)

/-- No field says anything, and two scalars are equal when their arrmetas are. -/
def silent : comparisons B A where
  sorting_less _ _ _ _ _ := false
  equal _ src0_arrmeta src1_arrmeta _ _ := src0_arrmeta = src1_arrmeta
  not_equal _ _ _ _ _ := false

mutual

theorem less_than_silent : (ops : operands B A) → ∀ swapped src0 src1, less_than silent swapped src0 src1 ops = false
  | .scalar _ _ _, _, _, _ => rfl
  | .tuple fields, swapped, src0, src1 => by
    rw [less_than]
    exact lexicographic_silent fields swapped src0 src1

theorem lexicographic_silent : (fields : operand_fields B A) → ∀ swapped src0 src1,
    lexicographic (field_orders silent swapped src0 src1 fields) = false
  | .nil, _, _, _ => rfl
  | .cons src0_data_offset src1_data_offset field rest, swapped, src0, src1 => by
    rw [field_orders, lexicographic, less_than_silent field, less_than_silent field, lexicographic_silent rest]
    rfl

end

theorem write_char_cases (dst : BitVec 32) : write_char dst false = dst &&& 0xffffff00 ∧ write_char dst true ≠ 0 := by
  constructor
  · simp [write_char, write_int]
  · intro h
    have hbit := congrArg (fun v : BitVec 32 => v.getLsbD 0) h
    simp [write_char, write_int] at hbit

/-- The kernel for two layouts keeps the upper bytes. -/
theorem diff_arrmeta_kernel_writes (c : comparisons B A) (stack : List ℕ → BitVec 32) : (fields : operand_fields B A) →
    ∀ path i swapped dst src0 src1, ∃ value, diff_arrmeta_kernel c stack path i swapped dst src0 src1 fields = write_char dst value
  | .nil, _, _, _, _, _, _ => ⟨false, rfl⟩
  | .cons src0_data_offset src1_data_offset field rest, path, i, swapped, dst, src0, src1 => by
    simp only [diff_arrmeta_kernel]
    split_ifs
    · exact ⟨true, rfl⟩
    · exact ⟨false, rfl⟩
    · exact diff_arrmeta_kernel_writes c stack rest path (i + 1) swapped dst src0 src1

theorem write_char_ne_zero {dst : BitVec 32} (h : dst &&& 0xffffff00 ≠ 0) (value : Bool) : write_char dst value ≠ 0 := by
  cases value with
  | false =>
    rw [(write_char_cases dst).1]
    exact h
  | true => exact (write_char_cases dst).2

/-- A tuple among the fields differs in its arrmeta. -/
def operand_fields.tuples_matching : operand_fields B A → Bool
  | .nil => true
  | .cons _ _ (.scalar _ _ _) rest => rest.tuples_matching
  | .cons _ _ (.tuple fields) rest => fields.matching && rest.tuples_matching

/-- What stood in `child_dst` is taken for an answer. -/
theorem diff_arrmeta_kernel_garbage : (fields : operand_fields B A) → fields.tuples_matching = false →
    ∀ path i swapped dst src0 src1,
      diff_arrmeta_kernel silent (fun _ => -1) path i swapped dst src0 src1 fields = write_char dst true
  | .cons _ _ (.scalar tp src0_arrmeta src1_arrmeta) rest, h, path, i, swapped, dst, src0, src1 => by
    rw [operand_fields.tuples_matching] at h
    simp only [diff_arrmeta_kernel, sorting_less, silent]
    exact diff_arrmeta_kernel_garbage rest h path (i + 1) swapped dst src0 src1
  | .cons _ _ (.tuple fields) rest, h, path, i, swapped, dst, src0, src1 => by
    rw [operand_fields.tuples_matching, Bool.and_eq_false_iff] at h
    by_cases hfields : fields.matching = true
    · have hchild := sorting_less_of_matching silent (fun _ => -1) (.tuple fields) hfields (i :: path)
      simp only [diff_arrmeta_kernel, hchild, less_than_silent]
      exact diff_arrmeta_kernel_garbage rest (h.resolve_left (by rw [hfields]; decide)) path (i + 1) swapped dst src0 src1
    · obtain ⟨value, hvalue⟩ := diff_arrmeta_kernel_writes silent (fun _ => -1) fields (i :: path) 0 swapped (-1)
        (src0 + _) (src1 + _)
      simp only [diff_arrmeta_kernel, sorting_less, if_neg hfields]
      rw [hvalue, if_pos (write_char_ne_zero (by decide) value)]

mutual

theorem all_equal_silent : (ops : operands B A) → ops.matching = true → ∀ src0 src1, all_equal silent src0 src1 ops = true
  | .scalar _ _ _, h, _, _ => h
  | .tuple fields, h, src0, src1 => by
    rw [operands.matching] at h
    rw [all_equal]
    exact fields_equal_silent fields h src0 src1

theorem fields_equal_silent : (fields : operand_fields B A) → fields.matching = true →
    ∀ src0 src1, fields_equal silent src0 src1 fields = true
  | .nil, _, _, _ => rfl
  | .cons src0_data_offset src1_data_offset field rest, h, src0, src1 => by
    rw [operand_fields.matching, Bool.and_eq_true, Bool.and_eq_true] at h
    rw [fields_equal, all_equal_silent field h.1.2, fields_equal_silent rest h.2]
    rfl

end

/-- The fields are compared under the first operand's arrmeta, and are equal. -/
theorem equal_kernel_silent : (fields : operand_fields B A) → fields.tuples_matching = true → ∀ both src0 src1,
    equal_kernel silent both src0 src1 fields = write_int true
  | .nil, _, _, _, _ => rfl
  | .cons _ _ (.scalar tp src0_arrmeta src1_arrmeta) rest, h, both, src0, src1 => by
    rw [operand_fields.tuples_matching] at h
    simp only [equal_kernel, equal, silent, pick, if_true, decide_true]
    rw [if_neg (by decide)]
    exact equal_kernel_silent rest h both src0 src1
  | .cons _ _ (.tuple fields) rest, h, both, src0, src1 => by
    rw [operand_fields.tuples_matching, Bool.and_eq_true] at h
    have hchild := equal_of_matching silent (.tuple fields) h.1 true
    simp only [equal_kernel, hchild, all_equal_silent (.tuple fields) h.1]
    rw [if_neg (by decide)]
    exact equal_kernel_silent rest h.2 both src0 src1

theorem all_matching_of_equal : (fields : operand_fields B A) → fields.tuples_matching = true → ∀ src0 src1,
    fields_equal silent src0 src1 fields = true → fields.all_matching = true
  | .nil, _, _, _, _ => rfl
  | .cons _ _ (.scalar tp src0_arrmeta src1_arrmeta) rest, h, src0, src1, hequal => by
    rw [operand_fields.tuples_matching] at h
    rw [fields_equal, Bool.and_eq_true] at hequal
    rw [operand_fields.all_matching, Bool.and_eq_true]
    exact ⟨hequal.1, all_matching_of_equal rest h src0 src1 hequal.2⟩
  | .cons _ _ (.tuple fields) rest, h, src0, src1, hequal => by
    rw [operand_fields.tuples_matching, Bool.and_eq_true] at h
    rw [fields_equal, Bool.and_eq_true] at hequal
    rw [operand_fields.all_matching, Bool.and_eq_true]
    exact ⟨h.1, all_matching_of_equal rest h.2 src0 src1 hequal.2⟩

theorem all_matching_of_compares {fields : operand_fields B A} {dst : BitVec 32} (h : Compares fields dst)
    (hfields : fields.matching = false) : dst &&& 0xffffff00 = 0 ∧ fields.all_matching = true := by
  have hkernel (stack : List ℕ → BitVec 32) : diff_arrmeta_kernel silent stack [] 0 false dst 0 0 fields = 0 := by
    have hless := h.sorting_less silent stack 0 0
    rw [lexicographic_silent, sorting_less, hfields, if_neg Bool.false_ne_true] at hless
    exact hless
  have htuples : fields.tuples_matching = true := by
    by_contra htuples
    rw [Bool.not_eq_true] at htuples
    exact (write_char_cases dst).2 ((diff_arrmeta_kernel_garbage fields htuples [] 0 false dst 0 0).symm.trans (hkernel _))
  have hall : fields.all_matching = true := by
    have hequal := h.equal silent 0 0
    rw [equal_kernel_silent fields htuples] at hequal
    apply all_matching_of_equal fields htuples 0 0
    by_contra hdiffers
    rw [Bool.not_eq_true] at hdiffers
    rw [hdiffers] at hequal
    exact absurd hequal (by decide)
  refine ⟨?_, hall⟩
  rw [← (write_char_cases dst).1, ← lexicographic_silent fields false 0 0,
    ← diff_arrmeta_kernel_eq silent (fun _ => 0) fields hall [] 0]
  exact hkernel _

/-- The kernels are right for operands of one layout, and for others when only
the places of the tuple's own fields differ and the upper bytes of the result
are zero before. -/
theorem compares_iff (fields : operand_fields B A) (dst : BitVec 32) :
    Compares fields dst ↔ fields.matching = true ∨ dst &&& 0xffffff00 = 0 ∧ fields.all_matching = true := by
  constructor
  · intro h
    rw [or_iff_not_imp_left, Bool.not_eq_true]
    exact all_matching_of_compares h
  · rintro (h | ⟨hdst, h⟩)
    · refine ⟨fun c stack src0 src1 => ?_, fun c => equal_kernel_of_matching c fields h false,
        fun c => not_equal_kernel_of_matching c fields h false⟩
      rw [sorting_less, if_pos h]
      exact matching_arrmeta_kernel_eq c stack fields h [] 0 false src0 src1
    · refine ⟨fun c stack src0 src1 => ?_, fun c => equal_kernel_of_all_matching c fields h,
        fun c => not_equal_kernel_of_all_matching c fields h⟩
      by_cases hfields : fields.matching = true
      · rw [sorting_less, if_pos hfields]
        exact matching_arrmeta_kernel_eq c stack fields hfields [] 0 false src0 src1
      · rw [sorting_less, if_neg hfields, diff_arrmeta_kernel_eq c stack fields h, write_char, hdst]
        exact BitVec.zero_or

end

/-- One byte of the answer is written, and 256 stays. -/
theorem upper_bytes_kept : ¬ ∀ (fields : operand_fields Unit Unit) (dst : BitVec 32), Compares fields dst := by
  intro h
  have hless := (h (.cons 0 8 (.scalar () () ()) .nil) 256).sorting_less silent (fun _ => 0) 0 0
  exact absurd hless (by decide)

end Dynd.TupleComparison
