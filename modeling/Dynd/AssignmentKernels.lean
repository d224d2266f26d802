import Dynd.IntegerTypes
/-!
# Checked assignment of integers

The table of `make_builtin_type_assignment_kernel` for the integers, and the
`is_overflow` its kernels ask before they store. `is_overflow_iff` says where
the eight overloads are right: everywhere but from an unsigned type to the
signed type of its length.
-/
namespace Dynd.Assign

open int_type_id Parse

/-- What is thrown, with its text. -/
inductive exception where
  | overflow_error (what : List UInt8)
  | runtime_error (what : List UInt8)
deriving DecidableEq

/-- `std::numeric_limits<T>::min()`. -/
def numeric_limits_min (T : int_type_id) : T.Data := if T.signed then BitVec.intMin T.bits else 0

/-- `std::numeric_limits<T>::max()`. -/
def numeric_limits_max (T : int_type_id) : T.Data := if T.signed then BitVec.intMax T.bits else BitVec.allOnes T.bits

/-- The overloads of `is_overflow`, in the order of the source for each
destination and source signedness: first for a shorter destination. -/
def is_overflow (DstType SrcType : int_type_id) (src : SrcType.Data) : Bool :=
  match DstType.signed, SrcType.signed with
  | true, true =>
    if DstType.bits < SrcType.bits then
      op .less SrcType src (static_cast SrcType DstType (numeric_limits_min DstType)) ||
        op .greater SrcType src (static_cast SrcType DstType (numeric_limits_max DstType))
    else false
  | true, false =>
    if DstType.bits < SrcType.bits then
      op .greater SrcType src (static_cast SrcType DstType (numeric_limits_max DstType))
    else false
  | false, true =>
    if DstType.bits < SrcType.bits then
      op .less SrcType src SrcType.zero ||
        op .less SrcType (static_cast SrcType DstType (numeric_limits_max DstType)) src
    else op .less SrcType src SrcType.zero
  | false, false =>
    if DstType.bits < SrcType.bits then
      op .less SrcType (static_cast SrcType DstType (numeric_limits_max DstType)) src
    else false

def type_name : int_type_id → String
  | int8 => "int8"
  | int16 => "int16"
  | int32 => "int32"
  | int64 => "int64"
  | int128 => "int128"
  | uint8 => "uint8"
  | uint16 => "uint16"
  | uint32 => "uint32"
  | uint64 => "uint64"
  | uint128 => "uint128"

/-- `ss << s`: the one-byte types are written as characters. -/
def insertion (k : int_type_id) (s : k.Data) : List UInt8 :=
  if k.bits = 8 then [.ofBitVec (s.setWidth 8)] else print_builtin_scalar k s

def overflow_message (dst_type src_type : int_type_id) (s : src_type.Data) : List UInt8 :=
  "overflow while assigning ".toUTF8.toList ++ (type_name src_type).toUTF8.toList ++ " value ".toUTF8.toList ++
    insertion src_type s ++ " to ".toUTF8.toList ++ (type_name dst_type).toUTF8.toList

/-- What an assignment leaves at the destination, and what it throws. -/
abbrev Kernel (dst_type src_type : int_type_id) := dst_type.Data → src_type.Data → dst_type.Data × Option exception

/-- `assignment_kernel` with `assign_error_nocheck`. -/
def nocheck_kernel (dst_type src_type : int_type_id) : Kernel dst_type src_type := fun _ s =>
  (static_cast dst_type src_type s, none)

/-- `assignment_kernel` with `assign_error_overflow`. -/
def overflow_kernel (dst_type src_type : int_type_id) : Kernel dst_type src_type := fun dst s =>
  if is_overflow dst_type src_type s then (dst, some (.overflow_error (overflow_message dst_type src_type s)))
  else (static_cast dst_type src_type s, none)

/-- The kernels of the other modes are the one of overflow checking. -/
def make_builtin_type_assignment_kernel (dst_type src_type : int_type_id) :
    assign_error_mode → Except exception (Kernel dst_type src_type)
  | .nocheck => .ok (nocheck_kernel dst_type src_type)
  | .overflow | .fractional | .inexact => .ok (overflow_kernel dst_type src_type)
  | .default => .error (.runtime_error ("Cannot assign from ".toUTF8.toList ++ (type_name src_type).toUTF8.toList ++
      " to ".toUTF8.toList ++ (type_name dst_type).toUTF8.toList))

/-! ## Overflow -/

theorem value_numeric_limits_min (k : int_type_id) : k.value (numeric_limits_min k) = k.lo := by
  cases k <;> rfl

theorem value_numeric_limits_max (k : int_type_id) : k.value (numeric_limits_max k) = k.hi - 1 := by
  cases k <;> rfl

section
variable (DstType : int_type_id) {SrcType : int_type_id} (src : SrcType.Data)

/-- The limits of the destination, as the comparisons read them. -/
theorem value_limits (hlt : DstType.bits < SrcType.bits)
    (h : DstType.signed = SrcType.signed ∨ DstType.signed = false ∧ SrcType.signed = true) :
    SrcType.value (static_cast SrcType DstType (numeric_limits_min DstType)) = DstType.lo ∧
      SrcType.value (static_cast SrcType DstType (numeric_limits_max DstType)) = DstType.hi - 1 := by
  have hwider : DstType.signed = SrcType.signed ∧ DstType.bits ≤ SrcType.bits ∨
      DstType.signed = false ∧ SrcType.signed = true ∧ DstType.bits < SrcType.bits := by
    obtain h | ⟨hd, hs⟩ := h
    · exact .inl ⟨h, hlt.le⟩
    · exact .inr ⟨hd, hs, hlt⟩
  have hmin := (DstType.value_inRange (numeric_limits_min DstType)).wider hwider
  have hmax := (DstType.value_inRange (numeric_limits_max DstType)).wider hwider
  rw [value_static_cast hmin, value_static_cast hmax]
  exact ⟨value_numeric_limits_min DstType, value_numeric_limits_max DstType⟩

theorem zero_inRange (k : int_type_id) : k.InRange 0 := by
  cases k <;> decide

theorem lo_unsigned {k : int_type_id} (h : k.signed = false) : k.lo = 0 := by
  unfold lo
  rw [h, if_neg (by decide)]

/-- The overloads find every value that the destination does not have, unless
it is the signed type of the source's length. -/
theorem is_overflow_iff : is_overflow DstType SrcType src = true ↔
    ¬ DstType.InRange (SrcType.value src) ∧
      ¬ (DstType.signed = true ∧ SrcType.signed = false ∧ DstType.bits = SrcType.bits) := by
  have hsrc := SrcType.value_inRange src
  -- a destination that has every value of the source
  have hnever : DstType.InRange (SrcType.value src) → (false = true ↔ ¬ DstType.InRange (SrcType.value src) ∧
      ¬ (DstType.signed = true ∧ SrcType.signed = false ∧ DstType.bits = SrcType.bits)) := by
    intro h
    exact iff_of_false (by decide) fun h' => h'.1 h
  unfold is_overflow
  cases hd : DstType.signed with
  | true =>
    cases hs : SrcType.signed with
    | true =>
      dsimp only
      split_ifs with hlt
      · obtain ⟨hmin, hmax⟩ := value_limits DstType hlt (.inl (hd.trans hs.symm))
        simp only [op_eq, hmin, hmax, comparison.holds, InRange, Bool.or_eq_true, decide_eq_true_eq]
        grind
      · have hr := hsrc.wider (.inl ⟨hs.trans hd.symm, not_lt.mp hlt⟩)
        simpa [hd, hs] using hnever hr
    | false =>
      have hzero := zero_inRange DstType
      have hnonneg := value_nonneg hs src
      dsimp only
      split_ifs with hlt
      · have hmax : SrcType.value (static_cast SrcType DstType (numeric_limits_max DstType)) = DstType.hi - 1 := by
          have hnonneg : 0 ≤ DstType.value (numeric_limits_max DstType) := by
            rw [value_numeric_limits_max]
            exact Int.le_sub_one_of_lt hzero.2
          have hr := (DstType.value_inRange (numeric_limits_max DstType)).of_nonneg hs hlt.le hnonneg
          rw [value_static_cast hr]
          exact value_numeric_limits_max DstType
        have hlo := hzero.1
        simp only [op_eq, hmax, comparison.holds, InRange, decide_eq_true_eq]
        grind
      · refine iff_of_false (by decide) fun ⟨hout, hne⟩ => hout (hsrc.wider (.inr ⟨hs, hd, ?_⟩))
        have hne : DstType.bits ≠ SrcType.bits := fun he => hne ⟨rfl, rfl, he⟩
        omega
  | false =>
    have hlo := lo_unsigned hd
    cases hs : SrcType.signed with
    | true =>
      dsimp only
      split_ifs with hlt
      · obtain ⟨-, hmax⟩ := value_limits DstType hlt (.inr ⟨hd, hs⟩)
        simp only [op_eq, hmax, value_zero, comparison.holds, InRange, hlo, Bool.or_eq_true, decide_eq_true_eq]
        grind
      · have hr := hsrc.of_nonneg hd (not_lt.mp hlt)
        simp only [op_eq, value_zero, comparison.holds, decide_eq_true_eq]
        simp only [InRange, hlo] at hr ⊢
        grind
    | false =>
      have hnonneg := value_nonneg hs src
      dsimp only
      split_ifs with hlt
      · obtain ⟨-, hmax⟩ := value_limits DstType hlt (.inl (hd.trans hs.symm))
        simp only [op_eq, hmax, comparison.holds, InRange, hlo, decide_eq_true_eq]
        grind
      · have hr := hsrc.wider (.inl ⟨hs.trans hd.symm, not_lt.mp hlt⟩)
        simpa [hd, hs] using hnever hr
end

/-! ## The kernels -/

/-- What a checked assignment is for: the same integer at the destination, or
an exception and nothing stored. -/
def AssignsExactly (dst_type src_type : int_type_id) (errmode : assign_error_mode) (dst : dst_type.Data)
    (s : src_type.Data) : Prop :=
  ∃ kernel, make_builtin_type_assignment_kernel dst_type src_type errmode = .ok kernel ∧
    if dst_type.InRange (src_type.value s) then ∃ d, kernel dst s = (d, none) ∧ dst_type.value d = src_type.value s
    else ∃ e, kernel dst s = (dst, some e)

/-- Every value of every type, in every mode that checks, except a value past
the largest integer of the signed type of the source's length. -/
theorem assigns_exactly_iff (dst_type src_type : int_type_id) (errmode : assign_error_mode)
    (hmode : errmode = .overflow ∨ errmode = .fractional ∨ errmode = .inexact) (dst : dst_type.Data)
    (s : src_type.Data) :
    AssignsExactly dst_type src_type errmode dst s ↔
      ¬ (dst_type.signed = true ∧ src_type.signed = false ∧ dst_type.bits = src_type.bits ∧
        dst_type.hi ≤ src_type.value s) := by
  have hmake : make_builtin_type_assignment_kernel dst_type src_type errmode = .ok (overflow_kernel dst_type src_type) := by
    obtain rfl | rfl | rfl := hmode <;> rfl
  have hover := is_overflow_iff dst_type s
  have hexact : AssignsExactly dst_type src_type errmode dst s ↔
      if dst_type.InRange (src_type.value s) then
        ∃ d, overflow_kernel dst_type src_type dst s = (d, none) ∧ dst_type.value d = src_type.value s
      else ∃ e, overflow_kernel dst_type src_type dst s = (dst, some e) := by
    unfold AssignsExactly
    rw [hmake]
    exact ⟨fun ⟨_, hk, h⟩ => Except.ok.inj hk ▸ h, fun h => ⟨_, rfl, h⟩⟩
  rw [hexact]
  unfold overflow_kernel
  by_cases hr : dst_type.InRange (src_type.value s)
  · have hno : ¬ is_overflow dst_type src_type s = true := fun h => (hover.mp h).1 hr
    rw [if_pos hr, if_neg hno]
    exact iff_of_true ⟨_, rfl, value_static_cast hr⟩ fun h => absurd hr.2 (not_lt.mpr h.2.2.2)
  · rw [if_neg hr]
    by_cases hkind : dst_type.signed = true ∧ src_type.signed = false ∧ dst_type.bits = src_type.bits
    · have hno : ¬ is_overflow dst_type src_type s = true := fun h => (hover.mp h).2 hkind
      rw [if_neg hno]
      refine iff_of_false (fun ⟨e, he⟩ => by cases he) fun h => h ⟨hkind.1, hkind.2.1, hkind.2.2, ?_⟩
      -- not below what the signed type has, so above
      by_contra hlt
      have hnonneg := value_nonneg hkind.2.1 s
      exact hr ⟨(zero_inRange dst_type).1.trans hnonneg, not_le.mp hlt⟩
    · rw [if_pos (hover.mpr ⟨hr, hkind⟩)]
      exact iff_of_true ⟨_, rfl⟩ fun h => hkind ⟨h.1, h.2.1, h.2.2.1⟩

/-- The `int64` -2 is no `uint32`. -/
theorem assigns_exactly_iff_minus_two : AssignsExactly .uint32 .int64 .fractional 7 (-2) :=
  (assigns_exactly_iff .uint32 .int64 .fractional (.inr (.inl rfl)) 7 (-2)).mpr fun h => by cases h.1

/-- The `uint8` 200 is stored as the `int8` -56. -/
theorem two_hundred_wraps : ¬ AssignsExactly .int8 .uint8 .overflow 0 200 := by
  rintro ⟨kernel, hk, h⟩
  have hk : overflow_kernel .int8 .uint8 = kernel := Except.ok.inj hk
  rw [if_neg (by decide)] at h
  obtain ⟨e, he⟩ := h
  rw [← hk] at he
  have hstored : overflow_kernel .int8 .uint8 0 200 = (-56, none) := by decide
  rw [hstored] at he
  cases he

end Dynd.Assign
