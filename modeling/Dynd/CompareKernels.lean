import Dynd.IntegerTypes
/-!
# Comparison of integers

Twice in the code: the kernels of `nd::less` and the other callables convert
both values to `std::common_type`, the table of `make_comparison_kernel` has
its own templates for values of different signedness. The table is exact;
`compares_exactly_iff` says where the kernels are.
-/
namespace Dynd.Compare

open int_type_id

/-! ## The kernels of the callables -/

/-- A type of fewer bits than `int` becomes one. -/
def promote (k : int_type_id) : int_type_id := if k.bits < 32 then .int32 else k

/-- `std::common_type`: the longer type, and of two types of one length the
unsigned one. -/
def common_type (A0 A1 : int_type_id) : int_type_id :=
  let t0 := promote A0
  let t1 := promote A1
  if t0.bits < t1.bits then t1 else if t1.bits < t0.bits then t0 else if t0.signed then t1 else t0

/-- The kernels are specialised for one type, where nothing is converted. -/
def comparison_kernel (c : comparison) (I0 I1 : int_type_id) (src0 : I0.Data) (src1 : I1.Data) : Bool :=
  if h : I1 = I0 then op c I0 src0 (h ▸ src1)
  else op c (common_type I0 I1) (static_cast _ I0 src0) (static_cast _ I1 src1)

def less_kernel := comparison_kernel .less
def less_equal_kernel := comparison_kernel .less_equal
def equal_kernel := comparison_kernel .equal
def not_equal_kernel := comparison_kernel .not_equal
def greater_equal_kernel := comparison_kernel .greater_equal
def greater_kernel := comparison_kernel .greater

/-- The callables' `children`: there are none for the 128-bit types. -/
def children (c : comparison) (I0 I1 : int_type_id) : Option (I0.Data → I1.Data → Bool) :=
  if I0.bits ≤ 64 ∧ I1.bits ≤ 64 then
    match c with
    | .less => some (less_kernel I0 I1)
    | .less_equal => some (less_equal_kernel I0 I1)
    | .equal => some (equal_kernel I0 I1)
    | .not_equal => some (not_equal_kernel I0 I1)
    | .greater_equal => some (greater_equal_kernel I0 I1)
    | .greater => some (greater_kernel I0 I1)
  else none

/-! ## The table -/

inductive comparison_type_t where
  | sorting_less
  | less
  | less_equal
  | equal
  | not_equal
  | greater_equal
  | greater

/-- On integers `sorting_less` is `less`. -/
def comparison_type_t.operator : comparison_type_t → comparison
  | sorting_less | less => .less
  | less_equal => .less_equal
  | equal => .equal
  | not_equal => .not_equal
  | greater_equal => .greater_equal
  | greater => .greater

def big_type (S T : int_type_id) : int_type_id := if T.bits < S.bits then S else T

section
variable (src0 src1 : int_type_id) (v0 : src0.Data) (v1 : src1.Data)

/-- The templates' general case. -/
def op_big_type (c : comparison) : Bool :=
  op c (big_type src0 src1) (static_cast _ src0 v0) (static_cast _ src1 v1)

/-- int, uint, sizeof(src0_type) <= sizeof(src1_type). -/
def op_sint_uint : comparison → Bool
  | .less => op .less src0 v0 (zero src0) || op .less src1 (static_cast src1 src0 v0) v1
  | .less_equal => op .less_equal src0 v0 (zero src0) || op .less_equal src1 (static_cast src1 src0 v0) v1
  | .equal => op .greater_equal src0 v0 (zero src0) && op .equal src1 (static_cast src1 src0 v0) v1
  | .not_equal => op .less src0 v0 (zero src0) || op .not_equal src1 (static_cast src1 src0 v0) v1
  | .greater_equal => op .greater_equal src0 v0 (zero src0) && op .greater_equal src1 (static_cast src1 src0 v0) v1
  | .greater => op .greater src0 v0 (zero src0) && op .greater src1 (static_cast src1 src0 v0) v1

/-- uint, int, sizeof(src0_type) >= sizeof(src1_type). -/
def op_uint_sint : comparison → Bool
  | .less => op .greater src1 v1 (zero src1) && op .less src0 v0 (static_cast src0 src1 v1)
  | .less_equal => op .greater_equal src1 v1 (zero src1) && op .less_equal src0 v0 (static_cast src0 src1 v1)
  | .equal => op .greater_equal src1 v1 (zero src1) && op .equal src0 v0 (static_cast src0 src1 v1)
  | .not_equal => op .less src1 v1 (zero src1) || op .not_equal src0 v0 (static_cast src0 src1 v1)
  | .greater_equal => op .less_equal src1 v1 (zero src1) || op .greater_equal src0 v0 (static_cast src0 src1 v1)
  | .greater => op .less src1 v1 (zero src1) || op .greater src0 v0 (static_cast src0 src1 v1)

def single_comparison_builtin (c : comparison) : Bool :=
  if src0.signed && !src1.signed && src0.bits ≤ src1.bits then op_sint_uint src0 src1 v0 v1 c
  else if !src0.signed && src1.signed && src1.bits ≤ src0.bits then op_uint_sint src0 src1 v0 v1 c
  else op_big_type src0 src1 v0 v1 c
end

/-- The kernel the table has. -/
def make_builtin_type_comparison_kernel (src0 src1 : int_type_id) (comptype : comparison_type_t) (v0 : src0.Data)
    (v1 : src1.Data) : Bool := single_comparison_builtin src0 src1 v0 v1 comptype.operator

/-! ## The table is exact -/

section
variable {src0 src1 : int_type_id} (v0 : src0.Data) (v1 : src1.Data) (c : comparison)

theorem op_sint_uint_eq (hu : src1.signed = false) (hbits : src0.bits ≤ src1.bits) :
    op_sint_uint src0 src1 v0 v1 c = c.holds (src0.value v0) (src1.value v1) := by
  have hv1 := value_nonneg hu v1
  have hcast : 0 ≤ src0.value v0 → src1.value (static_cast src1 src0 v0) = src0.value v0 := fun h0 =>
    value_static_cast ((src0.value_inRange v0).of_nonneg hu hbits h0)
  unfold op_sint_uint
  simp only [op_eq, value_zero]
  by_cases h0 : 0 ≤ src0.value v0
  · rw [hcast h0]
    cases c <;> simp only [comparison.holds, ← Bool.decide_or, ← Bool.decide_and, decide_eq_decide] <;> omega
  · -- a negative value is less, whatever the conversion gives
    cases c <;> simp only [comparison.holds, ← Bool.decide_or, ← Bool.decide_and, decide_eq_decide] <;> omega

theorem op_uint_sint_eq (hu : src0.signed = false) (hbits : src1.bits ≤ src0.bits) :
    op_uint_sint src0 src1 v0 v1 c = c.holds (src0.value v0) (src1.value v1) := by
  have hv0 := value_nonneg hu v0
  have hcast : 0 ≤ src1.value v1 → src0.value (static_cast src0 src1 v1) = src1.value v1 := fun h0 =>
    value_static_cast ((src1.value_inRange v1).of_nonneg hu hbits h0)
  unfold op_uint_sint
  simp only [op_eq, value_zero]
  by_cases h0 : 0 ≤ src1.value v1
  · rw [hcast h0]
    cases c <;> simp only [comparison.holds, ← Bool.decide_or, ← Bool.decide_and, decide_eq_decide] <;> omega
  · cases c <;> simp only [comparison.holds, ← Bool.decide_or, ← Bool.decide_and, decide_eq_decide] <;> omega

/-- Values of one signedness, or an unsigned value and one of a longer signed type. -/
theorem op_big_type_eq (h01 : src0.signed = true → src1.signed = false → src1.bits < src0.bits)
    (h10 : src0.signed = false → src1.signed = true → src0.bits < src1.bits) :
    op_big_type src0 src1 v0 v1 c = c.holds (src0.value v0) (src1.value v1) := by
  have h0 : (big_type src0 src1).InRange (src0.value v0) := by
    refine (src0.value_inRange v0).wider ?_
    unfold big_type
    split_ifs with hlt
    · exact .inl ⟨rfl, le_rfl⟩
    · cases hs0 : src0.signed <;> cases hs1 : src1.signed
      · exact .inl ⟨rfl, by omega⟩
      · exact .inr ⟨rfl, rfl, h10 hs0 hs1⟩
      · exact absurd (h01 hs0 hs1) hlt
      · exact .inl ⟨rfl, by omega⟩
  have h1 : (big_type src0 src1).InRange (src1.value v1) := by
    refine (src1.value_inRange v1).wider ?_
    unfold big_type
    split_ifs with hlt
    · cases hs0 : src0.signed <;> cases hs1 : src1.signed
      · exact .inl ⟨rfl, by omega⟩
      · have := h10 hs0 hs1
        omega
      · exact .inr ⟨rfl, rfl, hlt⟩
      · exact .inl ⟨rfl, by omega⟩
    · exact .inl ⟨rfl, le_rfl⟩
  unfold op_big_type
  rw [op_eq, value_static_cast h0, value_static_cast h1]

/-- The table compares the integers. -/
theorem single_comparison_builtin_eq :
    single_comparison_builtin src0 src1 v0 v1 c = c.holds (src0.value v0) (src1.value v1) := by
  unfold single_comparison_builtin
  split_ifs with h h'
  · simp only [Bool.and_eq_true, Bool.not_eq_true', decide_eq_true_eq] at h
    exact op_sint_uint_eq v0 v1 c h.1.2 h.2
  · simp only [Bool.and_eq_true, Bool.not_eq_true', decide_eq_true_eq] at h'
    exact op_uint_sint_eq v0 v1 c h'.1.1 h'.2
  · simp only [Bool.and_eq_true, Bool.not_eq_true', decide_eq_true_eq] at h h'
    exact op_big_type_eq v0 v1 c (fun h0 h1 => by grind) (fun h0 h1 => by grind)
end

/-! ## The kernels of the callables -/

/-- A negative value that the common type, unsigned, does not have. -/
def SignLost (I0 I1 : int_type_id) (z : ℤ) : Prop :=
  I0.signed = true ∧ I1.signed = false ∧ 32 ≤ I1.bits ∧ I0.bits ≤ I1.bits ∧ z < 0

theorem common_type_comm (I0 I1 : int_type_id) : common_type I0 I1 = common_type I1 I0 := by
  cases I0 <;> cases I1 <;> rfl

/-- Shorter types become `int`. -/
theorem promote_wider (k : int_type_id) : k.signed = (promote k).signed ∧ k.bits ≤ (promote k).bits ∨
    k.signed = false ∧ (promote k).signed = true ∧ k.bits < (promote k).bits := by
  cases k <;> decide

theorem promote_of_unsigned {k : int_type_id} (h : (promote k).signed = false) : promote k = k ∧ 32 ≤ k.bits := by
  unfold promote at h ⊢
  split_ifs at h ⊢ with hlt
  · cases h
  · exact ⟨rfl, by omega⟩

section
variable {I0 I1 : int_type_id}

theorem common_type_lost {z : ℤ} (h : SignLost I0 I1 z) : common_type I0 I1 = I1 := by
  obtain ⟨hs0, hs1, h32, hle, -⟩ := h
  have hp1 : promote I1 = I1 := if_neg (by omega)
  have hp0 : (promote I0).signed = true ∧ (promote I0).bits ≤ I1.bits := by
    unfold promote
    split_ifs
    · exact ⟨rfl, h32⟩
    · exact ⟨hs0, hle⟩
  unfold common_type
  rw [hp1]
  dsimp only
  split_ifs with h1 h2
  · rfl
  · omega
  · rfl
  · exact absurd hp0.1 ‹_›

/-- The common type has every other value. -/
theorem common_type_keeps {v0 : I0.Data} (h : ¬ SignLost I0 I1 (I0.value v0)) :
    (common_type I0 I1).InRange (I0.value v0) := by
  have hv := (I0.value_inRange v0).wider (promote_wider I0)
  have hbits : I0.bits ≤ (promote I0).bits := by
    obtain ⟨-, hb⟩ | ⟨-, -, hb⟩ := promote_wider I0 <;> omega
  have hother : (promote I0).bits ≤ (promote I1).bits →
      ((promote I0).bits = (promote I1).bits → (promote I0).signed = true) → (promote I1).InRange (I0.value v0) := by
    intro hle heq
    cases hs1 : (promote I1).signed with
    | true =>
      refine hv.wider ?_
      cases hs0 : (promote I0).signed with
      | true => exact .inl ⟨hs1.symm, hle⟩
      | false =>
        have hne : (promote I0).bits ≠ (promote I1).bits := fun he => by
          rw [heq he] at hs0
          cases hs0
        exact .inr ⟨rfl, hs1, by omega⟩
    | false =>
      obtain ⟨hp, h32⟩ := promote_of_unsigned hs1
      rw [hp] at hs1 hle ⊢
      refine hv.of_nonneg hs1 hle ?_
      by_contra hneg
      cases hs0 : I0.signed with
      | true => exact h ⟨hs0, hs1, h32, by omega, by omega⟩
      | false => exact hneg (value_nonneg hs0 v0)
  unfold common_type
  dsimp only
  split_ifs with h1 h2 h3
  · exact hother h1.le fun he => by omega
  · exact hv
  · exact hother (by omega) fun _ => h3
  · exact hv

/-- A value whose sign is lost is compared as one `2 ^ bits` greater. -/
theorem value_lost {v0 : I0.Data} (h64 : I1.bits ≤ 64) (h : SignLost I0 I1 (I0.value v0)) :
    I1.value (static_cast I1 I0 v0) = I0.value v0 + 2 ^ I1.bits := by
  obtain ⟨hs0, hs1, h32, hle, hneg⟩ := h
  have hlo := (I0.value_inRange v0).1
  have hpow : (2 : ℤ) ^ (I0.bits - 1) ≤ 2 ^ I1.bits := pow_le_pow_right₀ (by decide) (by omega)
  unfold lo at hlo
  rw [hs0, if_pos rfl] at hlo
  rw [static_cast_eq I1 I0 v0 fun he => by
    rw [he] at h64
    exact absurd h64 (by decide)]
  unfold value
  rw [hs1, if_neg (by decide), BitVec.toNat_ofInt]
  have hmod : I0.value v0 % (2 ^ I1.bits : ℕ) = I0.value v0 + 2 ^ I1.bits := by
    rw [← Int.add_emod_right, Int.emod_eq_of_lt]
    · push_cast
      rfl
    · push_cast
      omega
    · push_cast
      omega
  unfold value at hmod
  rw [hmod]
  unfold value at hlo
  omega

/-! ## Both -/

/-- Both implementations give what the operator says of the two integers. -/
structure ComparesExactly (I0 I1 : int_type_id) (v0 : I0.Data) (v1 : I1.Data) : Prop where
  table : ∀ comptype, make_builtin_type_comparison_kernel I0 I1 comptype v0 v1 =
    comptype.operator.holds (I0.value v0) (I1.value v1)
  kernels : ∀ c kernel, children c I0 I1 = some kernel → kernel v0 v1 = c.holds (I0.value v0) (I1.value v1)

theorem children_eq (c : comparison) (kernel : I0.Data → I1.Data → Bool) :
    children c I0 I1 = some kernel ↔ (I0.bits ≤ 64 ∧ I1.bits ≤ 64) ∧ kernel = comparison_kernel c I0 I1 := by
  unfold children
  split_ifs with h
  · rw [and_iff_right h]
    cases c <;> exact ⟨fun h => (Option.some.inj h).symm, fun h => h ▸ rfl⟩
  · refine ⟨fun h' => ?_, fun h' => absurd h'.1 h⟩
    cases h'

/-- A value in place of another on the same side of a third compares the same. -/
theorem holds_of_lt {a a' b : ℤ} (h : a < b) (h' : a' < b) (c : comparison) :
    c.holds a' b = c.holds a b ∧ c.holds b a' = c.holds b a := by
  cases c <;> simp only [comparison.holds, decide_eq_decide] <;> omega

theorem comparison_kernel_ne (hne : I0.signed ≠ I1.signed) (c : comparison) (v0 : I0.Data) (v1 : I1.Data) :
    comparison_kernel c I0 I1 v0 v1 = c.holds ((common_type I0 I1).value (static_cast _ I0 v0))
      ((common_type I0 I1).value (static_cast _ I1 v1)) := by
  have hne : I1 ≠ I0 := fun h => hne (congrArg signed h.symm)
  unfold comparison_kernel
  rw [dif_neg hne, op_eq]

variable {v0 : I0.Data} {v1 : I1.Data} (c : comparison)

theorem comparison_kernel_exact (h0 : ¬ SignLost I0 I1 (I0.value v0)) (h1 : ¬ SignLost I1 I0 (I1.value v1)) :
    comparison_kernel c I0 I1 v0 v1 = c.holds (I0.value v0) (I1.value v1) := by
  unfold comparison_kernel
  split_ifs with h
  · subst h
    exact op_eq c _ v0 v1
  · have hr1 := common_type_keeps h1
    rw [common_type_comm] at hr1
    rw [op_eq, value_static_cast (common_type_keeps h0), value_static_cast hr1]

theorem comparison_kernel_lost_left (h64 : I1.bits ≤ 64) (h : SignLost I0 I1 (I0.value v0)) :
    comparison_kernel c I0 I1 v0 v1 = c.holds (I0.value v0 + 2 ^ I1.bits) (I1.value v1) := by
  rw [comparison_kernel_ne (by rw [h.1, h.2.1]; decide), common_type_lost h, value_lost h64 h,
    value_static_cast (I1.value_inRange v1)]

theorem comparison_kernel_lost_right (h64 : I0.bits ≤ 64) (h : SignLost I1 I0 (I1.value v1)) :
    comparison_kernel c I0 I1 v0 v1 = c.holds (I0.value v0) (I1.value v1 + 2 ^ I0.bits) := by
  rw [comparison_kernel_ne (by rw [h.1, h.2.1]; decide), common_type_comm, common_type_lost h, value_lost h64 h,
    value_static_cast (I0.value_inRange v0)]

/-- All comparisons of two integers are exact, by the table and by the kernels
of the callables, if and only if a value that loses its sign in the common type
is the smaller one even then. -/
theorem compares_exactly_iff (I0 I1 : int_type_id) (v0 : I0.Data) (v1 : I1.Data) :
    ComparesExactly I0 I1 v0 v1 ↔ (I0.bits ≤ 64 → I1.bits ≤ 64 →
      (SignLost I0 I1 (I0.value v0) → I0.value v0 + 2 ^ I1.bits < I1.value v1) ∧
      (SignLost I1 I0 (I1.value v1) → I1.value v1 + 2 ^ I0.bits < I0.value v0)) := by
  constructor
  · intro h h0 h1
    have hless := h.kernels .less _ ((children_eq _ _).mpr ⟨⟨h0, h1⟩, rfl⟩)
    have hgreater := h.kernels .greater _ ((children_eq _ _).mpr ⟨⟨h0, h1⟩, rfl⟩)
    refine ⟨fun hl => ?_, fun hl => ?_⟩
    · rw [comparison_kernel_lost_left _ h1 hl] at hless
      have := value_nonneg hl.2.1 v1
      have hneg := hl.2.2.2.2
      simp only [comparison.holds, decide_eq_decide] at hless
      omega
    · rw [comparison_kernel_lost_right _ h0 hl] at hgreater
      have := value_nonneg hl.2.1 v0
      have hneg := hl.2.2.2.2
      simp only [comparison.holds, decide_eq_decide] at hgreater
      omega
  · intro h
    refine ⟨fun comptype => single_comparison_builtin_eq v0 v1 comptype.operator, fun c kernel hk => ?_⟩
    obtain ⟨⟨h0, h1⟩, rfl⟩ := (children_eq _ _).mp hk
    obtain ⟨hleft, hright⟩ := h h0 h1
    by_cases hl : SignLost I0 I1 (I0.value v0)
    · rw [comparison_kernel_lost_left c h1 hl]
      have := value_nonneg hl.2.1 v1
      have hneg := hl.2.2.2.2
      exact (holds_of_lt (by omega) (hleft hl) c).1
    · by_cases hr : SignLost I1 I0 (I1.value v1)
      · rw [comparison_kernel_lost_right c h0 hr]
        have := value_nonneg hr.2.1 v0
        have hneg := hr.2.2.2.2
        exact (holds_of_lt (by omega) (hright hr) c).2
      · exact comparison_kernel_exact c hl hr

/-- `nd::less` of the `int32` -1 and the `uint32` 1 is false. -/
theorem minus_one_not_less : ¬ ComparesExactly .int32 .uint32 (-1) 1 := by
  intro h
  have := h.kernels .less _ rfl
  revert this
  decide
end
end Dynd.Compare
