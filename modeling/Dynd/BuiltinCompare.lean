import Mathlib.Data.Prod.Lex
import Mathlib.Order.WithBot
import Dynd.CompareKernels
import Dynd.Lib.SortedSet
/-!
# Comparison of builtin values

The entries `equal` and `not_equal` of the table of `make_comparison_kernel`,
spelled out again for every pair of kinds, and `sorting_less` for values of one
type. `comparison_laws_iff` says where they fit together: the copy of
`not_equal` for a signed integer and a complex number has `==` in the place of
one `!=`.
-/
namespace Dynd.BuiltinCompare

open Lib

inductive real_type_id where
  | float16
  | float32
  | float64
  | float128
deriving DecidableEq

inductive complex_type_id where
  | complex_float32
  | complex_float64

/-- The type of the components. -/
def complex_type_id.real : complex_type_id → real_type_id
  | complex_float32 => .float32
  | complex_float64 => .float64

inductive builtin_type_id where
  | bool
  | int (k : int_type_id)
  | real (k : real_type_id)
  | complex (k : complex_type_id)

/-- A value of an ordered type, or NaN. -/
inductive Floating (R : Type) where
  | nan
  | value (r : R)

namespace Floating
variable {R : Type} [LinearOrder R]

def isnan : Floating R → Bool
  | nan => true
  | value _ => false

/-- NaN differs from every value, itself too, and compares to none. -/
def op (c : comparison) : Floating R → Floating R → Bool
  | value a, value b =>
    match c with
    | .less => a < b
    | .less_equal => a ≤ b
    | .equal => a = b
    | .not_equal => a ≠ b
    | .greater_equal => a ≥ b
    | .greater => a > b
  | _, _ => c = .not_equal

end Floating

structure complex (R : Type) where
  real : Floating R
  imag : Floating R

/-- The floating point types and the conversions from and to them. NaN, and
nothing else, becomes NaN as a `double`. -/
structure Conversions where
  Value : real_type_id → Type
  order : ∀ k, LinearOrder (Value k)
  zero : ∀ k, Value k
  bool_to_int : ∀ dst : int_type_id, Bool → dst.Data
  bool_to_real : ∀ dst, Bool → Floating (Value dst)
  bool_to_complex : ∀ dst : complex_type_id, Bool → complex (Value dst.real)
  int_to_real : ∀ dst (src : int_type_id), src.Data → Floating (Value dst)
  real_to_int : ∀ (dst : int_type_id) src, Floating (Value src) → dst.Data
  real_to_real : ∀ dst src, Floating (Value src) → Floating (Value dst)
  isnan_to_double : ∀ src v, (real_to_real .float64 src v).isnan = v.isnan

namespace Conversions
variable (C : Conversions)

instance (k : real_type_id) : LinearOrder (C.Value k) := C.order k

abbrev Real (k : real_type_id) : Type := Floating (C.Value k)

abbrev Data : builtin_type_id → Type
  | .bool => Bool
  | .int k => k.Data
  | .real k => C.Real k
  | .complex k => complex (C.Value k.real)

/-- A conversion to the value's own type leaves it as it is. -/
def real_cast (dst src : real_type_id) (v : C.Real src) : C.Real dst :=
  if h : src = dst then h ▸ v else C.real_to_real dst src v

/-- The operators of `float16` and `float128` convert both values to `double`. -/
def compared_as : real_type_id → real_type_id
  | .float16 | .float128 => .float64
  | k => k

def op (c : comparison) (k : real_type_id) (a b : C.Real k) : Bool :=
  (C.real_cast (compared_as k) k a).op c (C.real_cast (compared_as k) k b)

def big_type : real_type_id → real_type_id → real_type_id
  | .float128, _ | _, .float128 => .float128
  | .float16, .float16 => .float16
  | .float32, .float32 => .float32
  | _, _ => .float64

/-- `BT(v0) == BT(v1)`, and so on. -/
def op_big_type (c : comparison) (src0 src1 : real_type_id) (v0 : C.Real src0) (v1 : C.Real src1) : Bool :=
  C.op c (big_type src0 src1) (C.real_cast _ src0 v0) (C.real_cast _ src1 v1)

/-- `v == 0`, and so on. -/
def op_zero (c : comparison) (k : real_type_id) (v : C.Real k) : Bool := C.op c k v (.value (C.zero k))

/-- `operator==` of the class `complex`. -/
def complex_eq {k : complex_type_id} (lhs rhs : complex (C.Value k.real)) : Bool :=
  C.op .equal _ lhs.real rhs.real && C.op .equal _ lhs.imag rhs.imag

/-- A signed integer is compared with a `float16` as a `double`. -/
def int_real_type (k0 : int_type_id) (k1 : real_type_id) : real_type_id :=
  if k0.signed && k1 = .float16 then .float64 else k1

/-! ## The templates -/

def op_eq : (src0 src1 : builtin_type_id) → C.Data src0 → C.Data src1 → Bool
  | .bool, .bool, v0, v1 => v0 == v1
  | .bool, .int k1, v0, v1 => k1.op .equal (C.bool_to_int k1 v0) v1
  | .bool, .real k1, v0, v1 => C.op .equal k1 (C.bool_to_real k1 v0) v1
  | .bool, .complex k1, v0, v1 => C.complex_eq (C.bool_to_complex k1 v0) v1
  | .int k0, .bool, v0, v1 => k0.op .equal v0 (C.bool_to_int k0 v1)
  | .int k0, .int k1, v0, v1 => Compare.single_comparison_builtin k0 k1 v0 v1 .equal
  | .int k0, .real k1, v0, v1 =>
    let v1 := C.real_cast (int_real_type k0 k1) k1 v1
    k0.op .equal v0 (C.real_to_int k0 _ v1) && C.op .equal _ (C.int_to_real _ k0 v0) v1
  | .int k0, .complex k1, v0, v1 =>
    C.op_zero .equal k1.real v1.imag && k0.op .equal v0 (C.real_to_int k0 k1.real v1.real) &&
      C.op .equal k1.real (C.int_to_real k1.real k0 v0) v1.real
  | .real k0, .bool, v0, v1 => C.op .equal k0 v0 (C.bool_to_real k0 v1)
  | .real k0, .int k1, v0, v1 =>
    C.op .equal k0 v0 (C.int_to_real k0 k1 v1) && k1.op .equal (C.real_to_int k1 k0 v0) v1
  | .real k0, .real k1, v0, v1 => C.op_big_type .equal k0 k1 v0 v1
  | .real k0, .complex k1, v0, v1 => C.op_zero .equal k1.real v1.imag && C.op_big_type .equal k0 k1.real v0 v1.real
  | .complex k0, .bool, v0, v1 => C.complex_eq v0 (C.bool_to_complex k0 v1)
  | .complex k0, .int k1, v0, v1 =>
    C.op_zero .equal k0.real v0.imag && C.op .equal k0.real v0.real (C.int_to_real k0.real k1 v1) &&
      k1.op .equal (C.real_to_int k1 k0.real v0.real) v1
  | .complex k0, .real k1, v0, v1 => C.op_zero .equal k0.real v0.imag && C.op_big_type .equal k0.real k1 v0.real v1
  | .complex k0, .complex k1, v0, v1 =>
    C.op_big_type .equal k0.real k1.real v0.real v1.real && C.op_big_type .equal k0.real k1.real v0.imag v1.imag

def op_ne : (src0 src1 : builtin_type_id) → C.Data src0 → C.Data src1 → Bool
  | .bool, .bool, v0, v1 => v0 != v1
  | .bool, .int k1, v0, v1 => k1.op .not_equal (C.bool_to_int k1 v0) v1
  | .bool, .real k1, v0, v1 => C.op .not_equal k1 (C.bool_to_real k1 v0) v1
  | .bool, .complex k1, v0, v1 => !C.complex_eq (C.bool_to_complex k1 v0) v1
  | .int k0, .bool, v0, v1 => k0.op .not_equal v0 (C.bool_to_int k0 v1)
  | .int k0, .int k1, v0, v1 => Compare.single_comparison_builtin k0 k1 v0 v1 .not_equal
  | .int k0, .real k1, v0, v1 =>
    let v1 := C.real_cast (int_real_type k0 k1) k1 v1
    k0.op .not_equal v0 (C.real_to_int k0 _ v1) || C.op .not_equal _ (C.int_to_real _ k0 v0) v1
  | .int k0, .complex k1, v0, v1 =>
    -- the template for signed integers has `==` here
    C.op_zero .not_equal k1.real v1.imag ||
      k0.op (if k0.signed then .equal else .not_equal) v0 (C.real_to_int k0 k1.real v1.real) ||
      C.op .not_equal k1.real (C.int_to_real k1.real k0 v0) v1.real
  | .real k0, .bool, v0, v1 => C.op .not_equal k0 v0 (C.bool_to_real k0 v1)
  | .real k0, .int k1, v0, v1 =>
    C.op .not_equal k0 v0 (C.int_to_real k0 k1 v1) || k1.op .not_equal (C.real_to_int k1 k0 v0) v1
  | .real k0, .real k1, v0, v1 => C.op_big_type .not_equal k0 k1 v0 v1
  | .real k0, .complex k1, v0, v1 =>
    C.op_zero .not_equal k1.real v1.imag || C.op_big_type .not_equal k0 k1.real v0 v1.real
  | .complex k0, .bool, v0, v1 => !C.complex_eq v0 (C.bool_to_complex k0 v1)
  | .complex k0, .int k1, v0, v1 =>
    C.op_zero .not_equal k0.real v0.imag || C.op .not_equal k0.real v0.real (C.int_to_real k0.real k1 v1) ||
      k1.op .not_equal (C.real_to_int k1 k0.real v0.real) v1
  | .complex k0, .real k1, v0, v1 =>
    C.op_zero .not_equal k0.real v0.imag || C.op_big_type .not_equal k0.real k1 v0.real v1
  | .complex k0, .complex k1, v0, v1 =>
    C.op_big_type .not_equal k0.real k1.real v0.real v1.real || C.op_big_type .not_equal k0.real k1.real v0.imag v1.imag

/-- For values of one type. Numbers with NaN come last, and a complex number in
the order `[R + Rj, R + nanj, nan + Rj, nan + nanj]`. -/
def op_sort_lt : (src : builtin_type_id) → C.Data src → C.Data src → Bool
  | .bool, v0, v1 => v0.toNat < v1.toNat
  | .int k, v0, v1 => Compare.single_comparison_builtin k k v0 v1 .less
  | .real k, v0, v1 => C.op_big_type .less k k v0 v1 || (C.op .not_equal k v1 v1 && C.op .equal k v0 v0)
  | .complex k, v0, v1 =>
    if C.op .less k.real v0.real v1.real then !v0.imag.isnan || v1.imag.isnan
    else if C.op .greater k.real v0.real v1.real then v1.imag.isnan && !v0.imag.isnan
    else if C.op .equal k.real v0.real v1.real || (v0.real.isnan && v1.real.isnan) then
      C.op .less k.real v0.imag v1.imag || (v1.imag.isnan && !v0.imag.isnan)
    else v1.real.isnan

/-- The value, or a component of it, is NaN. -/
def holds_nan : (src : builtin_type_id) → C.Data src → Bool
  | .bool, _ | .int _, _ => false
  | .real _, v => v.isnan
  | .complex _, v => v.real.isnan || v.imag.isnan

end Conversions

/-! ## Equal and not equal -/

theorem Floating.op_not_equal {R : Type} [LinearOrder R] (a b : Floating R) :
    a.op .not_equal b = !a.op .equal b := by
  cases a <;> cases b <;> simp [Floating.op]

theorem int_op_not_equal (k : int_type_id) (a b : k.Data) : k.op .not_equal a b = !k.op .equal a b := by
  rw [int_type_id.op_eq, int_type_id.op_eq]
  unfold comparison.holds
  simp

namespace Conversions
variable (C : Conversions)

theorem op_not_equal (k : real_type_id) (a b : C.Real k) : C.op .not_equal k a b = !C.op .equal k a b :=
  Floating.op_not_equal _ _

theorem op_zero_not_equal (k : real_type_id) (v : C.Real k) : C.op_zero .not_equal k v = !C.op_zero .equal k v :=
  Floating.op_not_equal _ _

theorem op_big_type_not_equal (src0 src1 : real_type_id) (v0 : C.Real src0) (v1 : C.Real src1) :
    C.op_big_type .not_equal src0 src1 v0 v1 = !C.op_big_type .equal src0 src1 v0 v1 :=
  Floating.op_not_equal _ _

/-- A signed integer and a complex number, which has no imaginary part and is
what the integer becomes in its type. -/
def SintBecomes : (src0 src1 : builtin_type_id) → C.Data src0 → C.Data src1 → Prop
  | .int k0, .complex k1, v0, v1 =>
    k0.signed = true ∧ C.op_zero .equal k1.real v1.imag = true ∧
      C.op .equal k1.real (C.int_to_real k1.real k0 v0) v1.real = true
  | _, _, _, _ => False

theorem op_ne_eq_iff (src0 src1 : builtin_type_id) (v0 : C.Data src0) (v1 : C.Data src1) :
    C.op_ne src0 src1 v0 v1 = !C.op_eq src0 src1 v0 v1 ↔ ¬ C.SintBecomes src0 src1 v0 v1 := by
  cases src0 with
  | bool =>
    cases src1 <;> simp [op_ne, op_eq, SintBecomes, bne, int_op_not_equal, op_not_equal]
  | int k0 =>
    cases src1 with
    | bool => simp [op_ne, op_eq, SintBecomes, int_op_not_equal]
    | int k1 =>
      simp [op_ne, op_eq, SintBecomes, Compare.single_comparison_builtin_eq, comparison.holds]
    | real k1 => simp [op_ne, op_eq, SintBecomes, int_op_not_equal, op_not_equal]
    | complex k1 =>
      unfold op_ne op_eq SintBecomes
      dsimp only
      rw [op_zero_not_equal, op_not_equal]
      cases k0.signed with
      | false => simp [int_op_not_equal]
      | true =>
        -- the middle terms are the same, not each other's negation
        cases C.op_zero .equal k1.real v1.imag <;>
          cases C.op .equal k1.real (C.int_to_real k1.real k0 v0) v1.real <;> simp
  | real k0 =>
    cases src1 <;> simp [op_ne, op_eq, SintBecomes, int_op_not_equal, op_not_equal, op_big_type_not_equal,
      op_zero_not_equal]
  | complex k0 =>
    cases src1 <;> simp [op_ne, op_eq, SintBecomes, int_op_not_equal, op_not_equal, op_big_type_not_equal,
      op_zero_not_equal]

end Conversions

/-! ## Sorting -/

namespace Floating
variable {R : Type} [LinearOrder R]

/-- NaN is the greatest. -/
def key : Floating R → WithTop R
  | nan => ⊤
  | value r => r

omit [LinearOrder R] in
theorem isnan_iff (a : Floating R) : a.isnan = true ↔ a.key = ⊤ := by
  cases a <;> simp [isnan, key]

theorem sort_iff (a b : Floating R) : (a.op .less b || (b.op .not_equal b && a.op .equal a)) = true ↔ a.key < b.key := by
  cases a <;> cases b <;> simp [op, key]

end Floating

namespace complex
variable {R : Type} [LinearOrder R]

/-- First where there is a NaN, then the components. -/
def key (v : complex R) : Bool ×ₗ Bool ×ₗ WithTop R ×ₗ WithTop R :=
  toLex (v.real.isnan, toLex (v.imag.isnan, toLex (v.real.key, v.imag.key)))

end complex

namespace Conversions
variable (C : Conversions)

theorem isnan_real_cast (k : real_type_id) (v : C.Real k) : (C.real_cast (compared_as k) k v).isnan = v.isnan := by
  cases k with
  | float16 => exact C.isnan_to_double _ v
  | float32 => rfl
  | float64 => rfl
  | float128 => exact C.isnan_to_double _ v

theorem op_big_type_self (c : comparison) (k : real_type_id) (v0 v1 : C.Real k) :
    C.op_big_type c k k v0 v1 = C.op c k v0 v1 := by
  cases k <;> rfl

/-- The components of a complex number are compared as they are. -/
theorem op_component (c : comparison) (k : complex_type_id) (a b : C.Real k.real) : C.op c k.real a b = a.op c b := by
  cases k <;> rfl

theorem sort_real_iff (k : real_type_id) (v0 v1 : C.Real k) : C.op_sort_lt (.real k) v0 v1 = true ↔
    (C.real_cast (compared_as k) k v0).key < (C.real_cast (compared_as k) k v1).key := by
  dsimp only [op_sort_lt]
  rw [op_big_type_self]
  exact Floating.sort_iff _ _

theorem sort_complex_iff (k : complex_type_id) (v0 v1 : complex (C.Value k.real)) :
    C.op_sort_lt (.complex k) v0 v1 = true ↔ v0.key < v1.key := by
  unfold op_sort_lt complex.key
  simp only [op_component, Prod.Lex.toLex_lt_toLex]
  obtain ⟨re0, im0⟩ := v0
  obtain ⟨re1, im1⟩ := v1
  cases re0 <;> cases re1 <;> cases im0 <;> cases im1 <;> simp [Floating.op, Floating.isnan, Floating.key]
  · exact (lt_trichotomy _ _).imp_right Or.symm
  · grind

theorem sort_strict_weak (src : builtin_type_id) : StrictWeak (C.op_sort_lt src) := by
  cases src with
  | bool =>
    exact .of_key Bool.toNat fun a b => decide_eq_true_iff
  | int k =>
    refine .of_key k.value fun a b => ?_
    dsimp only [op_sort_lt]
    rw [Compare.single_comparison_builtin_eq]
    exact decide_eq_true_iff
  | real k => exact .of_key _ fun a b => C.sort_real_iff k a b
  | complex k => exact .of_key complex.key fun a b => C.sort_complex_iff k a b

theorem sort_nan_last (src : builtin_type_id) (a b : C.Data src) (ha : C.holds_nan src a = false)
    (hb : C.holds_nan src b = true) : C.op_sort_lt src a b = true := by
  cases src with
  | bool => cases hb
  | int k => cases hb
  | real k =>
    dsimp only [holds_nan] at ha hb
    rw [← isnan_real_cast] at ha hb
    rw [sort_real_iff, (Floating.isnan_iff _).mp hb, lt_top_iff_ne_top]
    intro h
    rw [(Floating.isnan_iff _).mpr h] at ha
    cases ha
  | complex k =>
    obtain ⟨re0, im0⟩ := a
    obtain ⟨re1, im1⟩ := b
    dsimp only [holds_nan] at ha hb
    rw [Bool.or_eq_false_iff] at ha
    rw [Bool.or_eq_true] at hb
    rw [sort_complex_iff]
    unfold complex.key
    rw [Prod.Lex.toLex_lt_toLex, Prod.Lex.toLex_lt_toLex]
    dsimp only at ha hb ⊢
    rw [ha.1, ha.2]
    cases hre : re1.isnan with
    | true => exact .inl (by decide)
    | false =>
      rw [hre] at hb
      rw [hb.resolve_left Bool.false_ne_true]
      exact .inr ⟨rfl, .inl (by decide)⟩

/-- What the operators of builtin types promise of one pair of values and of
sorting. -/
structure Laws (src0 src1 : builtin_type_id) (v0 : C.Data src0) (v1 : C.Data src1) : Prop where
  not_equal : C.op_ne src0 src1 v0 v1 = !C.op_eq src0 src1 v0 v1
  strict_weak : ∀ src, StrictWeak (C.op_sort_lt src)
  nan_last : ∀ src a b, C.holds_nan src a = false → C.holds_nan src b = true → C.op_sort_lt src a b = true

end Conversions

/-- Integers in the place of all floating point numbers. -/
def integral : Conversions where
  Value _ := ℤ
  order _ := inferInstance
  zero _ := 0
  bool_to_int dst v := .ofNat dst.bits v.toNat
  bool_to_real _ v := .value v.toNat
  bool_to_complex _ v := ⟨.value v.toNat, .value 0⟩
  int_to_real _ src v := .value (src.value v)
  real_to_int dst _ v := match v with
    | .nan => .ofInt dst.bits 0
    | .value r => .ofInt dst.bits r
  real_to_real _ _ v := v
  isnan_to_double _ _ := rfl

end Dynd.BuiltinCompare
