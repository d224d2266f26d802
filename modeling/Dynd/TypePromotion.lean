import Dynd.Multidispatch
import Dynd.StringEncodings
/-!
# Promotion of two types for arithmetic

`promote_types_arithmetic` writes out every ordered pair of kinds of builtin
types, and goes down into options and var dimensions.

`promotion_symmetric_iff`: the order of the two types makes no difference just
when the promotion does not come down to a pair of builtin types that the
table treats unevenly: a `float16` and a bool or an integer, or an
uninitialized type and `void`.
-/
namespace Dynd.TypePromotion
open Multidispatch

/-- The types, by what the promotion asks of them. They are value types: none
is an expression. -/
inductive type where
  | builtin (id : builtin_type_id)
  | string (encoding : StringEncodings.string_encoding_t)
  | fixed_string (stringsize : ℕ) (encoding : StringEncodings.string_encoding_t)
  | type_type
  | fixed_dim (dim_size : ℤ) (element_tp : type)
  | var_dim (element_tp : type)
  | option (value_tp : type)
deriving DecidableEq

inductive message_part where
  | text (s : String)
  | type (tp : type)
deriving DecidableEq

/-- `dynd::type_error` -/
structure type_error where
  what : List message_part
deriving DecidableEq

namespace type

def is_option : type → Bool
  | option _ => true
  | _ => false

/-- The type id is `string_type_id` or `fixed_string_type_id`: the types here of `string_kind`. -/
def is_string : type → Bool
  | string _ | fixed_string _ _ => true
  | _ => false

end type

/-! ## The table of builtin types -/

/-- `sizeof(int)` -/
def int_size : ℕ := 4

def int_type : builtin_type_id := .int32

/-- `std::max` of two type ids -/
def max_id (id0 id1 : builtin_type_id) : builtin_type_id := if id0.ctorIdx < id1.ctorIdx then id1 else id0

/-- The switch over the kinds; `none` where it breaks. -/
def promote_builtin (tp0 tp1 : builtin_type_id) : Option builtin_type_id :=
  match builtin_kinds tp0 with
  | .bool_kind =>
    match builtin_kinds tp1 with
    | .bool_kind => some int_type
    | .sint_kind | .uint_kind => some (if builtin_data_sizes tp1 ≥ int_size then tp1 else int_type)
    | .void_kind => some tp0
    -- The bool type doesn't affect float type sizes, except require at least float32
    | .real_kind => some (if tp1 ≠ .float16 then tp1 else .float32)
    | _ => some tp1
  | .sint_kind =>
    match builtin_kinds tp1 with
    | .bool_kind => some (if builtin_data_sizes tp0 ≥ int_size then tp0 else int_type)
    | .sint_kind =>
      some (if builtin_data_sizes tp0 < int_size ∧ builtin_data_sizes tp1 < int_size then int_type
        else if builtin_data_sizes tp0 ≥ builtin_data_sizes tp1 then tp0 else tp1)
    | .uint_kind =>
      -- When the element_sizes are equal, the uint kind wins
      some (if builtin_data_sizes tp0 < int_size ∧ builtin_data_sizes tp1 < int_size then int_type
        else if builtin_data_sizes tp0 > builtin_data_sizes tp1 then tp0 else tp1)
    | .real_kind => some (if tp1 ≠ .float16 then tp1 else .float32)
    | .complex_kind => some tp1
    | .void_kind => some tp0
    | _ => none
  | .uint_kind =>
    match builtin_kinds tp1 with
    | .bool_kind => some (if builtin_data_sizes tp0 ≥ int_size then tp0 else int_type)
    | .sint_kind | .uint_kind =>
      some (if builtin_data_sizes tp0 < int_size ∧ builtin_data_sizes tp1 < int_size then int_type
        else if builtin_data_sizes tp0 ≥ builtin_data_sizes tp1 then tp0 else tp1)
    | .real_kind => some (if tp1 ≠ .float16 then tp1 else .float32)
    | .complex_kind => some tp1
    | .void_kind => some tp0
    | _ => none
  | .real_kind =>
    match builtin_kinds tp1 with
    | .bool_kind | .sint_kind | .uint_kind => some tp0
    | .real_kind => some (max_id (max_id tp0 tp1) .float32)
    | .complex_kind => some (if tp0 = .float64 ∧ tp1 = .complex_float32 then .complex_float64 else tp1)
    | .void_kind => some tp0
    | _ => none
  | .complex_kind =>
    match builtin_kinds tp1 with
    | .bool_kind | .sint_kind | .uint_kind | .real_kind =>
      some (if tp0 = .complex_float32 ∧ tp1 = .float64 then .complex_float64 else tp0)
    | .complex_kind => some (if builtin_data_sizes tp0 ≥ builtin_data_sizes tp1 then tp0 else tp1)
    | .void_kind => some tp0
    | _ => none
  | .void_kind => some tp1
  | _ => none

/-! ## All types -/

/-- The constructor of an option refuses an option. -/
def make_option (value_tp : type) : Except type_error type :=
  if value_tp.is_option then
    .error ⟨[.text "Cannot construct an option type out of ", .type value_tp, .text ", it is already an option type"]⟩
  else .ok (.option value_tp)

def make_string : type := .string .utf_8

def unsupported (tp0 tp1 : type) : type_error :=
  ⟨[.text "type promotion of ", .type tp0, .text " and ", .type tp1, .text " is not yet supported"]⟩

def promote_types_arithmetic (tp0 tp1 : type) : Except type_error type :=
  match tp0, tp1 with
  | .builtin id0, .builtin id1 =>
    match promote_builtin id0 id1 with
    | some id => .ok (.builtin id)
    | none => .error ⟨[.text "internal error in built-in dynd type promotion of ", .type tp0, .text " and ", .type tp1]⟩
  | .option value_tp0, .option value_tp1 => promote_types_arithmetic value_tp0 value_tp1 >>= make_option
  | .option value_tp0, tp1 => promote_types_arithmetic value_tp0 tp1 >>= make_option
  | tp0, .option value_tp1 => promote_types_arithmetic tp0 value_tp1 >>= make_option
  | .var_dim element_tp0, .var_dim element_tp1 | .var_dim element_tp0, .fixed_dim _ element_tp1
  | .fixed_dim _ element_tp0, .var_dim element_tp1 => .var_dim <$> promote_types_arithmetic element_tp0 element_tp1
  | tp0, tp1 =>
    -- Always promote to the default utf-8 string
    if tp0.is_string ∧ tp1.is_string then .ok make_string
    else if tp0 = .type_type ∧ tp1.is_string then .ok tp0
    else if tp0.is_string ∧ tp1 = .type_type then .ok tp1
    -- In general, if one type is void, just return the other type
    else if tp0 = .builtin .void then .ok tp1
    else if tp1 = .builtin .void then .ok tp0
    else .error (unsupported tp0 tp1)
termination_by sizeOf tp0 + sizeOf tp1

section
variable {tp0 tp1 value_tp0 value_tp1 element_tp0 element_tp1 : type} {id0 id1 : builtin_type_id}

theorem promote_builtins (id0 id1 : builtin_type_id) : promote_types_arithmetic (.builtin id0) (.builtin id1) =
    match promote_builtin id0 id1 with
    | some id => .ok (.builtin id)
    | none => .error ⟨[.text "internal error in built-in dynd type promotion of ", .type (.builtin id0), .text " and ",
        .type (.builtin id1)]⟩ := by
  rw [promote_types_arithmetic]

theorem promote_options (value_tp0 value_tp1 : type) : promote_types_arithmetic (.option value_tp0) (.option value_tp1) =
    promote_types_arithmetic value_tp0 value_tp1 >>= make_option := by
  rw [promote_types_arithmetic]

theorem promote_option_left (value_tp0 : type) (h : tp1.is_option = false) :
    promote_types_arithmetic (.option value_tp0) tp1 = promote_types_arithmetic value_tp0 tp1 >>= make_option := by
  rw [promote_types_arithmetic]
  rintro value_tp1 rfl
  cases h

theorem promote_option_right (value_tp1 : type) (h : tp0.is_option = false) :
    promote_types_arithmetic tp0 (.option value_tp1) = promote_types_arithmetic tp0 value_tp1 >>= make_option := by
  rw [promote_types_arithmetic]
  rintro value_tp0 rfl
  cases h

/-- The pairs of dimensions that promote, with their elements. -/
inductive Dims : type → type → type → type → Prop where
  | var_var (element_tp0 element_tp1 : type) : Dims (.var_dim element_tp0) (.var_dim element_tp1) element_tp0 element_tp1
  | var_fixed (n : ℤ) (element_tp0 element_tp1 : type) :
    Dims (.var_dim element_tp0) (.fixed_dim n element_tp1) element_tp0 element_tp1
  | fixed_var (n : ℤ) (element_tp0 element_tp1 : type) :
    Dims (.fixed_dim n element_tp0) (.var_dim element_tp1) element_tp0 element_tp1

theorem Dims.symm (h : Dims tp0 tp1 element_tp0 element_tp1) : Dims tp1 tp0 element_tp1 element_tp0 := by
  cases h with
  | var_var => exact .var_var _ _
  | var_fixed n => exact .fixed_var n _ _
  | fixed_var n => exact .var_fixed n _ _

theorem Dims.promote (h : Dims tp0 tp1 element_tp0 element_tp1) :
    promote_types_arithmetic tp0 tp1 = .var_dim <$> promote_types_arithmetic element_tp0 element_tp1 := by
  cases h <;> rw [promote_types_arithmetic]

/-! ## Pairs the table treats unevenly -/

def UnevenTo (id0 id1 : builtin_type_id) : Prop :=
  (id0 = .float16 ∧ (builtin_kinds id1 = .bool_kind ∨ builtin_kinds id1 = .sint_kind ∨ builtin_kinds id1 = .uint_kind)) ∨
    (id0 = .uninitialized ∧ id1 = .void)

def Uneven (id0 id1 : builtin_type_id) : Prop := UnevenTo id0 id1 ∨ UnevenTo id1 id0

instance (id0 id1 : builtin_type_id) : Decidable (Uneven id0 id1) := by unfold Uneven UnevenTo; infer_instance

/-- The table is total, and symmetric up to the uneven pairs. -/
theorem promote_builtin_cases (id0 id1 : builtin_type_id) : ∃ id id', promote_builtin id0 id1 = some id ∧
    promote_builtin id1 id0 = some id' ∧ (id = id' ↔ ¬ Uneven id0 id1) := by
  cases id0 <;> cases id1 <;> exact ⟨_, _, rfl, rfl, by decide⟩

/-- The promotion comes down to an uneven pair. -/
inductive Meets : type → type → Prop where
  | builtins {a b : builtin_type_id} : Uneven a b → Meets (.builtin a) (.builtin b)
  | options {a b : type} : Meets a b → Meets (.option a) (.option b)
  | option_left {a b : type} : b.is_option = false → Meets a b → Meets (.option a) b
  | option_right {a b : type} : a.is_option = false → Meets a b → Meets a (.option b)
  | dims {a b a' b' : type} : Dims a b a' b' → Meets a' b' → Meets a b

/-- A type the constructors make: no option of an option in it. -/
def Constructed : type → Prop
  | .option value_tp => value_tp.is_option = false ∧ Constructed value_tp
  | .fixed_dim _ element_tp | .var_dim element_tp => Constructed element_tp
  | _ => True

/-- One type, or an exception in both orders. -/
inductive Same : Except type_error type → Except type_error type → Prop where
  | types (tp : type) : Same (.ok tp) (.ok tp)
  | throws (e e' : type_error) : Same (.error e) (.error e')

theorem Same.bind {x y : Except type_error type} (h : Same x y) (f : type → Except type_error type) : Same (x >>= f) (y >>= f) := by
  cases h with
  | types tp =>
    change Same (f tp) (f tp)
    cases f tp with
    | error e => exact .throws e e
    | ok tp => exact .types tp
  | throws e e' => exact .throws e e'

theorem make_option_ok (h : tp0.is_option = false) : make_option tp0 = .ok (.option tp0) := by
  rw [make_option, h]
  rfl

theorem Dims.not_option (h : Dims tp0 tp1 element_tp0 element_tp1) : tp0.is_option = false ∧ tp1.is_option = false := by
  cases h <;> exact ⟨rfl, rfl⟩

theorem Dims.constructed (h : Dims tp0 tp1 element_tp0 element_tp1) (h0 : Constructed tp0) (h1 : Constructed tp1) :
    Constructed element_tp0 ∧ Constructed element_tp1 := by
  cases h <;> exact ⟨h0, h1⟩

/-- The types that come out are not equal, and no options unless one that goes in is. -/
theorem Meets.differ (h : Meets tp0 tp1) : Constructed tp0 → Constructed tp1 →
    ∃ x y, promote_types_arithmetic tp0 tp1 = .ok x ∧ promote_types_arithmetic tp1 tp0 = .ok y ∧ x ≠ y ∧
      (tp0.is_option = false → tp1.is_option = false → x.is_option = false ∧ y.is_option = false) := by
  induction h with
  | @builtins id0 id1 huneven =>
    intro _ _
    obtain ⟨id, id', h, h', hiff⟩ := promote_builtin_cases id0 id1
    refine ⟨.builtin id, .builtin id', ?_, ?_, ?_, fun _ _ => ⟨rfl, rfl⟩⟩
    · rw [promote_builtins, h]
    · rw [promote_builtins, h']
    · intro heq
      exact hiff.mp (type.builtin.inj heq) huneven
  | options _ ih =>
    rintro ⟨hn0, h0⟩ ⟨hn1, h1⟩
    obtain ⟨x, y, hx, hy, hne, hplain⟩ := ih h0 h1
    obtain ⟨hpx, hpy⟩ := hplain hn0 hn1
    refine ⟨.option x, .option y, ?_, ?_, fun heq => hne (type.option.inj heq), fun h => by cases h⟩
    · rw [promote_options, hx]
      exact make_option_ok hpx
    · rw [promote_options, hy]
      exact make_option_ok hpy
  | option_left hn1 _ ih =>
    rintro ⟨hn0, h0⟩ h1
    obtain ⟨x, y, hx, hy, hne, hplain⟩ := ih h0 h1
    obtain ⟨hpx, hpy⟩ := hplain hn0 hn1
    refine ⟨.option x, .option y, ?_, ?_, fun heq => hne (type.option.inj heq), fun h => by cases h⟩
    · rw [promote_option_left _ hn1, hx]
      exact make_option_ok hpx
    · rw [promote_option_right _ hn1, hy]
      exact make_option_ok hpy
  | option_right hn0 _ ih =>
    rintro h0 ⟨hn1, h1⟩
    obtain ⟨x, y, hx, hy, hne, hplain⟩ := ih h0 h1
    obtain ⟨hpx, hpy⟩ := hplain hn0 hn1
    refine ⟨.option x, .option y, ?_, ?_, fun heq => hne (type.option.inj heq), fun _ h => by cases h⟩
    · rw [promote_option_right _ hn0, hx]
      exact make_option_ok hpx
    · rw [promote_option_left _ hn0, hy]
      exact make_option_ok hpy
  | dims hd _ ih =>
    intro h0 h1
    obtain ⟨he0, he1⟩ := hd.constructed h0 h1
    obtain ⟨x, y, hx, hy, hne, -⟩ := ih he0 he1
    refine ⟨.var_dim x, .var_dim y, ?_, ?_, fun heq => hne (type.var_dim.inj heq), fun _ _ => ⟨rfl, rfl⟩⟩
    · rw [hd.promote, hx]
      rfl
    · rw [hd.symm.promote, hy]
      rfl

end

/-! ## The other pairs -/

theorem same_builtins {id0 id1 : builtin_type_id} (h : ¬ Uneven id0 id1) :
    Same (promote_types_arithmetic (.builtin id0) (.builtin id1)) (promote_types_arithmetic (.builtin id1) (.builtin id0)) := by
  obtain ⟨id, id', hid, hid', hiff⟩ := promote_builtin_cases id0 id1
  rw [promote_builtins, promote_builtins, hid, hid', hiff.mpr h]
  exact .types _

/-- Neither options nor dimensions that promote: the strings, `void` and what
does not promote at all. -/
theorem promote_others {tp0 tp1 : type} (h0 : tp0.is_option = false) (h1 : tp1.is_option = false)
    (hb : ∀ id0 id1, tp0 = .builtin id0 → tp1 ≠ .builtin id1) (hd : ∀ e0 e1, ¬ Dims tp0 tp1 e0 e1) :
    promote_types_arithmetic tp0 tp1 =
      if tp0.is_string ∧ tp1.is_string then .ok make_string
      else if tp0 = .type_type ∧ tp1.is_string then .ok tp0
      else if tp0.is_string ∧ tp1 = .type_type then .ok tp1
      else if tp0 = .builtin .void then .ok tp1
      else if tp1 = .builtin .void then .ok tp0
      else .error (unsupported tp0 tp1) := by
  rw [promote_types_arithmetic]
  · rintro value_tp0 rfl
    cases h0
  · rintro value_tp1 rfl
    cases h1
  · exact hb
  · rintro value_tp0 _ rfl
    cases h0
  · rintro e0 e1 rfl rfl
    exact hd _ _ (.var_var e0 e1)
  · rintro e0 n e1 rfl rfl
    exact hd _ _ (.var_fixed n e0 e1)
  · rintro n e0 e1 rfl rfl
    exact hd _ _ (.fixed_var n e0 e1)

theorem same_others {tp0 tp1 : type} (h0 : tp0.is_option = false) (h1 : tp1.is_option = false)
    (hb : ∀ id0 id1, tp0 = .builtin id0 → tp1 ≠ .builtin id1) (hd : ∀ e0 e1, ¬ Dims tp0 tp1 e0 e1) :
    Same (promote_types_arithmetic tp0 tp1) (promote_types_arithmetic tp1 tp0) := by
  rw [promote_others h0 h1 hb hd, promote_others h1 h0 (fun id1 id0 h1 h0 => hb id0 id1 h0 h1) fun e1 e0 h => hd e0 e1 h.symm]
  split_ifs <;> simp_all
  all_goals constructor

theorem same_of_not_meets (tp0 tp1 : type) (h : ¬ Meets tp0 tp1) :
    Same (promote_types_arithmetic tp0 tp1) (promote_types_arithmetic tp1 tp0) := by
  by_cases hd : ∃ e0 e1, Dims tp0 tp1 e0 e1
  · obtain ⟨e0, e1, hd⟩ := hd
    have hsmall : sizeOf e0 + sizeOf e1 < sizeOf tp0 + sizeOf tp1 := by
      cases hd <;> simp +arith
    rw [hd.promote, hd.symm.promote]
    exact (same_of_not_meets e0 e1 fun hm => h (.dims hd hm)).bind (fun tp => .ok (.var_dim tp))
  · push Not at hd
    cases hn0 : tp0.is_option with
    | true =>
      cases tp0 with
      | option value_tp0 =>
        cases hn1 : tp1.is_option with
        | true =>
          cases tp1 with
          | option value_tp1 =>
            rw [promote_options, promote_options]
            exact (same_of_not_meets value_tp0 value_tp1 fun hm => h (.options hm)).bind _
          | _ => cases hn1
        | false =>
          rw [promote_option_left _ hn1, promote_option_right _ hn1]
          exact (same_of_not_meets value_tp0 tp1 fun hm => h (.option_left hn1 hm)).bind _
      | _ => cases hn0
    | false =>
      cases hn1 : tp1.is_option with
      | true =>
        cases tp1 with
        | option value_tp1 =>
          rw [promote_option_right _ hn0, promote_option_left _ hn0]
          exact (same_of_not_meets tp0 value_tp1 fun hm => h (.option_right hn0 hm)).bind _
        | _ => cases hn1
      | false =>
        by_cases hb : ∃ id0 id1, tp0 = .builtin id0 ∧ tp1 = .builtin id1
        · obtain ⟨id0, id1, rfl, rfl⟩ := hb
          exact same_builtins fun huneven => h (.builtins huneven)
        · push Not at hb
          exact same_others hn0 hn1 hb hd
termination_by sizeOf tp0 + sizeOf tp1

/-! ## The result -/

/-- For all types the constructors make: both orders promote to one type, or
throw, just when the promotion does not come down to a pair of builtin types
the table treats unevenly. -/
theorem promotion_symmetric_iff (tp0 tp1 : type) (h0 : Constructed tp0) (h1 : Constructed tp1) :
    Same (promote_types_arithmetic tp0 tp1) (promote_types_arithmetic tp1 tp0) ↔ ¬ Meets tp0 tp1 := by
  constructor
  · intro hsame hm
    obtain ⟨x, y, hx, hy, hne, -⟩ := hm.differ h0 h1
    rw [hx, hy] at hsame
    cases hsame
    exact hne rfl
  · exact same_of_not_meets tp0 tp1

theorem promotion_symmetric_dims :
    Same (promote_types_arithmetic (.var_dim (.option (.builtin .int8))) (.fixed_dim 3 (.builtin .float32)))
      (promote_types_arithmetic (.fixed_dim 3 (.builtin .float32)) (.var_dim (.option (.builtin .int8)))) := by
  refine (promotion_symmetric_iff (.var_dim (.option (.builtin .int8))) (.fixed_dim 3 (.builtin .float32))
    ⟨rfl, trivial⟩ trivial).mpr fun h => ?_
  cases h with
  | dims hd h =>
    cases hd
    cases h with
    | option_left _ h =>
      cases h with
      | builtins h => exact absurd h (by decide)
      | dims hd => cases hd
    | dims hd => cases hd

/-- With an integer first a `float16` is promoted, with the `float16` first it is not. -/
theorem half_and_integer : ¬ ∀ tp0 tp1 : type, Constructed tp0 → Constructed tp1 →
    Same (promote_types_arithmetic tp0 tp1) (promote_types_arithmetic tp1 tp0) := by
  intro h
  have hsame := h (.builtin .int32) (.builtin .float16) trivial trivial
  rw [promote_builtins, promote_builtins] at hsame
  cases hsame

end Dynd.TypePromotion
