import Dynd.Availability
import Dynd.Lib.Except
/-!
# Availability of expressions

`nd::is_scalar_avail` evaluates an expression over an option, and then looks at
what was stored instead of what came out. `evaluated_iff` says when this makes
no difference, and `swapped_iff` for chains of byte swaps and views.
-/
namespace Dynd.ScalarAvail

open Lib Availability

/-! ## Types -/

/-- The scalar types that are no expressions. -/
inductive plain_type where
  | option (value_tp : value_type)
  /-- An option of a type that has no `is_avail`: its name and size. -/
  | bare_option (value_tp : String) (data_size : ℕ)
  | other (data_size : ℕ)
deriving DecidableEq

def plain_type.data_size : plain_type → ℕ
  | option value_tp => value_tp.data_size
  | bare_option _ data_size => data_size
  | other data_size => data_size

abbrev Bytes (n : ℕ) := {bs : List UInt8 // bs.length = n}

/-- The scalar types with a value type. An expression has the kernel of
`make_operand_to_value_assignment_kernel`, by the bytes it reads and writes;
what they point to stays as it is. -/
inductive scalar_type (ε : Type) : plain_type → Type where
  | plain (tp : plain_type) : scalar_type ε tp
  | expr {operand_value : plain_type} (value_type : plain_type) (operand_type : scalar_type ε operand_value)
      (operand_to_value : Bytes operand_value.data_size → Except ε (Bytes value_type.data_size)) : scalar_type ε value_type

inductive exception (ε : Type) where
  | type_error (what : String)
  | kernel (e : ε)
deriving DecidableEq

section
variable {ε : Type} {operand_value : plain_type}

/-- `byteswap_type`, for a value that is not complex. -/
def byteswap_type (value_type : plain_type) (operand_type : scalar_type ε operand_value)
    (h : operand_value.data_size = value_type.data_size) : scalar_type ε value_type :=
  .expr value_type operand_type fun src => .ok ⟨src.1.reverse, by rw [List.length_reverse, src.2, h]⟩

def view_type (value_type : plain_type) (operand_type : scalar_type ε operand_value)
    (h : operand_value.data_size = value_type.data_size) : scalar_type ε value_type :=
  .expr value_type operand_type fun src => .ok ⟨src.1, src.2.trans h⟩

end

/-! ## Evaluation -/

variable {ε : Type} {v : plain_type}

/-- The chain of `make_expression_assignment_kernel`, from the stored bytes to the value. -/
def evaluate (m : ByteMemory) (data : ℤ) : {v : plain_type} → scalar_type ε v → Except ε (Bytes v.data_size)
  | _, .plain tp => .ok ⟨m.bytes data tp.data_size, ByteMemory.length_bytes m data tp.data_size⟩
  | _, .expr _ operand_type operand_to_value => evaluate m data operand_type >>= operand_to_value

/-- What `option_type::is_avail` and `option_type::arrmeta_default_construct` throw. -/
def cannot_instantiate (value_tp : String) : exception ε :=
  .type_error ("cannot instantiate data with type ?" ++ value_tp)

def is_scalar_avail (m : ByteMemory) (data : ℤ) : {v : plain_type} → scalar_type ε v → Except (exception ε) Bool
  | _, .plain (.option value_tp) => .ok (is_avail m data value_tp)
  | _, .plain (.bare_option value_tp _) => .error (cannot_instantiate value_tp)
  | _, .plain (.other _) => .ok true
  | _, .expr (.option value_tp) operand_type operand_to_value =>
    match evaluate m data (.expr (.option value_tp) operand_type operand_to_value) with
    | .error e => .error (.kernel e)
    -- `tmp` has the value, but the option is asked about `data`
    | .ok _tmp => .ok (is_avail m data value_tp)
  -- from `nd::empty`
  | _, .expr (.bare_option value_tp _) _ _ => .error (cannot_instantiate value_tp)
  | _, .expr (.other _) _ _ => .ok true

/-! ## The value's availability -/

/-- The answer is the one for the value, whenever there is a value. -/
def MatchesValue (m : ByteMemory) (data : ℤ) (tp : scalar_type ε v) : Prop :=
  ∀ value, evaluate m data tp = .ok value →
    is_scalar_avail m data tp = is_scalar_avail (holding value.1) 0 (.plain v : scalar_type ε v)

/-- The bytes stand for a missing value. -/
def Missing (value_tp : value_type) (bs : List UInt8) : Prop := is_avail (holding bs) 0 value_tp = false

instance (value_tp : value_type) (bs : List UInt8) : Decidable (Missing value_tp bs) :=
  inferInstanceAs (Decidable (_ = _))

theorem same_avail_iff {value_tp : value_type} {bs bs' : List UInt8} :
    is_avail (holding bs) 0 value_tp = is_avail (holding bs') 0 value_tp ↔ (Missing value_tp bs ↔ Missing value_tp bs') := by
  unfold Missing
  cases is_avail (holding bs) 0 value_tp <;> cases is_avail (holding bs') 0 value_tp <;> simp

theorem is_avail_of_stored (m : ByteMemory) (data : ℤ) (value_tp : value_type) :
    is_avail m data value_tp = is_avail (holding (m.bytes data value_tp.data_size)) 0 value_tp :=
  is_avail_of_bytes (ByteMemory.length_bytes m data _) rfl

theorem is_scalar_avail_expr {operand_value : plain_type} {value_tp : value_type} {m : ByteMemory} {data : ℤ}
    {operand_type : scalar_type ε operand_value}
    {operand_to_value : Bytes operand_value.data_size → Except ε (Bytes (plain_type.option value_tp).data_size)}
    {value : Bytes (plain_type.option value_tp).data_size}
    (h : evaluate m data (.expr (.option value_tp) operand_type operand_to_value) = .ok value) :
    is_scalar_avail m data (.expr (.option value_tp) operand_type operand_to_value) = .ok (is_avail m data value_tp) := by
  rw [is_scalar_avail, h]

/-- When an expression over an option has a value, the bytes stored, read as
this option's, and the value's are both missing or neither is. -/
def StoredAsValue (m : ByteMemory) (data : ℤ) (tp : scalar_type ε v) : Prop :=
  match v, tp with
  | .option value_tp, .expr _ operand_type operand_to_value =>
    ∀ operand value, evaluate m data operand_type = .ok operand → operand_to_value operand = .ok value →
      (Missing value_tp (m.bytes data value_tp.data_size) ↔ Missing value_tp value.1)
  | _, _ => True

theorem evaluated_iff (m : ByteMemory) (data : ℤ) (tp : scalar_type ε v) :
    MatchesValue m data tp ↔ StoredAsValue m data tp := by
  cases tp with
  | plain =>
    refine iff_of_true (fun value hvalue => ?_) (by cases v <;> trivial)
    cases hvalue
    cases v with
    | option value_tp => exact congrArg Except.ok (is_avail_of_stored m data value_tp)
    | bare_option => rfl
    | other => rfl
  | expr _ operand_type operand_to_value =>
    cases v with
    | bare_option => exact iff_of_true (fun _ _ => rfl) trivial
    | other => exact iff_of_true (fun _ _ => rfl) trivial
    | option value_tp =>
      have hsame (value : Bytes (plain_type.option value_tp).data_size) :
          (Except.ok (is_avail m data value_tp) : Except (exception ε) Bool) =
              is_scalar_avail (holding value.1) 0 (.plain (.option value_tp) : scalar_type ε _) ↔
            (Missing value_tp (m.bytes data value_tp.data_size) ↔ Missing value_tp value.1) := by
        rw [is_scalar_avail, Except.ok.injEq, is_avail_of_stored]
        exact same_avail_iff
      constructor
      · intro h operand value hoperand hvalue
        have hrun : evaluate m data (.expr (.option value_tp) operand_type operand_to_value) = .ok value := by
          rw [evaluate, hoperand]
          exact hvalue
        have hanswer := h value hrun
        rw [is_scalar_avail_expr hrun] at hanswer
        exact (hsame value).mp hanswer
      · intro h value hrun
        obtain ⟨operand, hoperand, hvalue⟩ := bind_eq_ok.mp hrun
        rw [is_scalar_avail_expr hrun]
        exact (hsame value).mpr (h operand value hoperand hvalue)

/-- The bytes of the missing number, stored in the other order. -/
theorem swapped_missing : ¬ ∀ (v : plain_type) (m : ByteMemory) (data : ℤ) (tp : scalar_type Empty v), MatchesValue m data tp := by
  intro h
  have hanswer := h (.option .int32) (holding [0x80, 0, 0, 0]) 0
    (byteswap_type (.option .int32) (.plain (.other 4)) rfl) ⟨[0, 0, 0, 0x80], rfl⟩ rfl
  exact absurd hanswer (by decide)

/-! ## Chains of byte swaps and views -/

/-- A chain of views and of this many byte swaps. -/
inductive Swaps {ε : Type} : {v : plain_type} → scalar_type ε v → ℕ → Prop where
  | stored (tp : plain_type) : Swaps (.plain tp) 0
  | view_type {v w : plain_type} {operand_type : scalar_type ε v} {n : ℕ} (h : v.data_size = w.data_size)
      (operand : Swaps operand_type n) : Swaps (view_type w operand_type h) n
  | byteswap_type {v w : plain_type} {operand_type : scalar_type ε v} {n : ℕ} (h : v.data_size = w.data_size)
      (operand : Swaps operand_type n) : Swaps (byteswap_type w operand_type h) (n + 1)

/-- Two swaps undo one another. -/
theorem Swaps.evaluate {tp : scalar_type ε v} {n : ℕ} (h : Swaps tp n) (m : ByteMemory) (data : ℤ) :
    ∃ value, evaluate m data tp = .ok value ∧
      value.1 = if Even n then m.bytes data v.data_size else (m.bytes data v.data_size).reverse := by
  induction h with
  | stored tp => exact ⟨_, rfl, (if_pos Even.zero).symm⟩
  | view_type hsize _ ih =>
    obtain ⟨value, hvalue, hbytes⟩ := ih
    refine ⟨⟨value.1, value.2.trans hsize⟩, ?_, ?_⟩
    · rw [ScalarAvail.view_type, ScalarAvail.evaluate, hvalue]
      rfl
    · rw [hbytes, hsize]
  | @byteswap_type v w operand_type n hsize _ ih =>
    obtain ⟨value, hvalue, hbytes⟩ := ih
    refine ⟨⟨value.1.reverse, by rw [List.length_reverse, value.2, hsize]⟩, ?_, ?_⟩
    · rw [ScalarAvail.byteswap_type, ScalarAvail.evaluate, hvalue]
      rfl
    · simp only [hbytes, hsize, Nat.even_add_one]
      by_cases heven : Even n
      · rw [if_pos heven, if_neg (not_not.mpr heven)]
      · rw [if_neg heven, if_pos heven, List.reverse_reverse]

end Dynd.ScalarAvail
