import Mathlib.Data.List.Basic
import Dynd.Lib.Everywhere
/-!
# Types

The type objects a pattern can be built from (`include/dynd/types/`), as far as
matching and substitution see them: the flag that says a type is symbolic and
the number of dimensions a type object stores.
-/
namespace Dynd

open Lib

/-- `scalar` is any type without a symbolic part that is none of the others, and `kind` any of the
kind patterns without parts (`Int`, `FixedBytes` and so on). -/
inductive Ty where
  | void
  | scalar (name : String)
  | kind (name : String)
  | any_sym
  | fixed_dim (dim_size : Int) (element_tp : Ty)
  | fixed_dim_kind (element_tp : Ty)
  | var_dim (element_tp : Ty)
  | typevar (name : String)
  | typevar_dim (name : String) (element_tp : Ty)
  | typevar_constructed (name : String) (arg : Ty)
  | pow_dimsym (base_tp : Ty) (exponent : String) (element_tp : Ty)
  | ellipsis_dim (name : Option String) (element_tp : Ty)
  | dim_fragment (tagged_dims : List Int)
  | tuple (field_types : List Ty) (variadic : Bool)
  | struct (field_names : List String) (field_types : List Ty) (variadic : Bool)
  | option (value_tp : Ty)
  | pointer (target_tp : Ty)
  | c_contiguous (child_tp : Ty)
  | arrfunc (pos_tuple kwd_struct return_type : Ty)

namespace Ty

/-- The types a type object holds. -/
def children : Ty → List Ty
  | void | scalar _ | kind _ | any_sym | typevar _ | dim_fragment _ => []
  | fixed_dim _ tp | fixed_dim_kind tp | var_dim tp | typevar_dim _ tp | typevar_constructed _ tp
  | ellipsis_dim _ tp | option tp | pointer tp | c_contiguous tp => [tp]
  | pow_dimsym base _ tp => [base, tp]
  | tuple tps _ | struct _ tps _ => tps
  | arrfunc pos kwd ret => [pos, kwd, ret]

mutual
/-- `type::is_symbolic`: the flag as the constructors of the type classes set it. -/
def is_symbolic : Ty → Bool
  | void | scalar _ => false
  | kind _ | any_sym | typevar _ | typevar_dim _ _ | typevar_constructed _ _ | pow_dimsym _ _ _
  | ellipsis_dim _ _ | dim_fragment _ | fixed_dim_kind _ | c_contiguous _ => true
  | fixed_dim _ tp | var_dim tp | option tp | pointer tp => tp.is_symbolic
  | tuple tps variadic | struct _ tps variadic => variadic || any_symbolic tps
  -- the flags do not depend on the arguments: it can be instantiated for symbolic ones too
  | arrfunc _ _ _ => false

def any_symbolic : List Ty → Bool
  | [] => false
  | tp :: tps => tp.is_symbolic || any_symbolic tps
end

/-- `type::get_ndim`: the number of dimensions as the `int8_t` member holds it. -/
def get_ndim : Ty → Int
  | void | scalar _ | kind _ | any_sym | typevar _ | tuple _ _ | struct _ _ _ | arrfunc _ _ _ => 0
  | fixed_dim _ tp | fixed_dim_kind tp | var_dim tp | typevar_dim _ tp | ellipsis_dim _ tp
  | pow_dimsym _ _ tp => (1 + tp.get_ndim).bmod 256
  | dim_fragment dims => (dims.length : Int).bmod 256
  | option tp | pointer tp | c_contiguous tp | typevar_constructed _ tp => tp.get_ndim

def is_arrfunc : Ty → Bool
  | arrfunc _ _ _ => true
  | _ => false

def is_option : Ty → Bool
  | option _ => true
  | _ => false

def is_fixed_dim : Ty → Bool
  | fixed_dim _ _ => true
  | fixed_dim_kind _ => true
  | _ => false

/-! ### Nesting -/

theorem sizeOf_children {tp c : Ty} (hc : c ∈ tp.children) : sizeOf c < sizeOf tp := by
  cases tp
  case tuple tps variadic =>
    have h : sizeOf c < sizeOf tps := List.sizeOf_lt_of_mem hc
    rw [tuple.sizeOf_spec]
    omega
  case struct names tps variadic =>
    have h : sizeOf c < sizeOf tps := List.sizeOf_lt_of_mem hc
    rw [struct.sizeOf_spec]
    omega
  all_goals simp only [children, List.mem_cons, List.not_mem_nil, or_false] at hc
  case pow_dimsym => rcases hc with rfl | rfl <;> rw [pow_dimsym.sizeOf_spec] <;> omega
  case arrfunc => rcases hc with rfl | rfl | rfl <;> rw [arrfunc.sizeOf_spec] <;> omega
  all_goals
    subst hc
    simp [Nat.add_comm 1]

/-- Induction over the types a type object holds. -/
@[elab_as_elim] theorem children_induction {motive : Ty → Prop}
    (step : ∀ tp, (∀ c ∈ tp.children, motive c) → motive tp) (tp : Ty) : motive tp := by
  induction h : sizeOf tp using Nat.strongRecOn generalizing tp with
  | ind n ih =>
    apply step
    intro c hc
    exact ih (sizeOf c) (h ▸ sizeOf_children hc) c rfl

/-- What a type object holds outside function prototypes. -/
def open_children (tp : Ty) : List Ty := if tp.is_arrfunc then [] else tp.children

/-- The symbolic flag as far as a type class sets it by itself. -/
def own_symbolic : Ty → Bool
  | void | scalar _ | fixed_dim _ _ | var_dim _ | option _ | pointer _ | arrfunc _ _ _ => false
  | tuple _ variadic | struct _ _ variadic => variadic
  | _ => true

theorem any_symbolic_eq_false {tps : List Ty} : any_symbolic tps = false ↔ ∀ tp ∈ tps, tp.is_symbolic = false := by
  induction tps with
  | nil => simp [any_symbolic]
  | cons tp tps ih => simp [any_symbolic, ih]

theorem is_symbolic_eq_false {tp : Ty} :
    tp.is_symbolic = false ↔ tp.own_symbolic = false ∧ ∀ c ∈ tp.open_children, c.is_symbolic = false := by
  cases tp <;> simp [is_symbolic, own_symbolic, open_children, children, is_arrfunc, any_symbolic_eq_false]

/-- The flag is clear when no level outside function prototypes is symbolic by itself. -/
theorem is_symbolic_iff_levels (tp : Ty) :
    tp.is_symbolic = false ↔ Everywhere open_children (fun q => q.own_symbolic = false) tp := by
  induction tp using children_induction with
  | step tp ih =>
    rw [is_symbolic_eq_false, everywhere_iff]
    apply and_congr_right
    intro _
    apply forall_congr'
    intro c
    apply forall_congr'
    intro hc
    apply ih c
    unfold open_children at hc
    split at hc
    · simp at hc
    · exact hc

/-- No symbolic part at any level, function prototypes included. -/
def Concrete (tp : Ty) : Prop := Everywhere children (fun q => q.is_symbolic = false) tp

theorem concrete_iff (tp : Ty) : tp.Concrete ↔ tp.own_symbolic = false ∧ ∀ c ∈ tp.children, c.Concrete := by
  unfold Concrete
  rw [everywhere_iff, is_symbolic_eq_false]
  constructor
  · rintro ⟨⟨hown, _⟩, h⟩
    exact ⟨hown, h⟩
  · rintro ⟨hown, h⟩
    refine ⟨⟨hown, ?_⟩, h⟩
    intro c hc
    unfold open_children at hc
    split at hc
    · simp at hc
    · exact (h c hc).here

/-- A type class that is not symbolic by itself. -/
theorem concrete_of_children {tp : Ty} {tps : List Ty} (hown : tp.own_symbolic = false) (htps : tp.children = tps) :
    tp.Concrete ↔ ∀ c ∈ tps, c.Concrete := by
  rw [concrete_iff, htps]
  exact and_iff_right hown

theorem concrete_of_child {tp c : Ty} (hown : tp.own_symbolic = false) (hc : tp.children = [c]) : tp.Concrete ↔ c.Concrete :=
  (concrete_of_children hown hc).trans List.forall_mem_singleton

theorem not_concrete {tp : Ty} (hown : tp.own_symbolic = true) : ¬ tp.Concrete := by
  intro h
  have hfalse := ((concrete_iff tp).1 h).1
  rw [hown] at hfalse
  cases hfalse

@[simp] theorem concrete_fixed_dim {n : Int} {tp : Ty} : (fixed_dim n tp).Concrete ↔ tp.Concrete := concrete_of_child rfl rfl

@[simp] theorem concrete_var_dim {tp : Ty} : (var_dim tp).Concrete ↔ tp.Concrete := concrete_of_child rfl rfl

@[simp] theorem concrete_option {tp : Ty} : (option tp).Concrete ↔ tp.Concrete := concrete_of_child rfl rfl

@[simp] theorem concrete_pointer {tp : Ty} : (pointer tp).Concrete ↔ tp.Concrete := concrete_of_child rfl rfl

@[simp] theorem concrete_tuple {tps : List Ty} : (tuple tps false).Concrete ↔ ∀ tp ∈ tps, tp.Concrete :=
  concrete_of_children rfl rfl

@[simp] theorem concrete_struct {names : List String} {tps : List Ty} :
    (struct names tps false).Concrete ↔ ∀ tp ∈ tps, tp.Concrete :=
  concrete_of_children rfl rfl

@[simp] theorem concrete_arrfunc {pos kwd ret : Ty} :
    (arrfunc pos kwd ret).Concrete ↔ pos.Concrete ∧ kwd.Concrete ∧ ret.Concrete := by
  rw [@concrete_of_children _ [pos, kwd, ret] rfl rfl, List.forall_mem_cons, List.forall_mem_cons, List.forall_mem_singleton]

@[simp] theorem not_concrete_fixed_dim_kind {tp : Ty} : ¬ (fixed_dim_kind tp).Concrete := not_concrete rfl

@[simp] theorem not_concrete_c_contiguous {tp : Ty} : ¬ (c_contiguous tp).Concrete := not_concrete rfl

end Ty
end Dynd
