import Dynd.Lib.Except
import Dynd.Types
/-!
# Substituting type variables

`substitute_typevars.cpp`: the types bound in a map take the places of the
variables of a pattern, and the caller may ask for a result without symbolic
parts.
-/
namespace Dynd

open Lib

/-- A message is written from texts and printed types. -/
inductive MessagePart where
  | text (s : String)
  | type (tp : Ty)

/-- `undefined` stands for the two places where the code goes on with a pointer to something else. -/
inductive SubstituteError where
  | invalid_argument (what : List MessagePart)
  | type_error (what : List MessagePart)
  | undefined

/-- The `std::map` of bound names, as `find` sees it. -/
abbrev Typevars := String → Option Ty

namespace Ty

/-! ### Type classes that check what they are given -/

def make_option (value_tp : Ty) : Except SubstituteError Ty :=
  if value_tp.is_option then
    .error (.type_error [.text "Cannot construct an option type out of ", .type value_tp,
      .text ", it is already an option type"])
  else .ok (.option value_tp)

def make_c_contiguous (child_tp : Ty) : Except SubstituteError Ty :=
  if child_tp.is_fixed_dim then .ok (.c_contiguous child_tp)
  else .error (.invalid_argument [.text "c_contiguous_type must have a child that is a fixed_dim_type"])

def make_arrfunc (pos_tuple kwd_struct return_type : Ty) : Except SubstituteError Ty :=
  match pos_tuple, kwd_struct with
  | .tuple _ _, .struct _ _ _ => .ok (.arrfunc pos_tuple kwd_struct return_type)
  | .tuple _ _, _ => .error (.invalid_argument [.text "dynd arrfunc keyword arg types require a struct type, got a type \"",
      .type kwd_struct, .text "\""])
  | _, _ => .error (.invalid_argument [.text "dynd arrfunc positional arg types require a tuple type, got a type \"",
      .type pos_tuple, .text "\""])

/-! ### Dimension fragments -/

def dim_fragment_var : Int := -1
def dim_fragment_fixed_sym : Int := -2

def apply_tagged_dim (tagged_dim : Int) (tp : Ty) : Ty :=
  if tagged_dim = dim_fragment_var then .var_dim tp
  else if tagged_dim = dim_fragment_fixed_sym then .fixed_dim_kind tp
  else .fixed_dim tagged_dim tp

/-- The tags that `apply_to_dtype` goes through: as many as `get_ndim` says. -/
def applied_dims (tagged_dims : List Int) : List Int := tagged_dims.take (dim_fragment tagged_dims).get_ndim.toNat

def apply_to_dtype (tagged_dims : List Int) (dtp : Ty) : Ty := (applied_dims tagged_dims).foldr apply_tagged_dim dtp

end Ty

open Ty

/-! ### The substitution -/

section
variable (typevars : Typevars) (concrete : Bool)

def not_concrete (what : MessagePart) (tp : Ty) : SubstituteError :=
  .invalid_argument [.text "The substitution for dynd typevar ", what, .text ", ", .type tp,
    .text ", is not concrete as required"]

def not_available (pattern : Ty) : SubstituteError :=
  .invalid_argument [.text "No substitution type for dynd typevar ", .type pattern, .text " was available"]

def unsupported (pattern : Ty) : SubstituteError :=
  .invalid_argument [.text "Unsupported dynd type \"", .type pattern, .text "\" encountered for substituting typevars"]

/-- The `typevar_type_id` case, for a pattern that goes by `name`. -/
def substitute_typevar (pattern : Ty) (name : String) : Except SubstituteError Ty :=
  match typevars name with
  | some tp =>
    if tp.get_ndim ≠ 0 then
      .error (.invalid_argument [.text "The substitution for dynd typevar ", .type pattern, .text ", ", .type tp,
        .text ", is a dimension, expected a dtype"])
    else if !concrete || !tp.is_symbolic then .ok tp
    else .error (not_concrete (.type pattern) tp)
  | none =>
    if concrete then
      .error (.invalid_argument [.text "No substitution type for dynd type var ", .type pattern, .text " was available"])
    else .ok pattern

/-- The exponent of a pow dim and the name it goes on under: -1 when it has no size yet. -/
def pow_exponent (exponent_name : String) : Except SubstituteError (Int × String) :=
  match typevars exponent_name with
  | none => .ok (-1, exponent_name)
  | some (.fixed_dim n _) => .ok (n, exponent_name)
  | some (.fixed_dim_kind _) => .error .undefined
  | some (.typevar_dim name tp) =>
    if concrete then .error (not_concrete (.text name) (.typevar_dim name tp)) else .ok (-1, name)
  | some tp => .error (.invalid_argument [.text "The substitution for dynd typevar ", .text exponent_name, .text ", ",
      .type tp, .text ", is not a fixed_dim integer as required"])

/-- The base of a pow dim, with the dimension its typevar is bound to swapped in. -/
def pow_base (base_tp : Ty) : Except SubstituteError Ty :=
  match base_tp with
  | .typevar_dim name _ =>
    match typevars name with
    | none => if concrete then .error (not_available base_tp) else .ok base_tp
    | some tp =>
      if tp.get_ndim > 0 ∧ ¬ tp matches .dim_fragment _ then .ok tp
      else .error (.invalid_argument [.text "The substitution for dynd typevar ", .type base_tp, .text ", ", .type tp,
        .text ", is not a substitutable dimension type"])
  | _ => .ok base_tp

/-- The base dimension as often as the exponent says. -/
def pow_result (base_tp : Ty) (exponent : Int) (exponent_name : String) (result : Ty) : Except SubstituteError Ty :=
  if exponent < 0 then .ok (.pow_dimsym base_tp exponent_name result)
  else match base_tp with
    | .fixed_dim_kind _ =>
      if concrete then
        .error (.invalid_argument [.text "The base for a dimensional power type, 'Fixed ** ", .text (toString exponent),
          .text "', is not concrete as required"])
      else .ok (fixed_dim_kind^[exponent.toNat] result)
    | .fixed_dim n _ => .ok ((fixed_dim n)^[exponent.toNat] result)
    | .var_dim _ => .ok (var_dim^[exponent.toNat] result)
    | .typevar_dim name _ => .ok ((typevar_dim name)^[exponent.toNat] result)
    | _ => .error (.invalid_argument [.text "Cannot substitute ", .type base_tp,
        .text " as the base of a dynd dimensional power type"])

/-- The check `substitute` makes before it calls `internal_substitute`. -/
def unless_concrete (pattern : Ty) (internal_substitute : Except SubstituteError Ty) : Except SubstituteError Ty :=
  if !pattern.is_symbolic && !pattern.is_arrfunc then .ok pattern else internal_substitute

mutual
/-- `substitute`: the check, and the cases of `internal_substitute`. The check is written only where
the answer depends on the parts of the type. -/
def substitute : Ty → Except SubstituteError Ty
  | .void => .ok .void
  | .scalar name => .ok (.scalar name)
  | .c_contiguous tp => do make_c_contiguous (← substitute tp)
  | .pointer tp => unless_concrete (.pointer tp) (.pointer <$> substitute tp)
  | .fixed_dim_kind tp =>
    if !concrete then .fixed_dim_kind <$> substitute tp
    else .error (.invalid_argument [.text ("The dynd pattern type includes a symbolic 'fixed' dimension, " ++
      "which is not concrete as requested")])
  | .fixed_dim n tp => unless_concrete (.fixed_dim n tp) (.fixed_dim n <$> substitute tp)
  | .var_dim tp => unless_concrete (.var_dim tp) (.var_dim <$> substitute tp)
  | .struct names tps variadic =>
    unless_concrete (.struct names tps variadic) ((.struct names · false) <$> substitute_type_array tps)
  | .tuple tps variadic => unless_concrete (.tuple tps variadic) ((.tuple · false) <$> substitute_type_array tps)
  | .option tp => unless_concrete (.option tp) do make_option (← substitute tp)
  | .arrfunc pos kwd ret => do
    let pos ← substitute pos
    let kwd ← substitute kwd
    let ret ← substitute ret
    make_arrfunc pos kwd ret
  | .typevar_constructed name arg =>
    match typevars name with
    | none => .error .undefined
    | some .void => substitute arg
    | some _ => substitute_typevar typevars concrete (.typevar_constructed name arg) name
  | .typevar name => substitute_typevar typevars concrete (.typevar name) name
  | .typevar_dim name tp =>
    match typevars name with
    | some bound =>
      if bound.get_ndim = 0 then
        .error (.invalid_argument [.text "The substitution for dynd typevar ", .type (.typevar_dim name tp), .text ", ",
          .type bound, .text ", is a dtype, expected a dimension"])
      else if !concrete || !bound.is_symbolic then
        match bound with
        | .fixed_dim_kind _ => .fixed_dim_kind <$> substitute tp
        | .fixed_dim n _ => .fixed_dim n <$> substitute tp
        | .var_dim _ => .var_dim <$> substitute tp
        | _ => .error (.invalid_argument [.text "The substitution for dynd typevar ", .type (.typevar_dim name tp),
            .text ", ", .type bound, .text ", is not a substitutable dimension type"])
      else .error (not_concrete (.type (.typevar_dim name tp)) bound)
    | none => if concrete then .error (not_available (.typevar_dim name tp)) else .typevar_dim name <$> substitute tp
  | .pow_dimsym base_tp exponent_name tp => do
    let (exponent, exponent_name) ← pow_exponent typevars concrete exponent_name
    if exponent = 0 then substitute tp
    else
      let base_tp ← pow_base typevars concrete base_tp
      let result ← substitute tp
      pow_result concrete base_tp exponent exponent_name result
  | .ellipsis_dim (some name) tp =>
    match typevars name with
    | some (.dim_fragment tagged_dims) => apply_to_dtype tagged_dims <$> substitute tp
    | some bound => .error (.invalid_argument [.text "The substitution for dynd typevar ",
        .type (.ellipsis_dim (some name) tp), .text ", ", .type bound, .text ", is not a dim fragment as required"])
    | none =>
      if concrete then .error (not_available (.ellipsis_dim (some name) tp))
      else .ellipsis_dim (some name) <$> substitute tp
  | .ellipsis_dim none _ => .error (.invalid_argument [.text "Cannot substitute into an unnamed ellipsis typevar"])
  | .any_sym =>
    if concrete then
      .error (.invalid_argument [.text "The dynd type ", .type .any_sym, .text " is not concrete as required"])
    else .ok .any_sym
  | .kind name => .error (unsupported (.kind name))
  | .dim_fragment tagged_dims => .error (unsupported (.dim_fragment tagged_dims))

def substitute_type_array : List Ty → Except SubstituteError (List Ty)
  | [] => .ok []
  | tp :: tps => do
    let tp ← substitute tp
    let tps ← substitute_type_array tps
    return tp :: tps
end
end

/-! ### What a substitution leaves -/

section
variable {typevars : Typevars}

theorem substitute_type_array_ok {concrete : Bool} {tps rs : List Ty} :
    substitute_type_array typevars concrete tps = .ok rs ↔
      List.Forall₂ (fun tp r => substitute typevars concrete tp = .ok r) tps rs := by
  induction tps generalizing rs with
  | nil =>
    simp only [substitute_type_array, Except.ok.injEq, List.forall₂_nil_left_iff]
    exact eq_comm
  | cons tp tps ih =>
    simp only [substitute_type_array, bind_eq_ok, pure_eq_ok, Except.ok.injEq, List.forall₂_cons_left_iff, ih]
    constructor
    · rintro ⟨r, hr, rs, hrs, rfl⟩
      exact ⟨r, rs, hr, hrs, rfl⟩
    · rintro ⟨r, rs, hr, hrs, rfl⟩
      exact ⟨r, hr, rs, hrs, rfl⟩

theorem unless_concrete_of_skipped {pattern : Ty} {x : Except SubstituteError Ty} (hs : pattern.is_symbolic = false)
    (ha : pattern.is_arrfunc = false) : unless_concrete pattern x = .ok pattern := by
  simp [unless_concrete, hs, ha]

/-- A type without the flag is its own substitution. -/
theorem substitute_of_not_symbolic {concrete : Bool} {pattern : Ty} (hs : pattern.is_symbolic = false)
    (ha : pattern.is_arrfunc = false) : substitute typevars concrete pattern = .ok pattern := by
  cases pattern <;> first
    | rfl
    | (rw [substitute]; exact unless_concrete_of_skipped hs ha)
    | simp [is_symbolic] at hs

theorem make_arrfunc_ok {pos kwd ret r : Ty} (h : make_arrfunc pos kwd ret = .ok r) : r = .arrfunc pos kwd ret := by
  unfold make_arrfunc at h
  split at h <;> cases h
  rfl

/-! The places that a substitution goes through, and what it puts there as it is. -/

/-- The parts of a pattern that `substitute` is called on. -/
def substituted (typevars : Typevars) (pattern : Ty) : List Ty :=
  if !pattern.is_symbolic && !pattern.is_arrfunc then []
  else match pattern with
    | .typevar_constructed name arg => if typevars name matches some .void then [arg] else []
    | .pow_dimsym _ _ tp => [tp]
    | _ => pattern.children

theorem mem_children_of_substituted {pattern c : Ty} (hc : c ∈ substituted typevars pattern) : c ∈ pattern.children := by
  unfold substituted at hc
  split_ifs at hc
  · simp at hc
  split at hc
  · split_ifs at hc
    · exact hc
    · simp at hc
  · rw [children]
    exact List.mem_cons_of_mem _ hc
  · exact hc

/-- At this place the substitution puts something with a symbolic part. -/
def KeepsSymbolic (typevars : Typevars) (pattern : Ty) : Prop :=
  if !pattern.is_symbolic && !pattern.is_arrfunc then ¬ pattern.Concrete
  else match pattern with
    | .c_contiguous _ => True
    | .typevar name => ∃ tp, typevars name = some tp ∧ ¬ tp.Concrete
    | .typevar_constructed name _ => ∃ tp, typevars name = some tp ∧ tp ≠ .void ∧ ¬ tp.Concrete
    | .ellipsis_dim (some name) _ =>
      ∃ tagged_dims, typevars name = some (.dim_fragment tagged_dims) ∧ dim_fragment_fixed_sym ∈ applied_dims tagged_dims
    | _ => False

/-- A pow dim whose exponent is a size, and whose base does not stand for another typevar. -/
def PowSettled (typevars : Typevars) : Ty → Prop
  | .pow_dimsym base_tp exponent _ =>
    (∃ n tp, typevars exponent = some (.fixed_dim n tp) ∧ 0 ≤ n) ∧
      ∀ name tp, base_tp = .typevar_dim name tp → ∀ name' tp', typevars name ≠ some (.typevar_dim name' tp')
  | _ => True

/-- Outside function prototypes only `C[...]` and `Fixed` dims are symbolic by themselves. -/
def MarksOnly (tp : Ty) : Prop :=
  Everywhere open_children (fun q => q.own_symbolic = true → q matches .c_contiguous _ | .fixed_dim_kind _) tp

theorem marksOnly_iff (tp : Ty) : MarksOnly tp ↔
    (tp.own_symbolic = true → tp matches .c_contiguous _ | .fixed_dim_kind _) ∧ ∀ c ∈ tp.open_children, MarksOnly c :=
  everywhere_iff

theorem marksOnly_of_not_symbolic {tp : Ty} (h : tp.is_symbolic = false) : MarksOnly tp := by
  refine Everywhere.mono ((is_symbolic_iff_levels tp).mp h) ?_
  intro q (hq : q.own_symbolic = false) (hown : q.own_symbolic = true)
  rw [hq] at hown
  contradiction

@[simp] theorem marksOnly_fixed_dim {n : Int} {tp : Ty} : MarksOnly (.fixed_dim n tp) ↔ MarksOnly tp := by
  simp [marksOnly_iff (.fixed_dim n tp), own_symbolic, open_children, is_arrfunc, children]

@[simp] theorem marksOnly_fixed_dim_kind {tp : Ty} : MarksOnly (.fixed_dim_kind tp) ↔ MarksOnly tp := by
  simp [marksOnly_iff (.fixed_dim_kind tp), open_children, is_arrfunc, children]

@[simp] theorem marksOnly_var_dim {tp : Ty} : MarksOnly (.var_dim tp) ↔ MarksOnly tp := by
  simp [marksOnly_iff (.var_dim tp), own_symbolic, open_children, is_arrfunc, children]

@[simp] theorem marksOnly_option {tp : Ty} : MarksOnly (.option tp) ↔ MarksOnly tp := by
  simp [marksOnly_iff (.option tp), own_symbolic, open_children, is_arrfunc, children]

@[simp] theorem marksOnly_pointer {tp : Ty} : MarksOnly (.pointer tp) ↔ MarksOnly tp := by
  simp [marksOnly_iff (.pointer tp), own_symbolic, open_children, is_arrfunc, children]

@[simp] theorem marksOnly_c_contiguous {tp : Ty} : MarksOnly (.c_contiguous tp) ↔ MarksOnly tp := by
  simp [marksOnly_iff (.c_contiguous tp), open_children, is_arrfunc, children]

@[simp] theorem marksOnly_tuple {tps : List Ty} : MarksOnly (.tuple tps false) ↔ ∀ tp ∈ tps, MarksOnly tp := by
  simp [marksOnly_iff (.tuple tps false), own_symbolic, open_children, is_arrfunc, children]

@[simp] theorem marksOnly_struct {names : List String} {tps : List Ty} :
    MarksOnly (.struct names tps false) ↔ ∀ tp ∈ tps, MarksOnly tp := by
  simp [marksOnly_iff (.struct names tps false), own_symbolic, open_children, is_arrfunc, children]

theorem marksOnly_arrfunc (pos kwd ret : Ty) : MarksOnly (.arrfunc pos kwd ret) :=
  marksOnly_of_not_symbolic rfl

/-! Dimensions put on in a row. -/

theorem concrete_apply_to_dtype {tagged_dims : List Int} {tp : Ty} :
    (apply_to_dtype tagged_dims tp).Concrete ↔ dim_fragment_fixed_sym ∉ applied_dims tagged_dims ∧ tp.Concrete := by
  unfold apply_to_dtype
  induction applied_dims tagged_dims with
  | nil => simp
  | cons d dims ih =>
    rw [List.foldr_cons, List.mem_cons, apply_tagged_dim]
    by_cases hv : d = dim_fragment_var
    · have hd : dim_fragment_fixed_sym ≠ d := by
        rw [hv]
        decide
      rw [if_pos hv, concrete_var_dim, ih]
      simp [hd]
    · by_cases hs : d = dim_fragment_fixed_sym
      · simp [hs, show dim_fragment_fixed_sym ≠ dim_fragment_var by decide]
      · rw [if_neg hv, if_neg hs, concrete_fixed_dim, ih]
        simp [Ne.symm hs]

theorem marksOnly_apply_to_dtype {tagged_dims : List Int} {tp : Ty} :
    MarksOnly (apply_to_dtype tagged_dims tp) ↔ MarksOnly tp := by
  unfold apply_to_dtype
  induction applied_dims tagged_dims with
  | nil => rfl
  | cons d dims ih =>
    rw [List.foldr_cons, apply_tagged_dim]
    split_ifs
    · rw [marksOnly_var_dim, ih]
    · rw [marksOnly_fixed_dim_kind, ih]
    · rw [marksOnly_fixed_dim, ih]

/-- A property that a dimension passes on is passed on by a row of them. -/
theorem iterate_iff {p : Ty → Prop} {dim : Ty → Ty} (hp : ∀ tp, p (dim tp) ↔ p tp) (n : Nat) (tp : Ty) :
    p (dim^[n] tp) ↔ p tp := by
  induction n with
  | zero => rfl
  | succ n ih => rw [Function.iterate_succ_apply', hp, ih]

/-! One place of the pattern at a time. -/

/-- What a substitution with `concrete` says about its result. -/
structure Leaves (typevars : Typevars) (pattern r : Ty) : Prop where
  concrete_iff : r.Concrete ↔ Everywhere (substituted typevars) (fun q => ¬ KeepsSymbolic typevars q) pattern
  marksOnly : MarksOnly r

/-- A type without the flag stays as it is. -/
theorem leaves_skipped {pattern : Ty} (hs : pattern.is_symbolic = false) (ha : pattern.is_arrfunc = false) :
    Leaves typevars pattern pattern := by
  refine ⟨?_, marksOnly_of_not_symbolic hs⟩
  rw [everywhere_iff]
  simp [substituted, KeepsSymbolic, hs, ha]

/-- A place with one part, that puts nothing there but what the part leaves. -/
theorem leaves_of_part {pattern tp r r' : Ty} (hnext : substituted typevars pattern = [tp])
    (hkeep : ¬ KeepsSymbolic typevars pattern) (hc : r.Concrete ↔ r'.Concrete) (hm : MarksOnly r ↔ MarksOnly r')
    (h : Leaves typevars tp r') : Leaves typevars pattern r := by
  refine ⟨?_, hm.mpr h.marksOnly⟩
  rw [hc, h.concrete_iff, everywhere_iff (t := pattern), hnext]
  simp [hkeep]

/-- A place without parts, where a type takes the place of the pattern. -/
theorem leaves_of_bound {pattern tp : Ty} (hnext : substituted typevars pattern = [])
    (hkeep : KeepsSymbolic typevars pattern ↔ ¬ tp.Concrete) (hs : tp.is_symbolic = false) :
    Leaves typevars pattern tp := by
  refine ⟨?_, marksOnly_of_not_symbolic hs⟩
  rw [everywhere_iff, hnext, hkeep]
  simp

/-- A place where something symbolic is put. -/
theorem leaves_of_keeps {pattern r : Ty} (hkeep : KeepsSymbolic typevars pattern) (hc : ¬ r.Concrete) (hm : MarksOnly r) :
    Leaves typevars pattern r :=
  ⟨⟨fun h => absurd h hc, fun h => absurd hkeep h.here⟩, hm⟩

theorem pow_exponent_settled {base_tp tp : Ty} {exponent : String} {x : Int × String}
    (hp : PowSettled typevars (.pow_dimsym base_tp exponent tp)) (h : pow_exponent typevars true exponent = .ok x) :
    0 ≤ x.1 := by
  obtain ⟨⟨n, bound, hbound, hn⟩, _⟩ := hp
  simp only [pow_exponent, hbound, Except.ok.injEq] at h
  rw [← h]
  exact hn

/-- The base that is swapped in is not a typevar dim. -/
theorem pow_base_settled {base_tp base' tp : Ty} {exponent : String}
    (hp : PowSettled typevars (.pow_dimsym base_tp exponent tp)) (h : pow_base typevars true base_tp = .ok base') :
    ∀ name tp', base' ≠ .typevar_dim name tp' := by
  intro name tp'
  cases base_tp with
  | typevar_dim name₀ tp₀ =>
    simp only [pow_base] at h
    cases hbound : typevars name₀ with
    | none => simp [hbound] at h
    | some bound =>
      simp only [hbound] at h
      split_ifs at h
      cases h
      rintro rfl
      exact hp.2 name₀ tp₀ rfl name tp' hbound
  | _ =>
    cases h
    simp

theorem leaves_pow {base_tp tp r : Ty} {exponent : String} (hp : PowSettled typevars (.pow_dimsym base_tp exponent tp))
    (ih : ∀ r', substitute typevars true tp = .ok r' → Leaves typevars tp r')
    (h : substitute typevars true (.pow_dimsym base_tp exponent tp) = .ok r) :
    Leaves typevars (.pow_dimsym base_tp exponent tp) r := by
  have hnext : substituted typevars (.pow_dimsym base_tp exponent tp) = [tp] := rfl
  have hkeep : ¬ KeepsSymbolic typevars (.pow_dimsym base_tp exponent tp) := id
  simp only [substitute, bind_eq_ok] at h
  obtain ⟨⟨n, name⟩, hexp, h⟩ := h
  have hn : 0 ≤ n := pow_exponent_settled hp hexp
  dsimp only at h
  split_ifs at h
  · exact leaves_of_part hnext hkeep Iff.rfl Iff.rfl (ih r h)
  simp only [bind_eq_ok] at h
  obtain ⟨base', hbase, r', hr', h⟩ := h
  have hdim := pow_base_settled hp hbase
  unfold pow_result at h
  rw [if_neg (by omega)] at h
  split at h
  · simp at h
  · cases h
    exact leaves_of_part hnext hkeep (iterate_iff (fun _ => concrete_fixed_dim) _ _)
      (iterate_iff (fun _ => marksOnly_fixed_dim) _ _) (ih r' hr')
  · cases h
    exact leaves_of_part hnext hkeep (iterate_iff (fun _ => concrete_var_dim) _ _)
      (iterate_iff (fun _ => marksOnly_var_dim) _ _) (ih r' hr')
  · exact absurd rfl (hdim _ _)
  · simp at h

theorem leaves_typevar_dim {tp r : Ty} {name : String}
    (ih : ∀ r', substitute typevars true tp = .ok r' → Leaves typevars tp r')
    (h : substitute typevars true (.typevar_dim name tp) = .ok r) : Leaves typevars (.typevar_dim name tp) r := by
  have hnext : substituted typevars (.typevar_dim name tp) = [tp] := rfl
  have hkeep : ¬ KeepsSymbolic typevars (.typevar_dim name tp) := id
  rw [substitute] at h
  split at h
  · rename_i bound hbound
    split_ifs at h with h0 hc
    simp only [Bool.not_true, Bool.false_or, Bool.not_eq_true'] at hc
    split at h
    · simp [is_symbolic] at hc
    · obtain ⟨r', hr', rfl⟩ := map_eq_ok.mp h
      exact leaves_of_part hnext hkeep concrete_fixed_dim marksOnly_fixed_dim (ih r' hr')
    · obtain ⟨r', hr', rfl⟩ := map_eq_ok.mp h
      exact leaves_of_part hnext hkeep concrete_var_dim marksOnly_var_dim (ih r' hr')
    · cases h
  · simp at h

theorem leaves_ellipsis {tp r : Ty} {name : Option String}
    (ih : ∀ r', substitute typevars true tp = .ok r' → Leaves typevars tp r')
    (h : substitute typevars true (.ellipsis_dim name tp) = .ok r) : Leaves typevars (.ellipsis_dim name tp) r := by
  cases name with
  | none => simp [substitute] at h
  | some name =>
    rw [substitute] at h
    split at h
    · rename_i dims hbound
      obtain ⟨r', hr', rfl⟩ := map_eq_ok.mp h
      have hm : MarksOnly (apply_to_dtype dims r') ↔ MarksOnly r' := marksOnly_apply_to_dtype
      by_cases hs : dim_fragment_fixed_sym ∈ applied_dims dims
      · apply leaves_of_keeps
        · exact ⟨dims, hbound, hs⟩
        · rw [concrete_apply_to_dtype]
          exact fun hc => hc.1 hs
        · exact hm.mpr (ih r' hr').marksOnly
      · apply leaves_of_part rfl _ _ hm (ih r' hr')
        · rintro ⟨dims', hbound', hs'⟩
          rw [hbound] at hbound'
          cases hbound'
          exact hs hs'
        · rw [concrete_apply_to_dtype]
          exact and_iff_right hs
    · cases h
    · simp at h

theorem substitute_typevar_ok {pattern r : Ty} {name : String}
    (h : substitute_typevar typevars true pattern name = .ok r) : typevars name = some r ∧ r.is_symbolic = false := by
  rw [substitute_typevar] at h
  split at h
  · rename_i bound hbound
    split_ifs at h with h0 hc
    cases h
    exact ⟨hbound, by simpa using hc⟩
  · simp at h

theorem leaves_typevar_constructed {arg r : Ty} {name : String}
    (ih : typevars name = some .void → ∀ r', substitute typevars true arg = .ok r' → Leaves typevars arg r')
    (h : substitute typevars true (.typevar_constructed name arg) = .ok r) :
    Leaves typevars (.typevar_constructed name arg) r := by
  rw [substitute] at h
  split at h
  · cases h
  · rename_i hbound
    apply leaves_of_part _ _ Iff.rfl Iff.rfl (ih hbound r h)
    · simp [substituted, is_symbolic, hbound]
    · rintro ⟨tp, htp, hv, _⟩
      rw [hbound] at htp
      cases htp
      exact hv rfl
  · rename_i bound hv hbound
    obtain ⟨hr, hs⟩ := substitute_typevar_ok h
    have hne : r ≠ .void := by
      rintro rfl
      exact hv (Option.some.inj (hbound.symm.trans hr))
    apply leaves_of_bound _ _ hs
    · simp [substituted, is_symbolic, hr, hne]
    · constructor
      · rintro ⟨tp, htp, _, hc⟩
        rw [hr] at htp
        cases htp
        exact hc
      · exact fun hc => ⟨r, hr, hne, hc⟩

/-- The result of a list of fields is what each of them leaves. -/
theorem leaves_fields {pattern r : Ty} {tps rs : List Ty} (hnext : substituted typevars pattern = tps)
    (hkeep : ¬ KeepsSymbolic typevars pattern) (hc : r.Concrete ↔ ∀ tp ∈ rs, tp.Concrete)
    (hm : MarksOnly r ↔ ∀ tp ∈ rs, MarksOnly tp) (h : List.Forall₂ (fun tp r' => Leaves typevars tp r') tps rs) :
    Leaves typevars pattern r := by
  have hall : (∀ tp ∈ rs, tp.Concrete) ↔
      ∀ tp ∈ tps, Everywhere (substituted typevars) (fun q => ¬ KeepsSymbolic typevars q) tp := by
    clear hnext hc hm
    induction h with
    | nil => simp
    | cons hl _ ih => rw [List.forall_mem_cons, List.forall_mem_cons, hl.concrete_iff, ih]
  have hmarks : ∀ tp ∈ rs, MarksOnly tp := by
    clear hnext hc hm hall
    induction h with
    | nil => simp
    | cons hl _ ih =>
      rw [List.forall_mem_cons]
      exact ⟨hl.marksOnly, ih⟩
  refine ⟨?_, hm.mpr hmarks⟩
  rw [hc, hall, everywhere_iff (t := pattern), hnext]
  exact (and_iff_right hkeep).symm

theorem substitute_type_array_leaves {pattern : Ty} {tps rs : List Ty} (hnext : substituted typevars pattern = tps)
    (ih : ∀ c ∈ substituted typevars pattern, ∀ r', substitute typevars true c = .ok r' → Leaves typevars c r')
    (h : substitute_type_array typevars true tps = .ok rs) :
    List.Forall₂ (fun tp r' => Leaves typevars tp r') tps rs := by
  rw [hnext] at ih
  have hfields := substitute_type_array_ok.mp h
  clear hnext h
  induction hfields with
  | nil => exact .nil
  | cons hr _ ih' =>
    rw [List.forall_mem_cons] at ih
    exact .cons (ih.1 _ hr) (ih' ih.2)

/-- What a successful substitution with `concrete` leaves, for every pattern with settled pow dims. -/
theorem substitute_leaves {pattern r : Ty} (hpow : Everywhere (substituted typevars) (PowSettled typevars) pattern)
    (h : substitute typevars true pattern = .ok r) : Leaves typevars pattern r := by
  induction pattern using children_induction generalizing r with
  | step pattern ih =>
    by_cases hskip : pattern.is_symbolic = false ∧ pattern.is_arrfunc = false
    · rw [substitute_of_not_symbolic hskip.1 hskip.2] at h
      cases h
      exact leaves_skipped hskip.1 hskip.2
    have hcheck : (!pattern.is_symbolic && !pattern.is_arrfunc) = false := by
      rcases not_and_or.mp hskip with hs | ha
      · simp [Bool.eq_true_of_not_eq_false hs]
      · simp [Bool.eq_true_of_not_eq_false ha]
    have hunless : ∀ x, unless_concrete pattern x = x := by
      intro x
      simp [unless_concrete, hcheck]
    have hin : ∀ c ∈ substituted typevars pattern, ∀ r', substitute typevars true c = .ok r' → Leaves typevars c r' := by
      intro c hc r' hr'
      exact ih c (mem_children_of_substituted hc) (hpow.below hc) hr'
    cases pattern with
    | void => exact absurd ⟨rfl, rfl⟩ hskip
    | scalar name => exact absurd ⟨rfl, rfl⟩ hskip
    | kind name => simp [substitute] at h
    | any_sym => simp [substitute] at h
    | dim_fragment dims => simp [substitute] at h
    | fixed_dim_kind tp => simp [substitute] at h
    | typevar name =>
      obtain ⟨hr, hs⟩ := substitute_typevar_ok h
      apply leaves_of_bound rfl _ hs
      constructor
      · rintro ⟨tp, htp, hc⟩
        rw [hr] at htp
        cases htp
        exact hc
      · exact fun hc => ⟨r, hr, hc⟩
    | typevar_dim name tp => exact leaves_typevar_dim (hin tp (by simp [substituted, children, is_symbolic])) h
    | typevar_constructed name arg =>
      apply leaves_typevar_constructed _ h
      intro hv
      exact hin arg (by simp [substituted, is_symbolic, hv])
    | pow_dimsym base_tp exponent tp =>
      exact leaves_pow hpow.here (hin tp (by simp [substituted, is_symbolic])) h
    | ellipsis_dim name tp => exact leaves_ellipsis (hin tp (by simp [substituted, children, is_symbolic])) h
    | c_contiguous tp =>
      simp only [substitute, bind_eq_ok] at h
      obtain ⟨r', hr', h⟩ := h
      rw [make_c_contiguous] at h
      split_ifs at h
      cases h
      have hkeep : KeepsSymbolic typevars (.c_contiguous tp) := trivial
      apply leaves_of_keeps hkeep not_concrete_c_contiguous
      rw [marksOnly_c_contiguous]
      exact (hin tp (by simp [substituted, children, is_symbolic]) r' hr').marksOnly
    | fixed_dim n tp =>
      rw [substitute, hunless] at h
      obtain ⟨r', hr', rfl⟩ := map_eq_ok.mp h
      have hnext : substituted typevars (.fixed_dim n tp) = [tp] := by simp [substituted, hcheck, children]
      apply leaves_of_part hnext _ concrete_fixed_dim marksOnly_fixed_dim (hin tp (by simp [hnext]) r' hr')
      simp [KeepsSymbolic, hcheck]
    | var_dim tp =>
      rw [substitute, hunless] at h
      obtain ⟨r', hr', rfl⟩ := map_eq_ok.mp h
      have hnext : substituted typevars (.var_dim tp) = [tp] := by simp [substituted, hcheck, children]
      apply leaves_of_part hnext _ concrete_var_dim marksOnly_var_dim (hin tp (by simp [hnext]) r' hr')
      simp [KeepsSymbolic, hcheck]
    | pointer tp =>
      rw [substitute, hunless] at h
      obtain ⟨r', hr', rfl⟩ := map_eq_ok.mp h
      have hnext : substituted typevars (.pointer tp) = [tp] := by simp [substituted, hcheck, children]
      apply leaves_of_part hnext _ concrete_pointer marksOnly_pointer (hin tp (by simp [hnext]) r' hr')
      simp [KeepsSymbolic, hcheck]
    | option tp =>
      rw [substitute, hunless] at h
      obtain ⟨r', hr', h⟩ := bind_eq_ok.mp h
      rw [make_option] at h
      split_ifs at h
      cases h
      have hnext : substituted typevars (.option tp) = [tp] := by simp [substituted, hcheck, children]
      apply leaves_of_part hnext _ concrete_option marksOnly_option (hin tp (by simp [hnext]) r' hr')
      simp [KeepsSymbolic, hcheck]
    | tuple tps variadic =>
      rw [substitute, hunless] at h
      obtain ⟨rs, hrs, rfl⟩ := map_eq_ok.mp h
      have hnext : substituted typevars (.tuple tps variadic) = tps := by simp [substituted, hcheck, children]
      apply leaves_fields hnext _ concrete_tuple marksOnly_tuple (substitute_type_array_leaves hnext hin hrs)
      simp [KeepsSymbolic, hcheck]
    | struct names tps variadic =>
      rw [substitute, hunless] at h
      obtain ⟨rs, hrs, rfl⟩ := map_eq_ok.mp h
      have hnext : substituted typevars (.struct names tps variadic) = tps := by simp [substituted, hcheck, children]
      apply leaves_fields hnext _ concrete_struct marksOnly_struct (substitute_type_array_leaves hnext hin hrs)
      simp [KeepsSymbolic, hcheck]
    | arrfunc pos kwd ret =>
      simp only [substitute, bind_eq_ok] at h
      obtain ⟨pos', hpos, kwd', hkwd, ret', hret, h⟩ := h
      have hr : r = .arrfunc pos' kwd' ret' := make_arrfunc_ok h
      subst hr
      refine ⟨?_, marksOnly_arrfunc _ _ _⟩
      have hnext : substituted typevars (.arrfunc pos kwd ret) = [pos, kwd, ret] := rfl
      have hkeep : ¬ KeepsSymbolic typevars (.arrfunc pos kwd ret) := id
      have hp := (hin pos (by simp [hnext]) pos' hpos).concrete_iff
      have hk := (hin kwd (by simp [hnext]) kwd' hkwd).concrete_iff
      have ht := (hin ret (by simp [hnext]) ret' hret).concrete_iff
      rw [concrete_arrfunc, hp, hk, ht, everywhere_iff (t := Ty.arrfunc pos kwd ret), hnext]
      simp [hkeep]

end

/-- The names bound for `M**N * T` to give `8 * 8 * 8 * int32`. -/
def cubeTypevars : Typevars
  | "M" => some (.fixed_dim 8 .void)
  | "N" => some (.fixed_dim 3 .void)
  | "T" => some (.scalar "int32")
  | _ => none

end Dynd
