import Dynd.SubstituteTypevars
/-!
# Substituting nothing

A substitution without `concrete` whose map has none of the names of the pattern.
It rebuilds the pattern part by part, and throws at the parts that it has no case
for.
-/
namespace Dynd

open Lib Ty

namespace Ty

/-- The names of type variables that a type object holds itself. -/
def own_names : Ty → List String
  | typevar name | typevar_dim name _ | typevar_constructed name _ | ellipsis_dim (some name) _ => [name]
  | pow_dimsym _ exponent _ => [exponent]
  | _ => []

/-- What the constructor of the type class checks of the types it is given. -/
def own_constructible : Ty → Bool
  | option value_tp => !value_tp.is_option
  | c_contiguous child_tp => child_tp.is_fixed_dim
  | arrfunc (tuple _ _) (struct _ _ _) _ => true
  | arrfunc _ _ _ => false
  | _ => true

/-- A type that there can be. -/
def Constructible (tp : Ty) : Prop := Everywhere children (fun q => q.own_constructible = true) tp

/-- The patterns for which `internal_substitute` has an exception and no case: the kinds, a fragment
of dimensions and the ellipsis without a name. -/
def refused : Ty → Bool
  | kind _ | dim_fragment _ | ellipsis_dim none _ => true
  | _ => false

/-- The patterns that lose something: the flag of a variadic tuple or struct is not passed on, and a
constructed type goes on from the end of the map. -/
def loses : Ty → Bool
  | tuple _ variadic | struct _ _ variadic => variadic
  | typevar_constructed _ _ => true
  | _ => false

end Ty

/-- No key of the map occurs in the type. -/
def NoKey (typevars : Typevars) (tp : Ty) : Prop := Everywhere children (fun q => ∀ name ∈ q.own_names, typevars name = none) tp

variable {typevars : Typevars}

/-- No part that the substitution goes through is refused. -/
def Accepted (typevars : Typevars) (tp : Ty) : Prop := Everywhere (substituted typevars) (fun q => q.refused = false) tp

/-- The pattern comes back, or one of its parts is refused. -/
inductive Settled (typevars : Typevars) (tp : Ty) : Prop where
  | same (h : substitute typevars false tp = .ok tp) (accepted : Accepted typevars tp)
  | thrown (what : List MessagePart) (h : substitute typevars false tp = .error (.invalid_argument what))
      (refused : ¬ Accepted typevars tp)

/-- The same of the parts of a tuple, a struct or a function prototype. -/
inductive AllSettled (typevars : Typevars) (tps : List Ty) : Prop where
  | same (h : substitute_type_array typevars false tps = .ok tps) (accepted : ∀ tp ∈ tps, Accepted typevars tp)
  | thrown (what : List MessagePart) (h : substitute_type_array typevars false tps = .error (.invalid_argument what))
      (refused : ¬ ∀ tp ∈ tps, Accepted typevars tp)

theorem accepted_iff {tp : Ty} :
    Accepted typevars tp ↔ tp.refused = false ∧ ∀ c ∈ substituted typevars tp, Accepted typevars c :=
  everywhere_iff

theorem allSettled {tps : List Ty} (h : ∀ tp ∈ tps, Settled typevars tp) : AllSettled typevars tps := by
  induction tps with
  | nil => exact .same rfl (by simp)
  | cons tp tps ih =>
    rw [List.forall_mem_cons] at h
    cases h.1 with
    | thrown what htp hrefused =>
      refine .thrown what ?_ fun hall => hrefused (hall tp List.mem_cons_self)
      rw [substitute_type_array, htp, error_bind]
    | same htp haccepted =>
      cases ih h.2 with
      | same htps hall =>
        refine .same ?_ (List.forall_mem_cons.2 ⟨haccepted, hall⟩)
        rw [substitute_type_array, htp, ok_bind, htps]
        rfl
      | thrown what htps hrefused =>
        refine .thrown what ?_ fun hall => hrefused (List.forall_mem_cons.1 hall).2
        rw [substitute_type_array, htp, ok_bind, htps, error_bind]

/-- A place without parts that comes back as it is. -/
theorem settled_leaf {tp : Ty} (hnext : substituted typevars tp = []) (hrefused : tp.refused = false)
    (h : substitute typevars false tp = .ok tp) : Settled typevars tp := by
  apply Settled.same h
  rw [accepted_iff, hnext]
  exact ⟨hrefused, by simp⟩

/-- A place that is refused itself. -/
theorem settled_refused {tp : Ty} {what : List MessagePart} (hrefused : tp.refused = true)
    (h : substitute typevars false tp = .error (.invalid_argument what)) : Settled typevars tp := by
  apply Settled.thrown what h
  rw [accepted_iff, hrefused]
  simp

/-- A place with one part, which is built again from the part. -/
theorem settled_part {pattern tp : Ty} {f : Ty → Except SubstituteError Ty}
    (hnext : substituted typevars pattern = [tp]) (hrefused : pattern.refused = false)
    (h : substitute typevars false pattern = substitute typevars false tp >>= f) (hsame : f tp = .ok pattern)
    (htp : Settled typevars tp) : Settled typevars pattern := by
  have haccepted : Accepted typevars pattern ↔ Accepted typevars tp := by
    rw [accepted_iff, hnext]
    simp [hrefused]
  cases htp with
  | same htp hall => exact .same (by rw [h, htp, ok_bind, hsame]) (haccepted.2 hall)
  | thrown what htp hnone => exact .thrown what (by rw [h, htp, error_bind]) (mt haccepted.1 hnone)

theorem settled_parts {pattern : Ty} {tps : List Ty} {f : List Ty → Except SubstituteError Ty}
    (hnext : substituted typevars pattern = tps) (hrefused : pattern.refused = false)
    (h : substitute typevars false pattern = substitute_type_array typevars false tps >>= f)
    (hsame : f tps = .ok pattern) (htps : ∀ tp ∈ substituted typevars pattern, Settled typevars tp) :
    Settled typevars pattern := by
  rw [hnext] at htps
  have haccepted : Accepted typevars pattern ↔ ∀ tp ∈ tps, Accepted typevars tp := by
    rw [accepted_iff, hnext]
    simp [hrefused]
  cases allSettled htps with
  | same htps hall => exact .same (by rw [h, htps, ok_bind, hsame]) (haccepted.2 hall)
  | thrown what htps hnone => exact .thrown what (by rw [h, htps, error_bind]) (mt haccepted.1 hnone)

/-- One after the other, as the three parts of a prototype are. -/
theorem substitute_arrfunc (pos kwd ret : Ty) : substitute typevars false (.arrfunc pos kwd ret) =
    substitute_type_array typevars false [pos, kwd, ret] >>= fun tps =>
      match tps with
      | [pos, kwd, ret] => make_arrfunc pos kwd ret
      | _ => .error .undefined := by
  simp only [substitute, substitute_type_array]
  cases substitute typevars false pos with
  | error e => rfl
  | ok pos =>
    cases substitute typevars false kwd with
    | error e => rfl
    | ok kwd =>
      cases substitute typevars false ret with
      | error e => rfl
      | ok ret => rfl

theorem pow_nothing {base_tp tp : Ty} {exponent : String} (hexponent : typevars exponent = none)
    (hbase : ∀ name, name ∈ base_tp.own_names → typevars name = none) :
    substitute typevars false (.pow_dimsym base_tp exponent tp) =
      substitute typevars false tp >>= fun result => .ok (.pow_dimsym base_tp exponent result) := by
  have hpow : pow_base typevars false base_tp = .ok base_tp := by
    cases base_tp with
    | typevar_dim name inner => simp [pow_base, hbase name (by simp [own_names])]
    | _ => rfl
  simp [substitute, pow_exponent, hexponent, hpow, pow_result]

/-- Every part of the pattern settles, when no key occurs in it and nothing in it gets lost. -/
theorem settled_of_noKey {pattern : Ty} (hmade : pattern.Constructible) (hkey : NoKey typevars pattern)
    (hkeeps : Everywhere (substituted typevars) (fun q => q.loses = false) pattern) : Settled typevars pattern := by
  induction pattern using children_induction with
  | step pattern ih =>
    by_cases hskip : pattern.is_symbolic = false ∧ pattern.is_arrfunc = false
    · apply settled_leaf _ _ (substitute_of_not_symbolic hskip.1 hskip.2)
      · simp [substituted, hskip]
      · cases pattern <;> simp_all [is_symbolic, refused]
    have hcheck : (!pattern.is_symbolic && !pattern.is_arrfunc) = false := by
      rcases not_and_or.mp hskip with hs | ha
      · simp [Bool.eq_true_of_not_eq_false hs]
      · simp [Bool.eq_true_of_not_eq_false ha]
    have hunless : ∀ x, unless_concrete pattern x = x := by
      intro x
      simp [unless_concrete, hcheck]
    have hin : ∀ c ∈ substituted typevars pattern, Settled typevars c := by
      intro c hc
      have hchild := mem_children_of_substituted hc
      exact ih c hchild (hmade.below hchild) (hkey.below hchild) (hkeeps.below hc)
    have hown := hmade.here
    have hnames := hkey.here
    have hnot := hkeeps.here
    cases pattern with
    | void => exact absurd ⟨rfl, rfl⟩ hskip
    | scalar name => exact absurd ⟨rfl, rfl⟩ hskip
    | kind name => exact settled_refused rfl rfl
    | dim_fragment dims => exact settled_refused rfl rfl
    | typevar_constructed name arg => cases hnot
    | any_sym => exact settled_leaf rfl rfl rfl
    | typevar name =>
      apply settled_leaf rfl rfl
      simp [substitute, substitute_typevar, hnames name (by simp [own_names])]
    | typevar_dim name tp =>
      refine settled_part rfl rfl (f := fun tp => .ok (.typevar_dim name tp)) ?_ rfl (hin tp ?_)
      · simp only [substitute, hnames name (by simp [own_names])]
        exact map_eq_pure_bind _ _
      · simp [substituted, children, is_symbolic]
    | pow_dimsym base_tp exponent tp =>
      refine settled_part rfl rfl (pow_nothing (hnames exponent (by simp [own_names])) ?_) rfl (hin tp ?_)
      · exact (hkey.below (c := base_tp) (by simp [children])).here
      · simp [substituted, is_symbolic]
    | ellipsis_dim name tp =>
      cases name with
      | none => exact settled_refused rfl rfl
      | some name =>
        refine settled_part rfl rfl (f := fun tp => .ok (.ellipsis_dim (some name) tp)) ?_ rfl (hin tp ?_)
        · simp only [substitute, hnames name (by simp [own_names])]
          exact map_eq_pure_bind _ _
        · simp [substituted, children, is_symbolic]
    | fixed_dim_kind tp =>
      refine settled_part rfl rfl (f := fun tp => .ok (.fixed_dim_kind tp)) ?_ rfl (hin tp ?_)
      · simp only [substitute]
        exact map_eq_pure_bind _ _
      · simp [substituted, children, is_symbolic]
    | c_contiguous tp =>
      refine settled_part rfl rfl (f := make_c_contiguous) ?_ ?_ (hin tp ?_)
      · rw [substitute]
      · exact if_pos hown
      · simp [substituted, children, is_symbolic]
    | fixed_dim n tp =>
      have hnext : substituted typevars (.fixed_dim n tp) = [tp] := by simp [substituted, hcheck, children]
      refine settled_part hnext rfl (f := fun tp => .ok (.fixed_dim n tp)) ?_ rfl (hin tp (by simp [hnext]))
      rw [substitute, hunless]
      exact map_eq_pure_bind _ _
    | var_dim tp =>
      have hnext : substituted typevars (.var_dim tp) = [tp] := by simp [substituted, hcheck, children]
      refine settled_part hnext rfl (f := fun tp => .ok (.var_dim tp)) ?_ rfl (hin tp (by simp [hnext]))
      rw [substitute, hunless]
      exact map_eq_pure_bind _ _
    | pointer tp =>
      have hnext : substituted typevars (.pointer tp) = [tp] := by simp [substituted, hcheck, children]
      refine settled_part hnext rfl (f := fun tp => .ok (.pointer tp)) ?_ rfl (hin tp (by simp [hnext]))
      rw [substitute, hunless]
      exact map_eq_pure_bind _ _
    | option tp =>
      have hnext : substituted typevars (.option tp) = [tp] := by simp [substituted, hcheck, children]
      refine settled_part hnext rfl (f := make_option) ?_ ?_ (hin tp (by simp [hnext]))
      · rw [substitute, hunless]
      · rw [own_constructible, Bool.not_eq_true'] at hown
        exact if_neg (by simp [hown])
    | tuple tps variadic =>
      obtain rfl : variadic = false := hnot
      have hnext : substituted typevars (.tuple tps false) = tps := by simp [substituted, hcheck, children]
      refine settled_parts hnext rfl (f := fun tps => .ok (.tuple tps false)) ?_ rfl hin
      rw [substitute, hunless]
      exact map_eq_pure_bind _ _
    | struct names tps variadic =>
      obtain rfl : variadic = false := hnot
      have hnext : substituted typevars (.struct names tps false) = tps := by simp [substituted, hcheck, children]
      refine settled_parts hnext rfl (f := fun tps => .ok (.struct names tps false)) ?_ rfl hin
      rw [substitute, hunless]
      exact map_eq_pure_bind _ _
    | arrfunc pos kwd ret =>
      refine settled_parts rfl rfl (substitute_arrfunc pos kwd ret) ?_ hin
      cases pos <;> cases kwd <;> first
        | rfl
        | cases hown

/-- Substituting into a type whose typevars have no keys gives the type back, unless a part of it is
refused: then it throws an `invalid_argument`. -/
theorem substitute_identity (typevars : Typevars) (pattern : Ty) (hmade : pattern.Constructible)
    (hkey : NoKey typevars pattern) (hkeeps : Everywhere (substituted typevars) (fun q => q.loses = false) pattern) :
    (Accepted typevars pattern → substitute typevars false pattern = .ok pattern) ∧
    (¬ Accepted typevars pattern → ∃ what, substitute typevars false pattern = .error (.invalid_argument what)) := by
  cases settled_of_noKey hmade hkey hkeeps with
  | same h haccepted => exact ⟨fun _ => h, fun hnot => absurd haccepted hnot⟩
  | thrown what h hrefused => exact ⟨fun haccepted => absurd haccepted hrefused, fun _ => ⟨what, h⟩⟩

/-- `N * T` with only `M` bound. -/
theorem substitute_identity_dim :
    substitute (fun name => if name = "M" then some (.scalar "int32") else none) false (.typevar_dim "N" (.typevar "T")) =
      .ok (.typevar_dim "N" (.typevar "T")) := by
  refine (substitute_identity _ (.typevar_dim "N" (.typevar "T")) ?_ ?_ ?_).1 ?_
  · exact everywhere_one rfl rfl (everywhere_leaf rfl rfl)
  · exact everywhere_one rfl (by simp [own_names]) (everywhere_leaf rfl (by simp [own_names]))
  · exact everywhere_one rfl rfl (everywhere_leaf rfl rfl)
  · exact everywhere_one rfl rfl (everywhere_leaf rfl rfl)

/-- The kind pattern `Int` is refused, whatever the map has. -/
theorem kind_refused : ¬ ∀ (typevars : Typevars) (pattern : Ty), pattern.Constructible → NoKey typevars pattern →
    substitute typevars false pattern = .ok pattern := by
  intro h
  have hkind := h (fun _ => none) (.kind "Int") (everywhere_leaf rfl rfl) (everywhere_leaf rfl (by simp [own_names]))
  cases hkind

end Dynd
