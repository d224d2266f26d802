import Dynd.Multidispatch
/-!
# The two selections of multiple dispatch

A call of an `old_multidispatch` arrfunc first resolves its destination type
(`old_multidispatch_ck::resolve_dst_type`) and then makes the kernel
(`old_multidispatch_ck::instantiate`). Each looks for the child on its own.
-/
namespace Dynd.Multidispatch.old_multidispatch_ck
open Lib

inductive message_part (E : Type) where
  | text (text : String)
  | type (tp : type E)

/-- `outside` stands for a source type that is read behind the last of them. -/
inductive error (E : Type) where
  | type_error (what : List (message_part E))
  | invalid_argument (what : String)
  | outside

section
variable {E V F : Type} [DecidableEq E] [base_type E V]

/-! ## The destination type -/

/-- The input types in the message, with commas between them. -/
def input_types : List (type E) → List (message_part E)
  | [] => []
  | [tp] => [.type tp]
  | tp :: tps => .type tp :: .text ", " :: input_types tps

def no_suitable_signature (src_tp : List (type E)) : error E :=
  .type_error ([.text "Failed to find suitable signature in multidispatch resolution with input types ("] ++
    input_types src_tp ++ [.text ")"])

/-- As many parameters as sources, and every source converts. -/
def suitable (src_tp : List (type E)) (child : arrfunc E F) : Bool :=
  src_tp.length = child.get_npos && accepts src_tp child.tp.pos_types (base_type.no_typevars E)

/-- The loop of `resolve_dst_type`, up to the child whose type is taken. -/
def resolve_child (icd : List (arrfunc E F)) (src_tp : List (type E)) : Except (error E) (arrfunc E F) :=
  match icd.find? (suitable src_tp) with
  | some child => .ok child
  | none => .error (no_suitable_signature src_tp)

/-- `child_resolve` is the child's own `resolve_dst_type`. -/
def child_dst_type (child_resolve : arrfunc E F → List (type E) → Except (error E) (type E)) (child : arrfunc E F)
    (src_tp : List (type E)) : Except (error E) (type E) :=
  if child.tp.return_type.is_symbolic then child_resolve child src_tp else .ok child.tp.return_type

def resolve_dst_type (child_resolve : arrfunc E F → List (type E) → Except (error E) (type E)) (icd : List (arrfunc E F))
    (src_tp : List (type E)) : Except (error E) (type E) := do
  let child ← resolve_child icd src_tp
  child_dst_type child_resolve child src_tp

/-! ## The kernel -/

/-- The loop over the parameters of a child, however many sources there are. -/
def converted : List (type E) → List (type E) → V → Except (error E) Bool
  | _, [], _ => .ok true
  | [], _ :: _, _ => .error .outside
  | src_tp :: src_tps, pos_tp :: pos_tps, typevars =>
    let (converts, typevars) := can_implicitly_convert src_tp pos_tp typevars
    if converts then converted src_tps pos_tps typevars else .ok false

/-- The loop of `instantiate`, up to the child that is instantiated. -/
def instantiate_child : List (arrfunc E F) → List (type E) → Except (error E) (arrfunc E F)
  | [], _ => .error (.invalid_argument "No matching signature found in multidispatch arrfunc")
  | af :: rest, src_tp => do
    let all ← converted src_tp af.tp.pos_types (base_type.no_typevars E)
    if all then return af else instantiate_child rest src_tp

/-- The child gets as many sources as it has parameters. -/
def instantiate (icd : List (arrfunc E F)) (src_tp : List (type E)) : Except (error E) (ckernel E F) := do
  let af ← instantiate_child icd src_tp
  if (src_tp.zip af.tp.pos_types).all fun (src, arg_tp) => arg_tp.is_symbolic || src = arg_tp then return .direct af
  else return .buffered af

/-- The child that a kernel runs. -/
def child_of : ckernel E F → arrfunc E F
  | .direct child | .buffered child => child

/-! ## Agreement -/

/-- The two loops take one child, which has a parameter for each source, or both report that there is none. -/
def SameChild (icd : List (arrfunc E F)) (src_tp : List (type E)) : Prop :=
  (∃ child, resolve_child icd src_tp = .ok child ∧ instantiate_child icd src_tp = .ok child ∧
      child.get_npos = src_tp.length) ∨
    (resolve_child icd src_tp = .error (no_suitable_signature src_tp) ∧
      instantiate_child icd src_tp = .error (.invalid_argument "No matching signature found in multidispatch arrfunc"))

/-- The loops end alike, and the destination type is that of the child that runs. -/
structure Agreement (icd : List (arrfunc E F)) (src_tp : List (type E)) : Prop where
  selection : SameChild icd src_tp
  destination : ∀ child_resolve dst_tp, resolve_dst_type child_resolve icd src_tp = .ok dst_tp →
    ∃ ck, instantiate icd src_tp = .ok ck ∧ child_dst_type child_resolve (child_of ck) src_tp = .ok dst_tp ∧
      (child_of ck).get_npos = src_tp.length

/-- The sources convert to the parameters, as far as there are both. -/
def begins (src_tp : List (type E)) (child : arrfunc E F) : Bool :=
  accepts (src_tp.take child.get_npos) (child.tp.pos_types.take src_tp.length) (base_type.no_typevars E)

variable {icd rest : List (arrfunc E F)} {src_tp : List (type E)} {child : arrfunc E F}

/-- Where the loop over the parameters ends. -/
theorem converted_eq (src_tp pos_tp : List (type E)) (typevars : V) : converted src_tp pos_tp typevars =
    if accepts (src_tp.take pos_tp.length) (pos_tp.take src_tp.length) typevars then
      if pos_tp.length ≤ src_tp.length then .ok true else .error .outside
    else .ok false := by
  fun_induction converted src_tp pos_tp typevars with
  | case1 => simp [accepts]
  | case2 => simp [accepts]
  | case3 src_tp src_tps pos_tp pos_tps typevars typevars' hconvert ih => simp [accepts, hconvert, ih]
  | case4 src_tp src_tps pos_tp pos_tps typevars converts typevars' hconvert hconverts => simp [accepts, hconvert, hconverts]

theorem suitable_eq (h : child.get_npos = src_tp.length) : suitable src_tp child = begins src_tp child := by
  have hlen : child.tp.pos_types.length = src_tp.length := h
  rw [suitable, begins, decide_eq_true h.symm, Bool.true_and, h, List.take_length, ← hlen, List.take_length]

theorem not_suitable (h : child.get_npos ≠ src_tp.length) : suitable src_tp child = false := by
  rw [suitable, decide_eq_false h.symm, Bool.false_and]

/-! ### One child after the other -/

theorem instantiate_child_stops (h : begins src_tp child = false) :
    instantiate_child (child :: rest) src_tp = instantiate_child rest src_tp := by
  have hconverted := converted_eq src_tp child.tp.pos_types (base_type.no_typevars E)
  rw [if_neg (by simpa [begins, arrfunc.get_npos] using h)] at hconverted
  rw [instantiate_child, hconverted]
  rfl

theorem instantiate_child_takes (h : begins src_tp child = true) (hle : child.get_npos ≤ src_tp.length) :
    instantiate_child (child :: rest) src_tp = .ok child := by
  have hconverted := converted_eq src_tp child.tp.pos_types (base_type.no_typevars E)
  rw [if_pos (by simpa [begins, arrfunc.get_npos] using h), if_pos (by simpa [arrfunc.get_npos] using hle)] at hconverted
  rw [instantiate_child, hconverted]
  rfl

theorem instantiate_child_outside (h : begins src_tp child = true) (hlt : src_tp.length < child.get_npos) :
    instantiate_child (child :: rest) src_tp = .error .outside := by
  have hconverted := converted_eq src_tp child.tp.pos_types (base_type.no_typevars E)
  rw [if_pos (by simpa [begins, arrfunc.get_npos] using h), if_neg (by simpa [arrfunc.get_npos] using hlt)] at hconverted
  rw [instantiate_child, hconverted]
  rfl

theorem resolve_child_takes (h : suitable src_tp child = true) : resolve_child (child :: rest) src_tp = .ok child := by
  rw [resolve_child, List.find?_cons_of_pos h]

theorem resolve_child_skips (h : suitable src_tp child = false) :
    resolve_child (child :: rest) src_tp = resolve_child rest src_tp := by
  rw [resolve_child, resolve_child, List.find?_cons_of_neg (by simp [h])]

theorem npos_of_resolve_child (h : resolve_child icd src_tp = .ok child) : child.get_npos = src_tp.length := by
  rw [resolve_child] at h
  split at h
  case h_1 found hfound =>
    cases h
    have hsuitable := List.find?_some hfound
    rw [suitable, Bool.and_eq_true, decide_eq_true_iff] at hsuitable
    exact hsuitable.1.symm
  case h_2 => cases h

theorem sameChild_nil : SameChild ([] : List (arrfunc E F)) src_tp := Or.inr ⟨rfl, rfl⟩

theorem sameChild_suitable (h : suitable src_tp child = true) : SameChild (child :: rest) src_tp := by
  have htakes : resolve_child (child :: rest) src_tp = .ok child := resolve_child_takes h
  have hnpos : child.get_npos = src_tp.length := npos_of_resolve_child htakes
  left
  refine ⟨child, htakes, instantiate_child_takes ?_ hnpos.le, hnpos⟩
  rw [← suitable_eq hnpos]
  exact h

theorem sameChild_skip (hskip : suitable src_tp child = false) (hstop : begins src_tp child = false) :
    SameChild (child :: rest) src_tp ↔ SameChild rest src_tp := by
  rw [SameChild, SameChild, resolve_child_skips hskip, instantiate_child_stops hstop]

/-- A child that begins with the sources but has another number of parameters is not passed over. -/
theorem not_sameChild (hnpos : child.get_npos ≠ src_tp.length) (hbegins : begins src_tp child = true) :
    ¬ SameChild (child :: rest) src_tp := by
  intro h
  rcases Nat.lt_or_ge src_tp.length child.get_npos with hmore | hfewer
  · rw [SameChild, instantiate_child_outside hbegins hmore] at h
    rcases h with ⟨taken, -, hinstantiate, -⟩ | ⟨-, hinstantiate⟩
    · cases hinstantiate
    · cases hinstantiate
  · rw [SameChild, instantiate_child_takes hbegins hfewer] at h
    rcases h with ⟨taken, -, hinstantiate, htaken⟩ | ⟨-, hinstantiate⟩
    · cases hinstantiate
      exact hnpos htaken
    · cases hinstantiate

/-- By induction over the children, which the two loops pass in step. -/
theorem sameChild_iff : ∀ icd : List (arrfunc E F), SameChild icd src_tp ↔
    ∀ child ∈ icd.takeWhile fun child => !suitable src_tp child, child.get_npos ≠ src_tp.length → begins src_tp child = false
  | [] => by simp [sameChild_nil]
  | child :: rest => by
    cases hsuitable : suitable src_tp child with
    | true => simp [hsuitable, sameChild_suitable hsuitable]
    | false =>
      rw [List.takeWhile_cons_of_pos (by simp [hsuitable]), List.forall_mem_cons, ← sameChild_iff rest]
      cases hbegins : begins src_tp child with
      | false => simp [sameChild_skip hsuitable hbegins]
      | true =>
        have hnpos : child.get_npos ≠ src_tp.length := by
          intro heq
          rw [suitable_eq heq, hbegins] at hsuitable
          cases hsuitable
        simp [not_sameChild hnpos hbegins, hnpos]

/-- The destination type is that of the child that runs. -/
theorem agreement_of_sameChild (h : SameChild icd src_tp) : Agreement icd src_tp where
  selection := h
  destination := by
    intro child_resolve dst_tp hdst
    obtain ⟨child, hchild, hdst⟩ := Lib.bind_eq_ok.mp hdst
    rcases h with ⟨taken, hresolve, hinstantiate, hnpos⟩ | ⟨hresolve, -⟩
    · rw [hchild] at hresolve
      cases hresolve
      rw [instantiate, hinstantiate, Lib.ok_bind]
      split_ifs
      · exact ⟨_, rfl, hdst, hnpos⟩
      · exact ⟨_, rfl, hdst, hnpos⟩
    · rw [hchild] at hresolve
      cases hresolve

/-- With one arity only, the loop of `instantiate` finds what `selected` does. -/
theorem instantiate_child_of_arity (h : ∀ child ∈ icd, child.get_npos = src_tp.length) :
    (instantiate_child icd src_tp).toOption = selected icd src_tp := by
  induction icd with
  | nil => rfl
  | cons child rest ih =>
    obtain ⟨hchild, hrest⟩ := List.forall_mem_cons.mp h
    have haccepts : accepts src_tp child.tp.pos_types (base_type.no_typevars E) = begins src_tp child := by
      rw [← suitable_eq hchild, suitable, decide_eq_true hchild.symm, Bool.true_and]
    cases hbegins : begins src_tp child with
    | true =>
      have htakes : accepts src_tp child.tp.pos_types (base_type.no_typevars E) = true := haccepts.trans hbegins
      rw [instantiate_child_takes hbegins hchild.le, selected, List.find?_cons, htakes]
      rfl
    | false =>
      rw [instantiate_child_stops hbegins, ih hrest, selected, selected,
        List.find?_cons_of_neg (by simp [haccepts, hbegins])]

end

/-- The two loops agree unless a child of another arity, in front of the one that
`resolve_dst_type` takes, begins with types that the sources convert to. -/
theorem selection_agrees_iff {E V F : Type} [DecidableEq E] [base_type E V] (icd : List (arrfunc E F)) (src_tp : List (type E)) :
    Agreement icd src_tp ↔ ∀ child ∈ icd.takeWhile fun child => !suitable src_tp child,
      child.get_npos ≠ src_tp.length → begins src_tp child = false :=
  ⟨fun h => (sameChild_iff icd).mp h.selection, fun h => agreement_of_sameChild ((sameChild_iff icd).mpr h)⟩

/-- An arrfunc of two arguments. -/
def binary (id : builtin_type_id) : arrfunc Empty builtin_type_id := ⟨⟨[.builtin id, .builtin id], [], .builtin id⟩, id⟩

/-- An arrfunc of one argument and a keyword. -/
def with_keyword (id : builtin_type_id) : arrfunc Empty builtin_type_id :=
  ⟨⟨[.builtin id], [("k", .builtin id)], .builtin .void⟩, id⟩

/-- The numbers of arguments that are compared include the keywords. -/
theorem old_multidispatch_with_keyword (id : builtin_type_id) :
    old_multidispatch [binary id, with_keyword id] = .ok [with_keyword id, binary id] := by
  have hT : Topological edge [with_keyword id, binary id] := by
    simp [Topological, edge, toposort_edge, each_position, with_keyword, binary, arrfunc.get_nkwd]
  have hdistinct : Distinct [with_keyword id, binary id] := by
    simp [Distinct, edge, toposort_edge, each_position, with_keyword, binary, arrfunc.get_nkwd]
  rw [old_multidispatch_eq_ok]
  exact ⟨by simp, by simp [arrfunc.get_narg, arrfunc.get_npos, arrfunc.get_nkwd, with_keyword, binary],
    sort_arrfuncs_reverse hT hdistinct, rfl⟩

/-- The arrfunc of one argument is run on two. -/
theorem unary_run_for_two : ¬ ∀ (L icd : List (arrfunc Empty builtin_type_id)) (src_tp : List (type Empty)),
    old_multidispatch L = .ok icd → Agreement icd src_tp := by
  intro h
  have hagree := h _ _ [.builtin .int32, .builtin .int32] (old_multidispatch_with_keyword .int32)
  exact not_sameChild (by decide) rfl hagree.selection

end Dynd.Multidispatch.old_multidispatch_ck
