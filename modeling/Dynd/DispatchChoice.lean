import Dynd.Multidispatch
/-!
# The child that is selected

A multidispatch arrfunc takes the first of its sorted children that accepts the
sources. `selected_most_specific`: of all the children it was made of none that
accepts them supersedes this one, nor leads to it along the edges of the graph.
-/
namespace Dynd.Multidispatch
open Lib

section
variable {α : Type} {edge : α → α → Prop} {T : List α} {p : α → Bool} {a : α}

/-- What comes first in a topological order has nothing that passes before it. -/
theorem not_before_first (h : Topological edge T) (hfind : T.find? p = some a) {b : α} (hb : b ∈ T) (hpb : p b = true)
    (hne : b ≠ a) : ¬ Before edge T b a := by
  obtain ⟨-, pre, post, rfl, hpre⟩ := List.find?_eq_some_iff_append.mp hfind
  rw [List.mem_append, List.mem_cons] at hb
  rcases hb with hb | rfl | hb
  · have hno := hpre b hb
    rw [hpb] at hno
    cases hno
  · exact absurd rfl hne
  · exact h.not_before hb

end

section
variable {E V F : Type} [DecidableEq E] [base_type E V]

/-- The child takes sources of these types. -/
def Accepts (src_tp : List (type E)) (child : arrfunc E F) : Prop :=
  accepts src_tp child.tp.pos_types (base_type.no_typevars E) = true

/-- A child is selected whenever one accepts the sources, and it is one of the most specific. -/
theorem selected_most_specific (L T : List (arrfunc E F)) (h : old_multidispatch L = .ok T) (src_tp : List (type E)) :
    match selected T src_tp with
    | some child => child ∈ L ∧ Accepts src_tp child ∧ ∀ other ∈ L, Accepts src_tp other → other ≠ child →
        supercedes other child = false ∧ ¬ Before edge L other child
    | none => ∀ child ∈ L, ¬ Accepts src_tp child := by
  obtain ⟨-, -, hsort, -⟩ := old_multidispatch_eq_ok.mp h
  obtain ⟨hperm, htopological, -⟩ := sort_arrfuncs_ok hsort
  cases hselected : selected T src_tp with
  | none =>
    intro child hchild
    exact List.find?_eq_none.mp hselected child (hperm.mem_iff.mpr hchild)
  | some child =>
    have hmem : child ∈ L := hperm.mem_iff.mp (List.mem_of_find?_eq_some hselected)
    rw [selected] at hselected
    have hchild := List.find?_some hselected
    refine ⟨hmem, hchild, fun other hother haccepts hne => ?_⟩
    have hnot : ¬ Before edge L other child := by
      rw [← Before.perm hperm]
      exact not_before_first htopological hselected (hperm.mem_iff.mpr hother) haccepts hne
    refine ⟨?_, hnot⟩
    by_contra hsuper
    exact hnot (.single ⟨hmem, edge_of_supercedes (Bool.eq_true_of_not_eq_false hsuper)⟩)

end

theorem selected_most_specific_unary :
    unary .int16 ∈ [unary .int32, unary .int16] ∧ Accepts [.builtin .int8] (unary .int16) ∧
      ∀ other ∈ [unary .int32, unary .int16], Accepts [.builtin .int8] other → other ≠ unary .int16 →
        supercedes other (unary .int16) = false ∧ ¬ Before edge [unary .int32, unary .int16] other (unary .int16) :=
  selected_most_specific [unary .int32, unary .int16] [unary .int16, unary .int32] (old_multidispatch_unary rfl rfl)
    [.builtin .int8]

end Dynd.Multidispatch
