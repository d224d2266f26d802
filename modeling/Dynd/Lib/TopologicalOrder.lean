import Mathlib.Data.List.Perm.Basic
import Mathlib.Logic.Relation
/-!
# Topological orders of a list

An arrangement of a list is topological when no edge leads backwards in it. What
comes before what in every topological arrangement is the transitive closure of
the edges, and so is which element with a property comes first.
-/
namespace Dynd.Lib

variable {α : Type} (edge : α → α → Prop)

/-- No later element has an edge to an earlier one. -/
def Topological (T : List α) : Prop := T.Pairwise fun a b => ¬ edge b a

/-- A path of edges to elements of `L`. -/
def Before (L : List α) : α → α → Prop := Relation.TransGen fun a b => b ∈ L ∧ edge a b

/-- If any element of `L` has the property, one of those that have it comes before all the others. -/
def Settled (L : List α) (p : α → Bool) : Prop :=
  ∀ d ∈ L, p d = true → ∃ c ∈ L, p c = true ∧ ∀ e ∈ L, p e = true → e = c ∨ Before edge L c e

variable {edge}

theorem Before.perm {L L' : List α} (h : L.Perm L') {a b : α} : Before edge L a b ↔ Before edge L' a b := by
  unfold Before
  simp only [h.mem_iff]

/-- Edges from behind an element stay behind it. -/
theorem Topological.not_edge {pre post : List α} {d a b : α} (h : Topological edge (pre ++ d :: post)) (ha : a ∈ post)
    (hb : b ∈ pre ∨ b = d) : ¬ edge a b := by
  unfold Topological at h
  rw [List.pairwise_append] at h
  rcases hb with hb | rfl
  · exact h.2.2 b hb a (List.mem_cons_of_mem _ ha)
  · exact List.rel_of_pairwise_cons h.2.1 ha

theorem Topological.stays_after {pre post : List α} {d a b : α} (h : Topological edge (pre ++ d :: post)) (ha : a ∈ post)
    (hpath : Before edge (pre ++ d :: post) a b) : b ∈ post := by
  have hstep : ∀ {x y : α}, x ∈ post → y ∈ pre ++ d :: post → edge x y → y ∈ post := by
    intro x y hx hy hxy
    rw [List.mem_append, List.mem_cons, ← or_assoc] at hy
    rcases hy with hy | hy
    · exact absurd hxy (h.not_edge hx hy)
    · exact hy
  induction hpath with
  | single hab => exact hstep ha hab.1 hab.2
  | tail _ hbc ih => exact hstep ih hbc.1 hbc.2

/-- No path leads from behind an element to the element. -/
theorem Topological.not_before {pre post : List α} {d a : α} (h : Topological edge (pre ++ d :: post)) (ha : a ∈ post) :
    ¬ Before edge (pre ++ d :: post) a d := by
  intro hpath
  rcases Relation.TransGen.tail'_iff.1 hpath with ⟨x, hx, -, hxd⟩
  have hpost : x ∈ post := by
    rcases Relation.reflTransGen_iff_eq_or_transGen.1 hx with rfl | hx
    · exact ha
    · exact h.stays_after ha hx
  exact h.not_edge hpost (.inr rfl) hxd

/-- An edge leads from what comes first to what comes later. -/
theorem Topological.idxOf_lt [DecidableEq α] {T : List α} (h : Topological edge T) {a b : α} (ha : a ∈ T) (hb : b ∈ T)
    (hne : a ≠ b) (hab : edge a b) : T.idxOf a < T.idxOf b := by
  have hne' : T.idxOf a ≠ T.idxOf b := fun heq => hne ((List.idxOf_inj ha).1 heq)
  rcases Nat.lt_or_gt_of_ne hne' with hlt | hgt
  · exact hlt
  · rw [Topological, List.pairwise_iff_getElem] at h
    have hno := h _ _ (List.idxOf_lt_length_of_mem hb) (List.idxOf_lt_length_of_mem ha) hgt
    rw [List.getElem_idxOf, List.getElem_idxOf] at hno
    exact absurd hab hno

/-- What can be arranged has no cycles. -/
theorem Topological.acyclic [DecidableEq α] {T : List α} (h : Topological edge T) (hall : ∀ a, a ∈ T)
    (hirrefl : ∀ a, ¬ edge a a) (a : α) : ¬ Relation.TransGen edge a a := by
  have hlt : ∀ {x y : α}, Relation.TransGen edge x y → T.idxOf x < T.idxOf y := by
    intro x y hpath
    have hstep : ∀ {x y : α}, edge x y → T.idxOf x < T.idxOf y := fun {x y} hxy =>
      h.idxOf_lt (hall x) (hall y) (fun heq => hirrefl y (heq ▸ hxy)) hxy
    induction hpath with
    | single hxy => exact hstep hxy
    | tail _ hyz ih => exact Nat.lt_trans ih (hstep hyz)
  exact fun hcycle => Nat.lt_irrefl _ (hlt hcycle)

open Classical in
/-- What must come before `d`, and then the rest. -/
noncomputable def ancestorsFirst (edge : α → α → Prop) (T : List α) (d : α) : List α :=
  T.filter (fun y => y = d ∨ Before edge T y d) ++ T.filter fun y => ¬ (y = d ∨ Before edge T y d)

theorem ancestorsFirst_perm (T : List α) (d : α) : (ancestorsFirst edge T d).Perm T := by
  classical
  have h := List.filter_append_perm (fun y => decide (y = d ∨ Before edge T y d)) T
  simpa [ancestorsFirst] using h

theorem Topological.ancestorsFirst {T : List α} (h : Topological edge T) (d : α) :
    Topological edge (ancestorsFirst edge T d) := by
  classical
  unfold Topological Lib.ancestorsFirst
  rw [List.pairwise_append]
  refine ⟨List.Pairwise.filter _ h, List.Pairwise.filter _ h, fun a ha b hb hba => ?_⟩
  simp only [List.mem_filter, decide_eq_true_eq] at ha hb
  -- an edge from the rest into the first part would put its source into the first part
  apply hb.2
  rcases ha.2 with rfl | hpath
  · exact .inr (.single ⟨ha.1, hba⟩)
  · exact .inr (.head ⟨ha.1, hba⟩ hpath)

/-- What comes before all the others that have the property is found first. -/
theorem Topological.find_eq {L T : List α} (hT : Topological edge T) (hperm : T.Perm L) {p : α → Bool} {c : α} (hc : c ∈ L)
    (hpc : p c = true) (hfirst : ∀ e ∈ L, p e = true → e = c ∨ Before edge L c e) : T.find? p = some c := by
  have hcT : c ∈ T := hperm.mem_iff.2 hc
  cases hfind : T.find? p with
  | none => exact absurd hpc (List.find?_eq_none.1 hfind c hcT)
  | some x =>
    obtain ⟨hpx, pre, post, rfl, hpre⟩ := List.find?_eq_some_iff_append.1 hfind
    have hx : x ∈ L := hperm.mem_iff.1 (by simp)
    rcases hfirst x hx hpx with rfl | hpath
    · rfl
    · rw [List.mem_append, List.mem_cons] at hcT
      rcases hcT with hc | rfl | hc
      · simpa [hpc] using hpre c hc
      · rfl
      · exact absurd ((Before.perm hperm).2 hpath) (hT.not_before hc)

/-- The same element with a property comes first in every topological arrangement exactly if it is settled which. -/
theorem find_topological_iff {L T : List α} (hT : Topological edge T) (hperm : T.Perm L) (p : α → Bool) :
    (∀ T', T'.Perm L → Topological edge T' → T'.find? p = T.find? p) ↔ Settled edge L p := by
  classical
  constructor
  · intro hall d hd hpd
    obtain ⟨c, hfind⟩ : ∃ c, T.find? p = some c := by
      rw [← Option.isSome_iff_exists, List.find?_isSome]
      exact ⟨d, hperm.mem_iff.2 hd, hpd⟩
    refine ⟨c, hperm.mem_iff.1 (List.mem_of_find?_eq_some hfind), List.find?_some hfind, fun e he hpe => ?_⟩
    -- with everything that must come before `e` in front, what is found is one of these
    have hmoved := hall _ ((ancestorsFirst_perm T e).trans hperm) (hT.ancestorsFirst e)
    have hmem : e ∈ T.filter (fun y => y = e ∨ Before edge T y e) := by
      simp [hperm.mem_iff.2 he]
    obtain ⟨x, hx⟩ : ∃ x, (T.filter fun y => y = e ∨ Before edge T y e).find? p = some x := by
      rw [← Option.isSome_iff_exists, List.find?_isSome]
      exact ⟨e, hmem, hpe⟩
    rw [ancestorsFirst, List.find?_append, hx, Option.some_or, hfind, Option.some.injEq] at hmoved
    have hx' := List.mem_of_find?_eq_some hx
    rw [List.mem_filter, decide_eq_true_eq, hmoved] at hx'
    rcases hx'.2 with rfl | hpath
    · exact .inl rfl
    · exact .inr ((Before.perm hperm).1 hpath)
  · intro hsettled T' hperm' hT'
    cases hfind : T.find? p with
    | none =>
      rw [List.find?_eq_none] at hfind ⊢
      exact fun x hx => hfind x (hperm.mem_iff.2 (hperm'.mem_iff.1 hx))
    | some d =>
      obtain ⟨c, hc, hpc, hfirst⟩ := hsettled d (hperm.mem_iff.1 (List.mem_of_find?_eq_some hfind)) (List.find?_some hfind)
      rw [← hfind, hT'.find_eq hperm' hc hpc hfirst, hT.find_eq hperm hc hpc hfirst]

end Dynd.Lib
