import Mathlib.Data.List.Perm.Basic
import Mathlib.Tactic
/-!
# Reordering a list behind a view of it

A reordering of what `filterMap` keeps of a list comes from a reordering of
the list.
-/
namespace Dynd.Lib

variable {α β : Type}

/-- Any order of the kept elements is the view of some order of the list. -/
theorem exists_perm_of_perm_filterMap (g : α → Option β) {l : List α} :
    ∀ {c : List β}, c.Perm (l.filterMap g) → ∃ l' : List α, l'.Perm l ∧ l'.filterMap g = c := by
  induction l with
  | nil =>
    intro c h
    rw [List.filterMap_nil] at h
    exact ⟨[], .nil, h.symm.nil_eq⟩
  | cons a l ih =>
    intro c h
    rw [List.filterMap_cons] at h
    cases hg : g a with
    | none =>
      rw [hg] at h
      obtain ⟨l', hp, he⟩ := ih h
      exact ⟨a :: l', hp.cons a, by rw [List.filterMap_cons, hg]; exact he⟩
    | some b =>
      rw [hg] at h
      -- `b` stands somewhere in `c`; put `a` at that place
      obtain ⟨p, q, rfl⟩ := List.append_of_mem (h.symm.subset List.mem_cons_self)
      have hpq : (p ++ q).Perm (l.filterMap g) := (List.perm_middle.symm.trans h).cons_inv
      obtain ⟨l', hp, he⟩ := ih hpq
      obtain ⟨u, v, rfl, hu, hv⟩ := List.filterMap_eq_append_iff.1 he
      refine ⟨u ++ a :: v, List.perm_middle.trans (hp.cons a), ?_⟩
      rw [List.filterMap_append, List.filterMap_cons, hg, hu, hv]

end Dynd.Lib
