import Mathlib.Logic.Relation
/-!
# A property at every place of a tree

A tree is given by the function that lists what stands right under a node. A
property holds everywhere in it when it holds of the root and everywhere in
what stands under the root.
-/
namespace Dynd.Lib

variable {α : Type} {next : α → List α} {p q : α → Prop} {t : α}

/-- `p` holds of `t` and of all that `next` leads to from it. -/
def Everywhere (next : α → List α) (p : α → Prop) (t : α) : Prop :=
  ∀ s, Relation.ReflTransGen (fun a b => b ∈ next a) t s → p s

theorem everywhere_iff : Everywhere next p t ↔ p t ∧ ∀ c ∈ next t, Everywhere next p c := by
  constructor
  · intro h
    refine ⟨h t .refl, ?_⟩
    intro c hc s hs
    exact h s (.head hc hs)
  · rintro ⟨ht, h⟩ s hs
    cases hs using Relation.ReflTransGen.head_induction_on with
    | refl => exact ht
    | head hc hs => exact h _ hc s hs

theorem everywhere_leaf (hnext : next t = []) (ht : p t) : Everywhere next p t := by
  rw [everywhere_iff, hnext]
  exact ⟨ht, by simp⟩

theorem everywhere_one {c : α} (hnext : next t = [c]) (ht : p t) (hc : Everywhere next p c) : Everywhere next p t := by
  rw [everywhere_iff, hnext]
  exact ⟨ht, List.forall_mem_singleton.2 hc⟩

theorem Everywhere.here (h : Everywhere next p t) : p t := h t .refl

theorem Everywhere.below (h : Everywhere next p t) {c : α} (hc : c ∈ next t) : Everywhere next p c :=
  (everywhere_iff.mp h).2 c hc

theorem Everywhere.mono (h : Everywhere next p t) (hpq : ∀ s, p s → q s) : Everywhere next q t :=
  fun s hs => hpq s (h s hs)

end Dynd.Lib
