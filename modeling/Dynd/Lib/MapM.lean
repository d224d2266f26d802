import Dynd.Lib.Except
/-!
# Lists of computations

`mapM` over `Except`, by what each of its computations answers.
-/
namespace Dynd.Lib

variable {ε α β : Type}

/-- A list of computations succeeds when each one does, with the list of their results. -/
theorem mapM_eq_ok_iff {f : α → Except ε β} : ∀ {l : List α} {bs : List β},
    l.mapM f = .ok bs ↔ List.Forall₂ (fun a b => f a = .ok b) l bs
  | [], bs => by
    rw [List.mapM_nil, pure_eq_ok, Except.ok.injEq, List.forall₂_nil_left_iff, eq_comm]
  | a :: l, bs => by
    rw [List.mapM_cons, List.forall₂_cons_left_iff, bind_eq_ok]
    refine exists_congr fun b => ?_
    rw [bind_eq_ok, exists_and_left]
    refine and_congr_right fun _ => exists_congr fun bs' => ?_
    rw [mapM_eq_ok_iff, pure_eq_ok, Except.ok.injEq, eq_comm (a := b :: bs')]

/-- A computation for each number below `n`. -/
theorem mapM_range_eq_ok {g : ℕ → Except ε β} {n : ℕ} {bs : List β} :
    (List.range n).mapM g = .ok bs ↔ bs.length = n ∧ ∀ i (h : i < bs.length), g i = .ok bs[i] := by
  rw [mapM_eq_ok_iff, List.forall₂_iff_get]
  constructor
  · rintro ⟨hlen, hall⟩
    refine ⟨hlen.symm.trans List.length_range, fun i h => ?_⟩
    have hi := hall i (hlen ▸ h) h
    rwa [List.get_eq_getElem, List.getElem_range] at hi
  · rintro ⟨hlen, hall⟩
    refine ⟨List.length_range.trans hlen.symm, fun i h h' => ?_⟩
    rw [List.get_eq_getElem, List.getElem_range]
    exact hall i h'

/-- What is so of each computation and its result. -/
theorem forall₂_of_mapM {R : α → β → Prop} {f : α → Except ε β} {l : List α} {bs : List β} (h : l.mapM f = .ok bs)
    (hR : ∀ a ∈ l, ∀ b, f a = .ok b → R a b) : List.Forall₂ R l bs := by
  have hall := mapM_eq_ok_iff.mp h
  clear h
  induction hall with
  | nil => exact .nil
  | cons hab _ ih => exact .cons (hR _ List.mem_cons_self _ hab) (ih fun a ha => hR a (List.mem_cons_of_mem _ ha))

/-- Results that are each what some function says. -/
theorem map_of_forall₂ {γ : Type} {R : α → β → Prop} {f : β → γ} {g : α → γ} {l : List α} {bs : List β}
    (h : List.Forall₂ R l bs) (hR : ∀ a b, R a b → f b = g a) : bs.map f = l.map g := by
  induction h with
  | nil => rfl
  | cons hab _ ih => exact congrArg₂ List.cons (hR _ _ hab) ih

end Dynd.Lib
