import Mathlib.Tactic
/-!
# Runs of local updates

A run of steps on a map from places to values, where each step changes the value
at one place and depends only on it. What a run does to one place is then what the
steps at that place do, in their order.
-/
namespace Dynd.Lib

variable {A L V : Type*} [DecidableEq L] (place : A → L) (act : A → V → V)

/-- The steps one after the other. -/
def runUpdates (m : L → V) (steps : List A) : L → V :=
  steps.foldl (fun m x => Function.update m (place x) (act x (m (place x)))) m

theorem runUpdates_at (l : L) (steps : List A) (m : L → V) :
    runUpdates place act m steps l = (steps.filter fun x => place x = l).foldl (fun v x => act x v) (m l) := by
  induction steps generalizing m with
  | nil => rfl
  | cons x steps ih =>
    have hstep := ih (Function.update m (place x) (act x (m (place x))))
    rw [runUpdates, List.foldl_cons, ← runUpdates, hstep]
    by_cases hl : place x = l
    · rw [List.filter_cons_of_pos (by simpa using hl), List.foldl_cons, ← hl, Function.update_self]
    · rw [List.filter_cons_of_neg (by simpa using hl), Function.update_of_ne (Ne.symm hl)]

/-- Of a loop whose rounds leave a place alone but for one, that one is what the place sees. -/
theorem filter_flatMap_range {l : L} {n i : ℕ} (hi : i < n) (round : ℕ → List A)
    (hother : ∀ k < n, k ≠ i → ∀ x ∈ round k, place x ≠ l) :
    ((List.range n).flatMap round).filter (fun x => place x = l) = (round i).filter fun x => place x = l := by
  have hnil : ∀ k < n, k ≠ i → (round k).filter (fun x => place x = l) = [] := by
    intro k hk hne
    refine List.filter_eq_nil_iff.2 fun x hx => ?_
    simpa using hother k hk hne x hx
  rw [List.filter_flatMap]
  induction n with
  | zero => exact absurd hi (Nat.not_lt_zero i)
  | succ n ih =>
    rw [List.range_succ, List.flatMap_append, List.flatMap_cons, List.flatMap_nil, List.append_nil]
    rcases Nat.lt_succ_iff_lt_or_eq.1 hi with hlt | rfl
    · rw [ih hlt (fun k hk => hother k (Nat.lt_succ_of_lt hk)) fun k hk => hnil k (Nat.lt_succ_of_lt hk),
        hnil n (Nat.lt_succ_self n) hlt.ne', List.append_nil]
    · have hbefore : (List.range i).flatMap (fun k => (round k).filter fun x => place x = l) = [] := by
        refine List.flatMap_eq_nil_iff.2 fun k hk => ?_
        have hki := List.mem_range.1 hk
        exact hnil k (Nat.lt_succ_of_lt hki) hki.ne
      rw [hbefore, List.nil_append]

end Dynd.Lib
