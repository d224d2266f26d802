import Mathlib.Tactic
/-!
# Reachable states

The states of a transition system: those it starts in, and those a step leads
to from a reachable one. What holds at the start and is kept by every step
from a reachable state holds of all of them.
-/
namespace Dynd.Lib

inductive Reachable {σ : Type} (init : σ → Prop) (step : σ → σ → Prop) : σ → Prop where
  | init {s : σ} : init s → Reachable init step s
  | step {s t : σ} : Reachable init step s → step s t → Reachable init step t

variable {σ : Type} {init : σ → Prop} {step : σ → σ → Prop}

/-- The invariant rule. -/
theorem Reachable.invariant {P : σ → Prop} (hinit : ∀ s, init s → P s) (hstep : ∀ s t, P s → step s t → P t) {s : σ}
    (h : Reachable init step s) : P s := by
  induction h with
  | init hs => exact hinit _ hs
  | step _ ht ih => exact hstep _ _ ih ht

end Dynd.Lib
