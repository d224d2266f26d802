import Dynd.Lib.Strided
/-!
# Events of a computation

A state has a part that only certain events work on, and a rest for
bookkeeping. `Does` says which events a computation does, in order and up to
the first that fails, and what holds of the state afterwards.
-/
namespace Dynd.Lib

section
variable {σ M C E : Type}

/-- The events alone. -/
def events (op : C → M → Except E M) (cs : List C) (m : M) : Except E M := cs.foldlM (fun m c => op c m) m

def Does (mem : σ → M) (op : C → M → Except E M) (x : Except E σ) (cs : List C) (m : M) (Q : σ → Prop) : Prop :=
  match events op cs m with
  | .ok m' => ∃ st, x = .ok st ∧ mem st = m' ∧ Q st
  | .error e => x = .error e

variable {mem : σ → M} {op : C → M → Except E M} {x : Except E σ} {cs ds : List C} {m : M} {Q R : σ → Prop}

theorem events_append : events op (cs ++ ds) m = events op cs m >>= events op ds := List.foldlM_append

/-- The same events in other words. -/
theorem events_congr {op' : C → M → Except E M} (h : ∀ c ∈ cs, op c = op' c) : events op cs = events op' cs := by
  funext m
  induction cs generalizing m with
  | nil => rfl
  | cons c cs ih =>
    obtain ⟨hc, hcs⟩ := List.forall_mem_cons.mp h
    unfold events at ih ⊢
    rw [List.foldlM_cons, List.foldlM_cons, hc]
    exact congrArg _ (funext (ih hcs))

theorem events_map {B : Type} (f : B → C) (l : List B) : events op (l.map f) m = events (fun b => op (f b)) l m :=
  List.foldlM_map

theorem events_mapError {E' : Type} (f : E → E') (op : C → M → Except E M) (cs : List C) (m : M) :
    events (fun c m => (op c m).mapError f) cs m = (events op cs m).mapError f := by
  induction cs generalizing m with
  | nil => rfl
  | cons c cs ih =>
    unfold events at ih ⊢
    rw [List.foldlM_cons, List.foldlM_cons]
    beta_reduce
    cases op c m with
    | error e => rfl
    | ok m' => exact ih m'

theorem does_nothing {st : σ} (hQ : Q st) : Does mem op (.ok st) [] (mem st) Q := ⟨st, rfl, rfl, hQ⟩

/-- A computation that is one event. -/
theorem does_event (st : M → σ) {c : C} {y : Except E M} (h : op c m = y) (hx : x = y.map st) (hmem : ∀ m, mem (st m) = m)
    (hQ : ∀ m, Q (st m)) : Does mem op x [c] m Q := by
  unfold Does events
  rw [List.foldlM_cons, h, hx]
  cases y with
  | error e => rfl
  | ok m' => exact ⟨st m', rfl, hmem m', hQ m'⟩

theorem Does.bind {k : σ → Except E σ} (h : Does mem op x cs m Q) (hk : ∀ st, Q st → Does mem op (k st) ds (mem st) R) :
    Does mem op (x >>= k) (cs ++ ds) m R := by
  unfold Does at h ⊢
  rw [events_append]
  cases hcs : events op cs m with
  | error e =>
    rw [hcs] at h
    dsimp only at h
    rw [h]
    rfl
  | ok m' =>
    rw [hcs] at h
    obtain ⟨st, rfl, rfl, hQ⟩ := h
    exact hk st hQ

theorem Does.mono (h : Does mem op x cs m Q) (hQR : ∀ st, Q st → R st) : Does mem op x cs m R := by
  unfold Does at h ⊢
  cases hcs : events op cs m with
  | error e =>
    rw [hcs] at h
    exact h
  | ok m' =>
    rw [hcs] at h
    obtain ⟨st, hx, hm, hQ⟩ := h
    exact ⟨st, hx, hm, hQR st hQ⟩

/-- Bookkeeping after the events. -/
theorem Does.then {g : σ → σ} (h : Does mem op x cs m Q) (hg : ∀ st, Q st → mem (g st) = mem st ∧ R (g st)) :
    Does mem op (x >>= fun st => .ok (g st)) cs m R := by
  have hbind : Does mem op (x >>= fun st => .ok (g st)) (cs ++ []) m R := by
    apply h.bind
    intro st hQ
    obtain ⟨hm, hR⟩ := hg st hQ
    rw [← hm]
    exact does_nothing hR
  rwa [List.append_nil] at hbind

/-- On the part that the events work on, the computation is the events. -/
theorem Does.result (h : Does mem op x cs m Q) : mem <$> x = events op cs m := by
  unfold Does at h
  cases hcs : events op cs m with
  | error e =>
    rw [hcs] at h
    dsimp only at h
    rw [h]
    rfl
  | ok m' =>
    rw [hcs] at h
    obtain ⟨st, rfl, rfl, -⟩ := h
    rfl

/-- A run whose steps keep an invariant, in which each step does its events. -/
theorem Does.strided {P : Type} [AddCommMonoid P] {f : P → σ → Except E σ} {p s : P} {n : ℕ} {each : ℕ → List C}
    (Inv : ℕ → σ → Prop) (h : ∀ i < n, ∀ st, Inv i st → Does mem op (f (p + i • s) st) (each i) (mem st) (Inv (i + 1)))
    {st : σ} (h0 : Inv 0 st) : Does mem op (Lib.strided f p s n st) ((List.range n).flatMap each) (mem st) (Inv n) := by
  induction n with
  | zero => exact does_nothing h0
  | succ n ih =>
    rw [strided_succ, List.range_succ, List.flatMap_append, List.flatMap_singleton]
    exact (ih fun i hi => h i (by omega)).bind fun st' hst' => h n (by omega) st' hst'

/-- A run of computations that are events each is the events of all its steps. -/
theorem strided_events {P : Type} [AddCommMonoid P] (f : P → C → M → Except E M) (cs : List C) (p s : P) (n : ℕ) (m : M) :
    Lib.strided (fun q => events (f q) cs) p s n m =
      events (fun x : ℕ × C => f (p + x.1 • s) x.2) ((List.range n).flatMap fun i => cs.map (Prod.mk i)) m := by
  induction n with
  | zero => rfl
  | succ n ih =>
    rw [strided_succ, List.range_succ, List.flatMap_append, List.flatMap_singleton, events_append, ih]
    congr 1
    funext m'
    rw [events_map]

end
end Dynd.Lib
