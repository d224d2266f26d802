import Mathlib.Tactic
/-!
# Iterators over chunks

An iterator hands out a sequence in chunks, may be put back to the start, and
may be moved elsewhere. It delivers a text when the chunks since the last
start are always a beginning of the text, are all of it where the iterator
says that nothing is left, and come to all of it after enough calls.
-/
namespace Dynd.Lib

/-- `next` answers whether there was something left; `none` is a call that fails. -/
structure ChunkIterator (σ β : Type) where
  next : σ → Option (Bool × List β × σ)
  seek : σ → ℕ → Option (List β × σ)
  /-- The positions a caller may ask for. -/
  seekable : ℕ → Prop

namespace ChunkIterator
variable {σ β : Type}

inductive Op where
  | next
  | seek (i : ℕ)

/-- The chunks since the last start, `none` after a seek elsewhere, and whether the last call was a
`next` that found nothing left. -/
structure Tracked (σ β : Type) where
  state : σ
  delivered : Option (List β)
  ended : Bool

variable (it : ChunkIterator σ β)

def step (t : Tracked σ β) : Op → Option (Tracked σ β)
  | .next => (it.next t.state).map fun (more, chunk, s) => ⟨s, t.delivered.map (· ++ chunk), !more⟩
  | .seek i => (it.seek t.state i).map fun (chunk, s) => ⟨s, if i = 0 then some chunk else none, false⟩

def run (t : Tracked σ β) : List Op → Option (Tracked σ β)
  | [] => some t
  | op :: ops => (it.step t op).bind (run · ops)

def start (s : σ) : Tracked σ β := ⟨s, some [], false⟩

/-- The calls ask for nothing the contract does not offer. -/
def Allowed (ops : List Op) : Prop := ∀ i, .seek i ∈ ops → it.seekable i

structure Delivers (s : σ) (text : List β) : Prop where
  runs : ∀ ops, it.Allowed ops → ∃ t, it.run (start s) ops = some t
  only : ∀ ops t, it.Allowed ops → it.run (start s) ops = some t → ∀ d, t.delivered = some d → d <+: text
  all : ∀ ops t, it.Allowed ops → it.run (start s) ops = some t → t.ended = true → ∀ d, t.delivered = some d → d = text
  reaches : ∀ ops t d, it.Allowed ops → it.run (start s) ops = some t → t.delivered = some d →
    ∃ k t', it.run t (List.replicate k .next) = some t' ∧ t'.delivered = some text

/-! ## The invariant rule -/

variable {it} {text : List β} {s : σ}

theorem run_cons (t : Tracked σ β) (op : Op) (ops : List Op) : it.run t (op :: ops) = (it.step t op).bind (it.run · ops) := rfl

theorem step_next {t : Tracked σ β} {more : Bool} {chunk : List β} {s' : σ} (h : it.next t.state = some (more, chunk, s')) :
    it.step t .next = some ⟨s', t.delivered.map (· ++ chunk), !more⟩ := congrArg (Option.map _) h

section
variable (J : σ → Option (List β) → Prop) (hstart : J s (some []))
  (hnext : ∀ s d, J s d → ∃ more chunk s', it.next s = some (more, chunk, s') ∧ J s' (d.map (· ++ chunk)) ∧
    ∀ d', d = some d' → d' ++ chunk = text)
  (hseek : ∀ s d i, J s d → it.seekable i →
    ∃ chunk s', it.seek s i = some (chunk, s') ∧ J s' (if i = 0 then some chunk else none))
  (hbegin : ∀ s d, J s (some d) → d <+: text)
include hnext hseek

/-- What holds after any allowed calls. -/
theorem run_invariant (ops : List Op) (hallowed : it.Allowed ops) (t : Tracked σ β) (ht : J t.state t.delivered)
    (hend : t.ended = true → ∀ d, t.delivered = some d → d = text) :
    ∃ t', it.run t ops = some t' ∧ J t'.state t'.delivered ∧ (t'.ended = true → ∀ d, t'.delivered = some d → d = text) := by
  induction ops generalizing t with
  | nil => exact ⟨t, rfl, ht, hend⟩
  | cons op ops ih =>
    have hrest : it.Allowed ops := fun i hi => hallowed i (List.mem_cons_of_mem _ hi)
    cases op with
    | next =>
      obtain ⟨more, chunk, s', hs', hJ, hall⟩ := hnext t.state t.delivered ht
      rw [run_cons, step_next hs', Option.bind_some]
      apply ih hrest _ hJ
      intro _ d hd
      obtain ⟨d', hd', rfl⟩ := Option.map_eq_some_iff.mp hd
      exact hall d' hd'
    | seek i =>
      obtain ⟨chunk, s', hs', hJ⟩ := hseek t.state t.delivered i ht (hallowed i List.mem_cons_self)
      have hstep : it.step t (.seek i) = some ⟨s', if i = 0 then some chunk else none, false⟩ := congrArg (Option.map _) hs'
      rw [run_cons, hstep, Option.bind_some]
      exact ih hrest _ hJ (fun h => absurd h Bool.false_ne_true)

include hstart hbegin

/-- An iterator whose every call from the start completes the text delivers it. -/
theorem delivers_of_invariant : it.Delivers s text := by
  have hrun : ∀ ops, it.Allowed ops → ∃ t, it.run (start s) ops = some t ∧ J t.state t.delivered ∧
      (t.ended = true → ∀ d, t.delivered = some d → d = text) := by
    intro ops hallowed
    exact run_invariant J hnext hseek ops hallowed (start s) hstart (fun h => absurd h Bool.false_ne_true)
  have hfacts : ∀ ops t, it.Allowed ops → it.run (start s) ops = some t → J t.state t.delivered ∧
      (t.ended = true → ∀ d, t.delivered = some d → d = text) := by
    intro ops t hallowed ht
    obtain ⟨t', ht', hfact⟩ := hrun ops hallowed
    obtain rfl : t = t' := Option.some.inj (ht.symm.trans ht')
    exact hfact
  refine ⟨?_, ?_, ?_, ?_⟩
  · intro ops hallowed
    obtain ⟨t, ht, _⟩ := hrun ops hallowed
    exact ⟨t, ht⟩
  · intro ops t hallowed ht d hd
    obtain ⟨hJ, _⟩ := hfacts ops t hallowed ht
    rw [hd] at hJ
    exact hbegin t.state d hJ
  · intro ops t hallowed ht
    exact (hfacts ops t hallowed ht).2
  · intro ops t d hallowed ht hd
    obtain ⟨hJ, _⟩ := hfacts ops t hallowed ht
    obtain ⟨more, chunk, s', hs', _, hall⟩ := hnext t.state t.delivered hJ
    refine ⟨1, ⟨s', some (d ++ chunk), !more⟩, ?_, ?_⟩
    · rw [List.replicate_one, run_cons, step_next hs', hd]
      rfl
    · rw [hall d hd]

end

/-! ## Iterators that do not deliver -/

theorem not_delivers_of_fails (h : it.next s = none) : ¬ it.Delivers s text := by
  intro hdel
  obtain ⟨t, ht⟩ := hdel.runs [.next] (fun i hi => absurd hi (by simp))
  have hstep : it.step (start s) .next = none := congrArg (Option.map _) h
  rw [run_cons, hstep] at ht
  cases ht

theorem run_ended {t : Tracked σ β} (h : it.next t.state = some (false, [], t.state)) (k : ℕ) :
    ∀ t', it.run t (List.replicate k .next) = some t' → t'.delivered = t.delivered := by
  induction k generalizing t with
  | zero =>
    rintro t' ht
    obtain rfl := Option.some.inj ht
    rfl
  | succ k ih =>
    intro t' ht
    rw [List.replicate_succ, run_cons, step_next h, Option.bind_some] at ht
    rw [ih (t := ⟨t.state, t.delivered.map (· ++ []), !false⟩) h t' ht]
    simp

/-- A first chunk that is not the text, with nothing left after it. -/
theorem not_delivers_of_ends {more : Bool} {chunk : List β} {s' : σ} (h : it.next s = some (more, chunk, s'))
    (hend : it.next s' = some (false, [], s')) (hne : chunk ≠ text) : ¬ it.Delivers s text := by
  intro hdel
  have hrun : it.run (start s) [.next] = some ⟨s', some chunk, !more⟩ := by
    rw [run_cons, step_next h]
    rfl
  obtain ⟨k, t', ht', hd⟩ := hdel.reaches [.next] _ chunk (fun i hi => absurd hi (by simp)) hrun rfl
  have hsame := run_ended (t := ⟨s', some chunk, !more⟩) hend k t' ht'
  rw [hsame] at hd
  exact hne (Option.some.inj hd)

end ChunkIterator
end Dynd.Lib
