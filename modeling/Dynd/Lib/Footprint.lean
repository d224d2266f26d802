import Dynd.Lib.Events
import Mathlib.Data.Set.Lattice
/-!
# Footprints

A memory has cells, some of them in use. A computation keeps to a footprint when
it leaves the other cells in use as they were; what it brings into use is new.
Computations with footprints that do not meet can be done one after the other,
and each leaves what it would leave alone.
-/
namespace Dynd.Lib

/-- The cells of a memory: which are in use, and when one holds the same in two memories. -/
structure Cells (M C : Type) where
  used : M → Set C
  same : C → M → M → Prop
  same_refl : ∀ c m, same c m m
  same_trans : ∀ c m₁ m₂ m₃, same c m₁ m₂ → same c m₂ m₃ → same c m₁ m₃

section
variable {M C E : Type} (cells : Cells M C)

/-- What was in use outside of `S` is as it was. -/
structure Keeps (S : Set C) (m m' : M) : Prop where
  grows : cells.used m ⊆ cells.used m'
  same : ∀ c ∈ cells.used m, c ∉ S → cells.same c m m'

/-- A computation that fails with the first of its faults, or keeps to its footprint and leaves what `Post` says. -/
def Within (S : Set C) (faults : List E) (Post : M → Prop) (m : M) (x : Except E M) : Prop :=
  match faults with
  | e :: _ => x = .error e
  | [] => ∃ m', x = .ok m' ∧ Keeps cells S m m' ∧ Post m'

variable {cells} {S T : Set C} {m m' m'' : M} {faults faults' : List E} {Post Post' : M → Prop} {x : Except E M}

theorem Keeps.refl : Keeps cells S m m := ⟨subset_rfl, fun c _ _ => cells.same_refl c m⟩

theorem Keeps.mono (h : Keeps cells S m m') (hST : S ⊆ T) : Keeps cells T m m' :=
  ⟨h.grows, fun c hc hT => h.same c hc fun hS => hT (hST hS)⟩

theorem Keeps.trans (h : Keeps cells S m m') (h' : Keeps cells S m' m'') : Keeps cells S m m'' :=
  ⟨h.grows.trans h'.grows, fun c hc hS => cells.same_trans c m m' m'' (h.same c hc hS) (h'.same c (h.grows hc) hS)⟩

/-- What came into use need not be kept. -/
theorem Keeps.trans_new (h : Keeps cells S m m') (h' : Keeps cells T m' m'') (hT : ∀ c ∈ T, c ∈ cells.used m → c ∈ S) :
    Keeps cells S m m'' :=
  ⟨h.grows.trans h'.grows, fun c hc hS => cells.same_trans c m m' m'' (h.same c hc hS)
    (h'.same c (h.grows hc) fun hcT => hS (hT c hcT hc))⟩

theorem Within.mono (h : Within cells S faults Post m x) (hST : S ⊆ T) (hPost : ∀ m', Keeps cells S m m' → Post m' → Post' m') :
    Within cells T faults Post' m x := by
  cases faults with
  | cons e faults => exact h
  | nil =>
    obtain ⟨m', hx, hkeeps, hpost⟩ := h
    exact ⟨m', hx, hkeeps.mono hST, hPost m' hkeeps hpost⟩

/-- A computation in a memory where something is changed and brought into use before. -/
theorem Within.after (h : Within cells S faults Post m' x) (hkeeps : Keeps cells T m m') (hS : ∀ c ∈ S, c ∈ cells.used m → c ∈ T)
    (hPost : ∀ m'', Keeps cells S m' m'' → Post m'' → Post' m'') : Within cells T faults Post' m x := by
  cases faults with
  | cons e faults => exact h
  | nil =>
    obtain ⟨m'', hx, hkeeps', hpost⟩ := h
    exact ⟨m'', hx, hkeeps.trans_new hkeeps' hS, hPost m'' hkeeps' hpost⟩

/-- Two computations, one after the other. -/
theorem Within.bind {f : M → Except E M} (h : Within cells S faults Post m x) (hST : S ⊆ T)
    (hf : ∀ m', Keeps cells S m m' → Post m' → Within cells T faults' Post' m' (f m')) :
    Within cells T (faults ++ faults') Post' m (x >>= f) := by
  cases faults with
  | cons e faults => exact congrArg (· >>= f) h
  | nil =>
    obtain ⟨m', rfl, hkeeps, hpost⟩ := h
    have hnext := hf m' hkeeps hpost
    cases faults' with
    | cons e faults' => exact hnext
    | nil =>
      obtain ⟨m'', hx, hkeeps', hpost'⟩ := hnext
      exact ⟨m'', hx, (hkeeps.mono hST).trans hkeeps', hpost'⟩

/-- A loop whose rounds have footprints that do not meet. Each round is looked at in a memory that
only the other rounds have changed, and what it leaves the other rounds do not change. -/
theorem within_events {f : ℕ → M → Except E M} {n : ℕ} {S : ℕ → Set C} {faults : ℕ → List E} {Post : ℕ → M → Prop} {m₀ : M}
    (hround : ∀ i < n, ∀ m, Keeps cells (⋃ j ∈ {j | j < n ∧ j ≠ i}, S j) m₀ m → Within cells (S i) (faults i) (Post i) m (f i m))
    (hstable : ∀ i < n, ∀ j < n, j ≠ i → ∀ m m', Post i m → Keeps cells (S j) m m' → Post i m') :
    Within cells (⋃ j ∈ {j | j < n}, S j) ((List.range n).flatMap faults) (fun m => ∀ i < n, Post i m) m₀
      (events f (List.range n) m₀) := by
  suffices h : ∀ k ≤ n, Within cells (⋃ j ∈ {j | j < k}, S j) ((List.range k).flatMap faults) (fun m => ∀ i < k, Post i m) m₀
      (events f (List.range k) m₀) from h n le_rfl
  intro k hk
  induction k with
  | zero => exact ⟨m₀, rfl, Keeps.refl, fun i hi => absurd hi (Nat.not_lt_zero i)⟩
  | succ k ih =>
    rw [List.range_succ, List.flatMap_append, List.flatMap_singleton, events_append]
    apply (ih (Nat.le_of_succ_le hk)).bind
    · exact Set.biUnion_mono (fun j hj => Nat.lt_succ_of_lt hj) fun _ _ => subset_rfl
    · intro m hkeeps hposts
      have hothers : Keeps cells (⋃ j ∈ {j | j < n ∧ j ≠ k}, S j) m₀ m := by
        apply hkeeps.mono
        apply Set.biUnion_mono
        · intro j hj
          have hj : j < k := hj
          exact ⟨by omega, by omega⟩
        · exact fun _ _ => subset_rfl
      have hone : events f [k] m = f k m := by
        unfold events
        rw [List.foldlM_cons]
        exact bind_pure (f k m)
      rw [hone]
      apply (hround k (by omega) m hothers).mono
      · exact Set.subset_biUnion_of_mem (u := S) (show k ∈ {j | j < k + 1} from Nat.lt_succ_self k)
      · intro m' hkeeps' hpost i hi
        rcases Nat.lt_succ_iff_lt_or_eq.mp hi with hi | rfl
        · exact hstable i (by omega) k (by omega) (by omega) m m' (hposts i hi) hkeeps'
        · exact hpost

end
end Dynd.Lib
