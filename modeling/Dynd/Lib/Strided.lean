import Dynd.Lib.Except
/-!
# Strided runs

A step is done `n` times, and from one time to the next all of its pointers
move by their strides. A run may be cut in pieces, two runs are one when their
steps are, and a run fails as soon as one of its steps does.
-/
namespace Dynd.Lib

section
variable {m : Type → Type} [Monad m] {P Q σ : Type} [AddCommMonoid P] [AddCommMonoid Q]

def strided (f : P → σ → m σ) (p stride : P) : ℕ → σ → m σ
  | 0, x => pure x
  | n + 1, x => f p x >>= strided f (p + stride) stride n

theorem next_place (p stride : P) (i : ℕ) : p + stride + i • stride = p + (i + 1) • stride := by
  rw [succ_nsmul', add_assoc]

theorem strided_add [LawfulMonad m] (f : P → σ → m σ) (p stride : P) (a b : ℕ) (x : σ) :
    strided f p stride (a + b) x = strided f p stride a x >>= strided f (p + a • stride) stride b := by
  induction a generalizing p x with
  | zero =>
    rw [zero_add, zero_nsmul, add_zero]
    exact (pure_bind _ _).symm
  | succ a ih =>
    rw [Nat.succ_add]
    unfold strided
    rw [bind_assoc]
    congr 1
    funext y
    rw [ih, next_place]

/-- The steps at the same places do the same. -/
theorem strided_congr {f : P → σ → m σ} {g : Q → σ → m σ} {p s : P} {q t : Q} {n : ℕ}
    (h : ∀ i < n, f (p + i • s) = g (q + i • t)) : strided f p s n = strided g q t n := by
  induction n generalizing p q with
  | zero => rfl
  | succ n ih =>
    funext x
    unfold strided
    have hfirst := h 0 (by omega)
    rw [zero_nsmul, add_zero, zero_nsmul, add_zero] at hfirst
    rw [hfirst, ih fun i hi => ?_]
    rw [next_place, next_place]
    exact h (i + 1) (by omega)

/-- A run seen through a projection that its steps respect. -/
theorem strided_map [LawfulMonad m] {τ : Type} {f : P → σ → m σ} {g : P → τ → m τ} {view : σ → τ}
    (h : ∀ p x, view <$> f p x = g p (view x)) (p s : P) (n : ℕ) (x : σ) :
    view <$> strided f p s n x = strided g p s n (view x) := by
  induction n generalizing p x with
  | zero => exact map_pure view x
  | succ n ih =>
    unfold strided
    rw [map_bind, ← h, bind_map_left]
    exact bind_congr fun y => ih _ y

theorem strided_one [LawfulMonad m] (f : P → σ → m σ) (p s : P) : strided f p s 1 = f p := by
  funext x
  exact bind_pure _

/-- The last step of a run. -/
theorem strided_succ [LawfulMonad m] (f : P → σ → m σ) (p s : P) (n : ℕ) (x : σ) :
    strided f p s (n + 1) x = strided f p s n x >>= f (p + n • s) := by
  rw [strided_add, strided_one]

end

section
variable {P σ ε : Type} [AddCommMonoid P] {f : P → σ → Except ε σ} {p s : P} {e : ε} {n : ℕ}

/-- One step fails, whatever the others do, and there is no other way to fail. -/
theorem strided_error (h : ∃ i < n, ∀ x, f (p + i • s) x = .error e)
    (honly : ∀ i < n, ∀ x e', f (p + i • s) x = .error e' → e' = e) (x : σ) : strided f p s n x = .error e := by
  induction n generalizing p x with
  | zero =>
    obtain ⟨i, hi, -⟩ := h
    omega
  | succ n ih =>
    unfold strided
    cases hx : f p x with
    | error e' =>
      have := honly 0 (by omega) x e'
      rw [zero_nsmul, add_zero] at this
      rw [this hx]
      rfl
    | ok y =>
      obtain ⟨i, hi, hf⟩ := h
      cases i with
      | zero =>
        rw [zero_nsmul, add_zero] at hf
        rw [hf x] at hx
        cases hx
      | succ i =>
        refine ih ⟨i, by omega, fun z => ?_⟩ (fun j hj z e' hz => ?_) y
        · rw [next_place]
          exact hf z
        · rw [next_place] at hz
          exact honly (j + 1) (by omega) z e' hz

/-- The ways a run fails are those of its steps. -/
theorem error_of_strided {x : σ} (h : strided f p s n x = .error e) : ∃ i < n, ∃ y, f (p + i • s) y = .error e := by
  induction n generalizing p x with
  | zero => cases h
  | succ n ih =>
    obtain h | ⟨y, -, h⟩ := bind_eq_error.mp h
    · refine ⟨0, by omega, x, ?_⟩
      rwa [zero_nsmul, add_zero]
    · obtain ⟨i, hi, z, hz⟩ := ih h
      refine ⟨i + 1, by omega, z, ?_⟩
      rwa [← next_place]

/-- A run whose steps answer and keep an invariant. -/
theorem strided_invariant {Q : ℕ → σ → Prop} (h : ∀ i < n, ∀ x, Q i x → ∃ y, f (p + i • s) x = .ok y ∧ Q (i + 1) y)
    {x : σ} (h0 : Q 0 x) : ∃ y, strided f p s n x = .ok y ∧ Q n y := by
  induction n with
  | zero => exact ⟨x, rfl, h0⟩
  | succ n ih =>
    obtain ⟨y, hy, hn⟩ := ih fun i hi => h i (by omega)
    rw [strided_succ, hy, ok_bind]
    exact h n (by omega) y hn

/-- What every step keeps holds in the end. -/
theorem strided_keeps {Q : σ → Prop} (hkeep : ∀ q x y, Q x → f q x = .ok y → Q y) {x y : σ} (hx : Q x)
    (h : strided f p s n x = .ok y) : Q y := by
  induction n generalizing p x with
  | zero =>
    cases h
    exact hx
  | succ n ih =>
    obtain ⟨z, hz, hrest⟩ := bind_eq_ok.mp h
    exact ih (hkeep p x z hx hz) hrest

/-- What a step establishes at its place holds of every place of the run, when
the steps from there on keep it. -/
theorem strided_each {Q : P → σ → Prop} (hset : ∀ q x y, f q x = .ok y → Q q y)
    (hkeep : ∀ q k x y, 0 < k → k < n → Q q x → f (q + k • s) x = .ok y → Q q y) {x y : σ}
    (h : strided f p s n x = .ok y) : ∀ i < n, Q (p + i • s) y := by
  induction n generalizing y with
  | zero =>
    intro i hi
    exact absurd hi (Nat.not_lt_zero i)
  | succ n ih =>
    intro i hi
    rw [strided_succ] at h
    obtain ⟨z, hz, hlast⟩ := bind_eq_ok.mp h
    rcases Nat.lt_succ_iff_lt_or_eq.mp hi with hi | rfl
    · apply hkeep (p + i • s) (n - i) z y (by omega) (by omega)
        (ih (fun q k x y hpos hk => hkeep q k x y hpos (by omega)) hz i hi)
      rwa [add_assoc, ← add_nsmul, Nat.add_sub_cancel' hi.le]
    · exact hset _ z y hlast

/-- A run that notes something at every step. -/
theorem strided_log {β : Type} {f : P → List β → Except ε (List β)} {g : P → β}
    (h : ∀ i < n, ∀ x, f (p + i • s) x = .ok (x ++ [g (p + i • s)])) (x : List β) :
    strided f p s n x = .ok (x ++ (List.range n).map fun i => g (p + i • s)) := by
  induction n generalizing p x with
  | zero =>
    rw [List.range_zero, List.map_nil, List.append_nil]
    rfl
  | succ n ih =>
    unfold strided
    have hfirst := h 0 (by omega) x
    rw [zero_nsmul, add_zero] at hfirst
    rw [hfirst, ok_bind, ih fun i hi y => ?_, List.range_succ_eq_map, List.map_cons, List.map_map, List.append_assoc]
    · simp [Function.comp_def, next_place]
    · rw [next_place]
      exact h (i + 1) (by omega) y

/-- A run that notes at every step what the step answers. -/
theorem strided_log_mapM {β : Type} (g : P → Except ε β) (p s : P) (n : ℕ) (x : List β) :
    strided (fun q x => (fun b => x ++ [b]) <$> g q) p s n x = (fun bs => x ++ bs) <$> (List.range n).mapM fun i => g (p + i • s) := by
  induction n with
  | zero =>
    rw [List.range_zero, List.mapM_nil, pure_eq_ok, map_ok, List.append_nil]
    rfl
  | succ n ih =>
    rw [strided_succ, ih, List.range_succ, List.mapM_append]
    cases (List.range n).mapM fun i => g (p + i • s) with
    | error e => rfl
    | ok bs =>
      rw [map_ok, ok_bind, ok_bind, List.mapM_cons, List.mapM_nil]
      cases g (p + n • s) with
      | error e => rfl
      | ok b => simp [List.append_assoc]

end
end Dynd.Lib
