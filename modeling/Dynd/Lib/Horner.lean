import Mathlib.Tactic
/-!
# Digit strings and wrapping accumulators

The value of a digit string read most significant digit first, and the
residues such a reader holds when its accumulator wraps modulo `m`. `Drops`
says that some step made the residue smaller: it is what a reader sees that
compares its accumulator with the previous one.
-/
namespace Dynd.Lib

/-- The value of the digits `ds` in base `b`, read after the value `v`. -/
def horner (b : ℕ) : ℕ → List ℕ → ℕ
  | v, [] => v
  | v, d :: ds => horner b (b * v + d) ds

/-- Reading `ds` after `v`, some step's residue modulo `m` is below the one before it. -/
def Drops (m b : ℕ) : ℕ → List ℕ → Prop
  | _, [] => False
  | v, d :: ds => (b * v + d) % m < v % m ∨ Drops m b (b * v + d) ds

instance Drops.decide (m b v : ℕ) : (ds : List ℕ) → Decidable (Drops m b v ds)
  | [] => inferInstanceAs (Decidable False)
  | d :: ds =>
    have := Drops.decide m b (b * v + d) ds
    inferInstanceAs (Decidable (_ ∨ _))

@[simp] theorem horner_nil (b v : ℕ) : horner b v [] = v := rfl

@[simp] theorem horner_cons (b v d : ℕ) (ds : List ℕ) :
    horner b v (d :: ds) = horner b (b * v + d) ds := rfl

@[simp] theorem drops_nil (m b v : ℕ) : ¬ Drops m b v [] := id

@[simp] theorem drops_cons (m b v d : ℕ) (ds : List ℕ) :
    Drops m b v (d :: ds) ↔ (b * v + d) % m < v % m ∨ Drops m b (b * v + d) ds := Iff.rfl

theorem horner_append (b v : ℕ) (xs ys : List ℕ) :
    horner b v (xs ++ ys) = horner b (horner b v xs) ys := by
  induction xs generalizing v with
  | nil => rfl
  | cons d xs ih => exact ih _

theorem drops_append (m b v : ℕ) (xs ys : List ℕ) :
    Drops m b v (xs ++ ys) ↔ Drops m b v xs ∨ Drops m b (horner b v xs) ys := by
  induction xs generalizing v with
  | nil => simp
  | cons d xs ih => simp only [List.cons_append, drops_cons, horner_cons, ih, or_assoc]

/-- Appending zeros multiplies by a power of the base. -/
theorem horner_zeros (b v k : ℕ) : horner b v (List.replicate k 0) = v * b ^ k := by
  induction k generalizing v with
  | zero => simp
  | succ k ih =>
    rw [List.replicate_succ, horner_cons, ih, pow_succ]
    ring

theorem le_horner {b : ℕ} (hb : 0 < b) (v : ℕ) (ds : List ℕ) : v ≤ horner b v ds := by
  induction ds generalizing v with
  | nil => exact le_rfl
  | cons d ds ih =>
    have h1 : v ≤ b * v := Nat.le_mul_of_pos_left v hb
    exact le_trans (by omega) (ih (b * v + d))

/-- Digits below the base stay below the next value. -/
theorem horner_lt {b : ℕ} {v : ℕ} {ds : List ℕ} (h : ∀ d ∈ ds, d < b) :
    horner b v ds < (v + 1) * b ^ ds.length := by
  induction ds generalizing v with
  | nil => simp
  | cons d ds ih =>
    have hd : d < b := h d List.mem_cons_self
    have hstep : b * v + d + 1 ≤ (v + 1) * b := by nlinarith
    calc horner b (b * v + d) ds < (b * v + d + 1) * b ^ ds.length := ih fun x hx => h x (List.mem_cons_of_mem _ hx)
      _ ≤ (v + 1) * b * b ^ ds.length := Nat.mul_le_mul_right _ hstep
      _ = (v + 1) * b ^ (d :: ds).length := by rw [List.length_cons, pow_succ]; ring

/-- Strings of one length with digits below the base are told apart by their values. -/
theorem horner_inj {b : ℕ} {ds : List ℕ} : ∀ {v v' : ℕ} {ds' : List ℕ}, ds.length = ds'.length →
    (∀ d ∈ ds, d < b) → (∀ d ∈ ds', d < b) → horner b v ds = horner b v' ds' → v = v' ∧ ds = ds' := by
  induction ds with
  | nil =>
    intro v v' ds' hl _ _ h
    obtain rfl := List.length_eq_zero_iff.1 hl.symm
    exact ⟨h, rfl⟩
  | cons d ds ih =>
    intro v v' ds' hl hd hd' h
    rcases ds' with _ | ⟨d', ds'⟩
    · simp at hl
    · simp only [List.forall_mem_cons] at hd hd'
      obtain ⟨hv, rfl⟩ := ih (by simpa using hl) hd.2 hd'.2 h
      have hb : 0 < b := by omega
      have h1 : v = v' := by
        have h2 := congrArg (· / b) hv
        simpa [Nat.mul_add_div hb, Nat.div_eq_of_lt hd.1, Nat.div_eq_of_lt hd'.1] using h2
      subst h1
      exact ⟨rfl, by congr 1; omega⟩

/-- A value that fits is read without a drop: no step wraps. -/
theorem not_drops_of_lt {m b : ℕ} (hb : 0 < b) {v : ℕ} {ds : List ℕ} (h : horner b v ds < m) :
    ¬ Drops m b v ds := by
  induction ds generalizing v with
  | nil => exact id
  | cons d ds ih =>
    have hstep : b * v + d < m := lt_of_le_of_lt (le_horner hb _ ds) h
    have hv : v ≤ b * v := Nat.le_mul_of_pos_left v hb
    rw [drops_cons, Nat.mod_eq_of_lt hstep, Nat.mod_eq_of_lt (by omega : v < m)]
    exact not_or.2 ⟨by omega, ih h⟩

end Dynd.Lib
