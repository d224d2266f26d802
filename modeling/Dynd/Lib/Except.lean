import Mathlib.Tactic
/-!
# Computations that may fail

How a `do` block over `Except` runs: the equations of its steps, and what a
successful or a failed run says about them.
-/
namespace Dynd.Lib

variable {ε α β : Type}

@[simp] theorem ok_bind (a : α) (f : α → Except ε β) : (Except.ok a >>= f) = f a := rfl

@[simp] theorem error_bind (e : ε) (f : α → Except ε β) : (Except.error e >>= f) = Except.error e := rfl

@[simp] theorem map_ok (a : α) (f : α → β) : (f <$> (Except.ok a : Except ε α)) = Except.ok (f a) := rfl

@[simp] theorem map_error (e : ε) (f : α → β) : (f <$> (Except.error e : Except ε α)) = Except.error e := rfl

@[simp] theorem pure_eq_ok (a : α) : (pure a : Except ε α) = Except.ok a := rfl

@[simp] theorem throw_eq_error (e : ε) : (throw e : Except ε α) = Except.error e := rfl

/-- A sequence succeeds when both of its steps do. -/
theorem bind_eq_ok {x : Except ε α} {f : α → Except ε β} {b : β} :
    (x >>= f) = .ok b ↔ ∃ a, x = .ok a ∧ f a = .ok b := by
  cases x <;> simp

theorem map_eq_ok {x : Except ε α} {f : α → β} {b : β} : f <$> x = .ok b ↔ ∃ a, x = .ok a ∧ f a = b := by
  cases x <;> simp

theorem map_eq_error {x : Except ε α} {f : α → β} {e : ε} : f <$> x = .error e ↔ x = .error e := by
  cases x <;> simp

/-- A sequence fails in its first step or in its second. -/
theorem bind_eq_error {x : Except ε α} {f : α → Except ε β} {e : ε} :
    (x >>= f) = .error e ↔ x = .error e ∨ ∃ a, x = .ok a ∧ f a = .error e := by
  cases x <;> simp

/-- A failing list of computations has one that fails. -/
theorem mapM_eq_error {f : α → Except ε β} {e : ε} : ∀ {l : List α}, l.mapM f = .error e → ∃ a ∈ l, f a = .error e
  | [], h => by
    rw [List.mapM_nil] at h
    cases h
  | a :: l, h => by
    rw [List.mapM_cons] at h
    obtain h | ⟨b, _, h⟩ := bind_eq_error.mp h
    · exact ⟨a, List.mem_cons_self, h⟩
    · obtain h | ⟨bs, _, h⟩ := bind_eq_error.mp h
      · obtain ⟨a', ha', h'⟩ := mapM_eq_error h
        exact ⟨a', List.mem_cons_of_mem _ ha', h'⟩
      · cases h

/-- A list of computations that all succeed. -/
theorem mapM_eq_map {f : α → Except ε β} {g : α → β} : ∀ {l : List α}, (∀ a ∈ l, f a = .ok (g a)) → l.mapM f = .ok (l.map g)
  | [], _ => by rw [List.mapM_nil, List.map_nil, pure_eq_ok]
  | a :: l, h => by
    rw [List.mapM_cons, h a List.mem_cons_self, ok_bind, mapM_eq_map fun b hb => h b (List.mem_cons_of_mem _ hb)]
    rfl

theorem ok_of_mapM {f : α → Except ε β} {bs : List β} : ∀ {l : List α}, l.mapM f = .ok bs → ∀ a ∈ l, ∃ b, f a = .ok b := by
  intro l
  induction l generalizing bs with
  | nil =>
    intro _ a ha
    cases ha
  | cons a l ih =>
    intro h
    rw [List.mapM_cons] at h
    obtain ⟨b, hb, h⟩ := bind_eq_ok.1 h
    obtain ⟨bs', hbs, -⟩ := bind_eq_ok.1 h
    exact List.forall_mem_cons.2 ⟨⟨b, hb⟩, ih hbs⟩

/-- A list of computations succeeds, or stops at the first one that fails. -/
theorem mapM_cases (f : α → Except ε β) (l : List α) :
    (∃ bs, l.mapM f = .ok bs ∧ List.Forall₂ (fun a b => f a = .ok b) l bs) ∨
      ∃ front a back e, l = front ++ a :: back ∧ (∀ x ∈ front, ∃ b, f x = .ok b) ∧ f a = .error e ∧ l.mapM f = .error e := by
  induction l with
  | nil => exact Or.inl ⟨[], List.mapM_nil, .nil⟩
  | cons a l ih =>
    rw [List.mapM_cons]
    cases hfa : f a with
    | error e => exact Or.inr ⟨[], a, l, e, rfl, fun x hx => absurd hx List.not_mem_nil, hfa, rfl⟩
    | ok b =>
      rcases ih with ⟨bs, hbs, hall⟩ | ⟨front, a', back, e, rfl, hfront, he, hl⟩
      · left
        rw [hbs]
        exact ⟨b :: bs, rfl, .cons hfa hall⟩
      · right
        rw [hl]
        exact ⟨a :: front, a', back, e, rfl, List.forall_mem_cons.mpr ⟨⟨b, hfa⟩, hfront⟩, he, rfl⟩

theorem mapM_eq_ok_map {f : α → Except ε β} {g : α → β} {l : List α} :
    l.mapM f = .ok (l.map g) ↔ ∀ a ∈ l, f a = .ok (g a) := by
  constructor
  · intro h
    rcases mapM_cases f l with ⟨bs, hbs, hall⟩ | ⟨front, a, back, e, -, -, -, hl⟩
    · obtain rfl : bs = l.map g := Except.ok.inj (hbs.symm.trans h)
      rw [List.forall₂_map_right_iff] at hall
      exact List.forall₂_same.1 hall
    · rw [hl] at h
      cases h
  · exact mapM_eq_map

/-- A loop succeeds whose every step does, from any state. -/
theorem foldlM_ok {f : β → α → Except ε β} {l : List α} (h : ∀ a ∈ l, ∀ b, ∃ b', f b a = .ok b') (b : β) :
    ∃ b', l.foldlM f b = .ok b' := by
  induction l generalizing b with
  | nil => exact ⟨b, rfl⟩
  | cons a l ih =>
    obtain ⟨b₁, hb₁⟩ := h a List.mem_cons_self b
    rw [List.foldlM_cons, hb₁, ok_bind]
    exact ih (fun a' ha' => h a' (List.mem_cons_of_mem _ ha')) b₁

/-- Several computations, made in order. -/
def sequenceFin : {k : ℕ} → (Fin k → Except ε α) → Except ε (Fin k → α)
  | 0, _ => .ok Fin.elim0
  | k + 1, f => do
    let a ← f ⟨0, k.succ_pos⟩
    let rest ← sequenceFin fun i : Fin k => f i.succ
    return Fin.cons a rest

theorem sequenceFin_eq_ok {k : ℕ} {f : Fin k → Except ε α} {g : Fin k → α} : sequenceFin f = .ok g ↔ ∀ i, f i = .ok (g i) := by
  induction k with
  | zero =>
    refine ⟨fun _ i => i.elim0, fun _ => ?_⟩
    rw [sequenceFin, Subsingleton.elim g Fin.elim0]
  | succ k ih =>
    rw [sequenceFin, bind_eq_ok, Fin.forall_fin_succ]
    constructor
    · rintro ⟨a, ha, h⟩
      obtain ⟨rest, hrest, h⟩ := bind_eq_ok.1 h
      obtain rfl : Fin.cons a rest = g := by simpa using h
      exact ⟨ha, fun i => ih.1 hrest i⟩
    · rintro ⟨ha, h⟩
      refine ⟨g 0, ha, bind_eq_ok.2 ⟨fun i => g i.succ, ih.2 h, ?_⟩⟩
      exact congrArg Except.ok (Fin.cons_self_tail g)

theorem toOption_ok {x : Except ε α} {a : α} : x.toOption = some a ↔ x = .ok a := by
  cases x <;> simp [Except.toOption]

theorem toOption_bind (x : Except ε α) (f : α → Except ε β) :
    (x >>= f).toOption = x.toOption.bind fun a => (f a).toOption := by
  cases x <;> rfl

/-! ## Two runs -/

/-- Both computations fail, or both succeed with results that `R` relates. -/
inductive Agree {ε' : Type} (R : α → β → Prop) : Except ε α → Except ε' β → Prop where
  | ok {a : α} {b : β} : R a b → Agree R (.ok a) (.ok b)
  | error (e : ε) (e' : ε') : Agree R (.error e) (.error e')

section
variable {ε' α' β' : Type} {R : α → α' → Prop} {S : β → β' → Prop} {x : Except ε α} {y : Except ε' α'}

/-- Two sequences agree when their first steps do, and their second steps on related results. -/
theorem Agree.bind {f : α → Except ε β} {g : α' → Except ε' β'} (h : Agree R x y)
    (hfg : ∀ a b, x = .ok a → y = .ok b → R a b → Agree S (f a) (g b)) : Agree S (x >>= f) (y >>= g) := by
  cases h with
  | ok hab => exact hfg _ _ rfl rfl hab
  | error e e' => exact .error e e'

theorem Agree.map {f : α → β} {g : α' → β'} (h : Agree R x y) (hfg : ∀ a b, R a b → S (f a) (g b)) :
    Agree S (f <$> x) (g <$> y) := by
  cases h with
  | ok hab => exact .ok (hfg _ _ hab)
  | error e e' => exact .error e e'

theorem Agree.mapError {ε₁ ε₁' : Type} (h : Agree R x y) (f : ε → ε₁) (g : ε' → ε₁') :
    Agree R (x.mapError f) (y.mapError g) := by
  cases h with
  | ok hab => exact .ok hab
  | error e e' => exact .error _ _

/-- The same outcome but for the error. -/
theorem agree_of_toOption {y : Except ε' α} (h : x.toOption = y.toOption) : Agree (fun a b => a = b) x y := by
  cases x with
  | ok a =>
    cases y with
    | ok b => exact .ok (Option.some.inj h)
    | error e => cases h
  | error e =>
    cases y with
    | ok b => cases h
    | error e' => exact .error e e'

theorem Agree.toOption_eq {y : Except ε' α} (h : Agree (fun a b => a = b) x y) : x.toOption = y.toOption := by
  cases h with
  | ok hab => exact congrArg some hab
  | error e e' => rfl

end

end Dynd.Lib
