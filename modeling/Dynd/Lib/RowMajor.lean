import Mathlib.Tactic
/-!
# Row-major offsets

The offsets of the elements of nested axes, the last axis changing fastest.
Their order depends on the order of the axes, and which offsets there are does
not. Two axes of which the outer one steps over the whole inner one are as good
as a single axis.
-/
namespace Dynd.Lib

section
variable {α : Type*} (size : α → ℕ) (stride : α → ℤ)

/-- The offset of each element, in row-major order. -/
def offsets : List α → List ℤ
  | [] => [0]
  | a :: axes => (List.range (size a)).flatMap fun i : ℕ => (offsets axes).map (i * stride a + ·)

variable {size stride}

theorem offsets_cons (a : α) (axes : List α) : offsets size stride (a :: axes) =
    (List.range (size a)).flatMap fun i : ℕ => (offsets size stride axes).map (i * stride a + ·) := rfl

/-- An axis of one element adds nothing. -/
theorem offsets_one {a : α} (ha : size a = 1) (axes : List α) : offsets size stride (a :: axes) = offsets size stride axes := by
  simp [offsets_cons, ha]

/-- An axis without elements leaves none. -/
theorem offsets_empty {axes : List α} (h : ∃ a ∈ axes, size a = 0) : offsets size stride axes = [] := by
  induction axes with
  | nil => simp at h
  | cons a axes ih =>
    obtain ⟨b, hb, h0⟩ := h
    obtain rfl | hb := List.mem_cons.1 hb
    · simp [offsets_cons, h0]
    · simp [offsets_cons, ih ⟨b, hb, h0⟩]

/-- Two loops may be exchanged, up to the order of what they list. -/
theorem flatMap_comm {β γ δ : Type*} (l : List β) (l' : List γ) (f : β → γ → List δ) :
    (l.flatMap fun b => l'.flatMap fun c => f b c).Perm (l'.flatMap fun c => l.flatMap fun b => f b c) := by
  rw [← Multiset.coe_eq_coe]
  simp only [← Multiset.coe_bind]
  exact Multiset.bind_bind _ _

theorem offsets_swap (a b : α) (axes : List α) :
    (offsets size stride (a :: b :: axes)).Perm (offsets size stride (b :: a :: axes)) := by
  have hcount : ∀ a b : α, offsets size stride (a :: b :: axes) = (List.range (size a)).flatMap fun i : ℕ =>
      (List.range (size b)).flatMap fun j : ℕ => (offsets size stride axes).map (i * stride a + j * stride b + ·) := by
    intro a b
    simp only [offsets_cons, List.map_flatMap, List.map_map, Function.comp_def, add_assoc]
  rw [hcount a b, hcount b a]
  simp only [add_comm (_ * stride b)]
  exact flatMap_comm _ _ _

/-- The order of the axes does not matter for which offsets there are. -/
theorem offsets_perm {axes axes' : List α} (h : axes.Perm axes') :
    (offsets size stride axes).Perm (offsets size stride axes') := by
  induction h with
  | nil => exact List.Perm.refl _
  | cons a _ ih => exact List.Perm.flatMap_left _ fun i _ => ih.map _
  | swap a b axes => exact offsets_swap b a axes
  | trans _ _ ih₁ ih₂ => exact ih₁.trans ih₂

end

/-- The multiples of a stride below a count. -/
def multiples (n : ℕ) (s : ℤ) : List ℤ := (List.range n).map fun i : ℕ => i * s

/-- An axis over whole multiples of another one is a single axis. -/
theorem multiples_flatMap (n m : ℕ) (s : ℤ) :
    ((multiples n (m * s)).flatMap fun o => (multiples m s).map (o + ·)) = multiples (n * m) s := by
  induction n with
  | zero => simp [multiples]
  | succ n ih =>
    have hlast : (multiples m s).map (n * (m * s) + ·) = (List.range m).map fun i : ℕ => ((n * m + i : ℕ) : ℤ) * s := by
      rw [multiples, List.map_map]
      refine List.map_congr_left fun i _ => ?_
      push_cast [Function.comp_apply]
      ring
    have hsplit : multiples (n + 1) (m * s) = multiples n (m * s) ++ [n * (m * s)] := by
      rw [multiples, List.range_succ, List.map_append]
      rfl
    rw [hsplit, List.flatMap_append, ih, List.flatMap_singleton, hlast, multiples, multiples, Nat.succ_mul, List.range_add,
      List.map_append, List.map_map]
    rfl

end Dynd.Lib
