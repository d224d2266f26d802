import Mathlib.Data.List.Lex
import Mathlib.Tactic
/-!
# The order of words and of their codes

Where two words differ first decides their lexicographic order. A code of the
letters by words keeps the order of all words whose first letters to differ are
coded in order, whatever follows them.
-/
namespace Dynd.Lib
variable {α β : Type*}

/-- The words agree up to a place where one has `a` and the other has `b`. -/
def DifferAt (s t : List α) (a b : α) : Prop := a ≠ b ∧ ∃ p s' t', s = p ++ a :: s' ∧ t = p ++ b :: t'

namespace DifferAt
variable {s t : List α} {a b : α}

theorem symm (h : DifferAt s t a b) : DifferAt t s b a := by
  obtain ⟨hne, p, s', t', hs, ht⟩ := h
  exact ⟨hne.symm, p, t', s', ht, hs⟩

theorem ne (h : DifferAt s t a b) : s ≠ t := by
  obtain ⟨hne, p, s', t', rfl, rfl⟩ := h
  intro he
  exact hne (List.cons.inj (List.append_cancel_left he)).1

theorem cons (h : DifferAt s t a b) (c : α) : DifferAt (c :: s) (c :: t) a b := by
  obtain ⟨hne, p, s', t', rfl, rfl⟩ := h
  exact ⟨hne, c :: p, s', t', rfl, rfl⟩

/-- What comes after the words does not matter. -/
theorem append (h : DifferAt s t a b) (u v : List α) : DifferAt (s ++ u) (t ++ v) a b := by
  obtain ⟨hne, p, s', t', rfl, rfl⟩ := h
  exact ⟨hne, p, s' ++ u, t' ++ v, by simp, by simp⟩

end DifferAt

/-- Two words are equal, or one goes on after the other, or there is a place where they differ. -/
theorem words_cases (s t : List α) :
    s = t ∨ (∃ c u, t = s ++ c :: u) ∨ (∃ c u, s = t ++ c :: u) ∨ ∃ a b, DifferAt s t a b := by
  induction s generalizing t with
  | nil =>
    cases t with
    | nil => exact .inl rfl
    | cons c u => exact .inr (.inl ⟨c, u, rfl⟩)
  | cons a s ih =>
    cases t with
    | nil => exact .inr (.inr (.inl ⟨a, s, rfl⟩))
    | cons b t =>
      by_cases hab : a = b
      · subst hab
        rcases ih t with rfl | ⟨c, u, rfl⟩ | ⟨c, u, rfl⟩ | ⟨x, y, h⟩
        · exact .inl rfl
        · exact .inr (.inl ⟨c, u, rfl⟩)
        · exact .inr (.inr (.inl ⟨c, u, rfl⟩))
        · exact .inr (.inr (.inr ⟨x, y, h.cons a⟩))
      · exact .inr (.inr (.inr ⟨a, b, hab, [], s, t, rfl, rfl⟩))

theorem append_lt_append_iff [LinearOrder α] (p s t : List α) : p ++ s < p ++ t ↔ s < t := by
  induction p with
  | nil => rfl
  | cons a p ih =>
    rw [List.cons_append, List.cons_append, List.cons_lt_cons_iff, ih]
    simp

theorem DifferAt.lt_iff [LinearOrder α] {s t : List α} {a b : α} (h : DifferAt s t a b) : s < t ↔ a < b := by
  obtain ⟨hne, p, s', t', rfl, rfl⟩ := h
  rw [append_lt_append_iff, List.cons_lt_cons_iff]
  simp [hne]

theorem lt_append_cons [LinearOrder α] (s : List α) (c : α) (u : List α) : s < s ++ c :: u := by
  have h := (append_lt_append_iff s [] (c :: u)).mpr (List.nil_lt_cons c u)
  rwa [List.append_nil] at h

/-! ## Codes -/

section
variable [LinearOrder β] (e : α → List β)

/-- The code of `a` comes before the code of `b`, whatever follows them. -/
def CodeBefore (a b : α) : Prop := ∀ u v, e a ++ u < e b ++ v

variable {e} {s t : List α}

theorem DifferAt.flatMap_lt {a b : α} (h : DifferAt s t a b) (hab : CodeBefore e a b) : s.flatMap e < t.flatMap e := by
  obtain ⟨-, p, s', t', rfl, rfl⟩ := h
  rw [List.flatMap_append, List.flatMap_append, append_lt_append_iff, List.flatMap_cons, List.flatMap_cons]
  exact hab _ _

theorem flatMap_lt_append_cons (s : List α) {c : α} (hc : e c ≠ []) (u : List α) :
    s.flatMap e < (s ++ c :: u).flatMap e := by
  obtain ⟨x, xs, hx⟩ := List.exists_cons_of_ne_nil hc
  rw [List.flatMap_append, List.flatMap_cons, hx, List.cons_append]
  exact lt_append_cons _ _ _

/-- The codes of words are in the order of the words when the codes of the letters at the first
difference are. -/
theorem flatMap_lt [LinearOrder α] (hne : ∀ c ∈ t, e c ≠ []) (hbefore : ∀ a b, DifferAt s t a b → a < b → CodeBefore e a b)
    (h : s < t) : s.flatMap e < t.flatMap e := by
  rcases words_cases s t with rfl | ⟨c, u, rfl⟩ | ⟨c, u, rfl⟩ | ⟨a, b, hdiffer⟩
  · exact absurd h (lt_irrefl _)
  · exact flatMap_lt_append_cons s (hne c (by simp)) u
  · exact absurd h (lt_asymm (lt_append_cons t c u))
  · exact hdiffer.flatMap_lt (hbefore a b hdiffer (hdiffer.lt_iff.mp h))

/-- Different words have different codes when the codes of any two letters are in one order or the other. -/
theorem flatMap_ne (hne : ∀ c, e c ≠ []) (htotal : ∀ a b, a ≠ b → CodeBefore e a b ∨ CodeBefore e b a) (h : s ≠ t) :
    s.flatMap e ≠ t.flatMap e := by
  rcases words_cases s t with rfl | ⟨c, u, rfl⟩ | ⟨c, u, rfl⟩ | ⟨a, b, hdiffer⟩
  · exact absurd rfl h
  · exact (flatMap_lt_append_cons s (hne c) u).ne
  · exact (flatMap_lt_append_cons t (hne c) u).ne'
  · rcases htotal a b hdiffer.1 with hab | hba
    · exact (hdiffer.flatMap_lt hab).ne
    · exact (hdiffer.symm.flatMap_lt hba).ne'

end

end Dynd.Lib
