import Mathlib.Data.List.Sort
import Mathlib.Tactic
/-!
# Sets sorted by a test

A strict weak order given as a test, as a sorting routine or a tree set takes
it: what is sorted by it, found by it and equivalent under it.
-/
namespace Dynd.Lib

variable {α : Type}

structure StrictWeak (less : α → α → Bool) : Prop where
  irrefl : ∀ a, less a a = false
  trans : ∀ a b c, less a b = true → less b c = true → less a c = true
  incomp_trans : ∀ a b c, less a b = false → less b a = false → less b c = false → less c b = false →
    less a c = false ∧ less c a = false

variable {less : α → α → Bool} {a b c : α} {us vs : List α}

/-- A test that compares keys. -/
theorem StrictWeak.of_key {β : Type} [LinearOrder β] (key : α → β) (h : ∀ a b, less a b = true ↔ key a < key b) :
    StrictWeak less := by
  have hfalse : ∀ a b, less a b = false ↔ key b ≤ key a := fun a b => by
    rw [← Bool.not_eq_true, h, not_lt]
  refine ⟨fun a => (hfalse a a).mpr le_rfl, fun a b c hab hbc => ?_, fun a b c hab hba hbc hcb => ?_⟩
  · exact (h a c).mpr (((h a b).mp hab).trans ((h b c).mp hbc))
  · rw [hfalse] at hab hba hbc hcb
    exact ⟨(hfalse a c).mpr (hbc.trans hab), (hfalse c a).mpr (hba.trans hcb)⟩

/-- Neither comes before the other. -/
def Equivalent (less : α → α → Bool) (a b : α) : Prop := less a b = false ∧ less b a = false

/-- One comes before the other. -/
def Differ (less : α → α → Bool) (a b : α) : Prop := less a b = true ∨ less b a = true

theorem not_equivalent_iff : ¬ Equivalent less a b ↔ Differ less a b := by
  unfold Equivalent Differ
  cases less a b <;> cases less b a <;> simp

theorem Differ.symm (h : Differ less a b) : Differ less b a := Or.symm h

theorem Equivalent.symm (h : Equivalent less a b) : Equivalent less b a := And.symm h

namespace StrictWeak

variable (hl : StrictWeak less)
include hl

theorem asymm (h : less a b = true) : less b a = false := by
  by_contra hb
  have := hl.trans a b a h (by simpa using hb)
  rw [hl.irrefl a] at this
  cases this

/-- Not coming after is transitive. -/
theorem le_trans (hab : less b a = false) (hbc : less c b = false) : less c a = false := by
  by_contra hca
  have hca : less c a = true := by simpa using hca
  have hbc' : less b c = false := by
    by_contra h
    rw [hl.trans b c a (by simpa using h) hca] at hab
    cases hab
  have hab' : less a b = false := by
    by_contra h
    rw [hl.trans c a b hca (by simpa using h)] at hbc
    cases hbc
  rw [(hl.incomp_trans a b c hab' hab hbc' hbc).2] at hca
  cases hca

theorem lt_of_lt_of_le (hab : less a b = true) (hbc : less c b = false) : less a c = true := by
  by_contra hac
  rw [hl.le_trans hbc (by simpa using hac)] at hab
  cases hab

theorem lt_of_le_of_lt (hab : less b a = false) (hbc : less b c = true) : less a c = true := by
  by_contra hac
  rw [hl.le_trans (by simpa using hac) hab] at hbc
  cases hbc

/-- Sorting what differs puts it in one order only. -/
theorem eq_of_sorted (h₁ : us.Pairwise fun a b => less a b = true) (h₂ : vs.Pairwise fun a b => less a b = true)
    (hp : us.Perm vs) : us = vs := by
  refine List.Perm.eq_of_pairwise (fun a b _ _ hab hba => ?_) h₁ h₂ hp
  rw [hl.asymm hab] at hba
  cases hba

/-- The relation a sort by the test sorts by. -/
theorem total : Std.Total fun a b => less b a = false :=
  ⟨fun a b => by
    by_cases h : less b a = true
    · exact .inr (hl.asymm h)
    · exact .inl (by simpa using h)⟩

end StrictWeak

/-! ## The set -/

/-- `find` and `insert` of a tree set go to the first element not before the
one asked for. -/
def setFind (less : α → α → Bool) (x : α) : List α → Bool
  | [] => false
  | u :: us => if less u x then setFind less x us else !less x u

def setInsert (less : α → α → Bool) (x : α) : List α → List α
  | [] => [x]
  | u :: us => if less u x then u :: setInsert less x us else if less x u then x :: u :: us else u :: us

theorem setFind_iff (hl : StrictWeak less) {x : α} :
    ∀ {us : List α}, us.Pairwise (fun a b => less a b = true) →
      (setFind less x us = true ↔ ∃ u ∈ us, Equivalent less x u)
  | [], _ => by simp [setFind]
  | u :: us, hs => by
    obtain ⟨hu, hus⟩ := List.pairwise_cons.mp hs
    unfold setFind
    cases hux : less u x with
    | true =>
      rw [if_pos rfl, setFind_iff hl hus]
      constructor
      · rintro ⟨v, hv, he⟩
        exact ⟨v, List.mem_cons_of_mem _ hv, he⟩
      · rintro ⟨v, hv, he⟩
        obtain rfl | hv := List.mem_cons.mp hv
        · rw [he.2] at hux
          cases hux
        · exact ⟨v, hv, he⟩
    | false =>
      rw [if_neg Bool.false_ne_true, Bool.not_eq_true']
      constructor
      · exact fun hxu => ⟨u, List.mem_cons_self, hxu, hux⟩
      · rintro ⟨v, hv, he⟩
        obtain rfl | hv := List.mem_cons.mp hv
        · exact he.1
        · -- `x` is equivalent to an element after `u`, yet not after `u`
          rw [hl.lt_of_lt_of_le (hu v hv) he.1] at hux
          cases hux

theorem perm_setInsert {x : α} : ∀ {us : List α}, (∀ u ∈ us, Differ less x u) → (setInsert less x us).Perm (x :: us)
  | [], _ => List.Perm.refl _
  | u :: us, hd => by
    unfold setInsert
    split_ifs with hux hxu
    · exact ((perm_setInsert fun v hv => hd v (List.mem_cons_of_mem _ hv)).cons u).trans (List.Perm.swap x u us)
    · exact List.Perm.refl _
    · exact absurd (hd u List.mem_cons_self) (by unfold Differ; simp [hux, hxu])

theorem sorted_setInsert (hl : StrictWeak less) {x : α} :
    ∀ {us : List α}, us.Pairwise (fun a b => less a b = true) → (∀ u ∈ us, Differ less x u) →
      (setInsert less x us).Pairwise fun a b => less a b = true
  | [], _, _ => List.pairwise_singleton _ _
  | u :: us, hs, hd => by
    obtain ⟨hu, hus⟩ := List.pairwise_cons.mp hs
    have hd' : ∀ v ∈ us, Differ less x v := fun v hv => hd v (List.mem_cons_of_mem _ hv)
    unfold setInsert
    split_ifs with hux hxu
    · refine List.pairwise_cons.mpr ⟨fun v hv => ?_, sorted_setInsert hl hus hd'⟩
      obtain rfl | hv := List.mem_cons.mp ((perm_setInsert hd').mem_iff.mp hv)
      · exact hux
      · exact hu v hv
    · refine List.pairwise_cons.mpr ⟨fun v hv => ?_, hs⟩
      obtain rfl | hv := List.mem_cons.mp hv
      · exact hxu
      · exact hl.trans x u v hxu (hu v hv)
    · exact hs

/-! ## Undoing a reordering -/

/-- The places of a reordering's entries, written one after the other. -/
def invert (perm : List ℕ) (out : List ℕ) : List ℕ :=
  perm.zipIdx.foldl (fun out p => out.set p.1 p.2) out

theorem length_foldl_set (ps : List (ℕ × ℕ)) : ∀ out : List ℕ, (ps.foldl (fun out p => out.set p.1 p.2) out).length = out.length := by
  induction ps with
  | nil => exact fun _ => rfl
  | cons p ps ih =>
    intro out
    rw [List.foldl_cons, ih, List.length_set]

theorem invert_getElem? {perm : List ℕ} (hn : perm.Nodup) {out : List ℕ} (hb : ∀ v ∈ perm, v < out.length) (i : ℕ) {v : ℕ}
    (hv : perm[i]? = some v) : (invert perm out)[v]? = some i := by
  unfold invert
  -- the entry is written in round `i`, and no later round writes there
  induction perm using List.reverseRecOn with
  | nil => simp at hv
  | append_singleton perm w ih =>
    obtain ⟨hn₁, _, hn₂⟩ := List.nodup_append.mp hn
    have hlen := length_foldl_set perm.zipIdx out
    rw [List.zipIdx_append, List.foldl_append]
    simp only [List.zipIdx_cons, List.zipIdx_nil, List.foldl_cons, List.foldl_nil, Nat.zero_add]
    rw [List.getElem?_append] at hv
    split_ifs at hv with hi
    · have hvm : v ∈ perm := List.mem_of_getElem? hv
      have hne : w ≠ v := fun h => hn₂ v hvm w (List.mem_singleton.mpr rfl) h.symm
      rw [List.getElem?_set_ne hne]
      exact ih hn₁ (fun u hu => hb u (List.mem_append_left _ hu)) hv
    · have hi' : i - perm.length = 0 := by
        by_contra h0
        rw [List.getElem?_eq_none (by simp; omega)] at hv
        cases hv
      rw [hi'] at hv
      cases hv
      have hw : v < out.length := hb v (List.mem_append_right _ (List.mem_singleton.mpr rfl))
      rw [List.getElem?_set_self (by omega)]
      congr 1
      omega

end Dynd.Lib
