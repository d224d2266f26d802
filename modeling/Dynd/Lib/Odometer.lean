import Mathlib.Algebra.BigOperators.Group.List.Basic
import Mathlib.Data.List.GetD
import Mathlib.Tactic
/-!
# Odometers

An index counts through a shape, its last axis fastest: a step adds one to an
axis and goes back to zero on the axes behind it. The step is a loop over the
axes from the last one; `odometer_digits` says that it is the successor on the
digits of the row-major position.
-/
namespace Dynd.Lib

/-- How many indices there are. -/
def volume (shape : List ℤ) : ℕ := (shape.map Int.toNat).prod

@[simp] theorem volume_nil : volume [] = 1 := rfl

theorem volume_cons (d : ℤ) (shape : List ℤ) : volume (d :: shape) = d.toNat * volume shape := by
  rw [volume, List.map_cons, List.prod_cons, volume]

/-- The index at a row-major position. -/
def digits : List ℤ → ℕ → List ℕ
  | [], _ => []
  | _ :: shape, r => r / volume shape :: digits shape (r % volume shape)

/-- The loop over the axes from the last one, until one does not overflow; `axis` axes are left. -/
def odometer (shape : List ℤ) : ℕ → List ℕ → List ℕ × Option ℕ
  | 0, index => (index, none)
  | axis + 1, index =>
    let next := index.getD axis 0 + 1
    if (next : ℤ) ≠ shape.getD axis 0 then (index.set axis next, some axis) else odometer shape axis (index.set axis 0)

/-- One axis counts on, and those behind it start again. -/
inductive Carry : ℕ → List ℕ → List ℕ → Prop
  | here (i : ℕ) (index : List ℕ) : Carry 0 (i :: index) ((i + 1) :: List.replicate index.length 0)
  | behind (i : ℕ) {axis : ℕ} {index next : List ℕ} (h : Carry axis index next) : Carry (axis + 1) (i :: index) (i :: next)

variable {shape : List ℤ} {index next : List ℕ} {axis k r : ℕ}

theorem length_digits (shape : List ℤ) (r : ℕ) : (digits shape r).length = shape.length := by
  induction shape generalizing r with
  | nil => rfl
  | cons d shape ih => rw [digits, List.length_cons, List.length_cons, ih]

theorem digits_zero (shape : List ℤ) : digits shape 0 = List.replicate shape.length 0 := by
  induction shape with
  | nil => rfl
  | cons d shape ih => rw [digits, Nat.zero_div, Nat.zero_mod, ih, List.length_cons, List.replicate_succ]

theorem volume_pos (h : ∀ d ∈ shape, 0 < d) : 0 < volume shape := by
  induction shape with
  | nil => exact Nat.one_pos
  | cons d shape ih =>
    obtain ⟨hd, hshape⟩ := List.forall_mem_cons.mp h
    rw [volume_cons]
    apply Nat.mul_pos
    · omega
    · exact ih hshape

theorem map_range_mul {α : Type} (f : ℕ → α) (n m : ℕ) :
    (List.range (n * m)).map f = (List.range n).flatMap fun i => (List.range m).map fun j => f (i * m + j) := by
  induction n with
  | zero =>
    rw [Nat.zero_mul]
    rfl
  | succ n ih =>
    rw [Nat.succ_mul, List.range_add, List.map_append, ih, List.range_succ, List.flatMap_append, List.flatMap_singleton,
      List.map_map]
    rfl

/-- The indices in row-major order. -/
theorem map_digits_cons (d : ℤ) (shape : List ℤ) : (List.range (volume (d :: shape))).map (digits (d :: shape)) =
    (List.range d.toNat).flatMap fun i => ((List.range (volume shape)).map (digits shape)).map (i :: ·) := by
  rw [volume_cons, map_range_mul]
  apply List.flatMap_congr
  intro i _
  rw [List.map_map]
  apply List.map_congr_left
  intro j hj
  have hlt := List.mem_range.mp hj
  rw [Function.comp_apply, digits, mul_comm i, Nat.mul_add_div (by omega), Nat.div_eq_of_lt hlt, add_zero, Nat.mul_add_mod,
    Nat.mod_eq_of_lt hlt]

theorem odometer_succ (shape : List ℤ) (axis : ℕ) (index : List ℕ) : odometer shape (axis + 1) index =
    if ((index.getD axis 0 + 1 : ℕ) : ℤ) ≠ shape.getD axis 0 then (index.set axis (index.getD axis 0 + 1), some axis)
    else odometer shape axis (index.set axis 0) := rfl

/-- The loop over the axes behind the first one is the loop of those axes. -/
theorem odometer_cons (d : ℤ) (shape : List ℤ) (i : ℕ) (axis : ℕ) (index : List ℕ) :
    odometer (d :: shape) (axis + 1) (i :: index) =
      match odometer shape axis index with
      | (next, some axis) => (i :: next, some (axis + 1))
      | (next, none) => if ((i + 1 : ℕ) : ℤ) ≠ d then ((i + 1) :: next, some 0) else (0 :: next, none) := by
  induction axis generalizing index with
  | zero => rfl
  | succ axis ih =>
    rw [odometer_succ, odometer_succ shape, List.getD_cons_succ, List.getD_cons_succ, List.set_cons_succ, List.set_cons_succ]
    by_cases h : ((index.getD axis 0 + 1 : ℕ) : ℤ) ≠ shape.getD axis 0
    · rw [if_pos h, if_pos h]
    · rw [if_neg h, if_neg h]
      exact ih _

/-- At the last position all axes overflow; before it the next position is reached. -/
theorem odometer_digits (hshape : ∀ d ∈ shape, 0 < d) (hr : r < volume shape) :
    (r + 1 = volume shape ∧ odometer shape shape.length (digits shape r) = (List.replicate shape.length 0, none)) ∨
      r + 1 < volume shape ∧ ∃ axis, odometer shape shape.length (digits shape r) = (digits shape (r + 1), some axis) ∧
        Carry axis (digits shape r) (digits shape (r + 1)) := by
  induction shape generalizing r with
  | nil =>
    left
    rw [volume_nil] at hr ⊢
    exact ⟨by omega, rfl⟩
  | cons d shape ih =>
    obtain ⟨hd, hshape⟩ := List.forall_mem_cons.mp hshape
    have hpos := volume_pos hshape
    rw [volume_cons] at hr ⊢
    have hlt : r % volume shape < volume shape := Nat.mod_lt r hpos
    have hdiv := Nat.div_add_mod r (volume shape)
    have hfirst : r / volume shape < d.toNat := Nat.div_lt_of_lt_mul (by rwa [mul_comm])
    rw [List.length_cons, digits, digits, odometer_cons]
    obtain ⟨hlast, hloop⟩ | ⟨hmore, axis, hloop, hcarry⟩ := ih hshape hlt
    · -- the axes behind start again
      have hnext : r + 1 = volume shape * (r / volume shape + 1) := by
        rw [Nat.mul_succ]
        omega
      rw [hloop, hnext, Nat.mul_div_cancel_left _ hpos, Nat.mul_mod_right, digits_zero]
      dsimp only
      rcases Nat.lt_or_ge (r / volume shape + 1) d.toNat with hroom | hfull
      · right
        refine ⟨?_, 0, if_pos (by omega), ?_⟩
        · rw [mul_comm d.toNat]
          exact Nat.mul_lt_mul_of_pos_left hroom hpos
        · have hhere := Carry.here (r / volume shape) (digits shape (r % volume shape))
          rwa [length_digits] at hhere
      · left
        have hd : r / volume shape + 1 = d.toNat := by omega
        refine ⟨by rw [hd, mul_comm], ?_⟩
        rw [if_neg (by omega), List.replicate_succ]
    · right
      have hdiv' : (r + 1) / volume shape = r / volume shape := by
        rw [← hdiv, add_assoc, Nat.mul_add_div hpos, Nat.div_eq_of_lt hmore, Nat.mul_add_div hpos, Nat.div_eq_of_lt hlt]
      have hmod' : (r + 1) % volume shape = r % volume shape + 1 := by
        rw [← hdiv, add_assoc, Nat.mul_add_mod, Nat.mod_eq_of_lt hmore, Nat.mul_add_mod, Nat.mod_eq_of_lt hlt]
      rw [hloop, hdiv', hmod']
      refine ⟨?_, axis + 1, rfl, .behind _ hcarry⟩
      have hle : volume shape * (r / volume shape + 1) ≤ volume shape * d.toNat := Nat.mul_le_mul_left _ hfirst
      rw [Nat.mul_succ, mul_comm _ d.toNat] at hle
      omega

theorem Carry.lt (h : Carry axis index next) : axis < index.length := by
  induction h with
  | here i index => exact Nat.succ_pos _
  | behind i _ ih => exact Nat.succ_lt_succ ih

theorem Carry.length (h : Carry axis index next) : next.length = index.length := by
  induction h with
  | here i index => rw [List.length_cons, List.length_replicate, List.length_cons]
  | behind i _ ih => rw [List.length_cons, List.length_cons, ih]

/-- The axes from the `k`-th one on, when the one that counts on is among them. -/
theorem Carry.drop (h : Carry axis index next) (hk : k ≤ axis) : Carry (axis - k) (index.drop k) (next.drop k) := by
  induction h generalizing k with
  | here i index =>
    obtain rfl := Nat.le_zero.mp hk
    exact .here i index
  | behind i h ih =>
    cases k with
    | zero => exact .behind i h
    | succ k =>
      rw [Nat.add_sub_add_right]
      exact ih (Nat.le_of_succ_le_succ hk)

/-- The axes from the `k`-th one on, when they start again. -/
theorem Carry.drop_zero (h : Carry axis index next) (hk : axis < k) : next.drop k = List.replicate (index.length - k) 0 := by
  induction h generalizing k with
  | here i index =>
    obtain ⟨k, rfl⟩ : ∃ k', k = k' + 1 := ⟨k - 1, by omega⟩
    rw [List.drop_succ_cons, List.drop_replicate, List.length_cons, Nat.add_sub_add_right]
  | behind i h ih =>
    obtain ⟨k, rfl⟩ : ∃ k', k = k' + 1 := ⟨k - 1, by omega⟩
    rw [List.drop_succ_cons, List.length_cons, Nat.add_sub_add_right]
    exact ih (Nat.lt_of_succ_lt_succ hk)

end Dynd.Lib
