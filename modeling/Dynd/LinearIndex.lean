import Dynd.Lib.Except
import Dynd.Lib.Progression
/-!
# Applying one index range to a dimension

`apply_single_linear_index` resolves an `irange` against a dimension's size.
Every signed operation of it is checked here: one that leaves `intptr_t` is
`signed_overflow`. `apply_single_linear_index_iff` says when it never happens
and that the indices are then the ones the range denotes.
-/
namespace Dynd.LinearIndex
open Lib

/-! ## The function -/

abbrev IntptrRange (z : ℤ) : Prop := -2 ^ 63 ≤ z ∧ z < 2 ^ 63

abbrev intptr_t := {z : ℤ // IntptrRange z}

def intptrMin : intptr_t := ⟨-2 ^ 63, by decide⟩

def intptrMax : intptr_t := ⟨2 ^ 63 - 1, by decide⟩

/-- `class irange`. A step of zero stands for the single index `start`. -/
structure irange where
  start : intptr_t
  finish : intptr_t
  step : intptr_t
deriving DecidableEq

/-- What `error_i` and `error_tp` are for: the axis, and the shape of the type that has it. -/
structure ErrorType where
  error_i : ℕ
  shape : List intptr_t
deriving DecidableEq

inductive index_error where
  | index_out_of_bounds (i dimension_size : intptr_t)
  | index_out_of_bounds_axis (i : intptr_t) (axis : ℕ) (shape : List intptr_t)
  | irange_out_of_bounds (i : irange) (dimension_size : intptr_t)
  | irange_out_of_bounds_axis (i : irange) (axis : ℕ) (shape : List intptr_t)
  | signed_overflow
deriving DecidableEq

/-- The out parameters. -/
structure Resolved where
  remove_dimension : Bool
  start_index : ℤ
  index_stride : ℤ
  dimension_size : ℤ
deriving DecidableEq, Repr

/-- The result of a signed operation. -/
def checked (z : ℤ) : Except index_error ℤ := if IntptrRange z then .ok z else .error .signed_overflow

def indexOutOfBounds (error_tp : Option ErrorType) (i dimension_size : intptr_t) : index_error :=
  match error_tp with
  | some tp => .index_out_of_bounds_axis i tp.error_i tp.shape
  | none => .index_out_of_bounds i dimension_size

def irangeOutOfBounds (error_tp : Option ErrorType) (i : irange) (dimension_size : intptr_t) : index_error :=
  match error_tp with
  | some tp => .irange_out_of_bounds_axis i tp.error_i tp.shape
  | none => .irange_out_of_bounds i dimension_size

section
variable (irnge : irange) (dimension_size : intptr_t) (error_tp : Option ErrorType)

/-- A single index. -/
def singleIndex : Except index_error Resolved := do
  let idx := irnge.start.val
  if 0 ≤ idx then
    if idx < dimension_size.val then return ⟨true, idx, 1, 1⟩
    else throw (indexOutOfBounds error_tp irnge.start dimension_size)
  else
    let lowest ← checked (-dimension_size.val)
    if lowest ≤ idx then
      let start_index ← checked (idx + dimension_size.val)
      return ⟨true, start_index, 1, 1⟩
    else throw (indexOutOfBounds error_tp irnge.start dimension_size)

/-- The start of a range with a positive step. -/
def positiveStart : Except index_error ℤ := do
  let start := irnge.start.val
  if 0 ≤ start then
    if start < dimension_size.val then return start
    else throw (irangeOutOfBounds error_tp irnge dimension_size)
  else
    let lowest ← checked (-dimension_size.val)
    -- "from the beginning" whenever the index is more negative
    if lowest ≤ start then checked (start + dimension_size.val) else return 0

/-- The end of a range with a positive step. -/
def positiveEnd : Except index_error ℤ := do
  let finish := irnge.finish.val
  if 0 ≤ finish then
    if finish ≤ dimension_size.val then return finish else return dimension_size.val
  else
    let lowest ← checked (-dimension_size.val)
    if lowest ≤ finish then checked (finish + dimension_size.val)
    else throw (irangeOutOfBounds error_tp irnge dimension_size)

def positiveRange : Except index_error Resolved := do
  let step := irnge.step.val
  let start ← positiveStart irnge dimension_size error_tp
  let finish ← positiveEnd irnge dimension_size error_tp
  let size ← checked (finish - start)
  if 0 < size then
    if step = 1 then return ⟨false, start, 1, size⟩
    else
      let sum ← checked (size + step)
      let sum ← checked (sum - 1)
      return ⟨false, start, step, sum.tdiv step⟩
  else return ⟨false, 0, 1, 0⟩

/-- The start of a range with a negative step. -/
def negativeStart : Except index_error ℤ := do
  let start := irnge.start.val
  if 0 ≤ start then
    if start < dimension_size.val then return start
    else throw (irangeOutOfBounds error_tp irnge dimension_size)
  else
    let lowest ← checked (-dimension_size.val)
    if lowest ≤ start then checked (start + dimension_size.val)
    -- "from the beginning", which means the last element
    else if irnge.start = intptrMin then checked (dimension_size.val - 1)
    else throw (irangeOutOfBounds error_tp irnge dimension_size)

/-- The end of a range with a negative step. -/
def negativeEnd : Except index_error ℤ := do
  let finish := irnge.finish.val
  if 0 ≤ finish then
    if finish < dimension_size.val then return finish
    -- "until the end", which means towards index 0
    else if irnge.finish = intptrMax then return -1
    else throw (irangeOutOfBounds error_tp irnge dimension_size)
  else
    let lowest ← checked (-dimension_size.val)
    if lowest ≤ finish then checked (finish + dimension_size.val) else return -1

def negativeRange : Except index_error Resolved := do
  let step := irnge.step.val
  let start ← negativeStart irnge dimension_size error_tp
  let finish ← negativeEnd irnge dimension_size error_tp
  let size ← checked (start - finish)
  if 0 < size then
    if step = -1 then return ⟨false, start, -1, size⟩
    else
      let neg ← checked (-step)
      let sum ← checked (size + neg)
      let sum ← checked (sum - 1)
      return ⟨false, start, step, sum.tdiv neg⟩
  else return ⟨false, 0, 1, 0⟩

def apply_single_linear_index : Except index_error Resolved :=
  let step := irnge.step.val
  if step = 0 then singleIndex irnge dimension_size error_tp
  else if 0 < step then positiveRange irnge dimension_size error_tp
  else negativeRange irnge dimension_size error_tp

end

/-! ## What a range denotes -/

namespace irange
variable (r : irange) (n : ℤ)

/-- The strict bounds: a start is below the size, a start or an end that counts
from the back stays inside, unless it is open in the direction of the step. -/
def InBounds : Prop :=
  if r.step.val = 0 then -n ≤ r.start.val ∧ r.start.val < n
  else if 0 < r.step.val then r.start.val < n ∧ -n ≤ r.finish.val
  else r.start.val < n ∧ (-n ≤ r.start.val ∨ r.start = intptrMin) ∧
    (r.finish.val < n ∨ r.finish = intptrMax)

instance : Decidable (r.InBounds n) :=
  inferInstanceAs (Decidable (if r.step.val = 0 then -n ≤ r.start.val ∧ r.start.val < n
    else if 0 < r.step.val then r.start.val < n ∧ -n ≤ r.finish.val
    else r.start.val < n ∧ (-n ≤ r.start.val ∨ r.start = intptrMin) ∧ (r.finish.val < n ∨ r.finish = intptrMax)))

/-- The first index: counted from the back when negative, or the first in the direction of the step. -/
def first : ℤ :=
  if 0 ≤ r.start.val then r.start.val
  else if -n ≤ r.start.val then r.start.val + n
  else if 0 < r.step.val then 0 else n - 1

/-- The bound the indices stay below, or above when the step is negative. -/
def bound : ℤ :=
  if 0 < r.step.val then
    if 0 ≤ r.finish.val then min r.finish.val n else r.finish.val + n
  else if r.finish = intptrMax then -1
  else if 0 ≤ r.finish.val then r.finish.val
  else if -n ≤ r.finish.val then r.finish.val + n else -1

/-- The indices of `[0, n)` the range denotes, in its order. -/
def denotes : List ℤ :=
  if r.step.val = 0 then [r.first n]
  else if 0 < r.step.val then
    (indices n.toNat).filter fun x => r.first n ≤ x ∧ x < r.bound n ∧ r.step.val ∣ x - r.first n
  else
    ((indices n.toNat).filter fun x => r.bound n < x ∧ x ≤ r.first n ∧ r.step.val ∣ x - r.first n).reverse

/-- The distance from the first index to the bound, in the direction of the step. -/
def span : ℤ := if 0 < r.step.val then r.bound n - r.first n else r.first n - r.bound n

/-- The rounding up of `span` over the step stays in 64 bits, or is not made at all. -/
def NoOverflow : Prop :=
  |r.step.val| ≤ 1 ∨ r.span n ≤ 0 ∨ r.span n + |r.step.val| < 2 ^ 63

end irange

/-- The indices the out parameters stand for. -/
def Resolved.indices (o : Resolved) : List ℤ :=
  progression o.start_index o.index_stride o.dimension_size.toNat

/-! ## Each part of the function -/

section
variable {r : irange} {n : intptr_t} {tp : Option ErrorType}

theorem checked_ok {z : ℤ} (h : IntptrRange z) : checked z = .ok z := if_pos h

theorem checked_overflow {z : ℤ} (h : ¬ IntptrRange z) : checked z = .error .signed_overflow := if_neg h

theorem checked_neg_size (hn : 0 ≤ n.val) : checked (-n.val) = .ok (-n.val) := by
  have := n.property
  exact checked_ok ⟨by omega, by omega⟩

/-- A negative index counted from the back. -/
theorem checked_from_back {i : intptr_t} (hn : 0 ≤ n.val) (hi : i.val < 0) :
    checked (i.val + n.val) = .ok (i.val + n.val) := by
  have := n.property
  have := i.property
  exact checked_ok ⟨by omega, by omega⟩

theorem positiveStart_spec (hn : 0 ≤ n.val) (hs : 0 < r.step.val) :
    positiveStart r n tp =
      if r.start.val < n.val then .ok (r.first n.val) else .error (irangeOutOfBounds tp r n) := by
  unfold positiveStart irange.first
  rcases lt_or_ge r.start.val 0 with hneg | hpos
  · simp only [if_neg (Int.not_le.2 hneg), checked_neg_size hn, ok_bind, if_pos (lt_of_lt_of_le hneg hn), if_pos hs]
    split_ifs with hb
    · exact checked_from_back hn hneg
    · rfl
  · simp only [if_pos hpos]
    rfl

theorem positiveEnd_spec (hn : 0 ≤ n.val) (hs : 0 < r.step.val) :
    positiveEnd r n tp =
      if -n.val ≤ r.finish.val then .ok (r.bound n.val) else .error (irangeOutOfBounds tp r n) := by
  unfold positiveEnd irange.bound
  rcases lt_or_ge r.finish.val 0 with hneg | hpos
  · simp only [if_neg (Int.not_le.2 hneg), checked_neg_size hn, ok_bind, if_pos hs]
    split_ifs with hb
    · exact checked_from_back hn hneg
    · rfl
  · simp only [if_pos hpos, if_pos hs, if_pos (show -n.val ≤ r.finish.val by omega)]
    split_ifs with hb
    · rw [min_eq_left hb]
      rfl
    · rw [min_eq_right (by omega)]
      rfl

theorem negativeStart_spec (hn : 0 ≤ n.val) (hs : ¬ 0 < r.step.val) :
    negativeStart r n tp =
      if r.start.val < n.val ∧ (-n.val ≤ r.start.val ∨ r.start = intptrMin) then .ok (r.first n.val)
      else .error (irangeOutOfBounds tp r n) := by
  have hsize := n.property
  unfold negativeStart irange.first
  rcases lt_or_ge r.start.val 0 with hneg | hpos
  · simp only [if_neg (Int.not_le.2 hneg), checked_neg_size hn, ok_bind, if_neg hs, lt_of_lt_of_le hneg hn, true_and]
    by_cases hb : -n.val ≤ r.start.val
    · simp only [hb, if_true, true_or]
      exact checked_from_back hn hneg
    · by_cases hmin : r.start = intptrMin
      · rw [if_neg hb, if_pos hmin, if_neg hb, if_pos (.inr hmin)]
        exact checked_ok ⟨by omega, by omega⟩
      · simp only [hb, hmin, if_false, or_self]
        rfl
  · simp only [if_pos hpos, show -n.val ≤ r.start.val by omega, true_or, and_true]
    rfl

theorem negativeEnd_spec (hn : 0 ≤ n.val) (hs : ¬ 0 < r.step.val) :
    negativeEnd r n tp =
      if r.finish.val < n.val ∨ r.finish = intptrMax then .ok (r.bound n.val)
      else .error (irangeOutOfBounds tp r n) := by
  have hsize := n.property
  unfold negativeEnd irange.bound
  rcases lt_or_ge r.finish.val 0 with hneg | hpos
  · have hmax : r.finish ≠ intptrMax := by
      intro h
      rw [h] at hneg
      exact absurd hneg (by decide)
    simp only [if_neg (Int.not_le.2 hneg), checked_neg_size hn, ok_bind, if_neg hs, lt_of_lt_of_le hneg hn, true_or,
      if_true, if_neg hmax]
    split_ifs with hb
    · exact checked_from_back hn hneg
    · rfl
  · simp only [if_pos hpos, if_neg hs]
    by_cases hmax : r.finish = intptrMax
    · have hnlt : ¬ intptrMax.val < n.val := by
        have : intptrMax.val = 2 ^ 63 - 1 := rfl
        omega
      simp only [hmax, hnlt, if_true, if_false, or_true]
      rfl
    · simp only [hmax, if_false, or_false]
      split_ifs <;> rfl

theorem singleIndex_spec (hn : 0 ≤ n.val) :
    singleIndex r n tp =
      if -n.val ≤ r.start.val ∧ r.start.val < n.val then .ok ⟨true, r.first n.val, 1, 1⟩
      else .error (indexOutOfBounds tp r.start n) := by
  unfold singleIndex irange.first
  rcases lt_or_ge r.start.val 0 with hneg | hpos
  · simp only [if_neg (Int.not_le.2 hneg), checked_neg_size hn, ok_bind, lt_of_lt_of_le hneg hn, and_true]
    split_ifs with hb
    · rw [checked_from_back hn hneg]
      rfl
    · rfl
  · simp only [if_pos hpos, show -n.val ≤ r.start.val by omega, true_and]
    rfl

/-- The range branches, once the start and the end are resolved. -/
theorem positiveRange_spec (hn : 0 ≤ n.val) (hs : 0 < r.step.val) (hb : r.InBounds n.val) :
    positiveRange r n tp =
      if 0 < r.span n.val then
        if r.step.val = 1 ∨ r.span n.val + r.step.val < 2 ^ 63 then
          .ok ⟨false, r.first n.val, r.step.val, (r.span n.val + r.step.val - 1) / r.step.val⟩
        else .error .signed_overflow
      else .ok ⟨false, 0, 1, 0⟩ := by
  have hsize := n.property
  have hstep := r.step.property
  simp only [irange.InBounds, if_neg hs.ne', if_pos hs] at hb
  have hfirst : 0 ≤ r.first n.val ∧ r.first n.val ≤ n.val := by
    unfold irange.first
    split_ifs <;> omega
  have hbound : 0 ≤ r.bound n.val ∧ r.bound n.val ≤ n.val := by
    unfold irange.bound
    split_ifs <;> omega
  simp only [positiveRange, positiveStart_spec hn hs, positiveEnd_spec hn hs, if_pos hb.1, if_pos hb.2, ok_bind,
    irange.span, if_pos hs, checked_ok (z := r.bound n.val - r.first n.val) ⟨by omega, by omega⟩]
  split_ifs with hpos h1 hc hc
  · simp [h1]
  · simp [h1] at hc
  · have hlt : r.bound n.val - r.first n.val + r.step.val < 2 ^ 63 := by omega
    rw [checked_ok ⟨by omega, hlt⟩, ok_bind, checked_ok ⟨by omega, by omega⟩, ok_bind,
      Int.tdiv_eq_ediv_of_nonneg (by omega)]
    rfl
  · rw [checked_overflow (by omega)]
    rfl
  · rfl

theorem negativeRange_spec (hn : 0 ≤ n.val) (hs : r.step.val < 0) (hb : r.InBounds n.val) :
    negativeRange r n tp =
      if 0 < r.span n.val then
        if r.step.val = -1 ∨ r.span n.val + -r.step.val < 2 ^ 63 then
          .ok ⟨false, r.first n.val, r.step.val, (r.span n.val + -r.step.val - 1) / -r.step.val⟩
        else .error .signed_overflow
      else .ok ⟨false, 0, 1, 0⟩ := by
  have hsize := n.property
  have hstep := r.step.property
  have hs' : ¬ 0 < r.step.val := by omega
  simp only [irange.InBounds, if_neg hs.ne, if_neg hs'] at hb
  obtain ⟨hb1, hb2, hb3⟩ := hb
  have hfirst : -1 ≤ r.first n.val ∧ r.first n.val < n.val := by
    unfold irange.first
    split_ifs <;> omega
  have hfinish := r.finish.property
  have hbound : -1 ≤ r.bound n.val ∧ r.bound n.val < 2 ^ 63 := by
    unfold irange.bound
    split_ifs <;> omega
  simp only [negativeRange, negativeStart_spec hn hs', negativeEnd_spec hn hs', if_pos (And.intro hb1 hb2), if_pos hb3,
    ok_bind, irange.span, if_neg hs', checked_ok (z := r.first n.val - r.bound n.val) ⟨by omega, by omega⟩]
  split_ifs with hpos h1 hc hc
  · simp [h1]
  · simp [h1] at hc
  · have hlt : r.first n.val - r.bound n.val + -r.step.val < 2 ^ 63 := by omega
    rw [checked_ok (z := -r.step.val) ⟨by omega, by omega⟩, ok_bind, checked_ok ⟨by omega, hlt⟩, ok_bind,
      checked_ok ⟨by omega, by omega⟩, ok_bind, Int.tdiv_eq_ediv_of_nonneg (by omega)]
    rfl
  · by_cases hmin : IntptrRange (-r.step.val)
    · rw [checked_ok hmin, ok_bind, checked_overflow (by omega)]
      rfl
    · rw [checked_overflow hmin]
      rfl
  · rfl

theorem apply_zero (h : r.step.val = 0) : apply_single_linear_index r n tp = singleIndex r n tp := if_pos h

theorem apply_pos (h : 0 < r.step.val) : apply_single_linear_index r n tp = positiveRange r n tp := by
  unfold apply_single_linear_index
  rw [if_neg h.ne', if_pos h]

theorem apply_neg (h : r.step.val < 0) : apply_single_linear_index r n tp = negativeRange r n tp := by
  unfold apply_single_linear_index
  rw [if_neg h.ne, if_neg (not_lt.2 h.le)]

/-- A range out of bounds is an error that says so, never an overflow. -/
theorem out_of_bounds (hn : 0 ≤ n.val) (hb : ¬ r.InBounds n.val) :
    ∃ e, apply_single_linear_index r n tp = .error e ∧ e ≠ .signed_overflow := by
  have hirange : irangeOutOfBounds tp r n ≠ .signed_overflow := by cases tp <;> simp [irangeOutOfBounds]
  have hindex : indexOutOfBounds tp r.start n ≠ .signed_overflow := by cases tp <;> simp [indexOutOfBounds]
  unfold irange.InBounds at hb
  rcases lt_trichotomy r.step.val 0 with hs | h0 | hs
  · have hs' : ¬ 0 < r.step.val := not_lt.2 hs.le
    rw [if_neg hs.ne, if_neg hs'] at hb
    refine ⟨_, ?_, hirange⟩
    rw [apply_neg hs, negativeRange, negativeStart_spec hn hs', negativeEnd_spec hn hs']
    by_cases h1 : r.start.val < n.val ∧ (-n.val ≤ r.start.val ∨ r.start = intptrMin)
    · rw [if_pos h1, ok_bind, if_neg fun h2 => hb ⟨h1.1, h1.2, h2⟩, error_bind]
    · rw [if_neg h1, error_bind]
  · rw [if_pos h0] at hb
    exact ⟨_, by rw [apply_zero h0, singleIndex_spec hn, if_neg hb], hindex⟩
  · rw [if_neg hs.ne', if_pos hs] at hb
    refine ⟨_, ?_, hirange⟩
    rw [apply_pos hs, positiveRange, positiveStart_spec hn hs, positiveEnd_spec hn hs]
    by_cases h1 : r.start.val < n.val
    · rw [if_pos h1, ok_bind, if_neg fun h2 => hb ⟨h1, h2⟩, error_bind]
    · rw [if_neg h1, error_bind]

theorem denotes_nil_of_span (hs : r.step.val ≠ 0) (h : r.span n.val ≤ 0) : r.denotes n.val = [] := by
  unfold irange.span at h
  unfold irange.denotes
  rw [if_neg hs]
  split_ifs at h ⊢ with hpos
  · refine List.filter_eq_nil_iff.2 fun x _ => ?_
    simp only [decide_eq_true_eq]
    omega
  · rw [List.reverse_eq_nil_iff]
    refine List.filter_eq_nil_iff.2 fun x _ => ?_
    simp only [decide_eq_true_eq]
    omega

/-- In bounds and without overflow the out parameters stand for what the range denotes. -/
theorem in_bounds (hn : 0 ≤ n.val) (hb : r.InBounds n.val) (hov : r.NoOverflow n.val) :
    ∃ o, apply_single_linear_index r n tp = .ok o ∧ o.indices = r.denotes n.val ∧
      (o.remove_dimension = true ↔ r.step.val = 0) ∧ 0 ≤ o.dimension_size := by
  have hcast : ((n.val.toNat : ℕ) : ℤ) = n.val := Int.toNat_of_nonneg hn
  unfold irange.NoOverflow at hov
  rcases lt_trichotomy r.step.val 0 with hs | h0 | hs
  · rw [abs_of_neg hs] at hov
    rw [apply_neg hs, negativeRange_spec hn hs hb]
    split_ifs with hpos hc
    · refine ⟨_, rfl, ?_, by simp [hs.ne], Int.ediv_nonneg (by omega) (by omega)⟩
      simp only [irange.InBounds, if_neg hs.ne, if_neg (not_lt.2 hs.le)] at hb
      have hfirst : r.first n.val < n.val := by
        unfold irange.first
        split_ifs <;> omega
      have hbound : -1 ≤ r.bound n.val := by
        unfold irange.bound
        split_ifs <;> omega
      replace hfirst : r.first n.val < (n.val.toNat : ℤ) := hfirst.trans_eq hcast.symm
      rw [irange.denotes, if_neg hs.ne, if_neg (not_lt.2 hs.le), irange.span, if_neg (not_lt.2 hs.le)]
      exact (decreasing_eq_progression hs hfirst hbound).symm
    · omega
    · exact ⟨_, rfl, by rw [denotes_nil_of_span hs.ne (not_lt.1 hpos)]; rfl, by simp [hs.ne], le_rfl⟩
  · rw [apply_zero h0, singleIndex_spec hn]
    rw [irange.InBounds, if_pos h0] at hb
    refine ⟨_, if_pos hb, ?_, by simp [h0], zero_le_one⟩
    rw [irange.denotes, if_pos h0]
    exact progression_one _ _
  · rw [abs_of_pos hs] at hov
    rw [apply_pos hs, positiveRange_spec hn hs hb]
    split_ifs with hpos hc
    · refine ⟨_, rfl, ?_, by simp [hs.ne'], Int.ediv_nonneg (by omega) (by omega)⟩
      simp only [irange.InBounds, if_neg hs.ne', if_pos hs] at hb
      have hfirst : 0 ≤ r.first n.val := by
        unfold irange.first
        split_ifs <;> omega
      have hbound : r.bound n.val ≤ n.val := by
        unfold irange.bound
        split_ifs <;> omega
      replace hbound : r.bound n.val ≤ (n.val.toNat : ℤ) := hbound.trans_eq hcast.symm
      rw [irange.denotes, if_neg hs.ne', if_pos hs, irange.span, if_pos hs]
      exact (increasing_eq_progression hs hfirst hbound).symm
    · omega
    · exact ⟨_, rfl, by rw [denotes_nil_of_span hs.ne' (not_lt.1 hpos)]; rfl, by simp [hs.ne'], le_rfl⟩

/-- A rounding up that leaves 64 bits is an overflow. -/
theorem overflows (hn : 0 ≤ n.val) (hb : r.InBounds n.val) (hov : ¬ r.NoOverflow n.val) :
    apply_single_linear_index r n tp = .error .signed_overflow := by
  unfold irange.NoOverflow at hov
  rcases lt_trichotomy r.step.val 0 with hs | h0 | hs
  · rw [abs_of_neg hs] at hov
    rw [apply_neg hs, negativeRange_spec hn hs hb, if_pos (by omega), if_neg (by omega)]
  · rw [h0] at hov
    exact absurd (.inl (by decide)) hov
  · rw [abs_of_pos hs] at hov
    rw [apply_pos hs, positiveRange_spec hn hs hb, if_pos (by omega), if_neg (by omega)]

theorem denotes_mem (hn : 0 ≤ n.val) (hb : r.InBounds n.val) : ∀ x ∈ r.denotes n.val, 0 ≤ x ∧ x < n.val := by
  intro x hx
  have hcast : ((n.val.toNat : ℕ) : ℤ) = n.val := Int.toNat_of_nonneg hn
  unfold irange.denotes at hx
  split_ifs at hx with h0 hs
  · obtain rfl := List.mem_singleton.1 hx
    rw [irange.InBounds, if_pos h0] at hb
    unfold irange.first
    split_ifs <;> omega
  · have := mem_indices.1 (List.mem_filter.1 hx).1
    omega
  · have := mem_indices.1 (List.mem_filter.1 (List.mem_reverse.1 hx)).1
    omega

theorem denotes_length_le (hn : 0 ≤ n.val) (hb : r.InBounds n.val) : (r.denotes n.val).length ≤ n.val.toNat := by
  have hlen := length_indices n.val.toNat
  unfold irange.denotes
  split_ifs with h0 hs
  · rw [irange.InBounds, if_pos h0] at hb
    rw [List.length_singleton]
    omega
  · exact (List.length_filter_le _ _).trans_eq hlen
  · rw [List.length_reverse]
    exact (List.length_filter_le _ _).trans_eq hlen

/-- What a resolved range says of the dimension it leaves. -/
theorem resolved_spec {o : Resolved} (hn : 0 ≤ n.val) (h : apply_single_linear_index r n tp = .ok o) :
    (o.remove_dimension = true ↔ r.step.val = 0) ∧ 0 ≤ o.dimension_size ∧
      o.dimension_size = (r.denotes n.val).length ∧ o.dimension_size ≤ n.val := by
  by_cases hb : r.InBounds n.val
  · by_cases hov : r.NoOverflow n.val
    · obtain ⟨o', he, hi, hr, hd⟩ := @in_bounds r n tp hn hb hov
      rw [h] at he
      cases he
      have hlen := congrArg List.length hi
      rw [Resolved.indices, length_progression] at hlen
      have := denotes_length_le hn hb
      exact ⟨hr, hd, by omega, by omega⟩
    · rw [overflows hn hb hov] at h
      cases h
  · obtain ⟨e, he, -⟩ := @out_of_bounds r n tp hn hb
    rw [h] at he
    cases he

end

/-! ## When it is right -/

/-- What the function promises of a range: it throws, or its out parameters
stand for the indices the range denotes, all inside the dimension. -/
def Meets (r : irange) (n : ℤ) : Except index_error Resolved → Prop
  | .error e => e ≠ .signed_overflow
  | .ok o => o.indices = r.denotes n ∧ (∀ x ∈ o.indices, 0 ≤ x ∧ x < n) ∧
      (o.remove_dimension = true ↔ r.step.val = 0)

/-- A range out of bounds throws. One that is in bounds is resolved to the
indices it denotes exactly when the rounding up of its count stays in 64 bits. -/
theorem apply_single_linear_index_iff (r : irange) (n : intptr_t) (tp : Option ErrorType) (hn : 0 ≤ n.val) :
    Meets r n.val (apply_single_linear_index r n tp) ↔ (r.InBounds n.val → r.NoOverflow n.val) := by
  constructor
  · intro h hb
    by_contra hov
    rw [overflows hn hb hov] at h
    exact h rfl
  · intro h
    by_cases hb : r.InBounds n.val
    · obtain ⟨o, he, hi, hr, -⟩ := @in_bounds r n tp hn hb (h hb)
      rw [he]
      refine ⟨hi, ?_, hr⟩
      rw [hi]
      exact denotes_mem hn hb
    · obtain ⟨e, he, hne⟩ := @out_of_bounds r n tp hn hb
      rw [he]
      exact hne

/-- Every second index of ten, without the first and the last. -/
def oddIndices : irange := ⟨⟨1, by decide⟩, ⟨-1, by decide⟩, ⟨2, by decide⟩⟩

theorem oddIndices_iff : Meets oddIndices 10 (apply_single_linear_index oddIndices ⟨10, by decide⟩ none) ↔
    (oddIndices.InBounds 10 → oddIndices.NoOverflow 10) :=
  apply_single_linear_index_iff oddIndices ⟨10, by decide⟩ none (by decide)

example : oddIndices.denotes 10 = [1, 3, 5, 7] := by decide

/-- The first of two elements, with the largest step there is: `0 <= irange().by(max) < 2`. -/
def largestStep : irange := ⟨⟨0, by decide⟩, ⟨2, by decide⟩, intptrMax⟩

/-- The count of `largestStep` is rounded up through `2 + (2 ^ 63 - 1)`. -/
theorem largestStep_overflows :
    ¬ ∀ (r : irange) (n : intptr_t) (tp : Option ErrorType), 0 ≤ n.val →
      Meets r n.val (apply_single_linear_index r n tp) := by
  intro h
  have hm := h largestStep ⟨2, by decide⟩ none (by decide)
  have he : apply_single_linear_index largestStep ⟨2, by decide⟩ none = .error .signed_overflow := by decide
  rw [he] at hm
  exact hm rfl

end Dynd.LinearIndex
