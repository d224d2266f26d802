import Dynd.ReorderStrides
/-!
# Axis permutations of strides

`strides_to_axis_perm` sorts the axes by their absolute strides, the first
cases by hand and the rest by `std::sort`. `multistrides_to_axis_perm` sorts
them by the strides of several operands, with an insertion sort of its own
that moves nothing where the operands disagree, except that for two axes it
asks the question the other way round. `axis_perms_iff` says for which strides
and operands the permutations are right.
-/
namespace Dynd.FixedDim

/-! ## Several operands -/

/-- The loop over the operands; `out` is `out_ambiguous` and `out_lessthan`. -/
def compareLoop (i j : ℕ) : List (List ℤ) → Bool × Bool → Bool × Bool
  | [], out => out
  | strides :: operstrides, (ambiguous, lessthan) =>
    let stride_i := strides.getD i 0
    let stride_j := strides.getD j 0
    if stride_i ≠ 0 && stride_j ≠ 0 then
      -- less than beats greater than when there's a conflict
      if |stride_i| ≤ |stride_j| then (false, true)
      else if ambiguous then compareLoop i j operstrides (false, false)
      else compareLoop i j operstrides (ambiguous, lessthan)
    else compareLoop i j operstrides (ambiguous, lessthan)

/-- Whether the comparison is ambiguous and, when it is not, whether `i` should occur before `j`. -/
def compare_strides (i j : ℕ) (operstrides : List (List ℤ)) : Bool × Bool := compareLoop i j operstrides (true, false)

/-- The loop from `i1 - 1` down that looks for the position where `perm_i0` gets inserted. -/
def insertionPos (operstrides : List (List ℤ)) (axis_perm : List ℕ) (perm_i0 : ℕ) : ℕ → ℕ → ℕ
  | 0, ipos => ipos
  | i1 + 1, ipos =>
    match compare_strides (axis_perm.getD i1 0) perm_i0 operstrides with
    | (true, _) => insertionPos operstrides axis_perm perm_i0 i1 ipos
    | (false, false) => insertionPos operstrides axis_perm perm_i0 i1 i1
    | (false, true) => ipos

/-- Insert `axis_perm[i0]` into `axis_perm[ipos]`. -/
def insertAxis (operstrides : List (List ℤ)) (axis_perm : List ℕ) (i0 : ℕ) : List ℕ :=
  let perm_i0 := axis_perm.getD i0 0
  let ipos := insertionPos operstrides axis_perm perm_i0 i0 i0
  axis_perm.take ipos ++ perm_i0 :: (axis_perm.take i0).drop ipos ++ axis_perm.drop (i0 + 1)

def multistrides_to_axis_perm (ndim : ℕ) (operstrides : List (List ℤ)) : List ℕ :=
  match ndim with
  | 0 => []
  | 1 => [0]
  | 2 =>
    match compare_strides 0 1 operstrides with
    | (ambiguous, lessthan) => if ambiguous || !lessthan then [1, 0] else [0, 1]
  | ndim =>
    -- Initialize to a reversal perm (i.e. so C-order is a no-op)
    (List.range' 1 (ndim - 1)).foldl (insertAxis operstrides) (List.range ndim).reverse

/-! ## What they are for -/

/-- The axes from the smallest absolute stride on, those with the same one in C order. -/
structure SortedAxes (strides : List ℤ) (axes : List ℕ) : Prop where
  perm : axes.Perm (List.range strides.length)
  sorted : axes.Pairwise fun i j => |strides.getD i 0| < |strides.getD j 0| ∨
    |strides.getD i 0| = |strides.getD j 0| ∧ j < i

/-- What `strides_to_axis_perm` does for four axes or more. -/
def generalSort (std : std_sort) (strides : List ℤ) : List ℕ :=
  std.sort (fun i j => |strides.getD i 0| < |strides.getD j 0|) (List.range strides.length).reverse

/-- No two absolute strides are the same. -/
def DistinctStrides (strides : List ℤ) : Prop :=
  ∀ i j, i < j → j < strides.length → |strides.getD i 0| ≠ |strides.getD j 0|

/-- Two operands order the axes differently. -/
def Conflict (operstrides : List (List ℤ)) (i j : ℕ) : Prop :=
  (∃ s ∈ operstrides, 0 < |s.getD i 0| ∧ |s.getD i 0| < |s.getD j 0|) ∧
    ∃ s ∈ operstrides, 0 < |s.getD j 0| ∧ |s.getD j 0| < |s.getD i 0|

/-- Axes whose strides conflict stay in C order. -/
def KeepsConflicts (operstrides : List (List ℤ)) (axes : List ℕ) : Prop :=
  axes.Pairwise fun i j => Conflict operstrides i j → j < i

/-! ## One list of strides -/

theorem SortedAxes.unique {strides : List ℤ} {axes axes' : List ℕ} (h : SortedAxes strides axes) (h' : SortedAxes strides axes') :
    axes = axes' := by
  apply (h.perm.trans h'.perm.symm).eq_of_pairwise _ h.sorted h'.sorted
  intro i j _ _ hij hji
  omega

/-- Without ties any sorted order is the one. -/
theorem sortedAxes_of_distinct {strides : List ℤ} (hd : DistinctStrides strides) {axes : List ℕ}
    (hperm : axes.Perm (List.range strides.length))
    (hsorted : axes.Pairwise fun i j => |strides.getD i 0| ≤ |strides.getD j 0|) : SortedAxes strides axes := by
  refine ⟨hperm, ?_⟩
  have hnodup : axes.Nodup := hperm.nodup_iff.2 List.nodup_range
  refine ((List.pairwise_and_iff.2 ⟨hsorted, hnodup⟩).imp_of_mem) fun {i j} hi hj ⟨hle, hne⟩ => .inl ?_
  have hi := List.mem_range.1 (hperm.mem_iff.1 hi)
  have hj := List.mem_range.1 (hperm.mem_iff.1 hj)
  rcases Nat.lt_or_gt_of_ne hne with hlt | hgt
  · exact lt_of_le_of_ne hle (hd i j hlt hj)
  · exact lt_of_le_of_ne hle (hd j i hgt hi).symm

theorem generalSort_spec (std : std_sort) (strides : List ℤ) : (generalSort std strides).Perm (List.range strides.length) ∧
    (generalSort std strides).Pairwise fun i j => |strides.getD i 0| ≤ |strides.getD j 0| :=
  ⟨(std.perm _ _).trans (List.reverse_perm _), std.sorted (fun i => |strides.getD i 0|) _⟩

theorem strides_to_axis_perm_general (std : std_sort) {strides : List ℤ} (h : 4 ≤ strides.length) :
    strides_to_axis_perm std strides = generalSort std strides := by
  match strides, h with
  | _ :: _ :: _ :: _ :: _, _ => rfl

/-- The cases that are written out keep ties in C order. -/
theorem strides_to_axis_perm_short (std : std_sort) {strides : List ℤ} (h : strides.length ≤ 3) :
    SortedAxes strides (strides_to_axis_perm std strides) := by
  refine ⟨(strides_to_axis_perm_spec std strides).1, ?_⟩
  match strides, h with
  | [], _ => exact List.Pairwise.nil
  | [_], _ => exact List.pairwise_singleton _ _
  | [s0, s1], _ =>
    rw [strides_to_axis_perm]
    split_ifs <;> simp <;> omega
  | [s0, s1, s2], _ =>
    rw [strides_to_axis_perm]
    split_ifs <;> simp <;> omega

/-- A sort that reverses equal elements. -/
def reversingSort : std_sort where
  sort lt l := l.reverse.mergeSort fun i j => !lt j i
  perm _ l := (List.mergeSort_perm _ _).trans (List.reverse_perm l)
  sorted key l := mergeSort_sorted key l.reverse

/-- It takes ties out of C order. -/
theorem not_sortedAxes_reversing {strides : List ℤ} (h : ¬ DistinctStrides strides) :
    ¬ SortedAxes strides (generalSort reversingSort strides) := by
  rw [DistinctStrides] at h
  push Not at h
  obtain ⟨i, j, hij, hj, htie⟩ := h
  have hpair : [i, j].Sublist (List.range strides.length) := by
    have hi : [i].Sublist (List.range j) := List.singleton_sublist.2 (List.mem_range.2 hij)
    have hsucc : ([i] ++ [j]).Sublist (List.range (j + 1)) := by
      rw [List.range_succ]
      exact hi.append (List.Sublist.refl _)
    exact hsucc.trans (List.range_sublist.2 hj)
  have hsub : [i, j].Sublist (generalSort reversingSort strides) := by
    rw [generalSort, reversingSort]
    dsimp only
    rw [List.reverse_reverse]
    have hle : (!decide (|strides.getD j 0| < |strides.getD i 0|)) = true := by rw [htie, decide_eq_false (lt_irrefl _)]; rfl
    exact List.pair_sublist_mergeSort (by simp; omega) (by simp; omega) hle hpair
  intro hsorted
  have hrel := List.pairwise_pair.1 (hsorted.sorted.sublist hsub)
  omega

theorem strides_to_axis_perm_sorted_iff (strides : List ℤ) :
    (∀ std, SortedAxes strides (strides_to_axis_perm std strides)) ↔ strides.length ≤ 3 ∨ DistinctStrides strides := by
  by_cases hlen : strides.length ≤ 3
  · exact iff_of_true (fun std => strides_to_axis_perm_short std hlen) (.inl hlen)
  · constructor
    · intro h
      by_contra hd
      refine not_sortedAxes_reversing (fun h' => hd (.inr h')) ?_
      rw [← strides_to_axis_perm_general reversingSort (by omega)]
      exact h _
    · rintro (h | h) std
      · exact absurd h hlen
      · obtain ⟨hperm, hsorted⟩ := strides_to_axis_perm_spec std strides
        exact sortedAxes_of_distinct h hperm hsorted

/-- The cases that are written out agree with the general sort where there are no ties. -/
theorem special_cases_iff {strides : List ℤ} (hlen : strides.length ≤ 3) :
    (∀ std, strides_to_axis_perm std strides = generalSort std strides) ↔ DistinctStrides strides := by
  constructor
  · intro h
    by_contra hd
    apply not_sortedAxes_reversing hd
    rw [← h]
    exact strides_to_axis_perm_short _ hlen
  · intro hd std
    obtain ⟨hperm, hsorted⟩ := generalSort_spec std strides
    exact (strides_to_axis_perm_short std hlen).unique (sortedAxes_of_distinct hd hperm hsorted)

/-! ## Comparing the strides of several operands -/

/-- Some operand has strides for both axes. -/
def BothMove (operstrides : List (List ℤ)) (i j : ℕ) : Prop := ∃ s ∈ operstrides, s.getD i 0 ≠ 0 ∧ s.getD j 0 ≠ 0

/-- Some operand's stride for `i` is no larger than for `j`. -/
def Before (operstrides : List (List ℤ)) (i j : ℕ) : Prop :=
  ∃ s ∈ operstrides, (s.getD i 0 ≠ 0 ∧ s.getD j 0 ≠ 0) ∧ |s.getD i 0| ≤ |s.getD j 0|

section
variable (operstrides : List (List ℤ)) (i j : ℕ)

instance : Decidable (BothMove operstrides i j) :=
  inferInstanceAs (Decidable (∃ s ∈ operstrides, s.getD i 0 ≠ 0 ∧ s.getD j 0 ≠ 0))

instance : Decidable (Before operstrides i j) :=
  inferInstanceAs (Decidable (∃ s ∈ operstrides, (s.getD i 0 ≠ 0 ∧ s.getD j 0 ≠ 0) ∧ |s.getD i 0| ≤ |s.getD j 0|))

theorem compareLoop_eq (out : Bool × Bool) : compareLoop i j operstrides out = if Before operstrides i j then (false, true)
    else if out.1 = true ∧ BothMove operstrides i j then (false, false) else out := by
  induction operstrides generalizing out with
  | nil => simp [compareLoop, Before, BothMove]
  | cons s operstrides ih =>
    obtain ⟨ambiguous, lessthan⟩ := out
    have hbefore : Before (s :: operstrides) i j ↔
        ((s.getD i 0 ≠ 0 ∧ s.getD j 0 ≠ 0) ∧ |s.getD i 0| ≤ |s.getD j 0|) ∨ Before operstrides i j := List.exists_mem_cons_iff ..
    have hmove : BothMove (s :: operstrides) i j ↔ (s.getD i 0 ≠ 0 ∧ s.getD j 0 ≠ 0) ∨ BothMove operstrides i j :=
      List.exists_mem_cons_iff ..
    rw [compareLoop]
    by_cases hboth : s.getD i 0 ≠ 0 ∧ s.getD j 0 ≠ 0
    · rw [if_pos (by simpa using hboth)]
      by_cases hle : |s.getD i 0| ≤ |s.getD j 0|
      · rw [if_pos hle, if_pos (hbefore.2 (.inl ⟨hboth, hle⟩))]
      · have hbefore : Before (s :: operstrides) i j ↔ Before operstrides i j := hbefore.trans (or_iff_right fun h => hle h.2)
        have hmove : BothMove (s :: operstrides) i j := hmove.2 (.inl hboth)
        rw [if_neg hle, ih, ih]
        cases ambiguous <;> simp [hbefore, hmove]
    · have hbefore : Before (s :: operstrides) i j ↔ Before operstrides i j := hbefore.trans (or_iff_right fun h => hboth h.1)
      have hmove : BothMove (s :: operstrides) i j ↔ BothMove operstrides i j := hmove.trans (or_iff_right hboth)
      rw [if_neg (by simpa using hboth), ih]
      simp [hbefore, hmove]

theorem compare_strides_eq : compare_strides i j operstrides = if Before operstrides i j then (false, true)
    else if BothMove operstrides i j then (false, false) else (true, false) := by
  rw [compare_strides, compareLoop_eq]
  simp

end

/-! ## Inserting one axis -/

section
variable (operstrides : List (List ℤ))

/-- The axis `x` inserted into the axes that are sorted already. -/
def insertInto (axes : List ℕ) (x : ℕ) : List ℕ :=
  let ipos := insertionPos operstrides axes x axes.length axes.length
  axes.take ipos ++ x :: axes.drop ipos

theorem Before.bothMove {i j : ℕ} (h : Before operstrides i j) : BothMove operstrides i j := by
  obtain ⟨s, hs, hmove, -⟩ := h
  exact ⟨s, hs, hmove⟩

/-- What the comparison found, from the axes it compared. -/
theorem compare_strides_cases (i j : ℕ) :
    (compare_strides i j operstrides = (false, true) ∧ Before operstrides i j) ∨
    (compare_strides i j operstrides = (false, false) ∧ ¬ Before operstrides i j) ∨
    (compare_strides i j operstrides = (true, false) ∧ ¬ BothMove operstrides i j) := by
  rw [compare_strides_eq]
  split_ifs with hbefore hmove
  · exact .inl ⟨rfl, hbefore⟩
  · exact .inr (.inl ⟨rfl, hbefore⟩)
  · exact .inr (.inr ⟨rfl, hmove⟩)

/-- No axis from the position on comes before `x`. -/
theorem insertionPos_spec (axes : List ℕ) (x : ℕ) {i1 ipos : ℕ} (hle : i1 ≤ ipos)
    (hlater : ∀ k, i1 ≤ k → k < axes.length → ¬ Before operstrides (axes.getD k 0) x) :
    insertionPos operstrides axes x i1 ipos ≤ ipos ∧ ∀ k, insertionPos operstrides axes x i1 ipos ≤ k → k < axes.length →
      ¬ Before operstrides (axes.getD k 0) x := by
  induction i1 generalizing ipos with
  | zero => exact ⟨le_rfl, fun k hk hlen => hlater k (Nat.zero_le k) hlen⟩
  | succ i1 ih =>
    have hnext : ¬ Before operstrides (axes.getD i1 0) x →
        ∀ k, i1 ≤ k → k < axes.length → ¬ Before operstrides (axes.getD k 0) x := by
      intro hnot k hk hlen
      rcases hk.eq_or_lt with rfl | hlt
      · exact hnot
      · exact hlater k hlt hlen
    rw [insertionPos]
    rcases compare_strides_cases operstrides (axes.getD i1 0) x with ⟨hcmp, -⟩ | ⟨hcmp, hnot⟩ | ⟨hcmp, hamb⟩
    · rw [hcmp]
      exact ⟨le_rfl, fun k hk hlen => hlater k (hle.trans hk) hlen⟩
    · rw [hcmp]
      obtain ⟨hpos, hall⟩ := ih le_rfl (hnext hnot)
      exact ⟨hpos.trans (Nat.le_of_succ_le hle), hall⟩
    · rw [hcmp]
      exact ih (Nat.le_of_succ_le hle) (hnext fun h => hamb h.bothMove)

/-- Where no comparison is ambiguous, the axis just before the position comes before `x`. -/
theorem insertionPos_after {axes : List ℕ} {x : ℕ} (hmove : ∀ y ∈ axes, BothMove operstrides y x) {i1 : ℕ}
    (hi1 : i1 ≤ axes.length) : insertionPos operstrides axes x i1 i1 = 0 ∨
      Before operstrides (axes.getD (insertionPos operstrides axes x i1 i1 - 1) 0) x := by
  induction i1 with
  | zero => exact .inl rfl
  | succ i1 ih =>
    rw [insertionPos]
    rcases compare_strides_cases operstrides (axes.getD i1 0) x with ⟨hcmp, hbefore⟩ | ⟨hcmp, -⟩ | ⟨hcmp, hamb⟩
    · rw [hcmp]
      exact .inr hbefore
    · rw [hcmp]
      exact ih (Nat.le_of_succ_le hi1)
    · have hmem : axes.getD i1 0 ∈ axes := by
        rw [List.getD_eq_getElem _ _ hi1]
        exact List.getElem_mem hi1
      exact absurd (hmove _ hmem) hamb

/-- `x` goes between two parts of the axes, and none of the second part comes before it. -/
theorem insertInto_spec (axes : List ℕ) (x : ℕ) : ∃ front back, axes = front ++ back ∧
    insertInto operstrides axes x = front ++ x :: back ∧ (∀ y ∈ back, ¬ Before operstrides y x) ∧
      ((∀ y ∈ axes, BothMove operstrides y x) → ∀ y, front.getLast? = some y → Before operstrides y x) := by
  obtain ⟨hpos, hlater⟩ := insertionPos_spec operstrides axes x (le_refl axes.length) fun k hk hlen => absurd hlen (not_lt.2 hk)
  have hafter := fun hmove : ∀ y ∈ axes, BothMove operstrides y x => insertionPos_after operstrides hmove le_rfl
  rw [insertInto]
  generalize insertionPos operstrides axes x axes.length axes.length = ipos at hpos hlater hafter
  refine ⟨axes.take ipos, axes.drop ipos, (List.take_append_drop _ _).symm, rfl, fun y hy => ?_, fun hmove y hy => ?_⟩
  · obtain ⟨k, hk, rfl⟩ := List.mem_iff_getElem.1 hy
    rw [List.length_drop] at hk
    have h := hlater (ipos + k) (Nat.le_add_right _ _) (by omega)
    rwa [List.getD_eq_getElem _ _ (by omega), ← List.getElem_drop] at h
  · rw [List.getLast?_eq_getElem?, List.length_take, min_eq_left hpos] at hy
    rcases hafter hmove with h0 | h
    · rw [h0] at hy
      simp at hy
    · cases ipos with
      | zero => simp at hy
      | succ ipos =>
        rw [Nat.add_sub_cancel, List.getElem?_take_of_lt (Nat.lt_succ_self ipos)] at hy
        rwa [Nat.add_sub_cancel, List.getD_eq_getElem?_getD, hy] at h

theorem insertInto_perm (axes : List ℕ) (x : ℕ) : (insertInto operstrides axes x).Perm (x :: axes) := by
  obtain ⟨front, back, haxes, heq, -⟩ := insertInto_spec operstrides axes x
  rw [heq, haxes]
  exact List.perm_middle

/-! ## The insertion sort -/

/-- The positions are looked for among the axes that are sorted already. -/
theorem insertionPos_append (axes rest : List ℕ) (x : ℕ) {i1 : ℕ} (h : i1 ≤ axes.length) (ipos : ℕ) :
    insertionPos operstrides (axes ++ rest) x i1 ipos = insertionPos operstrides axes x i1 ipos := by
  induction i1 generalizing ipos with
  | zero => rfl
  | succ i1 ih =>
    have hsame : (axes ++ rest).getD i1 0 = axes.getD i1 0 := List.getD_append _ _ _ _ h
    have ih := ih (Nat.le_of_succ_le h)
    rw [insertionPos, insertionPos, hsame]
    simp only [ih]

theorem insertAxis_append (axes rest : List ℕ) (x : ℕ) :
    insertAxis operstrides (axes ++ x :: rest) axes.length = insertInto operstrides axes x ++ rest := by
  have hx : (axes ++ x :: rest).getD axes.length 0 = x := by simp
  have hdrop : (axes ++ x :: rest).drop (axes.length + 1) = rest := by simp
  have htake : (axes ++ x :: rest).take axes.length = axes := by simp
  have hpos : insertionPos operstrides axes x axes.length axes.length ≤ axes.length :=
    (insertionPos_spec operstrides axes x le_rfl fun k hk hlen => absurd hlen (not_lt.2 hk)).1
  rw [insertAxis, hx, hdrop, htake, insertionPos_append operstrides axes (x :: rest) x le_rfl, insertInto,
    List.take_append_of_le_length hpos]

/-- The loop inserts the axes one after the other. -/
theorem foldl_insertAxis (axes rest : List ℕ) :
    (List.range' axes.length rest.length).foldl (insertAxis operstrides) (axes ++ rest) =
      rest.foldl (insertInto operstrides) axes := by
  induction rest generalizing axes with
  | nil => simp
  | cons x rest ih =>
    have hlen : (insertInto operstrides axes x).length = axes.length + 1 := by
      rw [(insertInto_perm operstrides axes x).length_eq, List.length_cons]
    rw [List.length_cons, List.range'_succ, List.foldl_cons, insertAxis_append, List.foldl_cons, ← ih, hlen]

theorem multistrides_to_axis_perm_eq (n : ℕ) : multistrides_to_axis_perm (n + 3) operstrides =
    (List.range (n + 2)).reverse.foldl (insertInto operstrides) [n + 2] := by
  have hsplit : (List.range (n + 3)).reverse = [n + 2] ++ (List.range (n + 2)).reverse := by
    rw [List.range_succ, List.reverse_append]
    rfl
  have hloop := foldl_insertAxis operstrides [n + 2] (List.range (n + 2)).reverse
  rw [List.length_reverse, List.length_range, ← hsplit] at hloop
  exact hloop

/-- Two axes are compared in the order 0, 1, although they stand as 1, 0. -/
theorem multistrides_to_axis_perm_two :
    multistrides_to_axis_perm 2 operstrides = if Before operstrides 0 1 then [0, 1] else [1, 0] := by
  rw [multistrides_to_axis_perm, compare_strides_eq]
  split_ifs with hbefore hmove
  · rfl
  · rfl
  · rfl

theorem foldl_insertInto_perm (axes rest : List ℕ) : (rest.foldl (insertInto operstrides) axes).Perm (axes ++ rest) := by
  induction rest generalizing axes with
  | nil => simp
  | cons x rest ih =>
    rw [List.foldl_cons]
    refine (ih _).trans (((insertInto_perm operstrides axes x).append_right rest).trans ?_)
    exact List.perm_middle.symm

theorem multistrides_to_axis_perm_perm (ndim : ℕ) : (multistrides_to_axis_perm ndim operstrides).Perm (List.range ndim) := by
  match ndim with
  | 0 => exact List.Perm.refl _
  | 1 => exact List.Perm.refl _
  | 2 =>
    rw [multistrides_to_axis_perm_two]
    split_ifs
    · exact List.Perm.refl _
    · decide
  | n + 3 =>
    have hlast : List.range (n + 3) = List.range (n + 2) ++ [n + 2] := List.range_succ
    rw [multistrides_to_axis_perm_eq, hlast]
    refine (foldl_insertInto_perm operstrides _ _).trans ?_
    exact ((List.reverse_perm _).append_left _).trans List.perm_append_comm

/-- What an insertion of a smaller axis keeps holds of the sorted axes. -/
theorem multistrides_invariant {P : List ℕ → Prop} (n : ℕ) (hfirst : P [n + 2])
    (hstep : ∀ axes x, x < n + 2 → (∀ y ∈ axes, x < y) → P axes → P (insertInto operstrides axes x)) :
    P (multistrides_to_axis_perm (n + 3) operstrides) := by
  have hloop : ∀ (rest axes : List ℕ), rest.Pairwise (· > ·) → (∀ x ∈ rest, x < n + 2 ∧ ∀ y ∈ axes, x < y) → P axes →
      P (rest.foldl (insertInto operstrides) axes) := by
    intro rest
    induction rest with
    | nil => exact fun _ _ _ h => h
    | cons x rest ih =>
      intro axes hdesc hsmaller h
      obtain ⟨hx, hdesc⟩ := List.pairwise_cons.1 hdesc
      obtain ⟨⟨hlt, hxy⟩, hsmaller⟩ := List.forall_mem_cons.1 hsmaller
      refine ih _ hdesc (fun z hz => ⟨(hsmaller z hz).1, fun y hy => ?_⟩) (hstep axes x hlt hxy h)
      rcases List.mem_cons.1 ((insertInto_perm operstrides axes x).mem_iff.1 hy) with rfl | hy
      · exact hx z hz
      · exact (hsmaller z hz).2 y hy
  rw [multistrides_to_axis_perm_eq]
  refine hloop _ _ (List.pairwise_reverse.2 List.pairwise_lt_range) (fun x hx => ?_) hfirst
  have hlt := List.mem_range.1 (List.mem_reverse.1 hx)
  exact ⟨hlt, List.forall_mem_singleton.2 hlt⟩

/-! ## Conflicts -/

theorem Conflict.before {i j : ℕ} (h : Conflict operstrides i j) : Before operstrides j i := by
  obtain ⟨-, s, hs, hpos, hlt⟩ := h
  exact ⟨s, hs, ⟨abs_pos.1 hpos, abs_pos.1 (hpos.trans hlt)⟩, hlt.le⟩

theorem Conflict.symm {i j : ℕ} (h : Conflict operstrides i j) : Conflict operstrides j i := ⟨h.2, h.1⟩

theorem keeps_conflicts_iff (ndim : ℕ) :
    KeepsConflicts operstrides (multistrides_to_axis_perm ndim operstrides) ↔ (ndim = 2 → ¬ Conflict operstrides 0 1) := by
  match ndim with
  | 0 => exact iff_of_true List.Pairwise.nil (by simp)
  | 1 => exact iff_of_true (List.pairwise_singleton _ _) (by simp)
  | 2 =>
    rw [multistrides_to_axis_perm_two]
    constructor
    · intro h _ hc
      rw [if_pos (hc.symm.before)] at h
      have := List.pairwise_pair.1 h hc
      omega
    · intro h
      have hc := h rfl
      split_ifs
      · exact List.pairwise_pair.2 fun hc' => absurd hc' hc
      · exact List.pairwise_pair.2 fun _ => Nat.zero_lt_one
  | n + 3 =>
    refine iff_of_true (multistrides_invariant operstrides n (List.pairwise_singleton _ _) fun axes x _ hsmaller h => ?_) (by omega)
    obtain ⟨front, back, rfl, heq, hback, -⟩ := insertInto_spec operstrides axes x
    obtain ⟨hfront, hback', hcross⟩ := List.pairwise_append.1 h
    rw [KeepsConflicts, heq]
    refine List.pairwise_append.2 ⟨hfront, List.pairwise_cons.2 ⟨fun y hy hc => absurd hc.before (hback y hy), hback'⟩,
      fun y hy z hz => ?_⟩
    rcases List.mem_cons.1 hz with rfl | hz
    · exact fun _ => hsmaller y (List.mem_append_left _ hy)
    · exact hcross y hy z hz

end

/-! ## One operand -/

section
variable {strides : List ℤ} (hne : ∀ s ∈ strides, s ≠ 0)
include hne

theorem bothMove_one {i j : ℕ} (hi : i < strides.length) (hj : j < strides.length) : BothMove [strides] i j := by
  refine ⟨strides, List.mem_singleton_self _, ?_, ?_⟩
  · rw [List.getD_eq_getElem _ _ hi]
    exact hne _ (List.getElem_mem hi)
  · rw [List.getD_eq_getElem _ _ hj]
    exact hne _ (List.getElem_mem hj)

theorem before_one {i j : ℕ} (hi : i < strides.length) (hj : j < strides.length) :
    Before [strides] i j ↔ |strides.getD i 0| ≤ |strides.getD j 0| := by
  constructor
  · rintro ⟨s, hs, -, hle⟩
    rwa [List.mem_singleton.1 hs] at hle
  · intro hle
    obtain ⟨s, hs, hboth⟩ := bothMove_one hne hi hj
    exact ⟨s, hs, hboth, by rwa [List.mem_singleton.1 hs]⟩

/-- With three axes or more the insertion sort keeps ties in C order. -/
theorem multistrides_sorted {n : ℕ} (hlen : strides.length = n + 3) :
    SortedAxes strides (multistrides_to_axis_perm (n + 3) [strides]) := by
  refine ⟨hlen ▸ multistrides_to_axis_perm_perm [strides] (n + 3), ?_⟩
  have hinv := multistrides_invariant [strides] (P := fun axes => (∀ y ∈ axes, y < strides.length) ∧
    axes.Pairwise fun i j => |strides.getD i 0| < |strides.getD j 0| ∨ |strides.getD i 0| = |strides.getD j 0| ∧ j < i) n
    ⟨by simp [hlen], List.pairwise_singleton _ _⟩ ?_
  · exact hinv.2
  · rintro axes x hx hsmaller ⟨hrange, hsorted⟩
    have hxlen : x < strides.length := by omega
    obtain ⟨front, back, rfl, heq, hback, hlast⟩ := insertInto_spec [strides] axes x
    have hlast := hlast fun y hy => bothMove_one hne (hrange y hy) hxlen
    obtain ⟨hfront, hback', hcross⟩ := List.pairwise_append.1 hsorted
    -- the last axis of the front part is no larger, so none of it is
    have hsmall : ∀ y ∈ front, |strides.getD y 0| ≤ |strides.getD x 0| := by
      intro y hy
      have hnil : front ≠ [] := List.ne_nil_of_mem hy
      have hl := List.getLast_mem hnil
      have hle := (before_one hne (hrange _ (List.mem_append_left _ hl)) hxlen).1 (hlast _ (List.getLast?_eq_some_getLast hnil))
      rw [← List.dropLast_append_getLast hnil] at hy hfront
      rcases List.mem_append.1 hy with hy | hy
      · have := (List.pairwise_append.1 hfront).2.2 y hy _ (List.mem_singleton_self _)
        omega
      · rwa [List.mem_singleton.1 hy]
    rw [heq]
    constructor
    · intro y hy
      rcases List.mem_append.1 hy with hy | hy
      · exact hrange y (List.mem_append_left _ hy)
      · rcases List.mem_cons.1 hy with rfl | hy
        · exact hxlen
        · exact hrange y (List.mem_append_right _ hy)
    · refine List.pairwise_append.2 ⟨hfront, List.pairwise_cons.2 ⟨fun y hy => .inl ?_, hback'⟩, fun y hy z hz => ?_⟩
      · have hnot := hback y hy
        rw [before_one hne (hrange y (List.mem_append_right _ hy)) hxlen] at hnot
        exact not_le.1 hnot
      · rcases List.mem_cons.1 hz with rfl | hz
        · have hle := hsmall y hy
          have hlt := hsmaller y (List.mem_append_left _ hy)
          omega
        · exact hcross y hy z hz

/-- For two axes the tie is taken out of C order. -/
theorem multistrides_two (hlen : strides.length = 2) : SortedAxes strides (multistrides_to_axis_perm 2 [strides]) ↔
    DistinctStrides strides := by
  have hbefore := before_one hne (i := 0) (j := 1) (by omega) (by omega)
  rw [multistrides_to_axis_perm_two]
  constructor
  · rintro ⟨-, hsorted⟩ i j hij hj htie
    obtain ⟨rfl, rfl⟩ : i = 0 ∧ j = 1 := by omega
    rw [if_pos (hbefore.2 htie.le)] at hsorted
    have := List.pairwise_pair.1 hsorted
    omega
  · intro hd
    have hne := hd 0 1 Nat.zero_lt_one (by omega)
    split_ifs with hle
    · exact ⟨by rw [hlen]; exact List.Perm.refl _, List.pairwise_pair.2 (.inl (lt_of_le_of_ne (hbefore.1 hle) hne))⟩
    · exact ⟨by rw [hlen]; decide, List.pairwise_pair.2 (.inl (not_le.1 (hbefore.not.1 hle)))⟩

end

/-- One operand's axes are sorted as `strides_to_axis_perm` sorts them, but for ties of two axes and of four or more. -/
theorem one_operand_iff {strides : List ℤ} (hne : ∀ s ∈ strides, s ≠ 0) :
    (∀ std, multistrides_to_axis_perm strides.length [strides] = strides_to_axis_perm std strides) ↔
      (strides.length ≤ 3 ∧ strides.length ≠ 2) ∨ DistinctStrides strides := by
  have hboth : SortedAxes strides (multistrides_to_axis_perm strides.length [strides]) →
      ((∀ std, multistrides_to_axis_perm strides.length [strides] = strides_to_axis_perm std strides) ↔
        ∀ std, SortedAxes strides (strides_to_axis_perm std strides)) :=
    fun hs => forall_congr' fun std => ⟨fun h => h ▸ hs, fun h => hs.unique h⟩
  match hlen : strides.length with
  | 0 =>
    obtain rfl := List.length_eq_zero_iff.1 hlen
    exact iff_of_true (fun _ => rfl) (.inl (by decide))
  | 1 =>
    obtain ⟨s, rfl⟩ := List.length_eq_one_iff.1 hlen
    exact iff_of_true (fun _ => rfl) (.inl (by decide))
  | 2 =>
    have hle : strides.length ≤ 3 := by omega
    have hshort := fun std => strides_to_axis_perm_short std hle
    have hsorted := multistrides_two hne hlen
    constructor
    · intro h
      exact .inr (hsorted.1 (h default ▸ hshort default))
    · rintro (h | h) std
      · omega
      · exact (hsorted.2 h).unique (hshort std)
  | n + 3 =>
    have hlen : strides.length = n + 3 := hlen
    rw [← hlen, hboth (hlen ▸ multistrides_sorted hne hlen), strides_to_axis_perm_sorted_iff]
    refine or_congr_left ?_
    omega

/-! ## The permutations -/

/-- What the permutations of strides and of several operands' strides have to be. -/
structure AxisPerms (strides : List ℤ) (ndim : ℕ) (operstrides : List (List ℤ)) : Prop where
  sorted : ∀ std, SortedAxes strides (strides_to_axis_perm std strides)
  special_cases : strides.length = 2 ∨ strides.length = 3 →
    ∀ std, strides_to_axis_perm std strides = generalSort std strides
  permutation : (multistrides_to_axis_perm ndim operstrides).Perm (List.range ndim)
  conflicts : KeepsConflicts operstrides (multistrides_to_axis_perm ndim operstrides)
  one_operand : (∀ s ∈ strides, s ≠ 0) →
    ∀ std, multistrides_to_axis_perm strides.length [strides] = strides_to_axis_perm std strides

/-- They are when no two absolute strides are the same and two axes alone are in no conflict. -/
theorem axis_perms_iff (strides : List ℤ) (ndim : ℕ) (operstrides : List (List ℤ)) :
    AxisPerms strides ndim operstrides ↔ DistinctStrides strides ∧ (ndim = 2 → ¬ Conflict operstrides 0 1) := by
  constructor
  · intro h
    refine ⟨?_, (keeps_conflicts_iff operstrides ndim).1 h.conflicts⟩
    by_cases hshort : strides.length ≤ 1
    · intro i j hij hj
      omega
    · by_cases hlen : strides.length ≤ 3
      · exact (special_cases_iff hlen).1 (h.special_cases (by omega))
      · exact ((strides_to_axis_perm_sorted_iff strides).1 h.sorted).resolve_left hlen
  · rintro ⟨hd, hc⟩
    refine ⟨(strides_to_axis_perm_sorted_iff strides).2 (.inr hd), fun hlen => (special_cases_iff (by omega)).2 hd,
      multistrides_to_axis_perm_perm operstrides ndim, (keeps_conflicts_iff operstrides ndim).2 hc,
      fun hne => (one_operand_iff hne).2 (.inr hd)⟩

/-- A square array in C order with one operand, whose strides are both 8 (a diagonal view): the axes are swapped. -/
theorem tie_swapped : ¬ AxisPerms [8, 8] 2 [[8, 8]] := by
  intro h
  have heq := h.one_operand (by decide) default
  revert heq
  decide

end Dynd.FixedDim
