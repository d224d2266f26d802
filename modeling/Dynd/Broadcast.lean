import Dynd.Lib.Perm
import Mathlib.Data.List.GetD
/-!
# Broadcasting the shapes of operands

`broadcast_input_shapes` folds the operands' shapes into one, axis by axis
from the right. A size is nonnegative, or `-1` for a variable-sized dimension.
The fold updates the shape and tests the next size against the updated value:
`broadcast_order_iff` says for which operands their order does not matter.
-/
namespace Dynd.Broadcast
open Lib

/-! ## The function -/

/-- The body of the inner loop, for one axis; `none` throws. -/
def broadcastSize (itershape_size size : ℤ) : Option ℤ :=
  if itershape_size = 1 then some size
  else if size < 0 then
    -- A negative shape value means variable-sized
    if 0 < itershape_size then some (-itershape_size) else some (-1)
  else if 0 ≤ itershape_size then
    if size ≠ 1 ∧ itershape_size ≠ size then none else some itershape_size
  else if itershape_size = -1 ∧ 0 < size then some (-size)
  else if 1 < size ∧ itershape_size ≠ -size then none
  else some itershape_size

/-- The inner loop over the axes an operand has. -/
def broadcastSizes : List ℤ → List ℤ → Option (List ℤ)
  | s :: shape, x :: op => do
    let s' ← broadcastSize s x
    let shape' ← broadcastSizes shape op
    return s' :: shape'
  | shape, _ => some shape

/-- One operand, aligned with the last axes of the shape. -/
def broadcastOperand (undim : ℕ) (shape op : List ℤ) : Option (List ℤ) :=
  let dimdelta := undim - op.length
  (broadcastSizes (shape.drop dimdelta) op).map (shape.take dimdelta ++ ·)

/-- The exception names the shapes of all the inputs. -/
structure broadcast_error where
  inputs : List (List ℤ)
deriving DecidableEq

structure BroadcastResult where
  out_undim : ℕ
  out_shape : List ℤ
  out_axis_perm : List ℕ
deriving DecidableEq

/-- The number of broadcast dimensions. -/
def broadcastUndim (inputs : List (List ℤ)) : ℕ :=
  inputs.foldl (fun undim op => if undim < op.length then op.length else undim) (inputs.headD []).length

def axisPerm (undim : ℕ) : List ℕ :=
  if 1 < undim then (List.range undim).map (undim - · - 1) else if undim = 1 then [0] else []

def broadcast_input_shapes (inputs : List (List ℤ)) : Except broadcast_error BroadcastResult :=
  let undim := broadcastUndim inputs
  match inputs.foldlM (broadcastOperand undim) (List.replicate undim 1) with
  | none => .error ⟨inputs⟩
  | some shape => .ok ⟨undim, shape, axisPerm undim⟩

/-! ## One axis at a time -/

/-- The size an operand has at axis `k` of `undim`, if it reaches that far. -/
def axisSize (undim k : ℕ) (op : List ℤ) : Option ℤ :=
  if undim - op.length ≤ k then some (op.getD (k - (undim - op.length)) 1) else none

/-- The sizes that meet at axis `k`, in the order of the operands. -/
def column (undim k : ℕ) (inputs : List (List ℤ)) : List ℤ := inputs.filterMap (axisSize undim k)

/-- The fold over one axis. -/
def broadcastColumn (c : List ℤ) : Option ℤ := c.foldlM broadcastSize 1

theorem ext_getD {xs ys : List ℤ} (hl : xs.length = ys.length) (h : ∀ k < xs.length, xs.getD k 1 = ys.getD k 1) :
    xs = ys := by
  refine List.ext_getElem hl fun k hx hy => ?_
  simpa [List.getD_eq_getElem?_getD, hx, hy] using h k hx

theorem broadcastSizes_iff : ∀ {shape op r : List ℤ}, shape.length = op.length →
    (broadcastSizes shape op = some r ↔ r.length = shape.length ∧
      ∀ k < shape.length, broadcastSize (shape.getD k 1) (op.getD k 1) = some (r.getD k 1))
  | [], [], r, _ => by
    simp only [broadcastSizes, Option.some.injEq, List.length_nil, List.length_eq_zero_iff, not_lt_zero,
      false_imp_iff, implies_true, and_true]
    exact eq_comm
  | s :: shape, x :: op, r, hl => by
    have ih := fun t => @broadcastSizes_iff shape op t (by simpa using hl)
    simp only [broadcastSizes, Option.bind_eq_bind, Option.bind_eq_some_iff, ih, Option.pure_def,
      Option.some.injEq]
    constructor
    · rintro ⟨s', hs, t, ⟨ht, h⟩, rfl⟩
      refine ⟨by simpa using ht, fun k hk => ?_⟩
      cases k with
      | zero => exact hs
      | succ k => exact h k (by simpa using hk)
    · rintro ⟨hr, h⟩
      rcases r with _ | ⟨s', t⟩
      · simp at hr
      · refine ⟨s', h 0 (by simp), t, ⟨by simpa using hr, fun k hk => ?_⟩, rfl⟩
        exact h (k + 1) (by simpa using hk)

/-- What an operand does to the size at an axis: nothing where it does not reach. -/
def stepAxis (s : ℤ) : Option ℤ → Option ℤ
  | none => some s
  | some x => broadcastSize s x

theorem getD_drop (l : List ℤ) (d k : ℕ) : (l.drop d).getD k 1 = l.getD (d + k) 1 := by
  simp [List.getD_eq_getElem?_getD, List.getElem?_drop]

theorem broadcastOperand_iff {undim : ℕ} {shape op r : List ℤ} (hs : shape.length = undim) (ho : op.length ≤ undim) :
    broadcastOperand undim shape op = some r ↔ r.length = undim ∧
      ∀ k < undim, stepAxis (shape.getD k 1) (axisSize undim k op) = some (r.getD k 1) := by
  have hdrop : (shape.drop (undim - op.length)).length = op.length := by
    rw [List.length_drop]
    omega
  simp only [broadcastOperand, Option.map_eq_some_iff, broadcastSizes_iff hdrop, hdrop, getD_drop]
  constructor
  · rintro ⟨t, ⟨ht, h⟩, rfl⟩
    refine ⟨by simp; omega, fun k hk => ?_⟩
    unfold axisSize
    split_ifs with hd
    · have := h (k - (undim - op.length)) (by omega)
      rw [Nat.add_sub_cancel' hd] at this
      rw [stepAxis, this, List.getD_append_right _ _ _ _ (by simp; omega), List.length_take]
      congr 2
      omega
    · rw [stepAxis, List.getD_append _ _ _ _ (by simp; omega)]
      simp [List.getD_eq_getElem?_getD, Nat.not_le.1 hd]
  · rintro ⟨hr, h⟩
    refine ⟨r.drop (undim - op.length), ⟨by rw [List.length_drop]; omega, fun k hk => ?_⟩, ?_⟩
    · have := h (undim - op.length + k) (by omega)
      rw [axisSize, if_pos (Nat.le_add_right _ _), Nat.add_sub_cancel_left] at this
      rw [getD_drop]
      exact this
    · have htake : shape.take (undim - op.length) = r.take (undim - op.length) := by
        refine ext_getD (by simp; omega) fun k hk => ?_
        simp only [List.length_take] at hk
        have := h k (by omega)
        rw [axisSize, if_neg (by omega), stepAxis, Option.some.injEq] at this
        simpa [List.getD_eq_getElem?_getD, List.getElem?_take, show k < undim - op.length by omega] using this
      rw [htake, List.take_append_drop]

theorem column_cons (undim k : ℕ) (op : List ℤ) (inputs : List (List ℤ)) :
    column undim k (op :: inputs) = (axisSize undim k op).toList ++ column undim k inputs := by
  rw [column, List.filterMap_cons]
  cases axisSize undim k op <;> rfl

theorem foldlM_stepAxis (s : ℤ) (o : Option ℤ) (c : List ℤ) :
    (o.toList ++ c).foldlM broadcastSize s = (stepAxis s o).bind fun s' => c.foldlM broadcastSize s' := by
  cases o <;> simp [stepAxis, List.foldlM_cons]

/-- The loop over the operands computes the fold of every column. -/
theorem loop_iff {undim : ℕ} {inputs : List (List ℤ)} (hi : ∀ op ∈ inputs, op.length ≤ undim) :
    ∀ {shape r : List ℤ}, shape.length = undim → (inputs.foldlM (broadcastOperand undim) shape = some r ↔
      r.length = undim ∧ ∀ k < undim, (column undim k inputs).foldlM broadcastSize (shape.getD k 1) = some (r.getD k 1)) := by
  induction inputs with
  | nil =>
    intro shape r hs
    simp only [List.foldlM_nil, Option.pure_def, Option.some.injEq, column, List.filterMap_nil]
    constructor
    · rintro rfl
      exact ⟨hs, fun k _ => rfl⟩
    · rintro ⟨hr, h⟩
      exact ext_getD (hs.trans hr.symm) fun k hk => h k (by omega)
  | cons op inputs ih =>
    intro shape r hs
    simp only [List.forall_mem_cons] at hi
    simp only [List.foldlM_cons, Option.bind_eq_bind, Option.bind_eq_some_iff, broadcastOperand_iff hs hi.1,
      column_cons, foldlM_stepAxis]
    constructor
    · rintro ⟨mid, ⟨hm, hstep⟩, h⟩
      obtain ⟨hr, hcol⟩ := (ih hi.2 hm).1 h
      exact ⟨hr, fun k hk => ⟨_, hstep k hk, hcol k hk⟩⟩
    · rintro ⟨hr, h⟩
      choose! m hm using h
      have hget : ∀ k < undim, ((List.range undim).map m).getD k 1 = m k := by
        intro k hk
        simp [List.getD_eq_getElem?_getD, hk]
      refine ⟨(List.range undim).map m, ⟨by simp, fun k hk => ?_⟩, ?_⟩
      · rw [hget k hk]
        exact (hm k hk).1
      · refine (ih hi.2 (by simp)).2 ⟨hr, fun k hk => ?_⟩
        rw [hget k hk]
        exact (hm k hk).2

theorem foldl_undim_le_iff (m : ℕ) (inputs : List (List ℤ)) (u : ℕ) :
    inputs.foldl (fun undim op => if undim < op.length then op.length else undim) u ≤ m ↔
      u ≤ m ∧ ∀ op ∈ inputs, op.length ≤ m := by
  induction inputs generalizing u with
  | nil => simp
  | cons op inputs ih =>
    rw [List.foldl_cons, ih, List.forall_mem_cons, ← and_assoc]
    refine and_congr_left fun _ => ?_
    split_ifs <;> omega

/-- `undim` is the largest number of dimensions. -/
theorem undim_le_iff (m : ℕ) (inputs : List (List ℤ)) :
    broadcastUndim inputs ≤ m ↔ ∀ op ∈ inputs, op.length ≤ m := by
  rw [broadcastUndim, foldl_undim_le_iff]
  cases inputs with
  | nil => simp
  | cons op inputs => simp

theorem undim_perm {inputs inputs' : List (List ℤ)} (h : inputs'.Perm inputs) :
    broadcastUndim inputs' = broadcastUndim inputs := by
  have hle : ∀ m, broadcastUndim inputs' ≤ m ↔ broadcastUndim inputs ≤ m := by
    intro m
    rw [undim_le_iff, undim_le_iff]
    exact forall_congr' fun op => by rw [h.mem_iff]
  exact le_antisymm ((hle _).2 le_rfl) ((hle _).1 le_rfl)

/-! ## The fold over one axis -/

/-- The size `x` is still remembered after `c`: at most one variable size
follows it, or none when one came before. -/
def Live (x : ℤ) (c : List ℤ) : Prop :=
  ∃ p q, c = p ++ x :: q ∧ q.count (-1) + (if -1 ∈ p then 1 else 0) ≤ 1

/-- `y` meets a different size after `c`. -/
def ClashAt (c : List ℤ) (y : ℤ) : Prop :=
  y ≠ 1 ∧ y ≠ -1 ∧ ∃ x ∈ c, x ≠ 1 ∧ x ≠ -1 ∧ x ≠ y ∧ (-1 ∉ c ∨ 2 ≤ x ∧ 2 ≤ y ∧ Live x c)

/-- Somewhere in the column two different sizes meet. -/
def Clash (c : List ℤ) : Prop := ∃ a y z, c = a ++ y :: z ∧ ClashAt a y

/-- What the fold knows after `c`: the one size so far while no variable size
came, then the negated size it remembers. -/
structure Knows (c : List ℤ) (s : ℤ) : Prop where
  fixed : -1 ∉ c → 0 ≤ s ∧ (∀ x ∈ c, x = 1 ∨ x = s) ∧ (s = 1 ∨ s ∈ c)
  variable_ : -1 ∈ c → s < 0 ∧ ∀ n, 2 ≤ n → (s = -n ↔ Live n c)

theorem append_concat_inj {α : Type} {c p q : List α} {y n z : α} (h : c ++ [y] = p ++ n :: (q ++ [z])) :
    c = p ++ n :: q ∧ y = z := by
  have h' : c ++ [y] = (p ++ n :: q) ++ [z] := by simpa using h
  obtain ⟨h1, h2⟩ := List.append_inj' h' rfl
  exact ⟨h1, by simpa using h2⟩

theorem append_singleton_inj {α : Type} {c p : List α} {y n : α} (h : c ++ [y] = p ++ [n]) : c = p ∧ y = n := by
  obtain ⟨h1, h2⟩ := List.append_inj' h rfl
  exact ⟨h1, by simpa using h2⟩

theorem live_concat {n y : ℤ} {c : List ℤ} (hy : y ≠ -1) : Live n (c ++ [y]) ↔ n = y ∨ Live n c := by
  constructor
  · rintro ⟨p, q, he, hc⟩
    rcases List.eq_nil_or_concat q with rfl | ⟨q, z, rfl⟩
    · exact .inl (append_singleton_inj he).2.symm
    · rw [List.concat_eq_append] at he hc
      obtain ⟨rfl, rfl⟩ := append_concat_inj he
      rw [List.count_append, List.count_singleton, if_neg (by simpa using hy), Nat.add_zero] at hc
      exact .inr ⟨p, q, rfl, hc⟩
  · rintro (rfl | ⟨p, q, rfl, hc⟩)
    · exact ⟨c, [], rfl, by split_ifs <;> simp⟩
    · refine ⟨p, q ++ [y], by simp, ?_⟩
      rwa [List.count_append, List.count_singleton, if_neg (by simpa using hy), Nat.add_zero]

/-- One variable size is only survived when it is the first. -/
theorem live_concat_var {n : ℤ} {c : List ℤ} (hn : n ≠ -1) : Live n (c ++ [-1]) ↔ -1 ∉ c ∧ n ∈ c := by
  constructor
  · rintro ⟨p, q, he, hc⟩
    rcases List.eq_nil_or_concat q with rfl | ⟨q, z, rfl⟩
    · exact absurd (append_singleton_inj he).2.symm hn
    · rw [List.concat_eq_append] at he hc
      obtain ⟨rfl, rfl⟩ := append_concat_inj he
      rw [List.count_append, List.count_singleton_self] at hc
      have hp : -1 ∉ p := fun h => by rw [if_pos h] at hc; omega
      have hq : -1 ∉ q := fun h => by have := List.count_pos_iff.2 h; omega
      exact ⟨by simp [hp, hq, hn.symm], by simp⟩
  · rintro ⟨hc, hmem⟩
    obtain ⟨p, q, rfl⟩ := List.append_of_mem hmem
    simp only [List.mem_append, List.mem_cons, not_or] at hc
    refine ⟨p, q ++ [-1], by simp, ?_⟩
    rw [List.count_append, List.count_eq_zero_of_not_mem hc.2.2, if_neg hc.1, List.count_singleton_self]

theorem clash_concat {c : List ℤ} {y : ℤ} : Clash (c ++ [y]) ↔ Clash c ∨ ClashAt c y := by
  constructor
  · rintro ⟨a, x, z, he, h⟩
    rcases List.eq_nil_or_concat z with rfl | ⟨z, w, rfl⟩
    · obtain ⟨rfl, rfl⟩ := append_singleton_inj he
      exact .inr h
    · rw [List.concat_eq_append] at he
      obtain ⟨rfl, rfl⟩ := append_concat_inj he
      exact .inl ⟨a, x, z, rfl, h⟩
  · rintro (⟨a, x, z, rfl, h⟩ | h)
    · exact ⟨a, x, z ++ [y], by simp, h⟩
    · exact ⟨c, y, [], rfl, h⟩

theorem not_clash_nil : ¬ Clash [] := by
  rintro ⟨a, y, z, he, -⟩
  simp at he

/-- A variable size never throws. -/
theorem knows_var {c : List ℤ} {s : ℤ} (h : Knows c s) :
    ∃ s', broadcastSize s (-1) = some s' ∧ Knows (c ++ [-1]) s' := by
  have hknows : ∀ s', s' < 0 → (∀ n, 2 ≤ n → (s' = -n ↔ -1 ∉ c ∧ n ∈ c)) → Knows (c ++ [-1]) s' := by
    intro s' hneg hlive
    refine ⟨fun hmem => absurd (by simp) hmem, fun _ => ⟨hneg, fun n hn => ?_⟩⟩
    rw [live_concat_var (by omega)]
    exact hlive n hn
  by_cases hv : -1 ∈ c
  · obtain ⟨hneg, -⟩ := h.variable_ hv
    refine ⟨-1, by rw [broadcastSize, if_neg (by omega), if_pos (by omega), if_neg (by omega)], ?_⟩
    exact hknows _ (by omega) fun n hn => iff_of_false (by omega) fun hc => hc.1 hv
  · obtain ⟨hpos, hall, hmem⟩ := h.fixed hv
    rcases lt_or_ge 1 s with hs | hs
    · refine ⟨-s, by rw [broadcastSize, if_neg (by omega), if_pos (by omega), if_pos (by omega)], ?_⟩
      refine hknows _ (by omega) fun n hn => ⟨fun he => ⟨hv, ?_⟩, fun hc => ?_⟩
      · rw [← neg_inj.1 he]
        exact hmem.resolve_left (by omega)
      · rcases hall n hc.2 with hn1 | rfl <;> omega
    · refine ⟨-1, ?_, hknows _ (by omega) fun n hn => iff_of_false (by omega) fun hc => ?_⟩
      · unfold broadcastSize
        split_ifs <;> first | rfl | omega
      · rcases hall n hc.2 with hn1 | rfl <;> omega

/-- A size before any variable one must be `1` or the size so far. -/
theorem knows_fixed {c : List ℤ} {s y : ℤ} (h : Knows c s) (hy : 0 ≤ y) (hv : -1 ∉ c) :
    (broadcastSize s y = none ∧ ClashAt c y) ∨
      (¬ ClashAt c y ∧ ∃ s', broadcastSize s y = some s' ∧ Knows (c ++ [y]) s') := by
  obtain ⟨hpos, hall, hmem⟩ := h.fixed hv
  have hv' : -1 ∉ c ++ [y] := by
    simp only [List.mem_append, List.mem_singleton, hv, false_or]
    omega
  by_cases hs : s = 1
  · refine .inr ⟨?_, y, if_pos hs, fun _ => ⟨hy, ?_, .inr (by simp)⟩, fun hmem => absurd hmem hv'⟩
    · rintro ⟨-, -, x, hx, hx1, -⟩
      rcases hall x hx with rfl | rfl <;> contradiction
    · intro x hx
      rcases List.mem_append.1 hx with hx | hx
      · rcases hall x hx with hx | hx
        · exact .inl hx
        · exact .inl (hx.trans hs)
      · exact .inr (List.mem_singleton.1 hx)
  · have hsc : s ∈ c := hmem.resolve_left hs
    by_cases hclash : y ≠ 1 ∧ s ≠ y
    · refine .inl ⟨?_, hclash.1, by omega, s, hsc, hs, by omega, hclash.2, .inl hv⟩
      rw [broadcastSize, if_neg hs, if_neg (by omega), if_pos hpos, if_pos hclash]
    · refine .inr ⟨?_, s, ?_, fun _ => ⟨hpos, ?_, .inr (by simp [hsc])⟩, fun hmem => absurd hmem hv'⟩
      · rintro ⟨hy1, -, x, hx, hx1, -, hxy, -⟩
        rcases hall x hx with rfl | rfl
        · exact hx1 rfl
        · exact hclash ⟨hy1, hxy⟩
      · rw [broadcastSize, if_neg hs, if_neg (by omega), if_pos hpos, if_neg hclash]
      · intro x hx
        rcases List.mem_append.1 hx with hx | hx
        · exact hall x hx
        · rw [List.mem_singleton.1 hx]
          omega

/-- A size after a variable one must be below two or the size remembered, if there is one. -/
theorem knows_variable {c : List ℤ} {s y : ℤ} (h : Knows c s) (hy : 0 ≤ y) (hv : -1 ∈ c) :
    (broadcastSize s y = none ∧ ClashAt c y) ∨
      (¬ ClashAt c y ∧ ∃ s', broadcastSize s y = some s' ∧ Knows (c ++ [y]) s') := by
  obtain ⟨hneg, hlive⟩ := h.variable_ hv
  have hclash : ClashAt c y → 2 ≤ y ∧ ∃ x, 2 ≤ x ∧ x ≠ y ∧ s = -x := by
    rintro ⟨-, -, x, -, -, -, hxy, hnv | ⟨hx, hy, hl⟩⟩
    · exact absurd hv hnv
    · exact ⟨hy, x, hx, hxy, (hlive x hx).2 hl⟩
  have hknows : ∀ s', s' < 0 → (∀ n, 2 ≤ n → (s' = -n ↔ n = y ∨ s = -n)) → Knows (c ++ [y]) s' := by
    intro s' hneg' hn'
    refine ⟨fun hmem => absurd (List.mem_append_left _ hv) hmem, fun _ => ⟨hneg', fun n hn => ?_⟩⟩
    rw [live_concat (by omega), ← hlive n hn]
    exact hn' n hn
  have hstep : broadcastSize s y =
      if s = -1 ∧ 0 < y then some (-y) else if 1 < y ∧ s ≠ -y then none else some s := by
    rw [broadcastSize, if_neg (by omega), if_neg (by omega), if_neg (by omega)]
  rw [hstep]
  split_ifs with h1 h2
  · refine .inr ⟨fun hc => ?_, -y, rfl, hknows _ (by omega) fun n hn => by omega⟩
    obtain ⟨-, x, hx, -, hs⟩ := hclash hc
    omega
  · have hl : Live (-s) c := (hlive (-s) (by omega)).1 (by omega)
    have hmem : -s ∈ c := by
      obtain ⟨p, q, hc, -⟩ := hl
      rw [hc]
      simp
    exact .inl ⟨rfl, by omega, by omega, -s, hmem, by omega, by omega, by omega, .inr ⟨by omega, by omega, hl⟩⟩
  · refine .inr ⟨fun hc => ?_, s, rfl, hknows _ hneg fun n hn => by omega⟩
    obtain ⟨hy2, x, hx, hxy, hs⟩ := hclash hc
    omega

/-- One step of the fold: it throws exactly at a clash, and otherwise knows the longer column. -/
theorem knows_step {c : List ℤ} {s y : ℤ} (h : Knows c s) (hy : -1 ≤ y) :
    (broadcastSize s y = none ∧ ClashAt c y) ∨
      (¬ ClashAt c y ∧ ∃ s', broadcastSize s y = some s' ∧ Knows (c ++ [y]) s') := by
  rcases eq_or_lt_of_le hy with rfl | hpos
  · exact .inr ⟨fun hc => hc.2.1 rfl, knows_var h⟩
  · by_cases hv : -1 ∈ c
    · exact knows_variable h (by omega) hv
    · exact knows_fixed h (by omega) hv

/-- The fold of a column throws exactly when the column has a clash. -/
theorem broadcastColumn_spec (c : List ℤ) (hc : ∀ x ∈ c, -1 ≤ x) :
    (broadcastColumn c = none ∧ Clash c) ∨ (¬ Clash c ∧ ∃ s, broadcastColumn c = some s ∧ Knows c s) := by
  induction c using List.reverseRecOn with
  | nil => exact .inr ⟨not_clash_nil, 1, rfl, ⟨fun _ => by simp, fun h => by simp at h⟩⟩
  | append_singleton c y ih =>
    have hfold : broadcastColumn (c ++ [y]) = (broadcastColumn c).bind fun s => broadcastSize s y := by
      simp [broadcastColumn, List.foldlM_append]
    rw [hfold, clash_concat]
    rcases ih fun x hx => hc x (by simp [hx]) with ⟨hnone, hclash⟩ | ⟨hnc, s, hs, hk⟩
    · exact .inl ⟨by rw [hnone]; rfl, .inl hclash⟩
    · rw [hs]
      rcases knows_step hk (hc y (by simp)) with ⟨hnone, hclash⟩ | ⟨hny, s', hs', hk'⟩
      · exact .inl ⟨hnone, .inr hclash⟩
      · exact .inr ⟨not_or.2 ⟨hnc, hny⟩, s', hs', hk'⟩

/-! ## Columns whose order does not matter -/

/-- A column without variable sizes has one size besides `1`; one with variable
sizes has nothing above one, or a single variable size, no zero and one other size. -/
def Steady (c : List ℤ) : Prop :=
  (-1 ∉ c ∧ ∀ x ∈ c, ∀ y ∈ c, x ≠ 1 → y ≠ 1 → x = y) ∨
  (-1 ∈ c ∧ ∀ x ∈ c, x ≤ 1) ∨
  (c.count (-1) = 1 ∧ 0 ∉ c ∧ ∀ x ∈ c, ∀ y ∈ c, 2 ≤ x → 2 ≤ y → x = y)

theorem Steady.perm {c c' : List ℤ} (hp : c'.Perm c) (h : Steady c) : Steady c' := by
  simpa only [Steady, hp.mem_iff, hp.count_eq] using h

/-- No order of a steady column has a clash. -/
theorem Steady.not_clash {c : List ℤ} (hc : ∀ x ∈ c, -1 ≤ x) (h : Steady c) : ¬ Clash c := by
  rintro ⟨a, y, z, rfl, hy1, hyv, x, hx, hx1, hxv, hxy, hlive⟩
  have hxc : x ∈ a ++ y :: z := List.mem_append_left _ hx
  have hyc : y ∈ a ++ y :: z := by simp
  have hx0 := hc x hxc
  have hy0 := hc y hyc
  rcases h with ⟨-, h⟩ | ⟨-, h⟩ | ⟨-, h0, h⟩
  · exact hxy (h x hxc y hyc hx1 hy1)
  · have := h x hxc
    have := h y hyc
    omega
  · have hx2 : x ≠ 0 := by rintro rfl; exact h0 hxc
    have hy2 : y ≠ 0 := by rintro rfl; exact h0 hyc
    exact hxy (h x hxc y hyc (by omega) (by omega))

/-- With one variable size in the column every other size stays remembered. -/
theorem live_of_count {c : List ℤ} {n : ℤ} (hc : c.count (-1) = 1) (hn : n ∈ c) : Live n c := by
  obtain ⟨p, q, rfl⟩ := List.append_of_mem hn
  refine ⟨p, q, rfl, ?_⟩
  rw [List.count_append] at hc
  have hq : q.count (-1) ≤ (n :: q).count (-1) := List.count_le_count_cons
  split_ifs with hp
  · have := List.count_pos_iff.2 hp
    omega
  · omega

/-- The size a steady column folds to does not depend on its order. -/
theorem Steady.unique {c c' : List ℤ} {s s' : ℤ} (h : Steady c) (hp : c'.Perm c) (hk : Knows c s) (hk' : Knows c' s') :
    s' = s := by
  by_cases hv : -1 ∈ c
  · obtain ⟨hneg, hlive⟩ := hk.variable_ hv
    obtain ⟨hneg', hlive'⟩ := hk'.variable_ (hp.mem_iff.2 hv)
    have hmem : s ≠ -1 → -s ∈ c := by
      intro hs
      obtain ⟨p, q, hc, -⟩ := (hlive (-s) (by omega)).1 (by omega)
      rw [hc]
      simp
    have hmem' : s' ≠ -1 → -s' ∈ c := by
      intro hs
      obtain ⟨p, q, hc, -⟩ := (hlive' (-s') (by omega)).1 (by omega)
      rw [← hp.mem_iff, hc]
      simp
    rcases h with ⟨hnv, -⟩ | ⟨-, h⟩ | ⟨h1, -, -⟩
    · exact absurd hv hnv
    · have hs : s = -1 := by
        by_contra hs
        have := h _ (hmem hs)
        omega
      have hs' : s' = -1 := by
        by_contra hs
        have := h _ (hmem' hs)
        omega
      rw [hs, hs']
    · rcases eq_or_ne s (-1) with hs | hs
      · rcases eq_or_ne s' (-1) with hs' | hs'
        · rw [hs, hs']
        · have := (hlive (-s') (by omega)).2 (live_of_count h1 (hmem' hs'))
          omega
      · have h1' : c'.count (-1) = 1 := by rw [hp.count_eq, h1]
        have := (hlive' (-s) (by omega)).2 (live_of_count h1' (hp.mem_iff.2 (hmem hs)))
        omega
  · obtain ⟨-, hall, hmem⟩ := hk.fixed hv
    obtain ⟨-, hall', hmem'⟩ := hk'.fixed fun hv' => hv (hp.mem_iff.1 hv')
    rcases hmem with hs | hs
    · rcases hmem' with hs' | hs'
      · omega
      · have := hall s' (hp.mem_iff.1 hs')
        omega
    · have := hall' s (hp.mem_iff.2 hs)
      rcases hmem' with hs' | hs'
      · omega
      · have := hall s' (hp.mem_iff.1 hs')
        omega

/-- Two different sizes at the front of a column clash. -/
theorem clash_pair {x y : ℤ} (hx1 : x ≠ 1) (hxv : x ≠ -1) (hy1 : y ≠ 1) (hyv : y ≠ -1) (hxy : x ≠ y) (c : List ℤ) :
    Clash (x :: y :: c) :=
  ⟨[x], y, c, rfl, hy1, hyv, x, by simp, hx1, hxv, hxy, .inl (by simpa using hxv.symm)⟩

theorem perm_pair {c : List ℤ} {x y : ℤ} (hx : x ∈ c) (hy : y ∈ c) (hxy : x ≠ y) :
    (x :: y :: (c.erase x).erase y).Perm c :=
  ((List.perm_cons_erase hx).trans
    ((List.perm_cons_erase ((List.mem_erase_of_ne hxy.symm).2 hy)).cons x)).symm

/-- A column that is not steady has an order that clashes, or two orders with different outcomes. -/
theorem not_steady {c : List ℤ} (hc : ∀ x ∈ c, -1 ≤ x) (h : ¬ Steady c) :
    (∃ c', c'.Perm c ∧ broadcastColumn c' = none) ∨
      ∃ c₁ c₂ s₁ s₂, c₁.Perm c ∧ c₂.Perm c ∧ broadcastColumn c₁ = some s₁ ∧ broadcastColumn c₂ = some s₂ ∧ s₁ ≠ s₂ := by
  have hspec : ∀ c', c'.Perm c → (broadcastColumn c' = none ∧ Clash c') ∨
      (¬ Clash c' ∧ ∃ s, broadcastColumn c' = some s ∧ Knows c' s) :=
    fun c' hp => broadcastColumn_spec c' fun x hx => hc x (hp.mem_iff.1 hx)
  have hclash : ∀ c', c'.Perm c → Clash c' → broadcastColumn c' = none := by
    intro c' hp hcl
    rcases hspec c' hp with ⟨hnone, -⟩ | ⟨hnc, -⟩
    · exact hnone
    · exact absurd hcl hnc
  have hpair : ∀ x ∈ c, ∀ y ∈ c, x ≠ 1 → x ≠ -1 → y ≠ 1 → y ≠ -1 → x ≠ y →
      ∃ c', c'.Perm c ∧ broadcastColumn c' = none := fun x hx y hy hx1 hxv hy1 hyv hxy =>
    ⟨_, perm_pair hx hy hxy, hclash _ (perm_pair hx hy hxy) (clash_pair hx1 hxv hy1 hyv hxy _)⟩
  simp only [Steady, not_or] at h
  obtain ⟨hfix, hlow, hone⟩ := h
  by_cases hv : -1 ∈ c
  · simp only [hv, true_and, not_forall, not_le] at hlow
    obtain ⟨n, hn, hn2⟩ := hlow
    by_cases h0 : 0 ∈ c
    · exact .inl (hpair 0 h0 n hn (by omega) (by omega) (by omega) (by omega) (by omega))
    by_cases heq : ∀ x ∈ c, ∀ y ∈ c, 2 ≤ x → 2 ≤ y → x = y
    · -- two variable sizes: the last operand decides whether `n` is remembered
      have hcount : 1 < c.count (-1) := by
        have h1 : c.count (-1) ≠ 1 := fun h1 => hone ⟨h1, h0, heq⟩
        have h2 := List.count_pos_iff.2 hv
        omega
      have hv2 : -1 ∈ c.erase (-1) := by
        rw [← List.count_pos_iff, List.count_erase_self]
        omega
      have hp : (-1 :: -1 :: n :: ((c.erase (-1)).erase (-1)).erase n).Perm c := by
        have hn' : n ∈ (c.erase (-1)).erase (-1) := by
          rw [List.mem_erase_of_ne (by omega), List.mem_erase_of_ne (by omega)]
          exact hn
        exact ((List.perm_cons_erase hv).trans (((List.perm_cons_erase hv2).trans
          ((List.perm_cons_erase hn').cons _)).cons _)).symm
      generalize ((c.erase (-1)).erase (-1)).erase n = rest at hp
      have hp₁ : ((rest ++ [-1, -1]) ++ [n]).Perm c := by
        refine List.Perm.trans ?_ hp
        simp only [List.append_assoc, List.cons_append, List.nil_append]
        exact List.perm_append_comm
      have hp₂ : ((n :: rest ++ [-1]) ++ [-1]).Perm c := by
        refine List.Perm.trans ?_ hp
        simp only [List.append_assoc, List.cons_append, List.nil_append]
        exact (List.perm_append_comm : (n :: rest ++ [-1, -1]).Perm ([-1, -1] ++ n :: rest))
      rcases hspec _ hp₁ with ⟨hnone, -⟩ | ⟨-, s₁, hs₁, hk₁⟩
      · exact .inl ⟨_, hp₁, hnone⟩
      rcases hspec _ hp₂ with ⟨hnone, -⟩ | ⟨-, s₂, hs₂, hk₂⟩
      · exact .inl ⟨_, hp₂, hnone⟩
      refine .inr ⟨_, _, s₁, s₂, hp₁, hp₂, hs₁, hs₂, ?_⟩
      have e₁ : s₁ = -n := ((hk₁.variable_ (by simp)).2 n (by omega)).2 ((live_concat (by omega)).2 (.inl rfl))
      have e₂ : s₂ ≠ -n := fun he =>
        ((live_concat_var (by omega)).1 (((hk₂.variable_ (by simp)).2 n (by omega)).1 he)).1 (by simp)
      rw [e₁]
      exact e₂.symm
    · simp only [not_forall] at heq
      obtain ⟨x, hx, y, hy, hx2, hy2, hxy⟩ := heq
      exact .inl (hpair x hx y hy (by omega) (by omega) (by omega) (by omega) hxy)
  · simp only [hv, not_false_eq_true, true_and, not_forall] at hfix
    obtain ⟨x, hx, y, hy, hx1, hy1, hxy⟩ := hfix
    have hxv : x ≠ -1 := by rintro rfl; exact hv hx
    have hyv : y ≠ -1 := by rintro rfl; exact hv hy
    exact .inl (hpair x hx y hy hx1 hxv hy1 hyv hxy)

/-! ## Operands whose order does not matter -/

/-- The sizes of the operands at the `j`-th axis from the last. -/
def lastAxis (j : ℕ) (inputs : List (List ℤ)) : List ℤ := inputs.filterMap (·.reverse[j]?)

theorem axisSize_eq {undim k : ℕ} {op : List ℤ} (hk : k < undim) (ho : op.length ≤ undim) :
    axisSize undim k op = op.reverse[undim - 1 - k]? := by
  unfold axisSize
  split_ifs with h
  · have h1 : k - (undim - op.length) < op.length := by omega
    have h2 : undim - 1 - k < op.reverse.length := by rw [List.length_reverse]; omega
    rw [List.getElem?_eq_getElem h2, List.getElem_reverse, List.getD_eq_getElem _ _ h1]
    congr 2
    omega
  · rw [eq_comm, List.getElem?_eq_none_iff, List.length_reverse]
    omega

theorem column_eq_lastAxis {inputs : List (List ℤ)} {k : ℕ} (hk : k < broadcastUndim inputs) :
    column (broadcastUndim inputs) k inputs = lastAxis (broadcastUndim inputs - 1 - k) inputs :=
  List.filterMap_congr fun _ hop => axisSize_eq hk ((undim_le_iff _ _).1 le_rfl _ hop)

/-- Beyond the axes of all operands nothing meets. -/
theorem lastAxis_eq_nil {inputs : List (List ℤ)} {j : ℕ} (hj : broadcastUndim inputs ≤ j) : lastAxis j inputs = [] := by
  refine List.filterMap_eq_nil_iff.2 fun op hop => ?_
  have := (undim_le_iff _ _).1 le_rfl op hop
  rw [List.getElem?_eq_none_iff, List.length_reverse]
  omega

def ValidSizes (inputs : List (List ℤ)) : Prop := ∀ op ∈ inputs, ∀ s ∈ op, -1 ≤ s

theorem ValidSizes.lastAxis {inputs : List (List ℤ)} (h : ValidSizes inputs) (j : ℕ) : ∀ x ∈ lastAxis j inputs, -1 ≤ x := by
  intro x hx
  obtain ⟨op, hop, hget⟩ := List.mem_filterMap.1 hx
  exact h op hop x (List.mem_reverse.1 (List.mem_of_getElem? hget))

theorem ValidSizes.perm {inputs inputs' : List (List ℤ)} (h : ValidSizes inputs) (hp : inputs'.Perm inputs) :
    ValidSizes inputs' := fun op hop => h op (hp.mem_iff.1 hop)

/-- Both throw, or both return the same. -/
def SameOutcome : Except broadcast_error BroadcastResult → Except broadcast_error BroadcastResult → Prop
  | .ok a, .ok b => a = b
  | .error _, .error _ => True
  | _, _ => False

theorem sameOutcome_ok {a b : BroadcastResult} : SameOutcome (.ok a) (.ok b) ↔ a = b := Iff.rfl

theorem SameOutcome.symm {a b : Except broadcast_error BroadcastResult} (h : SameOutcome a b) : SameOutcome b a := by
  cases a <;> cases b
  · trivial
  · exact h
  · exact h
  · exact Eq.symm h

theorem SameOutcome.trans {a b c : Except broadcast_error BroadcastResult} (hab : SameOutcome a b)
    (hbc : SameOutcome b c) : SameOutcome a c := by
  rcases a with a | a
  · rcases b with b | b
    · rcases c with c | c
      · trivial
      · exact False.elim hbc
    · exact False.elim hab
  · rcases b with b | b
    · exact False.elim hab
    · obtain rfl := sameOutcome_ok.1 hab
      exact hbc

/-- What the function computes: it throws exactly when some axis has a clash,
and otherwise the shape is the fold of every axis. -/
theorem broadcast_input_shapes_spec {inputs : List (List ℤ)} (hv : ValidSizes inputs) :
    ((∃ j, Clash (lastAxis j inputs)) ∧ broadcast_input_shapes inputs = .error ⟨inputs⟩) ∨
    ((∀ j, ¬ Clash (lastAxis j inputs)) ∧ ∃ shape : List ℤ, shape.length = broadcastUndim inputs ∧
      (∀ k < broadcastUndim inputs,
        broadcastColumn (lastAxis (broadcastUndim inputs - 1 - k) inputs) = some (shape.getD k 1)) ∧
      broadcast_input_shapes inputs = .ok ⟨broadcastUndim inputs, shape, axisPerm (broadcastUndim inputs)⟩) := by
  have hloop := @loop_iff _ inputs ((undim_le_iff _ _).1 le_rfl) (List.replicate (broadcastUndim inputs) 1)
  have hone : ∀ k, (List.replicate (broadcastUndim inputs) (1 : ℤ)).getD k 1 = 1 := by
    intro k
    rw [List.getD_eq_getElem?_getD, List.getElem?_replicate]
    split_ifs <;> rfl
  have hcol : ∀ k < broadcastUndim inputs, ∀ s, (column (broadcastUndim inputs) k inputs).foldlM broadcastSize
      ((List.replicate (broadcastUndim inputs) (1 : ℤ)).getD k 1) = s ↔
        broadcastColumn (lastAxis (broadcastUndim inputs - 1 - k) inputs) = s := by
    intro k hk s
    rw [hone, column_eq_lastAxis hk, broadcastColumn]
  unfold broadcast_input_shapes
  cases hfold : inputs.foldlM (broadcastOperand (broadcastUndim inputs)) (List.replicate (broadcastUndim inputs) 1) with
  | some shape =>
    obtain ⟨hlen, hshape⟩ := (hloop (by simp)).1 hfold
    refine .inr ⟨fun j hj => ?_, shape, hlen,
      fun k hk => (hcol k hk _).1 (hshape k hk), by simp only [hfold]⟩
    rcases Nat.lt_or_ge j (broadcastUndim inputs) with hlt | hge
    · have hk : broadcastUndim inputs - 1 - j < broadcastUndim inputs := by omega
      have hs := (hcol _ hk _).1 (hshape _ hk)
      rw [show broadcastUndim inputs - 1 - (broadcastUndim inputs - 1 - j) = j by omega] at hs
      rcases broadcastColumn_spec _ (hv.lastAxis j) with ⟨hnone, -⟩ | ⟨hnc, -⟩
      · rw [hs] at hnone
        cases hnone
      · exact hnc hj
    · rw [lastAxis_eq_nil hge] at hj
      exact not_clash_nil hj
  | none =>
    refine .inl ⟨?_, by simp only [hfold]⟩
    by_contra hno
    have hsome : ∀ k, ∃ s, broadcastColumn (lastAxis (broadcastUndim inputs - 1 - k) inputs) = some s := by
      intro k
      rcases broadcastColumn_spec _ (hv.lastAxis (broadcastUndim inputs - 1 - k)) with ⟨-, hc⟩ | ⟨-, s, hs, -⟩
      · exact absurd ⟨_, hc⟩ hno
      · exact ⟨s, hs⟩
    choose m hm using hsome
    have hr := (hloop (r := (List.range (broadcastUndim inputs)).map m) (by simp)).2
      ⟨by simp, fun k hk => by rw [hcol k hk, hm k]; simp [List.getD_eq_getElem?_getD, hk]⟩
    rw [hfold] at hr
    cases hr

theorem lastAxis_perm {inputs inputs' : List (List ℤ)} (hp : inputs'.Perm inputs) (j : ℕ) :
    (lastAxis j inputs').Perm (lastAxis j inputs) := hp.filterMap _

/-- Steady columns: every order returns the same. -/
theorem same_of_steady {inputs inputs' : List (List ℤ)} (hv : ValidSizes inputs)
    (h : ∀ j, Steady (lastAxis j inputs)) (hp : inputs'.Perm inputs) :
    SameOutcome (broadcast_input_shapes inputs') (broadcast_input_shapes inputs) := by
  have hv' := hv.perm hp
  have h' : ∀ j, Steady (lastAxis j inputs') := fun j => (h j).perm (lastAxis_perm hp j)
  rcases broadcast_input_shapes_spec hv with ⟨⟨j, hj⟩, -⟩ | ⟨-, shape, hlen, hshape, hok⟩
  · exact absurd hj ((h j).not_clash (hv.lastAxis j))
  rcases broadcast_input_shapes_spec hv' with ⟨⟨j, hj⟩, -⟩ | ⟨-, shape', hlen', hshape', hok'⟩
  · exact absurd hj ((h' j).not_clash (hv'.lastAxis j))
  have hu := undim_perm hp
  have heq : shape' = shape := by
    refine ext_getD (by omega) fun k hk => ?_
    have h1 := hshape k (by omega)
    have h2 := hshape' k (by omega)
    rw [hu] at h2
    rcases broadcastColumn_spec _ (hv.lastAxis (broadcastUndim inputs - 1 - k)) with ⟨hnone, -⟩ | ⟨-, s, hs, hk⟩
    · rw [hnone] at h1
      cases h1
    rcases broadcastColumn_spec _ (hv'.lastAxis (broadcastUndim inputs - 1 - k)) with ⟨hnone, -⟩ | ⟨-, s', hs', hk'⟩
    · rw [hnone] at h2
      cases h2
    rw [hs] at h1
    rw [hs'] at h2
    rw [← Option.some.inj h1, ← Option.some.inj h2]
    exact (h _).unique (lastAxis_perm hp _) hk hk'
  rw [hok, hok', heq, hu]
  rfl

/-- Orders with the outcome of an order that returns agree with it at every axis. -/
theorem fold_of_same {inputs inputs' : List (List ℤ)} (hv : ValidSizes inputs) (hp : inputs'.Perm inputs)
    (hnc : ∀ j, ¬ Clash (lastAxis j inputs))
    (hsame : SameOutcome (broadcast_input_shapes inputs') (broadcast_input_shapes inputs)) (j : ℕ)
    (hj : j < broadcastUndim inputs) :
    ∃ s, broadcastColumn (lastAxis j inputs) = some s ∧ broadcastColumn (lastAxis j inputs') = some s := by
  rcases broadcast_input_shapes_spec hv with ⟨⟨i, hi⟩, -⟩ | ⟨-, shape, hlen, hshape, hok⟩
  · exact absurd hi (hnc i)
  rcases broadcast_input_shapes_spec (hv.perm hp) with ⟨-, he⟩ | ⟨-, shape', hlen', hshape', hok'⟩
  · rw [hok, he] at hsame
    exact hsame.elim
  rw [hok, hok'] at hsame
  obtain ⟨hu, rfl, -⟩ := BroadcastResult.mk.inj (sameOutcome_ok.1 hsame)
  have hk : broadcastUndim inputs - 1 - (broadcastUndim inputs - 1 - j) = j := by omega
  have h1 := hshape (broadcastUndim inputs - 1 - j) (by omega)
  have h2 := hshape' (broadcastUndim inputs - 1 - j) (by omega)
  rw [hu] at h2
  rw [hk] at h1 h2
  exact ⟨_, h1, h2⟩

/-- The order of the operands does not matter exactly when every axis is
steady, or when every order of the operands has a clash at some axis. -/
theorem broadcast_order_iff (inputs : List (List ℤ)) (hv : ValidSizes inputs) :
    (∀ inputs', inputs'.Perm inputs →
      SameOutcome (broadcast_input_shapes inputs') (broadcast_input_shapes inputs)) ↔
    (∀ j, Steady (lastAxis j inputs)) ∨ (∀ inputs', inputs'.Perm inputs → ∃ j, Clash (lastAxis j inputs')) := by
  constructor
  · intro hsame
    by_contra hcon
    simp only [not_or, not_forall, not_exists] at hcon
    obtain ⟨⟨j, hj⟩, inputs₀, hp₀, hnc⟩ := hcon
    have hv₀ := hv.perm hp₀
    have hju : j < broadcastUndim inputs := by
      by_contra hge
      rw [lastAxis_eq_nil (by omega)] at hj
      exact hj (.inl ⟨by simp, by simp⟩)
    -- every order has the outcome of the one that returns
    have hfold : ∀ c, c.Perm (lastAxis j inputs) →
        ∃ s, broadcastColumn (lastAxis j inputs₀) = some s ∧ broadcastColumn c = some s := by
      intro c hc
      obtain ⟨inputs', hp', rfl⟩ := exists_perm_of_perm_filterMap _ hc
      refine fold_of_same hv₀ (hp'.trans hp₀.symm) hnc ?_ j (by rwa [undim_perm hp₀])
      exact (hsame inputs' hp').trans (hsame inputs₀ hp₀).symm
    rcases not_steady (hv.lastAxis j) hj with ⟨c, hc, hnone⟩ | ⟨c₁, c₂, s₁, s₂, hc₁, hc₂, h₁, h₂, hne⟩
    · obtain ⟨s, -, hs⟩ := hfold c hc
      rw [hnone] at hs
      cases hs
    · obtain ⟨s, e₁, hs₁⟩ := hfold c₁ hc₁
      obtain ⟨s', e₂, hs₂⟩ := hfold c₂ hc₂
      rw [e₁] at e₂
      rw [h₁] at hs₁
      rw [h₂] at hs₂
      exact hne (by rw [Option.some.inj hs₁, Option.some.inj hs₂, Option.some.inj e₂])
  · rintro (h | h) inputs' hp
    · exact same_of_steady hv h hp
    · rcases broadcast_input_shapes_spec hv with ⟨-, he⟩ | ⟨hno, -⟩
      · rcases broadcast_input_shapes_spec (hv.perm hp) with ⟨-, he'⟩ | ⟨hno', -⟩
        · rw [he, he']
          trivial
        · obtain ⟨j, hj⟩ := h inputs' hp
          exact absurd hj (hno' j)
      · obtain ⟨j, hj⟩ := h inputs (.refl _)
        exact absurd hj (hno j)

/-- Three operands of one axis each: a size, and two variable ones. -/
theorem broadcast_order_size_var_var :
    (∀ inputs', inputs'.Perm [[5], [-1], [-1]] →
      SameOutcome (broadcast_input_shapes inputs') (broadcast_input_shapes [[5], [-1], [-1]])) ↔
    (∀ j, Steady (lastAxis j [[5], [-1], [-1]])) ∨
      (∀ inputs', inputs'.Perm [[5], [-1], [-1]] → ∃ j, Clash (lastAxis j inputs')) :=
  broadcast_order_iff _ (by unfold ValidSizes; decide)

/-- A second variable size makes the fold forget the size before it: `5, var, var`
gives `-1` and `var, var, 5` gives `-5`. -/
theorem order_matters : ¬ ∀ inputs inputs' : List (List ℤ), ValidSizes inputs → inputs'.Perm inputs →
    SameOutcome (broadcast_input_shapes inputs') (broadcast_input_shapes inputs) := by
  intro h
  have h1 := h [[5], [-1], [-1]] [[-1], [-1], [5]] (by unfold ValidSizes; decide) (by decide)
  have e1 : broadcast_input_shapes [[5], [-1], [-1]] = .ok ⟨1, [-1], [0]⟩ := by decide
  have e2 : broadcast_input_shapes [[-1], [-1], [5]] = .ok ⟨1, [-5], [0]⟩ := by decide
  rw [e1, e2] at h1
  exact absurd (sameOutcome_ok.1 h1) (by decide)

end Dynd.Broadcast
