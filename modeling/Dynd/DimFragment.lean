import Dynd.Lib.Except
import Mathlib.Tactic
/-!
# Broadcasting dimension fragments

`dim_fragment_type::broadcast_with_type` (`dim_fragment_type.cpp`) and
`incremental_broadcast` (`shape_tools.cpp`) both fold operands into one shape.
The first leaves entries of its result unset when an operand has more
dimensions than the fragment, and treats `1`, `var` and `Fixed` differently:
`broadcast_fold_iff` says at which operands the two agree.

A type is its leading dimensions, outermost first, and what stands under them.
-/
namespace Dynd.DimFragment

open Lib

inductive Dim where
  | fixed_dim (dim_size : ℕ)
  | fixed_dim_kind
  | var_dim
deriving DecidableEq

/-- A type object counts its dimensions in an `int8_t`. -/
structure ArrayType where
  dims : List Dim
  dtype : String
  counted : dims.length < 128

def Dim.print : Dim → String
  | .fixed_dim dim_size => toString dim_size ++ " * "
  | .fixed_dim_kind => "Fixed * "
  | .var_dim => "var * "

def print_type (dims : List Dim) (dtype : String) : String := String.join (dims.map Dim.print) ++ dtype

/-! ## The fragment -/

def dim_fragment_var : ℤ := -1

def dim_fragment_fixed_sym : ℤ := -2

def Dim.tag : Dim → ℤ
  | .fixed_dim dim_size => dim_size
  | .fixed_dim_kind => dim_fragment_fixed_sym
  | .var_dim => dim_fragment_var

/-- `null_type` is a returned null, `undefined` the use of an entry never
set. -/
inductive Failure where
  | type_error (what : String)
  | null_type
  | undefined
deriving DecidableEq

def shape_error (tp : String) : Failure := .type_error ("dim_fragment_type failed to get shape from type " ++ tp)

def get_tagged_dims_from_type (tp : String) : ℕ → List Dim → Except Failure (List ℤ × List Dim)
  | 0, dtp => .ok ([], dtp)
  | _ + 1, [] => .error (shape_error tp)
  | ndim + 1, d :: dtp => do
    let (out_tagged_dims, dtp) ← get_tagged_dims_from_type tp ndim dtp
    return (d.tag :: out_tagged_dims, dtp)

/-- One round of the loop: the entry of `out_tagged_dims` after it. -/
def broadcast_tagged_dim (tagged_dim : ℤ) (d : Dim) (out : Option ℤ) : Except Failure (Option ℤ) :=
  match d with
  | .fixed_dim_kind => .ok (if tagged_dim < 0 then some dim_fragment_fixed_sym else out)
  | .fixed_dim dim_size =>
    if tagged_dim < 0 ∨ tagged_dim = 1 then .ok (some dim_size)
    else if tagged_dim ≠ dim_size ∧ dim_size ≠ 1 then .error .null_type
    else .ok out
  -- All broadcasting is done dynamically for var
  | .var_dim => .ok out

/-- An entry `none` was never set. -/
def broadcast_tagged_dims_from_type (dtype : String) :
    List (Option ℤ) → List Dim → List (Option ℤ) → Except Failure (List (Option ℤ))
  | [], _, out_tagged_dims => .ok out_tagged_dims
  | none :: _, _, _ => .error .undefined
  | some _ :: _, [], _ => .error (shape_error dtype)
  | some tagged_dim :: tagged_dims, d :: tp, out_tagged_dims => do
    let out ← broadcast_tagged_dim tagged_dim d (out_tagged_dims.headD none)
    let outs ← broadcast_tagged_dims_from_type dtype tagged_dims tp out_tagged_dims.tail
    return out :: outs

def make_dim_fragment (ndim : ℕ) (tp : ArrayType) : Except Failure (List (Option ℤ)) :=
  if tp.dims.length < ndim then
    .error (.type_error ("Tried to make a dimension fragment from type " ++ print_type tp.dims tp.dtype ++ " with " ++
      toString ndim ++ " dimensions, but the type only has " ++ toString tp.dims.length ++ " dimensions"))
  else do
    let (tagged_dims, _) ← get_tagged_dims_from_type (print_type tp.dims tp.dtype) ndim tp.dims
    return tagged_dims.map some

def broadcast_with_type (tagged_dims : List (Option ℤ)) (ndim : ℕ) (tp : ArrayType) : Except Failure (List (Option ℤ)) :=
  if ndim = 0 then .ok tagged_dims
  else
    let this_ndim := tagged_dims.length
    -- In each case, we fill in the leading dimensions from the
    -- higher-dimension input, then broadcast the rest together
    if this_ndim < ndim then do
      let (shape, dtp) ← get_tagged_dims_from_type (print_type tp.dims tp.dtype) (ndim - this_ndim) tp.dims
      let rest ← broadcast_tagged_dims_from_type tp.dtype tagged_dims dtp (List.replicate this_ndim none)
      return shape.map some ++ rest
    else do
      let trailing := tagged_dims.drop (this_ndim - ndim)
      let rest ← broadcast_tagged_dims_from_type tp.dtype trailing tp.dims trailing
      return tagged_dims.take (this_ndim - ndim) ++ rest

/-- The fragment of the first type, with the others broadcast into it. -/
def broadcast_fold (first : ArrayType) (rest : List ArrayType) : Except Failure (List (Option ℤ)) := do
  let tagged_dims ← make_dim_fragment first.dims.length first
  rest.foldlM (fun tagged_dims tp => broadcast_with_type tagged_dims tp.dims.length tp) tagged_dims

/-! ## The shape -/

/-- `cannot broadcast shape … to shape …`. -/
structure broadcast_error where
  dst_shape : List ℤ
  src_shape : List ℤ

def incremental_dim (out_shape_i shape_i : ℤ) : Option ℤ :=
  if shape_i ≠ 1 then
    if shape_i = -1 then
      if out_shape_i = 1 then some (-1) else some out_shape_i
    else if out_shape_i = 1 ∨ out_shape_i = -1 then some shape_i
    else if shape_i ≠ out_shape_i then none
    else some out_shape_i
  else some out_shape_i

/-- A failing loop leaves the sizes it has come past changed. -/
def incremental_loop : List ℤ → List ℤ → Except (List ℤ) (List ℤ)
  | out_shape_i :: out_shape, shape_i :: shape =>
    match incremental_dim out_shape_i shape_i with
    | none => .error (out_shape_i :: out_shape)
    | some out =>
      match incremental_loop out_shape shape with
      | .ok outs => .ok (out :: outs)
      | .error outs => .error (out :: outs)
  | out_shape, _ => .ok out_shape

def incremental_broadcast (out_shape shape : List ℤ) : Except broadcast_error (List ℤ) :=
  if out_shape.length < shape.length then .error ⟨out_shape, shape⟩
  else
    let delta := out_shape.length - shape.length
    match incremental_loop (out_shape.drop delta) shape with
    | .ok outs => .ok (out_shape.take delta ++ outs)
    | .error outs => .error ⟨out_shape.take delta ++ outs, shape⟩

/-- The shapes folded into one of all ones, as `get_shape` does. -/
def incremental_fold (shapes : List (List ℤ)) : Except broadcast_error (List ℤ) :=
  shapes.foldlM incremental_broadcast (List.replicate ((shapes.map List.length).foldl max 0) 1)

/-- `var` as -1, `Fixed` as its tag. -/
def ArrayType.shape (tp : ArrayType) : List ℤ := tp.dims.map Dim.tag

/-! ## Where they agree -/

/-- The fragment is the shape, all of it set; or both fail. -/
def Same (fragment : Except Failure (List (Option ℤ))) (shape : Except broadcast_error (List ℤ)) : Prop :=
  match shape with
  | .ok shape => fragment = .ok (shape.map some)
  | .error _ => fragment = .error .null_type

def Agrees (first : ArrayType) (rest : List ArrayType) : Prop :=
  Same (broadcast_fold first rest) (incremental_fold ((first :: rest).map ArrayType.shape))

/-- Two different sizes, neither of them 1. -/
def Conflict (size : ℤ) (d : Dim) : Prop := ∃ n : ℕ, d = .fixed_dim n ∧ n ≠ 1 ∧ 0 ≤ size ∧ size ≠ 1 ∧ size ≠ n

/-- A dimension the fragment takes in as the shape does, when the sizes so far
give `size`; `grows` when the type has more dimensions than the fragment. -/
def Takes (grows : Bool) (size : ℤ) : Dim → Prop
  | .fixed_dim n => if n = 1 then 0 ≤ size ∧ (grows → size = 1) else size = 1 ∨ size = -1 ∨ (size = n ∧ ¬ grows)
  | .fixed_dim_kind => size < 0
  | .var_dim => size ≠ 1 ∧ ¬ grows

/-- The sizes so far and the dimensions of a type, aligned at the right. -/
def aligned (sizes : List ℤ) (dims : List Dim) : List (ℤ × Dim) :=
  (sizes.drop (sizes.length - dims.length)).zip (dims.drop (dims.length - sizes.length))

/-- A type in conflict with the sizes so far, or each of whose dimensions the
fragment takes in as the shape does. -/
def Meets (sizes : List ℤ) (tp : ArrayType) : Prop :=
  (∃ p ∈ aligned sizes tp.dims, Conflict p.1 p.2) ∨
    ∀ p ∈ aligned sizes tp.dims, Takes (decide (sizes.length < tp.dims.length)) p.1 p.2

/-! ## One dimension -/

variable {size : ℤ} {sizes : List ℤ} {d : Dim} {dims : List Dim} {tp : ArrayType}

theorem conflict_fails (h : Conflict size d) (out : Option ℤ) :
    broadcast_tagged_dim size d out = .error .null_type ∧ incremental_dim size d.tag = none := by
  obtain ⟨n, rfl, hn, h0, h1, hne⟩ := h
  unfold broadcast_tagged_dim incremental_dim Dim.tag
  dsimp only
  constructor
  · rw [if_neg (by omega), if_pos ⟨hne, hn⟩]
  · rw [if_pos (by omega), if_neg (by omega), if_neg (by omega), if_pos (by omega)]

/-- The entry the loop starts from. -/
def start_entry (grows : Bool) (size : ℤ) : Option ℤ := if grows then none else some size

theorem takes_dim_iff (h : ¬ Conflict size d) (hs : -2 ≤ size) (grows : Bool) :
    ∃ out, broadcast_tagged_dim size d (start_entry grows size) = .ok out ∧
      (Takes grows size d ↔ ∃ v, incremental_dim size d.tag = some v ∧ out = some v) := by
  cases d with
  | fixed_dim n =>
    have hn : ¬ (n ≠ 1 ∧ 0 ≤ size ∧ size ≠ 1 ∧ size ≠ n) := fun hc => h ⟨n, rfl, hc⟩
    unfold broadcast_tagged_dim incremental_dim Dim.tag Takes start_entry
    dsimp only
    by_cases hlt : size < 0 ∨ size = 1
    · refine ⟨some n, if_pos hlt, ?_⟩
      by_cases hn1 : n = 1
      · subst hn1
        simp only [Nat.cast_one, ne_eq, not_true_eq_false, ↓reduceIte, Option.some.injEq, exists_eq_left']
        omega
      · rw [if_neg hn1, if_pos (by omega), if_neg (by omega)]
        by_cases h1 : size = 1 ∨ size = -1
        · rw [if_pos h1]
          simp only [Option.some.injEq, exists_eq_left', iff_true]
          omega
        · rw [if_neg h1, if_pos (by omega)]
          simp only [reduceCtorEq, false_and, exists_false, iff_false]
          omega
    · refine ⟨if grows then none else some size, ?_, ?_⟩
      · rw [if_neg hlt, if_neg (by omega)]
      · by_cases hn1 : n = 1
        · subst hn1
          simp only [Nat.cast_one, ne_eq, not_true_eq_false, ↓reduceIte, Option.some.injEq, exists_eq_left']
          cases grows <;> simp <;> omega
        · rw [if_neg hn1, if_pos (by omega), if_neg (by omega), if_neg (by omega), if_neg (by omega)]
          simp only [Option.some.injEq, exists_eq_left']
          cases grows <;> simp <;> omega
  | fixed_dim_kind =>
    unfold broadcast_tagged_dim incremental_dim Dim.tag Takes start_entry dim_fragment_fixed_sym
    dsimp only
    refine ⟨_, rfl, ?_⟩
    by_cases hlt : size < 0
    · rw [if_pos hlt, if_pos (by decide), if_neg (by decide)]
      by_cases h1 : size = 1 ∨ size = -1
      · rw [if_pos h1]
        simp [hlt]
      · rw [if_neg h1, if_neg (by omega)]
        simp only [hlt, Option.some.injEq, exists_eq_left', true_iff]
        omega
    · rw [if_neg hlt, if_pos (by decide), if_neg (by decide)]
      simp only [hlt, false_iff]
      rintro ⟨v, hv, ho⟩
      split_ifs at hv with h1
      · cases hv
        split_ifs at ho
        cases ho
        omega
      · omega
  | var_dim =>
    unfold broadcast_tagged_dim incremental_dim Dim.tag Takes start_entry dim_fragment_var
    dsimp only
    refine ⟨_, rfl, ?_⟩
    rw [if_pos (by decide), if_pos rfl]
    by_cases h1 : size = 1
    · subst h1
      cases grows <;> simp
    · rw [if_neg h1]
      cases grows <;> simp [h1]

/-! ## The loops -/

/-- The entries the loop starts from. -/
def start_entries (grows : Bool) (sizes : List ℤ) : List (Option ℤ) := sizes.map (start_entry grows)

theorem start_entries_true (sizes : List ℤ) : start_entries true sizes = List.replicate sizes.length none :=
  List.map_const' ..

theorem start_entries_false (sizes : List ℤ) : start_entries false sizes = sizes.map some := rfl

theorem incremental_loop_eq_ok {shape_i : ℤ} {shape vs : List ℤ} :
    incremental_loop (size :: sizes) (shape_i :: shape) = .ok vs ↔
      ∃ w ws, incremental_dim size shape_i = some w ∧ incremental_loop sizes shape = .ok ws ∧ vs = w :: ws := by
  rw [incremental_loop]
  cases incremental_dim size shape_i with
  | none => simp
  | some w =>
    cases incremental_loop sizes shape with
    | error e => simp
    | ok ws => simp [eq_comm]

theorem loop_conflict (dtype : String) (grows : Bool) :
    ∀ {sizes : List ℤ} {dims : List Dim}, (∀ size ∈ sizes, -2 ≤ size) → sizes.length = dims.length →
      (∃ p ∈ sizes.zip dims, Conflict p.1 p.2) →
      broadcast_tagged_dims_from_type dtype (sizes.map some) dims (start_entries grows sizes) = .error .null_type ∧
        ∃ e, incremental_loop sizes (dims.map Dim.tag) = .error e
  | [], _, _, _, ⟨p, hp, _⟩ => absurd hp (by simp)
  | _ :: _, [], _, hl, _ => absurd hl (by simp)
  | size :: sizes, d :: dims, hs, hl, ⟨p, hp, hc⟩ => by
    unfold broadcast_tagged_dims_from_type start_entries incremental_loop
    simp only [List.map_cons, List.headD_cons, List.tail_cons]
    by_cases hd : Conflict size d
    · obtain ⟨h1, h2⟩ := conflict_fails hd (start_entry grows size)
      rw [h1, h2]
      exact ⟨rfl, _, rfl⟩
    · -- the conflict is further on
      have hp' : p ∈ sizes.zip dims := by
        obtain rfl | hp' := List.mem_cons.mp hp
        · exact absurd hc hd
        · exact hp'
      obtain ⟨ih₁, e, ih₂⟩ := loop_conflict dtype grows (fun x hx => hs x (List.mem_cons_of_mem _ hx))
        (by simpa using hl) ⟨p, hp', hc⟩
      obtain ⟨out, ho, _⟩ := takes_dim_iff hd (hs size List.mem_cons_self) grows
      unfold start_entries at ih₁
      rw [ho, ih₁, ih₂]
      refine ⟨rfl, ?_⟩
      cases incremental_dim size d.tag with
      | none => exact ⟨_, rfl⟩
      | some v => exact ⟨_, rfl⟩

theorem loop_takes (dtype : String) (grows : Bool) :
    ∀ {sizes : List ℤ} {dims : List Dim}, (∀ size ∈ sizes, -2 ≤ size) → sizes.length = dims.length →
      (∀ p ∈ sizes.zip dims, ¬ Conflict p.1 p.2) →
      ∃ outs, broadcast_tagged_dims_from_type dtype (sizes.map some) dims (start_entries grows sizes) = .ok outs ∧
        ((∀ p ∈ sizes.zip dims, Takes grows p.1 p.2) ↔
          ∃ vs, incremental_loop sizes (dims.map Dim.tag) = .ok vs ∧ outs = vs.map some)
  | [], [], _, _, _ => ⟨[], rfl, fun _ => ⟨[], rfl, rfl⟩, fun _ p hp => absurd hp List.not_mem_nil⟩
  | [], _ :: _, _, hl, _ => absurd hl (by simp)
  | _ :: _, [], _, hl, _ => absurd hl (by simp)
  | size :: sizes, d :: dims, hs, hl, hc => by
    obtain ⟨out, ho, hiff⟩ := takes_dim_iff (hc (size, d) List.mem_cons_self) (hs size List.mem_cons_self) grows
    obtain ⟨outs, hos, hiffs⟩ := loop_takes dtype grows (fun x hx => hs x (List.mem_cons_of_mem _ hx))
      (by simpa using hl) fun p hp => hc p (List.mem_cons_of_mem _ hp)
    refine ⟨out :: outs, ?_, ?_⟩
    · unfold start_entries at hos
      unfold broadcast_tagged_dims_from_type start_entries
      simp only [List.map_cons, List.headD_cons, List.tail_cons]
      rw [ho, hos]
      rfl
    · rw [List.zip_cons_cons, List.forall_mem_cons, hiff, hiffs, List.map_cons]
      simp only [incremental_loop_eq_ok]
      constructor
      · rintro ⟨⟨w, hw, rfl⟩, ws, hws, rfl⟩
        exact ⟨_, ⟨w, ws, hw, hws, rfl⟩, rfl⟩
      · rintro ⟨_, ⟨w, ws, hw, hws, rfl⟩, hmap⟩
        rw [List.map_cons] at hmap
        obtain ⟨h1, h2⟩ := List.cons.inj hmap
        exact ⟨⟨w, hw, h1⟩, ws, hws, h2⟩

/-! ## One operand -/

/-- The loops behind the leading entries. -/
theorem loop_same_iff (dtype : String) (grows : Bool) (leading shape : List ℤ) (hs : ∀ size ∈ sizes, -2 ≤ size)
    (hl : sizes.length = dims.length) :
    Same
      (do
        let rest ← broadcast_tagged_dims_from_type dtype (sizes.map some) dims (start_entries grows sizes)
        return leading.map some ++ rest)
      (match incremental_loop sizes (dims.map Dim.tag) with
        | .ok outs => .ok (leading ++ outs)
        | .error outs => .error ⟨leading ++ outs, shape⟩) ↔
      (∃ p ∈ sizes.zip dims, Conflict p.1 p.2) ∨ ∀ p ∈ sizes.zip dims, Takes grows p.1 p.2 := by
  by_cases hc : ∃ p ∈ sizes.zip dims, Conflict p.1 p.2
  · obtain ⟨h1, e, h2⟩ := loop_conflict dtype grows hs hl hc
    rw [h1, h2]
    exact iff_of_true rfl (.inl hc)
  · obtain ⟨outs, ho, hiff⟩ := loop_takes dtype grows hs hl fun p hp h => hc ⟨p, hp, h⟩
    rw [ho, or_iff_right hc, hiff]
    cases incremental_loop sizes (dims.map Dim.tag) with
    | error e =>
      refine iff_of_false ?_ ?_
      · intro h
        cases h
      · rintro ⟨vs, hvs, _⟩
        cases hvs
    | ok vs =>
      simp only [Same, ok_bind, pure_eq_ok, Except.ok.injEq, exists_eq_left', List.map_append]
      exact List.append_right_inj _

theorem get_tagged_dims_eq (text : String) :
    ∀ {k : ℕ} {dims : List Dim}, k ≤ dims.length →
      get_tagged_dims_from_type text k dims = .ok ((dims.take k).map Dim.tag, dims.drop k)
  | 0, _, _ => rfl
  | _ + 1, [], h => absurd h (Nat.not_succ_le_zero _)
  | k + 1, d :: dims, h => by
    rw [get_tagged_dims_from_type, get_tagged_dims_eq text (Nat.le_of_succ_le_succ h)]
    rfl

/-- Ones take any sizes in. -/
theorem incremental_loop_ones (shape : List ℤ) :
    ∀ leading : List ℤ, incremental_loop (List.replicate leading.length 1 ++ sizes) (leading ++ shape) =
      match incremental_loop sizes shape with
      | .ok outs => .ok (leading ++ outs)
      | .error outs => .error (leading ++ outs)
  | [] => by
    rw [List.length_nil, List.replicate_zero, List.nil_append, List.nil_append]
    cases incremental_loop sizes shape <;> rfl
  | s :: leading => by
    have h1 : incremental_dim 1 s = some s := by
      unfold incremental_dim
      split_ifs <;> grind
    rw [List.length_cons, List.replicate_succ, List.cons_append, List.cons_append, incremental_loop, h1,
      incremental_loop_ones shape leading]
    cases incremental_loop sizes shape <;> rfl

/-- The shape so far with as many dimensions as the type has, if those are
more. -/
def padded (sizes : List ℤ) (tp : ArrayType) : List ℤ := List.replicate (tp.dims.length - sizes.length) 1 ++ sizes

theorem broadcast_with_type_grows (hlt : sizes.length < tp.dims.length) :
    broadcast_with_type (sizes.map some) tp.dims.length tp = (do
      let rest ← broadcast_tagged_dims_from_type tp.dtype (sizes.map some) (tp.dims.drop (tp.dims.length - sizes.length))
        (start_entries true sizes)
      return ((tp.dims.take (tp.dims.length - sizes.length)).map Dim.tag).map some ++ rest) := by
  unfold broadcast_with_type
  rw [if_neg (by omega)]
  dsimp only
  rw [List.length_map, if_pos hlt, get_tagged_dims_eq _ (Nat.sub_le _ _), start_entries_true]
  rfl

theorem broadcast_with_type_fits (hlt : ¬ sizes.length < tp.dims.length) :
    broadcast_with_type (sizes.map some) tp.dims.length tp = (do
      let rest ← broadcast_tagged_dims_from_type tp.dtype ((sizes.drop (sizes.length - tp.dims.length)).map some) tp.dims
        (start_entries false (sizes.drop (sizes.length - tp.dims.length)))
      return (sizes.take (sizes.length - tp.dims.length)).map some ++ rest) := by
  unfold broadcast_with_type
  rw [start_entries_false]
  by_cases h0 : tp.dims.length = 0
  · rw [if_pos h0, h0, Nat.sub_zero, List.drop_length, List.take_length, List.map_nil]
    show _ = Except.ok (sizes.map some ++ [])
    rw [List.append_nil]
  · rw [if_neg h0]
    dsimp only
    rw [List.length_map, if_neg hlt, List.map_drop, List.map_take]

theorem incremental_broadcast_grows (hlt : sizes.length < tp.dims.length) :
    incremental_broadcast (padded sizes tp) tp.shape =
      match incremental_loop sizes ((tp.dims.drop (tp.dims.length - sizes.length)).map Dim.tag) with
      | .ok outs => .ok ((tp.dims.take (tp.dims.length - sizes.length)).map Dim.tag ++ outs)
      | .error outs => .error ⟨(tp.dims.take (tp.dims.length - sizes.length)).map Dim.tag ++ outs, tp.shape⟩ := by
  have hsplit : tp.shape = (tp.dims.take (tp.dims.length - sizes.length)).map Dim.tag ++
      (tp.dims.drop (tp.dims.length - sizes.length)).map Dim.tag := by
    unfold ArrayType.shape
    rw [← List.map_append, List.take_append_drop]
  have hlead : ((tp.dims.take (tp.dims.length - sizes.length)).map Dim.tag).length = tp.dims.length - sizes.length := by
    rw [List.length_map, List.length_take]
    omega
  have hlen : (padded sizes tp).length = tp.shape.length := by
    unfold padded ArrayType.shape
    rw [List.length_append, List.length_replicate, List.length_map]
    omega
  have hloop := @incremental_loop_ones sizes ((tp.dims.drop (tp.dims.length - sizes.length)).map Dim.tag)
    ((tp.dims.take (tp.dims.length - sizes.length)).map Dim.tag)
  rw [hlead, ← hsplit] at hloop
  unfold incremental_broadcast
  rw [hlen, if_neg (lt_irrefl _), Nat.sub_self]
  dsimp only
  rw [List.drop_zero, List.take_zero]
  unfold padded
  rw [hloop]
  cases incremental_loop sizes ((tp.dims.drop (tp.dims.length - sizes.length)).map Dim.tag) <;> rfl

theorem incremental_broadcast_fits (hlt : ¬ sizes.length < tp.dims.length) :
    incremental_broadcast (padded sizes tp) tp.shape =
      match incremental_loop (sizes.drop (sizes.length - tp.dims.length)) (tp.dims.map Dim.tag) with
      | .ok outs => .ok (sizes.take (sizes.length - tp.dims.length) ++ outs)
      | .error outs => .error ⟨sizes.take (sizes.length - tp.dims.length) ++ outs, tp.shape⟩ := by
  have hlen : tp.shape.length = tp.dims.length := List.length_map _
  unfold padded incremental_broadcast
  rw [show tp.dims.length - sizes.length = 0 by omega, List.replicate_zero, List.nil_append, hlen, if_neg hlt]
  rfl

/-- Taking a type in gives the same on both sides when it meets the
condition, and only then. -/
theorem step_iff (hs : ∀ size ∈ sizes, -2 ≤ size) (tp : ArrayType) :
    Same (broadcast_with_type (sizes.map some) tp.dims.length tp) (incremental_broadcast (padded sizes tp) tp.shape) ↔
      Meets sizes tp := by
  unfold Meets aligned
  by_cases hlt : sizes.length < tp.dims.length
  · rw [broadcast_with_type_grows hlt, incremental_broadcast_grows hlt, show sizes.length - tp.dims.length = 0 by omega,
      List.drop_zero, decide_eq_true hlt]
    refine loop_same_iff tp.dtype true _ _ hs ?_
    rw [List.length_drop]
    omega
  · rw [broadcast_with_type_fits hlt, incremental_broadcast_fits hlt, show tp.dims.length - sizes.length = 0 by omega,
      List.drop_zero, decide_eq_false hlt]
    refine loop_same_iff tp.dtype false _ _ (fun size hm => hs size (List.mem_of_mem_drop hm)) ?_
    rw [List.length_drop]
    omega

/-! ## Whole folds -/

theorem Same.congr {fragment : Except Failure (List (Option ℤ))} {shape shape' : Except broadcast_error (List ℤ)}
    (h : shape.toOption = shape'.toOption) : Same fragment shape ↔ Same fragment shape' := by
  cases shape <;> cases shape' <;> cases h <;> rfl

theorem incremental_loop_length : ∀ {sizes shape vs : List ℤ}, incremental_loop sizes shape = .ok vs → vs.length = sizes.length
  | [], _, vs, h => by
    cases h
    rfl
  | _ :: _, [], vs, h => by
    cases h
    rfl
  | _ :: _, _ :: _, vs, h => by
    obtain ⟨w, ws, _, hws, rfl⟩ := incremental_loop_eq_ok.mp h
    rw [List.length_cons, incremental_loop_length hws, List.length_cons]

theorem incremental_broadcast_length {out shape vs : List ℤ} (h : incremental_broadcast out shape = .ok vs) :
    vs.length = out.length := by
  unfold incremental_broadcast at h
  split_ifs at h with hlt
  dsimp only at h
  cases hl : incremental_loop (out.drop (out.length - shape.length)) shape with
  | error e =>
    rw [hl] at h
    cases h
  | ok ws =>
    rw [hl] at h
    cases h
    rw [List.length_append, incremental_loop_length hl, ← List.length_append, List.take_append_drop]

/-- More leading ones make no difference to a shape that fits. -/
theorem incremental_broadcast_ones (k : ℕ) {out shape : List ℤ} (hle : shape.length ≤ out.length) :
    (incremental_broadcast (List.replicate k 1 ++ out) shape).toOption =
      (incremental_broadcast out shape).toOption.map (List.replicate k 1 ++ ·) := by
  have hlen : (List.replicate k (1 : ℤ) ++ out).length - shape.length =
      (List.replicate k (1 : ℤ)).length + (out.length - shape.length) := by
    rw [List.length_append]
    omega
  unfold incremental_broadcast
  rw [if_neg (by rw [List.length_append]; omega), if_neg (by omega), hlen]
  dsimp only
  rw [List.drop_length_add_append, List.take_length_add_append]
  cases incremental_loop (out.drop (out.length - shape.length)) shape with
  | error e => rfl
  | ok vs =>
    show some _ = some _
    rw [List.append_assoc]

theorem incremental_fold_ones (k : ℕ) :
    ∀ {shapes : List (List ℤ)} {out : List ℤ}, (∀ shape ∈ shapes, shape.length ≤ out.length) →
      (shapes.foldlM incremental_broadcast (List.replicate k 1 ++ out)).toOption =
        (shapes.foldlM incremental_broadcast out).toOption.map (List.replicate k 1 ++ ·)
  | [], _, _ => rfl
  | shape :: shapes, out, hle => by
    have hones := incremental_broadcast_ones k (hle shape List.mem_cons_self)
    rw [List.foldlM_cons, List.foldlM_cons, toOption_bind, toOption_bind, hones]
    cases h : incremental_broadcast out shape with
    | error e => rfl
    | ok vs =>
      refine incremental_fold_ones k fun shape' hm => ?_
      rw [incremental_broadcast_length h]
      exact hle shape' (List.mem_cons_of_mem _ hm)

theorem length_le_foldl_max {ns : List ℕ} : ∀ {m : ℕ}, m ≤ ns.foldl max m ∧ ∀ n ∈ ns, n ≤ ns.foldl max m := by
  induction ns with
  | nil => exact fun {m} => ⟨le_rfl, fun n hn => absurd hn List.not_mem_nil⟩
  | cons a ns ih =>
    intro m
    rw [List.foldl_cons]
    obtain ⟨h1, h2⟩ := @ih (max m a)
    refine ⟨(le_max_left m a).trans h1, fun n hn => ?_⟩
    obtain rfl | hn := List.mem_cons.mp hn
    · exact (le_max_right m n).trans h1
    · exact h2 n hn

theorem incremental_foldlM_length :
    ∀ {shapes : List (List ℤ)} {out vs : List ℤ}, shapes.foldlM incremental_broadcast out = .ok vs → vs.length = out.length
  | [], _, _, h => by
    cases h
    rfl
  | shape :: shapes, out, vs, h => by
    rw [List.foldlM_cons] at h
    obtain ⟨out', h1, h2⟩ := bind_eq_ok.mp h
    rw [incremental_foldlM_length h2, incremental_broadcast_length h1]

/-- One more shape: the result so far, padded to its length, with it broadcast
in. -/
theorem incremental_fold_concat (shapes : List (List ℤ)) (shape : List ℤ) :
    (incremental_fold (shapes ++ [shape])).toOption = (incremental_fold shapes).toOption.bind fun sizes =>
      (incremental_broadcast (List.replicate (shape.length - sizes.length) 1 ++ sizes) shape).toOption := by
  unfold incremental_fold
  rw [List.map_append, List.foldl_append, List.foldlM_append, toOption_bind]
  show Option.bind (shapes.foldlM incremental_broadcast (List.replicate (max _ shape.length) 1)).toOption _ = _
  have hle : ∀ s ∈ shapes, s.length ≤ (List.replicate ((shapes.map List.length).foldl max 0) (1 : ℤ)).length := by
    intro s hs
    rw [List.length_replicate]
    exact length_le_foldl_max.2 _ (List.mem_map_of_mem hs)
  have hrep : max ((shapes.map List.length).foldl max 0) shape.length =
      (shape.length - (shapes.map List.length).foldl max 0) + (shapes.map List.length).foldl max 0 := by
    omega
  rw [hrep, List.replicate_add, incremental_fold_ones _ hle, Option.bind_map]
  cases h : shapes.foldlM incremental_broadcast (List.replicate ((shapes.map List.length).foldl max 0) 1) with
  | error e => rfl
  | ok sizes =>
    have hlen : sizes.length = (shapes.map List.length).foldl max 0 := by
      rw [incremental_foldlM_length h, List.length_replicate]
    show (incremental_broadcast _ shape >>= pure).toOption = _
    rw [← hlen, bind_pure]
    rfl

theorem incremental_dim_ge {shape_i v : ℤ} (h1 : -2 ≤ size) (h2 : -2 ≤ shape_i) (h : incremental_dim size shape_i = some v) :
    -2 ≤ v := by
  unfold incremental_dim at h
  split_ifs at h <;> cases h <;> omega

theorem incremental_loop_ge : ∀ {sizes shape vs : List ℤ}, (∀ s ∈ sizes, -2 ≤ s) → (∀ s ∈ shape, -2 ≤ s) →
    incremental_loop sizes shape = .ok vs → ∀ v ∈ vs, -2 ≤ v
  | [], _, _, h1, _, h => by
    cases h
    exact h1
  | _ :: _, [], _, h1, _, h => by
    cases h
    exact h1
  | _ :: _, _ :: _, _, h1, h2, h => by
    obtain ⟨w, ws, hw, hws, rfl⟩ := incremental_loop_eq_ok.mp h
    refine List.forall_mem_cons.mpr ⟨?_, ?_⟩
    · exact incremental_dim_ge (h1 _ List.mem_cons_self) (h2 _ List.mem_cons_self) hw
    · exact incremental_loop_ge (fun s hs => h1 s (List.mem_cons_of_mem _ hs)) (fun s hs => h2 s (List.mem_cons_of_mem _ hs)) hws

theorem incremental_foldlM_ge : ∀ {shapes : List (List ℤ)} {out vs : List ℤ}, (∀ s ∈ out, -2 ≤ s) →
    (∀ shape ∈ shapes, ∀ s ∈ shape, -2 ≤ s) → shapes.foldlM incremental_broadcast out = .ok vs → ∀ v ∈ vs, -2 ≤ v
  | [], _, _, h1, _, h => by
    cases h
    exact h1
  | shape :: shapes, out, vs, h1, h2, h => by
    rw [List.foldlM_cons] at h
    obtain ⟨out', ho, h⟩ := bind_eq_ok.mp h
    refine incremental_foldlM_ge ?_ (fun shape' hm => h2 shape' (List.mem_cons_of_mem _ hm)) h
    unfold incremental_broadcast at ho
    split_ifs at ho with hlt
    dsimp only at ho
    cases hl : incremental_loop (out.drop (out.length - shape.length)) shape with
    | error e =>
      rw [hl] at ho
      cases ho
    | ok ws =>
      rw [hl] at ho
      cases ho
      refine List.forall_mem_append.mpr ⟨fun s hs => h1 s (List.mem_of_mem_take hs), ?_⟩
      exact incremental_loop_ge (fun s hs => h1 s (List.mem_of_mem_drop hs)) (h2 shape List.mem_cons_self) hl

theorem Dim.tag_ge (d : Dim) : -2 ≤ d.tag := by
  cases d with
  | fixed_dim n =>
    show -2 ≤ (n : ℤ)
    omega
  | fixed_dim_kind => exact le_rfl
  | var_dim => show -2 ≤ (-1 : ℤ); omega

theorem incremental_fold_ge {tps : List ArrayType} (h : incremental_fold (tps.map ArrayType.shape) = .ok sizes) :
    ∀ s ∈ sizes, -2 ≤ s := by
  refine incremental_foldlM_ge (fun s hs => ?_) (fun shape hm s hs => ?_) h
  · rw [List.eq_of_mem_replicate hs]
    decide
  · obtain ⟨tp, _, rfl⟩ := List.mem_map.mp hm
    obtain ⟨d, _, rfl⟩ := List.mem_map.mp hs
    exact d.tag_ge

/-- The first type's fragment is its shape. -/
theorem agrees_first (first : ArrayType) : Agrees first [] := by
  have hshape : incremental_fold [first.shape] = .ok first.shape := by
    have hlen : first.shape.length = first.dims.length := List.length_map _
    have h := @incremental_broadcast_grows [] first
    unfold incremental_fold
    show List.foldlM incremental_broadcast (List.replicate (max 0 first.shape.length) 1) [first.shape] = _
    rw [List.foldlM_cons, Nat.zero_max]
    by_cases h0 : first.dims.length = 0
    · rw [show first.shape = [] from List.length_eq_zero_iff.mp (hlen.trans h0)]
      rfl
    · have hpad : padded [] first = List.replicate first.shape.length 1 := by
        unfold padded
        rw [List.append_nil, hlen]
        rfl
      rw [hpad, List.length_nil, Nat.sub_zero, List.drop_length, List.take_length] at h
      rw [h (Nat.pos_of_ne_zero h0)]
      show Except.ok (first.dims.map Dim.tag ++ []) = _
      rw [List.append_nil]
      rfl
  have hfirst : broadcast_fold first [] = .ok (first.shape.map some) := by
    unfold broadcast_fold make_dim_fragment
    rw [if_neg (lt_irrefl _), get_tagged_dims_eq _ le_rfl, List.take_length]
    rfl
  unfold Agrees
  rw [List.map_cons, List.map_nil, hshape]
  exact hfirst

/-- One more type: agreement is kept exactly when it meets the condition, and
a failure stays one. -/
theorem agrees_concat {first : ArrayType} {l : List ArrayType} (h : Agrees first l) (tp : ArrayType) :
    Agrees first (l ++ [tp]) ↔
      ∀ sizes, incremental_fold ((first :: l).map ArrayType.shape) = .ok sizes → Meets sizes tp := by
  have hshapes : (first :: (l ++ [tp])).map ArrayType.shape = (first :: l).map ArrayType.shape ++ [tp.shape] := by
    rw [← List.cons_append, List.map_append]
    rfl
  have hfold : broadcast_fold first (l ++ [tp]) =
      broadcast_fold first l >>= fun tagged_dims => broadcast_with_type tagged_dims tp.dims.length tp := by
    unfold broadcast_fold
    simp only [List.foldlM_append, bind_assoc, List.foldlM_cons, List.foldlM_nil, bind_pure]
  have hconcat := incremental_fold_concat ((first :: l).map ArrayType.shape) tp.shape
  unfold Agrees at h ⊢
  rw [hshapes, hfold]
  cases hr : incremental_fold ((first :: l).map ArrayType.shape) with
  | error e =>
    rw [hr] at h hconcat
    rw [show broadcast_fold first l = .error .null_type from h, error_bind]
    refine iff_of_true ?_ fun sizes hs => nomatch hs
    exact (Same.congr (hconcat.trans (by rfl : _ = (Except.error e : Except broadcast_error (List ℤ)).toOption))).mpr rfl
  | ok sizes =>
    rw [hr] at h hconcat
    rw [show broadcast_fold first l = .ok (sizes.map some) from h, ok_bind, Same.congr hconcat]
    have hlen : tp.shape.length = tp.dims.length := List.length_map _
    rw [hlen]
    refine (step_iff (incremental_fold_ge hr) tp).trans ⟨fun hm sizes' hs => ?_, fun hm => hm sizes rfl⟩
    cases hs
    exact hm

end Dynd.DimFragment
