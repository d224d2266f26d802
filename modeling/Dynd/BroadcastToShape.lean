import Dynd.ArrayElements
/-!
# Broadcasting one operand to a shape

`shape_can_broadcast` says whether an operand fits a shape, and
`broadcast_to_shape` gives it strides for that shape. Each encodes the rule on
its own. `broadcast_to_shape_agrees`: they agree, and the new strides lead from
every index of the shape to the element that broadcasting assigns to it.
-/
namespace Dynd.BroadcastToShape
open FixedDim

/-! ## The functions -/

/-- The exception for when `src` does not broadcast to `dst`. -/
structure broadcast_error where
  dst_shape : List ℤ
  src_shape : List ℤ
deriving DecidableEq

def print_shape (shape : List ℤ) : String :=
  "(" ++ ", ".intercalate (shape.map fun size => if 0 ≤ size then toString size else "var") ++ ")"

def broadcast_error_message (e : broadcast_error) : String :=
  "cannot broadcast shape " ++ print_shape e.src_shape ++ " to shape " ++ print_shape e.dst_shape

/-- The loop over the source's sizes; `dst_shape` starts at the axis of the first one. -/
def canBroadcastLoop : List ℤ → List ℤ → Bool
  | d :: dst_shape, s :: src_shape => if s ≠ 1 && s ≠ d then false else canBroadcastLoop dst_shape src_shape
  | _, _ => true

def shape_can_broadcast (dst_shape src_shape : List ℤ) : Bool :=
  if src_shape.length ≤ dst_shape.length then
    canBroadcastLoop (dst_shape.drop (dst_shape.length - src_shape.length)) src_shape
  else false

/-- The loop over the axes that the source has; `none` where it throws. -/
def stridesLoop : List ℤ → List size_stride_t → Option (List ℤ)
  | d :: dst_shape, s :: src =>
    if s.dim_size = 1 then (0 :: ·) <$> stridesLoop dst_shape src
    else if s.dim_size = d then (s.stride :: ·) <$> stridesLoop dst_shape src
    else none
  | _, _ => some []

/-- `src` holds `src_shape` and `src_strides`; the result is `out_strides`. -/
def broadcast_to_shape (dst_shape : List ℤ) (src : List size_stride_t) : Except broadcast_error (List ℤ) :=
  let error := broadcast_error.mk dst_shape (src.map (·.dim_size))
  if src.length > dst_shape.length then .error error
  else
    let dimdelta := dst_shape.length - src.length
    match stridesLoop (dst_shape.drop dimdelta) src with
    | some out_strides => .ok (List.replicate dimdelta 0 ++ out_strides)
    | none => .error error

/-! ## What broadcasting assigns -/

/-- The source's index for an index with as many axes: element 0 of an axis of size one. -/
def repeated : List ℤ → List ℕ → List ℕ
  | s :: src_shape, i :: idx => (if s = 1 then 0 else i) :: repeated src_shape idx
  | _, _ => []

/-- The source's index for an index of the destination: the last axes are aligned. -/
def sourceIndex (src_shape : List ℤ) (idx : List ℕ) : List ℕ := repeated src_shape (idx.drop (idx.length - src_shape.length))

/-! ## The loops -/

theorem stridesLoop_isSome (dst_shape : List ℤ) (src : List size_stride_t) :
    (stridesLoop dst_shape src).isSome = canBroadcastLoop dst_shape (src.map (·.dim_size)) := by
  induction src generalizing dst_shape with
  | nil => cases dst_shape <;> rfl
  | cons s src ih =>
    cases dst_shape with
    | nil => rfl
    | cons d dst_shape =>
      rw [stridesLoop, List.map_cons, canBroadcastLoop]
      by_cases h1 : s.dim_size = 1
      · rw [if_pos h1, Option.map_eq_map, Option.isSome_map, ih]
        simp [h1]
      · rw [if_neg h1]
        by_cases hd : s.dim_size = d
        · rw [if_pos hd, Option.map_eq_map, Option.isSome_map, ih]
          simp [hd]
        · rw [if_neg hd]
          simp [h1, hd]

/-- One stride for each axis, and the element of each index. -/
theorem stridesLoop_spec {dst_shape : List ℤ} {src : List size_stride_t} (hlen : src.length = dst_shape.length) {out : List ℤ}
    (h : stridesLoop dst_shape src = some out) : out.length = dst_shape.length ∧ ∀ idx ∈ multiIndices dst_shape,
      repeated (src.map (·.dim_size)) idx ∈ multiIndices (src.map (·.dim_size)) ∧
        strideOffset (withStrides dst_shape out) idx = strideOffset src (repeated (src.map (·.dim_size)) idx) := by
  induction src generalizing dst_shape out with
  | nil =>
    obtain rfl : dst_shape = [] := List.length_eq_zero_iff.1 hlen.symm
    obtain rfl : [] = out := Option.some.inj h
    exact ⟨rfl, fun idx _ => ⟨List.mem_singleton.2 rfl, rfl⟩⟩
  | cons s src ih =>
    cases dst_shape with
    | nil => cases hlen
    | cons d dst_shape =>
      have ih : ∀ {out}, stridesLoop dst_shape src = some out → _ := ih (Nat.succ.inj hlen)
      rw [stridesLoop] at h
      split_ifs at h with h1 hd
      · -- every index of the destination reads element 0
        obtain ⟨out, hout, rfl⟩ := Option.map_eq_some_iff.1 h
        obtain ⟨hlength, hidx⟩ := ih hout
        refine ⟨congrArg Nat.succ hlength, fun idx hmem => ?_⟩
        obtain ⟨i, rest, rfl, -, hrest⟩ := mem_multiIndices_cons.1 hmem
        obtain ⟨hin, hoff⟩ := hidx rest hrest
        rw [List.map_cons, repeated, if_pos h1]
        refine ⟨mem_multiIndices_cons.2 ⟨0, _, rfl, by rw [h1]; decide, hin⟩, ?_⟩
        rw [withStrides_cons, strideOffset, strideOffset]
        simpa using hoff
      · -- the index is one of the source's axis too
        obtain ⟨out, hout, rfl⟩ := Option.map_eq_some_iff.1 h
        obtain ⟨hlength, hidx⟩ := ih hout
        refine ⟨congrArg Nat.succ hlength, fun idx hmem => ?_⟩
        obtain ⟨i, rest, rfl, hi, hrest⟩ := mem_multiIndices_cons.1 hmem
        obtain ⟨hin, hoff⟩ := hidx rest hrest
        rw [List.map_cons, repeated, if_neg h1]
        refine ⟨mem_multiIndices_cons.2 ⟨i, _, rfl, by rwa [hd], hin⟩, ?_⟩
        rw [withStrides_cons, strideOffset, strideOffset]
        simpa using hoff

/-- The axes in front do not move the source. -/
theorem strideOffset_zeros (n : ℕ) (dst_shape out : List ℤ) (hn : n ≤ dst_shape.length) (idx : List ℕ) :
    strideOffset (withStrides dst_shape (List.replicate n 0 ++ out)) idx =
      strideOffset (withStrides (dst_shape.drop n) out) (idx.drop n) := by
  induction n generalizing dst_shape idx with
  | zero => rfl
  | succ n ih =>
    cases dst_shape with
    | nil => cases hn
    | cons d dst_shape =>
      have ih := ih dst_shape (Nat.le_of_succ_le_succ hn) idx.tail
      rw [List.replicate_succ, List.cons_append, withStrides_cons, strideOffset, mul_zero, zero_add, List.drop_succ_cons, ih,
        List.drop_tail]

/-! ## The two functions agree -/

theorem shape_can_broadcast_iff (dst_shape : List ℤ) (src : List size_stride_t) :
    shape_can_broadcast dst_shape (src.map (·.dim_size)) = true ↔ ∃ out, broadcast_to_shape dst_shape src = .ok out := by
  rw [shape_can_broadcast, broadcast_to_shape, List.length_map]
  by_cases hlen : src.length ≤ dst_shape.length
  · rw [if_pos hlen, if_neg (not_lt.2 hlen), ← stridesLoop_isSome]
    dsimp only
    cases stridesLoop (dst_shape.drop (dst_shape.length - src.length)) src with
    | none => simp
    | some out => simp
  · rw [if_neg hlen, if_pos (not_le.1 hlen)]
    simp

theorem broadcast_to_shape_spec {dst_shape : List ℤ} {src : List size_stride_t} {out : List ℤ}
    (h : broadcast_to_shape dst_shape src = .ok out) : out.length = dst_shape.length ∧ ∀ idx ∈ multiIndices dst_shape,
      sourceIndex (src.map (·.dim_size)) idx ∈ multiIndices (src.map (·.dim_size)) ∧
        strideOffset (withStrides dst_shape out) idx = strideOffset src (sourceIndex (src.map (·.dim_size)) idx) := by
  rw [broadcast_to_shape] at h
  dsimp only at h
  split_ifs at h with hlen
  have hle := not_lt.1 hlen
  have hdrop : src.length = (dst_shape.drop (dst_shape.length - src.length)).length := by
    rw [List.length_drop]
    omega
  cases hloop : stridesLoop (dst_shape.drop (dst_shape.length - src.length)) src with
  | none => simp [hloop] at h
  | some strides =>
    rw [hloop] at h
    obtain rfl : List.replicate (dst_shape.length - src.length) 0 ++ strides = out := Except.ok.inj h
    obtain ⟨hlength, hidx⟩ := stridesLoop_spec hdrop hloop
    constructor
    · rw [List.length_append, List.length_replicate, hlength, ← hdrop]
      omega
    · intro idx hmem
      rw [strideOffset_zeros _ _ _ (Nat.sub_le _ _), sourceIndex, List.length_map, length_of_mem_multiIndices hmem]
      exact hidx _ (drop_mem_multiIndices hmem)

/-- An operand can be broadcast exactly when it is, and every index of the shape then has the address of the source
element that right alignment and the repetition of axes of size one assign to it. -/
theorem broadcast_to_shape_agrees (dst_shape : List ℤ) (src : List size_stride_t) :
    (shape_can_broadcast dst_shape (src.map (·.dim_size)) = true ↔ ∃ out, broadcast_to_shape dst_shape src = .ok out) ∧
    ∀ out, broadcast_to_shape dst_shape src = .ok out → out.length = dst_shape.length ∧ ∀ idx ∈ multiIndices dst_shape,
      sourceIndex (src.map (·.dim_size)) idx ∈ multiIndices (src.map (·.dim_size)) ∧
        strideOffset (withStrides dst_shape out) idx = strideOffset src (sourceIndex (src.map (·.dim_size)) idx) :=
  ⟨shape_can_broadcast_iff dst_shape src, fun _ h => broadcast_to_shape_spec h⟩

/-- A column of two rows, read three times. -/
example : broadcast_to_shape [2, 3] [⟨2, 8⟩, ⟨1, 4⟩] = .ok [8, 0] := by decide

end Dynd.BroadcastToShape
