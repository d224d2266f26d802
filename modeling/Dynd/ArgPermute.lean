import Dynd.Lib.Except
import Mathlib.Data.List.GetD
/-!
# Permuting the arguments of an arrfunc

`permute` checks its list of integers while it makes the type of the new
arrfunc, and `permute_ck` applies the list once more to the types, the arrmeta,
the data pointers and the strides of every call.

`arg_permute_iff`: a list that is no permutation is refused, and otherwise a call is
one of the child with its arguments in their places, where the child does not
look at what the kernel has lost on the way: its destination, if that is not
one of the arguments, and the number of its sources, if it is one.
-/
namespace Dynd.ArgPermute
open Lib

/-! ## Arrfuncs -/

/-- `null` is the type that has not been set. -/
inductive type (T : Type) where
  | null
  | void
  | other (t : T)
deriving DecidableEq

/-- `undefined_behavior` is a read behind the end of an array. -/
inductive fault (E : Type) where
  | invalid_argument (what : String)
  | runtime_error (what : String)
  | thrown (e : E)
  | undefined_behavior

/-- A pointer that is zero is NULL. -/
structure ckernel (M E : Type) where
  single : ℤ → List ℤ → M → Except (fault E) M
  strided : ℤ → ℤ → List ℤ → List ℤ → ℕ → M → Except (fault E) M

/-- Keywords, type variables and the rest of a call are handed on as they are. -/
structure arrfunc (T M E : Type) where
  pos_types : List (type T)
  return_type : type T
  instantiate : type T → ℤ → ℕ → List (type T) → List ℤ → Except (fault E) (ckernel M E)

/-- An arrfunc whose types have been set. -/
structure child_arrfunc (T M E : Type) extends arrfunc T M E where
  pos_types_set : type.null ∉ pos_types

variable {T M E α : Type}

def arrfunc.npos (child : arrfunc T M E) : ℕ := child.pos_types.length

def arrfunc.get_pos_type (child : arrfunc T M E) (i : ℕ) : Except (fault E) (type T) :=
  match child.pos_types[i]? with
  | some tp => .ok tp
  | none => .error .undefined_behavior

/-! ## The kernel -/

/-- `inv`, for one entry. -/
def inv_entry (perm : List ℤ) (dst : α) (src : List α) (i : ℕ) : Except (fault E) α :=
  match perm[i]? with
  | none => .error .undefined_behavior
  | some j =>
    if j = -1 then .ok dst
    else if j < 0 then .error .undefined_behavior
    else
      match src[j.toNat]? with
      | none => .error .undefined_behavior
      | some a => .ok a

def inv (N : ℕ) (perm : List ℤ) (dst : α) (src : List α) : Except (fault E) (List α) :=
  (List.range N).mapM (inv_entry perm dst src)

namespace permute_ck
variable (N : ℕ) (perm : List ℤ) (child : ckernel M E)

def single (dst : ℤ) (src : List ℤ) (m : M) : Except (fault E) M := do
  let src_inv_perm ← inv N perm dst src
  child.single 0 src_inv_perm m

def strided (dst dst_stride : ℤ) (src src_stride : List ℤ) (count : ℕ) (m : M) : Except (fault E) M := do
  let src_inv_perm ← inv N perm dst src
  let src_stride_inv_perm ← inv N perm dst_stride src_stride
  child.strided 0 0 src_inv_perm src_stride_inv_perm count m

end permute_ck

def permute_ck.instantiate (N : ℕ) (child : arrfunc T M E) (perm : List ℤ) (dst_tp : type T) (dst_arrmeta : ℤ) (nsrc : ℕ)
    (src_tp : List (type T)) (src_arrmeta : List ℤ) : Except (fault E) (ckernel M E) := do
  let src_tp_inv ← inv N perm dst_tp src_tp
  let src_arrmeta_inv ← inv N perm dst_arrmeta src_arrmeta
  let child ← child.instantiate .void 0 nsrc src_tp_inv src_arrmeta_inv
  return ⟨permute_ck.single N perm child, permute_ck.strided N perm child⟩

/-! ## The new arrfunc -/

/-- The locals of `permute`. -/
structure State (T : Type) where
  pos_tp : List (type T)
  ret_tp : type T
  npos : ℕ

section
variable [DecidableEq T]

/-- The body of the loop. The check that an entry is in range is empty; `pos_tp` has an element for each entry. -/
def permute_entry (child : arrfunc T M E) (st : State T) (i : ℕ) (j : ℤ) : Except (fault E) (State T) :=
  if j = -1 then
    if child.return_type ≠ .void then
      .error (.invalid_argument "a positional argument can only be permuted to the return if it is originally void")
    else if st.ret_tp ≠ .null then .error (.invalid_argument "-1 appears twice in the permutation")
    else do
      let tp ← child.get_pos_type i
      return ⟨st.pos_tp, tp, st.npos - 1⟩
  else if j < 0 then .error .undefined_behavior
  else
    match st.pos_tp[j.toNat]? with
    | none => .error .undefined_behavior
    | some old =>
      if old ≠ .null then .error (.invalid_argument (toString j ++ " appears twice in the permutation"))
      else do
        let tp ← child.get_pos_type i
        return ⟨st.pos_tp.set j.toNat tp, st.ret_tp, st.npos⟩

def permute_loop (child : arrfunc T M E) : List ℤ → ℕ → State T → Except (fault E) (State T)
  | [], _, st => .ok st
  | j :: perm, i, st => do
    let st ← permute_entry child st i j
    permute_loop child perm (i + 1) st

def permute (child : arrfunc T M E) (perm : List ℤ) : Except (fault E) (arrfunc T M E) := do
  let st ← permute_loop child perm 0 ⟨List.replicate perm.length .null, .null, perm.length⟩
  let ret_tp := if st.ret_tp = .null then child.return_type else st.ret_tp
  let pos_tp := st.pos_tp.take st.npos
  match child.npos with
  | 2 => return ⟨pos_tp, ret_tp, permute_ck.instantiate 2 child perm⟩
  | 3 => return ⟨pos_tp, ret_tp, permute_ck.instantiate 3 child perm⟩
  | 4 => return ⟨pos_tp, ret_tp, permute_ck.instantiate 4 child perm⟩
  | _ => .error (.runtime_error "not yet implemented")

/-! ## What is asked of it -/

/-- How many arguments there are when `perm` takes one from the destination. -/
def arguments (child : arrfunc T M E) (perm : List ℤ) : ℕ := if -1 ∈ perm then child.npos - 1 else child.npos

/-- Every argument is used at one place, and the destination at no more. -/
structure Valid (child : arrfunc T M E) (perm : List ℤ) : Prop where
  length : perm.length = child.npos
  nodup : perm.Nodup
  range : ∀ j ∈ perm, -1 ≤ j ∧ j < arguments child perm

/-- The parameters of the child, filled as `perm` says. -/
def filled (perm : List ℤ) (dst : α) (src : List α) : List α :=
  perm.filterMap fun j => if j = -1 then some dst else src[j.toNat]?

/-- The kernel, with NULL for its destination. -/
def ckernel.without_dst (k : ckernel M E) : ckernel M E :=
  ⟨fun _ src => k.single 0 src, fun _ _ src src_stride => k.strided 0 0 src src_stride⟩

/-- The kernel, with its sources filled as `perm` says. -/
def ckernel.through (perm : List ℤ) (k : ckernel M E) : ckernel M E :=
  ⟨fun dst src => k.single dst (filled perm dst src),
    fun dst dst_stride src src_stride => k.strided dst dst_stride (filled perm dst src) (filled perm dst_stride src_stride)⟩

/-- The child, with its parameters filled; its destination is that of the call, if it has one. -/
def prescribed (child : arrfunc T M E) (perm : List ℤ) (dst_tp : type T) (dst_arrmeta : ℤ) (src_tp : List (type T))
    (src_arrmeta : List ℤ) : Except (fault E) (ckernel M E) :=
  ckernel.through perm <$>
    if -1 ∈ perm ∨ child.return_type = .void then
      ckernel.without_dst <$>
        child.instantiate .void 0 child.npos (filled perm dst_tp src_tp) (filled perm dst_arrmeta src_arrmeta)
    else child.instantiate dst_tp dst_arrmeta child.npos (filled perm dst_tp src_tp) (filled perm dst_arrmeta src_arrmeta)

/-- The same exception, or kernels that do the same with `n` sources. -/
def SameCalls (n : ℕ) : Except (fault E) (ckernel M E) → Except (fault E) (ckernel M E) → Prop
  | .ok k, .ok k' =>
    (∀ dst src m, src.length = n → k.single dst src m = k'.single dst src m) ∧
      ∀ dst dst_stride src src_stride count m, src.length = n → src_stride.length = n →
        k.strided dst dst_stride src src_stride count m = k'.strided dst dst_stride src src_stride count m
  | .error e, .error e' => e = e'
  | _, _ => False

/-- The types of the new arrfunc are those of the child, and so are its calls. -/
structure Permuted (child : arrfunc T M E) (perm : List ℤ) (paf : arrfunc T M E) : Prop where
  npos : paf.npos = arguments child perm
  pos_type : ∀ (i j : ℕ), perm[i]? = some (j : ℤ) → paf.pos_types[j]? = child.pos_types[i]?
  return_type_arg : ∀ i : ℕ, perm[i]? = some (-1) → child.pos_types[i]? = some paf.return_type
  return_type : -1 ∉ perm → paf.return_type = child.return_type
  calls : ∀ dst_tp dst_arrmeta src_tp src_arrmeta, src_tp.length = arguments child perm →
    src_arrmeta.length = arguments child perm → SameCalls (arguments child perm)
      (paf.instantiate dst_tp dst_arrmeta (arguments child perm) src_tp src_arrmeta)
      (prescribed child perm dst_tp dst_arrmeta src_tp src_arrmeta)

/-- The list is refused, or it is a permutation and the new arrfunc is right. -/
def Agrees (child : arrfunc T M E) (perm : List ℤ) : Prop :=
  match permute child perm with
  | .ok paf => Valid child perm ∧ Permuted child perm paf
  | .error .undefined_behavior => False
  | .error _ => True

end

/-! ## The loop -/

/-- The entries so far, of a list of `size` of them, are in range and give every argument one place. -/
structure Fine (child : arrfunc T M E) (size : ℕ) (perm : List ℤ) : Prop where
  length : perm.length ≤ child.npos
  range : ∀ j ∈ perm, -1 ≤ j ∧ j < size
  nodup : perm.Nodup
  void : -1 ∈ perm → child.return_type = .void

/-- An entry for which `permute` throws. -/
def Refuses (child : arrfunc T M E) (front : List ℤ) (j : ℤ) : Prop := j ∈ front ∨ j = -1 ∧ child.return_type ≠ .void

/-- The first entry that is not fine is one for which `permute` throws. -/
def RefusedEntry (child : arrfunc T M E) (size : ℕ) (perm : List ℤ) : Prop :=
  ∃ (front : List ℤ) (j : ℤ) (back : List ℤ), perm = front ++ j :: back ∧ Fine child size front ∧ (-1 ≤ j ∧ j < size) ∧
    Refuses child front j

/-- The type that the entries so far give to an argument, or to the destination. -/
def typeAt (child : arrfunc T M E) (perm : List ℤ) (j : ℤ) : type T :=
  if j ∈ perm then child.pos_types.getD (perm.idxOf j) .null else .null

def placed (child : arrfunc T M E) (size : ℕ) (perm : List ℤ) : State T :=
  ⟨(List.range size).map fun j : ℕ => typeAt child perm j, typeAt child perm (-1), size - if -1 ∈ perm then 1 else 0⟩

variable {child : child_arrfunc T M E} {size : ℕ} {front perm : List ℤ} {j : ℤ}

theorem typeAt_eq_null (hlen : front.length ≤ child.npos) : typeAt child.toarrfunc front j = .null ↔ j ∉ front := by
  unfold typeAt
  by_cases hj : j ∈ front
  · have hidx : front.idxOf j < child.pos_types.length := (List.idxOf_lt_length_of_mem hj).trans_le hlen
    rw [if_pos hj, List.getD_eq_getElem _ _ hidx]
    refine iff_of_false (fun h => ?_) (not_not.mpr hj)
    exact child.pos_types_set (h ▸ List.getElem_mem hidx)
  · rw [if_neg hj]
    exact iff_of_true rfl hj

/-- The next entry gives its type to the argument it names. -/
theorem typeAt_concat (hj : j ∉ front) (k : ℤ) : typeAt child.toarrfunc (front ++ [j]) k =
    if k = j then child.pos_types.getD front.length .null else typeAt child.toarrfunc front k := by
  unfold typeAt
  by_cases hk : k = j
  · subst hk
    rw [if_pos (by simp), if_pos rfl, List.idxOf_append_of_notMem hj, List.idxOf_cons_self, Nat.add_zero]
  · rw [if_neg hk]
    by_cases hmem : k ∈ front
    · rw [if_pos hmem, if_pos (List.mem_append_left _ hmem), List.idxOf_append_of_mem hmem]
    · rw [if_neg hmem, if_neg]
      rw [List.mem_append, List.mem_singleton]
      exact not_or.mpr ⟨hmem, hk⟩

theorem placed_nil : placed child.toarrfunc size [] = ⟨List.replicate size .null, .null, size⟩ := by
  unfold placed typeAt
  simp

@[simp] theorem placed_ret_tp : (placed child.toarrfunc size front).ret_tp = typeAt child.toarrfunc front (-1) := rfl

theorem placed_get {i : ℕ} (hi : i < size) : (placed child.toarrfunc size front).pos_tp[i]? = some (typeAt child.toarrfunc front i) := by
  unfold placed
  simp [hi]

/-- The state after an entry that is fine. -/
theorem placed_concat (hj : j ∉ front) (hrange : -1 ≤ j ∧ j < size) : placed child.toarrfunc size (front ++ [j]) =
    if j = -1 then ⟨(placed child.toarrfunc size front).pos_tp, child.pos_types.getD front.length .null, size - 1⟩
    else ⟨(placed child.toarrfunc size front).pos_tp.set j.toNat (child.pos_types.getD front.length .null),
      typeAt child.toarrfunc front (-1), (placed child.toarrfunc size front).npos⟩ := by
  unfold placed
  by_cases hdst : j = -1
  · subst hdst
    rw [if_pos rfl, typeAt_concat hj, if_pos rfl, if_pos (by simp)]
    congr 1
    apply List.map_congr_left
    intro k _
    rw [typeAt_concat hj, if_neg (by omega)]
  · rw [if_neg hdst, typeAt_concat hj, if_neg (Ne.symm hdst)]
    have hmem : -1 ∈ front ++ [j] ↔ -1 ∈ front := by
      rw [List.mem_append, List.mem_singleton]
      exact or_iff_left (Ne.symm hdst)
    congr 1
    · apply List.ext_getElem (by simp)
      intro k hk _
      rw [List.getElem_set, List.getElem_map, List.getElem_map, List.getElem_range, typeAt_concat hj]
      by_cases hkj : (k : ℤ) = j
      · rw [if_pos hkj, if_pos (by omega)]
      · rw [if_neg hkj, if_neg (by omega)]
    · rw [if_congr hmem rfl rfl]

theorem get_pos_type_eq {i : ℕ} (hi : i < child.npos) :
    child.get_pos_type i = .ok (child.pos_types.getD i .null) := by
  unfold arrfunc.get_pos_type
  rw [List.getElem?_eq_getElem hi, List.getD_eq_getElem _ _ hi]

theorem Fine.concat (hfront : Fine child.toarrfunc size front) (hrange : -1 ≤ j ∧ j < size)
    (h : ¬ Refuses child.toarrfunc front j) (hlen : front.length < child.npos) : Fine child.toarrfunc size (front ++ [j]) where
  length := by
    rw [List.length_append]
    exact hlen
  range := List.forall_mem_append.mpr ⟨hfront.range, by rintro k hk; cases List.mem_singleton.mp hk; exact hrange⟩
  nodup := List.nodup_append_comm.mp (List.nodup_cons.mpr ⟨fun hmem => h (.inl hmem), hfront.nodup⟩)
  void hmem := by
    rcases List.mem_append.mp hmem with hmem | hmem
    · exact hfront.void hmem
    · have hj : j = -1 := (List.mem_singleton.mp hmem).symm
      exact not_not.mp fun hv => h (.inr ⟨hj, hv⟩)

theorem Fine.not_refuses {back : List ℤ} (h : Fine child.toarrfunc size (front ++ j :: back)) : ¬ Refuses child.toarrfunc front j := by
  rintro (hmem | ⟨rfl, hvoid⟩)
  · exact (List.disjoint_of_nodup_append h.nodup) hmem List.mem_cons_self
  · exact hvoid (h.void (List.mem_append_right _ List.mem_cons_self))

/-- The first entry that is not fine is the one. -/
theorem not_refusedEntry {back : List ℤ} (hfront : Fine child.toarrfunc size front)
    (hj : ¬ (-1 ≤ j ∧ j < size) ∨ ¬ Refuses child.toarrfunc front j ∧ child.npos ≤ front.length) :
    ¬ RefusedEntry child.toarrfunc size (front ++ j :: back) := by
  rintro ⟨front', j', back', heq, hfront', hrange', hrefuses'⟩
  rcases List.append_eq_append_iff.mp heq with ⟨mid, hmid, htail⟩ | ⟨mid, hmid, htail⟩
  · -- the refused entry is at the first one, or behind it
    rcases mid with _ | ⟨k, mid⟩
    · obtain rfl : j = j' := (List.cons.inj htail).1
      rw [List.append_nil] at hmid
      subst hmid
      rcases hj with hout | ⟨hnot, -⟩
      · exact hout hrange'
      · exact hnot hrefuses'
    · obtain rfl : j = k := (List.cons.inj htail).1
      rw [hmid] at hfront'
      rcases hj with hout | ⟨-, hlen⟩
      · exact hout (hfront'.range j (by simp))
      · have hlength := hfront'.length
        rw [List.length_append, List.length_cons] at hlength
        omega
  · -- it is before
    rcases mid with _ | ⟨k, mid⟩
    · obtain rfl : j' = j := (List.cons.inj htail).1
      rw [List.append_nil] at hmid
      subst hmid
      rcases hj with hout | ⟨hnot, -⟩
      · exact hout hrange'
      · exact hnot hrefuses'
    · obtain rfl : j' = k := (List.cons.inj htail).1
      rw [hmid] at hfront
      exact hfront.not_refuses hrefuses'

section
variable [DecidableEq T]

theorem entry_out (hout : ¬ (-1 ≤ j ∧ j < size)) (i : ℕ) :
    permute_entry child.toarrfunc (placed child.toarrfunc size front) i j = .error .undefined_behavior := by
  unfold permute_entry
  rw [if_neg (by omega)]
  by_cases hneg : j < 0
  · rw [if_pos hneg]
  · have hnone : (placed child.toarrfunc size front).pos_tp[j.toNat]? = none := by
      apply List.getElem?_eq_none
      unfold placed
      rw [List.length_map, List.length_range]
      omega
    rw [if_neg hneg, hnone]

theorem entry_refused (hfront : Fine child.toarrfunc size front) (hrange : -1 ≤ j ∧ j < size)
    (h : Refuses child.toarrfunc front j) (i : ℕ) :
    ∃ what, permute_entry child.toarrfunc (placed child.toarrfunc size front) i j = .error (.invalid_argument what) := by
  unfold permute_entry
  rcases eq_or_ne j (-1) with rfl | hdst
  · rw [if_pos rfl]
    by_cases hvoid : child.return_type = .void
    · have hmem : -1 ∈ front := h.resolve_right fun hnot => hnot.2 hvoid
      rw [if_neg (not_not.mpr hvoid), placed_ret_tp, if_pos ((typeAt_eq_null hfront.length).not.mpr (not_not.mpr hmem))]
      exact ⟨_, rfl⟩
    · rw [if_pos hvoid]
      exact ⟨_, rfl⟩
  · have hmem : j ∈ front := h.resolve_right fun hnot => hdst hnot.1
    have hnat : ((j.toNat : ℕ) : ℤ) = j := Int.toNat_of_nonneg (by omega)
    rw [if_neg hdst, if_neg (by omega), placed_get (by omega), hnat]
    dsimp only
    rw [if_pos ((typeAt_eq_null hfront.length).not.mpr (not_not.mpr hmem))]
    exact ⟨_, rfl⟩

/-- Any other entry reads the type of the child's parameter. -/
theorem entry_accepted (hfront : Fine child.toarrfunc size front) (hrange : -1 ≤ j ∧ j < size)
    (h : ¬ Refuses child.toarrfunc front j) (i : ℕ) :
    permute_entry child.toarrfunc (placed child.toarrfunc size front) i j = (child.get_pos_type i).map fun tp =>
      if j = -1 then ⟨(placed child.toarrfunc size front).pos_tp, tp, size - 1⟩
      else ⟨(placed child.toarrfunc size front).pos_tp.set j.toNat tp, typeAt child.toarrfunc front (-1),
        (placed child.toarrfunc size front).npos⟩ := by
  obtain ⟨hmem, hnot⟩ := not_or.mp h
  have hnull := (typeAt_eq_null hfront.length).mpr hmem
  unfold permute_entry
  rcases eq_or_ne j (-1) with rfl | hdst
  · have hvoid : child.return_type = .void := not_not.mp fun hv => hnot ⟨rfl, hv⟩
    have hnpos : (placed child.toarrfunc size front).npos = size := by
      unfold placed
      rw [if_neg hmem, Nat.sub_zero]
    rw [if_pos rfl, if_neg (not_not.mpr hvoid), placed_ret_tp, if_neg (not_not.mpr hnull), hnpos]
    simp only [if_pos]
    rfl
  · have hnat : ((j.toNat : ℕ) : ℤ) = j := Int.toNat_of_nonneg (by omega)
    rw [if_neg hdst, if_neg (by omega), placed_get (by omega), hnat]
    dsimp only
    rw [if_neg (not_not.mpr hnull)]
    simp only [if_neg hdst]
    rfl

/-- The loop, from an entry on when those before it are fine. By induction on the entries that are left. -/
theorem permute_loop_spec (rest : List ℤ) (hfront : Fine child.toarrfunc size front) :
    Fine child.toarrfunc size (front ++ rest) ∧
        permute_loop child.toarrfunc rest front.length (placed child.toarrfunc size front) =
          .ok (placed child.toarrfunc size (front ++ rest)) ∨
      RefusedEntry child.toarrfunc size (front ++ rest) ∧
        (∃ what, permute_loop child.toarrfunc rest front.length (placed child.toarrfunc size front) =
          .error (.invalid_argument what)) ∨
      (¬ Fine child.toarrfunc size (front ++ rest) ∧ ¬ RefusedEntry child.toarrfunc size (front ++ rest)) ∧
        permute_loop child.toarrfunc rest front.length (placed child.toarrfunc size front) = .error .undefined_behavior := by
  induction rest generalizing front with
  | nil =>
    rw [List.append_nil]
    exact Or.inl ⟨hfront, rfl⟩
  | cons j rest ih =>
    rw [permute_loop]
    by_cases hrange : -1 ≤ j ∧ j < size
    · by_cases hrefuses : Refuses child.toarrfunc front j
      · obtain ⟨what, hwhat⟩ := entry_refused hfront hrange hrefuses front.length
        right
        left
        rw [hwhat]
        exact ⟨⟨front, j, rest, rfl, hfront, hrange, hrefuses⟩, what, rfl⟩
      · rw [entry_accepted hfront hrange hrefuses]
        rcases Nat.lt_or_ge front.length child.npos with hlen | hlen
        · have hmem : j ∉ front := fun hmem => hrefuses (.inl hmem)
          have hrest := ih (hfront.concat hrange hrefuses hlen)
          rw [List.append_assoc, List.singleton_append, List.length_append, List.length_singleton, placed_concat hmem hrange] at hrest
          rw [get_pos_type_eq hlen]
          exact hrest
        · have hnone : child.get_pos_type front.length = .error .undefined_behavior := by
            unfold arrfunc.get_pos_type
            rw [List.getElem?_eq_none hlen]
          right
          right
          rw [hnone]
          refine ⟨⟨fun hfine => ?_, not_refusedEntry hfront (.inr ⟨hrefuses, hlen⟩)⟩, rfl⟩
          have hlength := hfine.length
          rw [List.length_append, List.length_cons] at hlength
          omega
    · right
      right
      rw [entry_out hrange]
      exact ⟨⟨fun hfine => hrange (hfine.range j (by simp)), not_refusedEntry hfront (.inl hrange)⟩, rfl⟩

end

/-! ## Where the arguments go -/

/-- What `perm` puts in a place. -/
def value (dst : α) (src : List α) (j : ℤ) : α := if j = -1 then dst else src.getD j.toNat dst

theorem filled_eq_map {n : ℕ} (hrange : ∀ j ∈ perm, -1 ≤ j ∧ j < n) {dst : α} {src : List α} (hsrc : src.length = n) :
    filled perm dst src = perm.map (value dst src) := by
  unfold filled
  rw [← List.filterMap_eq_map]
  apply List.filterMap_congr
  intro j hj
  rw [Function.comp_apply, value]
  by_cases hdst : j = -1
  · rw [if_pos hdst, if_pos hdst]
  · have hlt : j.toNat < src.length := by
      have := hrange j hj
      omega
    rw [if_neg hdst, if_neg hdst, List.getElem?_eq_getElem hlt, List.getD_eq_getElem _ _ hlt]

theorem length_filled {n : ℕ} (hrange : ∀ j ∈ perm, -1 ≤ j ∧ j < n) {dst : α} {src : List α} (hsrc : src.length = n) :
    (filled perm dst src).length = perm.length := by
  rw [filled_eq_map hrange hsrc, List.length_map]

/-- The loop of the kernel fills the parameters. -/
theorem inv_eq {n : ℕ} (hrange : ∀ j ∈ perm, -1 ≤ j ∧ j < n) (dst : α) {src : List α} (hsrc : src.length = n) :
    (inv perm.length perm dst src : Except (fault E) (List α)) = .ok (filled perm dst src) := by
  unfold inv
  have hentry : ∀ i ∈ List.range perm.length,
      (inv_entry perm dst src i : Except (fault E) α) = .ok (value dst src (perm.getD i 0)) := by
    intro i hi
    have hlt := List.mem_range.mp hi
    have hj := hrange _ (List.getElem_mem hlt)
    unfold inv_entry value
    rw [List.getElem?_eq_getElem hlt, List.getD_eq_getElem _ _ hlt]
    dsimp only
    by_cases hdst : perm[i] = -1
    · rw [if_pos hdst, if_pos hdst]
    · have hsize : perm[i].toNat < src.length := by omega
      rw [if_neg hdst, if_neg (by omega), if_neg hdst, List.getElem?_eq_getElem hsize, List.getD_eq_getElem _ _ hsize]
  rw [mapM_eq_map hentry, filled_eq_map hrange hsrc]
  congr 1
  apply List.ext_getElem
  · rw [List.length_map, List.length_range, List.length_map]
  · intro i hi _
    rw [List.length_map, List.length_range] at hi
    rw [List.getElem_map, List.getElem_map, List.getElem_range, List.getD_eq_getElem _ _ hi]

/-- All parameters of the child are reached. -/
theorem exists_filled {n : ℕ} (hnodup : perm.Nodup) (hrange : ∀ j ∈ perm, -1 ≤ j ∧ j < n) (default : α) {args : List α}
    (hargs : args.length = perm.length) : ∃ src, src.length = n ∧
      ∀ dst, (-1 ∈ perm → dst = args.getD (perm.idxOf (-1)) default) → filled perm dst src = args := by
  refine ⟨(List.range n).map fun j : ℕ => args.getD (perm.idxOf (j : ℤ)) default, by simp, fun dst hdst => ?_⟩
  rw [filled_eq_map hrange (by simp)]
  apply List.ext_getElem
  · rw [List.length_map, hargs]
  · intro i hi hi'
    rw [List.length_map] at hi
    have hj := hrange _ (List.getElem_mem hi)
    have hidx := List.Nodup.idxOf_getElem hnodup i hi
    rw [List.getElem_map, value]
    by_cases hd : perm[i] = -1
    · have hmem : -1 ∈ perm := hd ▸ List.getElem_mem hi
      rw [if_pos hd, hdst hmem, ← hd, hidx, List.getD_eq_getElem _ _ hi']
    · have hlt : perm[i].toNat < n := by omega
      have hcast : ((perm[i].toNat : ℕ) : ℤ) = perm[i] := Int.toNat_of_nonneg (by omega)
      rw [if_neg hd, List.getD_eq_getElem _ _ (by simpa using hlt), List.getElem_map, List.getElem_range, hcast, hidx,
        List.getD_eq_getElem _ _ hi']

/-! ## Calls -/

section
variable {n : ℕ} {x y z : Except (fault E) (ckernel M E)}

theorem SameCalls.refl (n : ℕ) (x : Except (fault E) (ckernel M E)) : SameCalls n x x := by
  cases x with
  | error e => exact rfl
  | ok k => exact ⟨fun _ _ _ _ => rfl, fun _ _ _ _ _ _ _ _ => rfl⟩

theorem SameCalls.symm (h : SameCalls n x y) : SameCalls n y x := by
  cases x <;> cases y
  · exact Eq.symm h
  · exact h
  · exact h
  · exact ⟨fun dst src m hsrc => (h.1 dst src m hsrc).symm,
      fun dst dst_stride src src_stride count m hsrc hstride => (h.2 dst dst_stride src src_stride count m hsrc hstride).symm⟩

theorem SameCalls.trans (hxy : SameCalls n x y) (hyz : SameCalls n y z) : SameCalls n x z := by
  cases x <;> cases y <;> cases z
  · exact Eq.trans hxy hyz
  · exact hyz
  · exact hyz.elim
  · exact hxy.elim
  · exact hxy.elim
  · exact hyz.elim
  · exact hyz
  · exact ⟨fun dst src m hsrc => (hxy.1 dst src m hsrc).trans (hyz.1 dst src m hsrc),
      fun dst dst_stride src src_stride count m hsrc hstride =>
        (hxy.2 dst dst_stride src src_stride count m hsrc hstride).trans (hyz.2 dst dst_stride src src_stride count m hsrc hstride)⟩

theorem single_without_dst {k : ckernel M E} (h : ckernel.without_dst <$> (.ok k : Except (fault E) (ckernel M E)) = .ok k)
    (dst dst' : ℤ) (src : List ℤ) (m : M) : k.single dst src m = k.single dst' src m := by
  have hk : k.without_dst = k := Except.ok.inj h
  rw [← hk]
  rfl

theorem strided_without_dst {k : ckernel M E} (h : ckernel.without_dst <$> (.ok k : Except (fault E) (ckernel M E)) = .ok k)
    (dst dst' dst_stride dst_stride' : ℤ) (src src_stride : List ℤ) (count : ℕ) (m : M) :
    k.strided dst dst_stride src src_stride count m = k.strided dst' dst_stride' src src_stride count m := by
  have hk : k.without_dst = k := Except.ok.inj h
  rw [← hk]
  rfl

/-- Kernels that are filled do the same with all arguments if they do the same with all parameters. -/
theorem sameCalls_through (hnodup : perm.Nodup) (hrange : ∀ j ∈ perm, -1 ≤ j ∧ j < n)
    (hx : -1 ∈ perm → ckernel.without_dst <$> x = x) (hy : -1 ∈ perm → ckernel.without_dst <$> y = y) :
    SameCalls n (ckernel.through perm <$> x) (ckernel.through perm <$> y) ↔ SameCalls perm.length x y := by
  cases x with
  | error e => cases y <;> exact Iff.rfl
  | ok k =>
    cases y with
    | error e => exact Iff.rfl
    | ok k' =>
      constructor
      · intro h
        by_cases hmem : -1 ∈ perm
        · constructor
          · intro dst args m hargs
            obtain ⟨src, hsrc, hfilled⟩ := exists_filled hnodup hrange 0 hargs
            have hcall := h.1 (args.getD (perm.idxOf (-1)) 0) src m hsrc
            change k.single _ (filled perm _ src) m = k'.single _ (filled perm _ src) m at hcall
            rw [hfilled _ fun _ => rfl] at hcall
            rw [single_without_dst (hx hmem) dst, hcall]
            exact single_without_dst (hy hmem) _ _ _ _
          · intro dst dst_stride args strides count m hargs hstrides
            obtain ⟨src, hsrc, hfilled⟩ := exists_filled hnodup hrange 0 hargs
            obtain ⟨src_stride, hstride, hfilled_stride⟩ := exists_filled hnodup hrange 0 hstrides
            have hcall := h.2 (args.getD (perm.idxOf (-1)) 0) (strides.getD (perm.idxOf (-1)) 0) src src_stride count m hsrc hstride
            change k.strided _ _ (filled perm _ src) (filled perm _ src_stride) count m =
              k'.strided _ _ (filled perm _ src) (filled perm _ src_stride) count m at hcall
            rw [hfilled _ fun _ => rfl, hfilled_stride _ fun _ => rfl] at hcall
            rw [strided_without_dst (hx hmem) dst _ dst_stride, hcall]
            exact strided_without_dst (hy hmem) _ _ _ _ _ _ _ _
        · constructor
          · intro dst args m hargs
            obtain ⟨src, hsrc, hfilled⟩ := exists_filled hnodup hrange 0 hargs
            have hcall := h.1 dst src m hsrc
            change k.single dst (filled perm dst src) m = k'.single dst (filled perm dst src) m at hcall
            rwa [hfilled dst fun hd => absurd hd hmem] at hcall
          · intro dst dst_stride args strides count m hargs hstrides
            obtain ⟨src, hsrc, hfilled⟩ := exists_filled hnodup hrange 0 hargs
            obtain ⟨src_stride, hstride, hfilled_stride⟩ := exists_filled hnodup hrange 0 hstrides
            have hcall := h.2 dst dst_stride src src_stride count m hsrc hstride
            change k.strided dst dst_stride (filled perm dst src) (filled perm dst_stride src_stride) count m =
              k'.strided dst dst_stride (filled perm dst src) (filled perm dst_stride src_stride) count m at hcall
            rwa [hfilled dst fun hd => absurd hd hmem, hfilled_stride dst_stride fun hd => absurd hd hmem] at hcall
      · intro h
        refine ⟨fun dst src m hsrc => h.1 dst _ m (length_filled hrange hsrc), ?_⟩
        intro dst dst_stride src src_stride count m hsrc hstride
        exact h.2 dst dst_stride _ _ count m (length_filled hrange hsrc) (length_filled hrange hstride)

/-- The kernel that `permute_ck` makes is the child's, filled, with NULL for its destination. -/
theorem instantiate_eq {N : ℕ} (hN : perm.length = N) (hrange : ∀ j ∈ perm, -1 ≤ j ∧ j < n) (child : arrfunc T M E)
    (dst_tp : type T) (dst_arrmeta : ℤ) (nsrc : ℕ) {src_tp : List (type T)} {src_arrmeta : List ℤ} (htp : src_tp.length = n)
    (harrmeta : src_arrmeta.length = n) :
    SameCalls n (permute_ck.instantiate N child perm dst_tp dst_arrmeta nsrc src_tp src_arrmeta)
      (ckernel.through perm <$> ckernel.without_dst <$>
        child.instantiate .void 0 nsrc (filled perm dst_tp src_tp) (filled perm dst_arrmeta src_arrmeta)) := by
  subst hN
  unfold permute_ck.instantiate
  rw [inv_eq hrange dst_tp htp, ok_bind, inv_eq hrange dst_arrmeta harrmeta, ok_bind]
  cases child.instantiate .void 0 nsrc (filled perm dst_tp src_tp) (filled perm dst_arrmeta src_arrmeta) with
  | error e => exact rfl
  | ok k =>
    constructor
    · intro dst src m hsrc
      change permute_ck.single perm.length perm k dst src m = _
      unfold permute_ck.single
      rw [inv_eq hrange dst hsrc]
      rfl
    · intro dst dst_stride src src_stride count m hsrc hstride
      change permute_ck.strided perm.length perm k dst dst_stride src src_stride count m = _
      unfold permute_ck.strided
      rw [inv_eq hrange dst hsrc, ok_bind, inv_eq hrange dst_stride hstride]
      rfl

end

/-! ## What the child must not look at -/

/-- The child does not look at the number of its sources, as far as one less is concerned. -/
def IgnoresCount (child : arrfunc T M E) : Prop :=
  ∀ src_tp src_arrmeta, src_tp.length = child.npos → src_arrmeta.length = child.npos →
    SameCalls child.npos (ckernel.without_dst <$> child.instantiate .void 0 (child.npos - 1) src_tp src_arrmeta)
      (ckernel.without_dst <$> child.instantiate .void 0 child.npos src_tp src_arrmeta)

/-- The child does not look at its destination. -/
def IgnoresDestination (child : arrfunc T M E) : Prop :=
  ∀ dst_tp dst_arrmeta src_tp src_arrmeta, src_tp.length = child.npos → src_arrmeta.length = child.npos →
    SameCalls child.npos (ckernel.without_dst <$> child.instantiate .void 0 child.npos src_tp src_arrmeta)
      (child.instantiate dst_tp dst_arrmeta child.npos src_tp src_arrmeta)

/-- What the kernel loses on the way makes no difference to the child. -/
def NothingLost (child : arrfunc T M E) (perm : List ℤ) : Prop :=
  (-1 ∈ perm → IgnoresCount child) ∧ (-1 ∉ perm → child.return_type = .void ∨ IgnoresDestination child)

section
variable [DecidableEq T]

/-- A call of the new arrfunc is right if the child does the same as it would without what is lost. -/
theorem call_iff (hvalid : Valid child.toarrfunc perm) (dst_tp : type T) (dst_arrmeta : ℤ) {src_tp : List (type T)}
    {src_arrmeta : List ℤ} (htp : src_tp.length = arguments child.toarrfunc perm)
    (harrmeta : src_arrmeta.length = arguments child.toarrfunc perm) : SameCalls (arguments child.toarrfunc perm)
      (permute_ck.instantiate child.npos child.toarrfunc perm dst_tp dst_arrmeta (arguments child.toarrfunc perm) src_tp src_arrmeta)
      (prescribed child.toarrfunc perm dst_tp dst_arrmeta src_tp src_arrmeta) ↔ SameCalls child.npos
        (ckernel.without_dst <$> child.instantiate .void 0 (arguments child.toarrfunc perm) (filled perm dst_tp src_tp)
          (filled perm dst_arrmeta src_arrmeta))
        (if -1 ∈ perm ∨ child.return_type = .void then
          ckernel.without_dst <$>
            child.instantiate .void 0 child.npos (filled perm dst_tp src_tp) (filled perm dst_arrmeta src_arrmeta)
        else child.instantiate dst_tp dst_arrmeta child.npos (filled perm dst_tp src_tp) (filled perm dst_arrmeta src_arrmeta)) := by
  have hmade := instantiate_eq hvalid.length hvalid.range child.toarrfunc dst_tp dst_arrmeta (arguments child.toarrfunc perm) htp
    harrmeta
  have htwice (x : Except (fault E) (ckernel M E)) : ckernel.without_dst <$> ckernel.without_dst <$> x = ckernel.without_dst <$> x := by
    cases x <;> rfl
  rw [← hvalid.length, ← sameCalls_through hvalid.nodup hvalid.range (fun _ => htwice _) (fun hmem => by
    rw [if_pos (Or.inl hmem), htwice]), hvalid.length]
  exact ⟨fun h => hmade.symm.trans h, fun h => hmade.trans h⟩

/-- The calls of the new arrfunc, if they go through `permute_ck`. -/
theorem calls_iff (hvalid : Valid child.toarrfunc perm) :
    (∀ dst_tp dst_arrmeta src_tp src_arrmeta, src_tp.length = arguments child.toarrfunc perm →
      src_arrmeta.length = arguments child.toarrfunc perm → SameCalls (arguments child.toarrfunc perm)
        (permute_ck.instantiate child.npos child.toarrfunc perm dst_tp dst_arrmeta (arguments child.toarrfunc perm) src_tp src_arrmeta)
        (prescribed child.toarrfunc perm dst_tp dst_arrmeta src_tp src_arrmeta)) ↔ NothingLost child.toarrfunc perm := by
  by_cases hmem : -1 ∈ perm
  · have hcount : arguments child.toarrfunc perm = child.npos - 1 := if_pos hmem
    unfold NothingLost
    rw [and_iff_left fun hnot => absurd hmem hnot]
    constructor
    · intro h _ tps arrmetas htps harrmetas
      obtain ⟨src_tp, htp, hfilled⟩ := exists_filled hvalid.nodup hvalid.range .null (htps.trans hvalid.length.symm)
      obtain ⟨src_arrmeta, harrmeta, hfilled'⟩ := exists_filled hvalid.nodup hvalid.range 0 (harrmetas.trans hvalid.length.symm)
      have hcall := (call_iff hvalid _ _ htp harrmeta).mp (h (tps.getD (perm.idxOf (-1)) .null)
        (arrmetas.getD (perm.idxOf (-1)) 0) src_tp src_arrmeta htp harrmeta)
      rwa [if_pos (Or.inl hmem), hfilled _ fun _ => rfl, hfilled' _ fun _ => rfl, hcount] at hcall
    · intro h dst_tp dst_arrmeta src_tp src_arrmeta htp harrmeta
      rw [call_iff hvalid _ _ htp harrmeta, if_pos (Or.inl hmem), hcount]
      exact h hmem _ _ ((length_filled hvalid.range htp).trans hvalid.length)
        ((length_filled hvalid.range harrmeta).trans hvalid.length)
  · have hcount : arguments child.toarrfunc perm = child.npos := if_neg hmem
    unfold NothingLost
    rw [and_iff_right fun h => absurd h hmem]
    by_cases hvoid : child.return_type = .void
    · refine iff_of_true (fun dst_tp dst_arrmeta src_tp src_arrmeta htp harrmeta => ?_) fun _ => Or.inl hvoid
      rw [call_iff hvalid _ _ htp harrmeta, if_pos (Or.inr hvoid), hcount]
      exact SameCalls.refl _ _
    · constructor
      · intro h _
        right
        intro dst_tp dst_arrmeta tps arrmetas htps harrmetas
        obtain ⟨src_tp, htp, hfilled⟩ := exists_filled hvalid.nodup hvalid.range .null (htps.trans hvalid.length.symm)
        obtain ⟨src_arrmeta, harrmeta, hfilled'⟩ := exists_filled hvalid.nodup hvalid.range 0 (harrmetas.trans hvalid.length.symm)
        have hcall := (call_iff hvalid _ _ htp harrmeta).mp (h dst_tp dst_arrmeta src_tp src_arrmeta htp harrmeta)
        rwa [if_neg (not_or.mpr ⟨hmem, hvoid⟩), hfilled _ fun hd => absurd hd hmem, hfilled' _ fun hd => absurd hd hmem,
          hcount] at hcall
      · intro h dst_tp dst_arrmeta src_tp src_arrmeta htp harrmeta
        rw [call_iff hvalid _ _ htp harrmeta, if_neg (not_or.mpr ⟨hmem, hvoid⟩), hcount]
        exact (h hmem).resolve_left hvoid _ _ _ _ ((length_filled hvalid.range htp).trans hvalid.length)
          ((length_filled hvalid.range harrmeta).trans hvalid.length)

/-! ## The result -/

/-- The child has a number of parameters that `permute_ck` is made for. -/
def Implemented (child : arrfunc T M E) : Prop := child.npos = 2 ∨ child.npos = 3 ∨ child.npos = 4

/-- A list for which `permute` throws before it reads or writes behind an array. -/
def Refused (child : arrfunc T M E) (perm : List ℤ) : Prop :=
  RefusedEntry child perm.length perm ∨ Fine child perm.length perm ∧ ¬ Implemented child

/-- The new arrfunc, once all entries are fine. -/
def permuted (child : arrfunc T M E) (perm : List ℤ) : arrfunc T M E where
  pos_types := (placed child perm.length perm).pos_tp.take (placed child perm.length perm).npos
  return_type := if typeAt child perm (-1) = .null then child.return_type else typeAt child perm (-1)
  instantiate := permute_ck.instantiate child.npos child perm

theorem permute_implemented (himpl : Implemented child.toarrfunc)
    (hloop : permute_loop child.toarrfunc perm 0 (placed child.toarrfunc perm.length []) =
      .ok (placed child.toarrfunc perm.length perm)) : permute child.toarrfunc perm = .ok (permuted child.toarrfunc perm) := by
  unfold permute permuted
  rw [← (placed_nil : placed child.toarrfunc perm.length [] = _), hloop, ok_bind]
  rcases himpl with h | h | h <;> rw [h] <;> rfl

theorem permute_not_implemented (himpl : ¬ Implemented child.toarrfunc) {st : State T}
    (hloop : permute_loop child.toarrfunc perm 0 (placed child.toarrfunc perm.length []) = .ok st) :
    permute child.toarrfunc perm = .error (.runtime_error "not yet implemented") := by
  unfold permute
  rw [← (placed_nil : placed child.toarrfunc perm.length [] = _), hloop, ok_bind]
  dsimp only
  split
  · exact absurd (Or.inl ‹_›) himpl
  · exact absurd (Or.inr (Or.inl ‹_›)) himpl
  · exact absurd (Or.inr (Or.inr ‹_›)) himpl
  · rfl

/-- A permutation is fine, or takes an argument for the destination of a child that has one. -/
theorem Valid.fine_or_refused (hvalid : Valid child.toarrfunc perm) :
    Fine child.toarrfunc perm.length perm ∨ RefusedEntry child.toarrfunc perm.length perm := by
  have hrange : ∀ j ∈ perm, -1 ≤ j ∧ j < (perm.length : ℤ) := by
    intro j hj
    have hj' := hvalid.range j hj
    have hle : arguments child.toarrfunc perm ≤ child.npos := by
      unfold arguments
      split_ifs <;> omega
    have hlength := hvalid.length
    omega
  by_cases hvoid : -1 ∈ perm → child.return_type = .void
  · exact Or.inl ⟨hvalid.length.le, hrange, hvalid.nodup, hvoid⟩
  · right
    obtain ⟨hmem, hnot⟩ := Classical.not_imp.mp hvoid
    obtain ⟨front, back, rfl, hfront⟩ := List.eq_append_cons_of_mem hmem
    have hlen : front.length ≤ child.npos := by
      rw [← hvalid.length, List.length_append]
      exact Nat.le_add_right _ _
    exact ⟨front, -1, back, rfl, ⟨hlen, fun j hj => hrange j (List.mem_append_left _ hj), hvalid.nodup.of_append_left,
      fun hd => absurd hd hfront⟩, ⟨le_rfl, by omega⟩, Or.inr ⟨rfl, hnot⟩⟩

/-- The types of the new arrfunc are right for every permutation. -/
theorem permuted_iff (hvalid : Valid child.toarrfunc perm) :
    Permuted child.toarrfunc perm (permuted child.toarrfunc perm) ↔ NothingLost child.toarrfunc perm := by
  rw [← calls_iff hvalid]
  constructor
  · exact fun h => h.calls
  · intro hcalls
    have hidx (i : ℕ) (j : ℤ) (h : perm[i]? = some j) : child.pos_types[i]? = some (typeAt child.toarrfunc perm j) := by
      obtain ⟨hi, rfl⟩ := List.getElem?_eq_some_iff.mp h
      have hlt : i < child.pos_types.length := hi.trans_eq hvalid.length
      unfold typeAt
      rw [if_pos (List.getElem_mem hi), List.Nodup.idxOf_getElem hvalid.nodup i hi, List.getD_eq_getElem _ _ hlt,
        List.getElem?_eq_getElem hlt]
    have hnpos : (placed child.toarrfunc perm.length perm).npos = arguments child.toarrfunc perm := by
      unfold placed arguments
      rw [hvalid.length]
      split_ifs <;> rfl
    refine ⟨?_, ?_, ?_, ?_, hcalls⟩
    · have hle : arguments child.toarrfunc perm ≤ perm.length := by
        unfold arguments
        rw [hvalid.length]
        split_ifs <;> omega
      unfold arrfunc.npos permuted
      rw [List.length_take, hnpos]
      unfold placed
      rw [List.length_map, List.length_range, Nat.min_eq_left hle]
    · intro i j h
      have hj := (hvalid.range _ (List.mem_of_getElem? h)).2
      have hsize : j < perm.length := by
        have hle : arguments child.toarrfunc perm ≤ child.npos := by
          unfold arguments
          split_ifs <;> omega
        have hlength := hvalid.length
        omega
      unfold permuted
      rw [List.getElem?_take_of_lt (by rw [hnpos]; omega), placed_get hsize, hidx i j h]
    · intro i h
      have hmem := List.mem_of_getElem? h
      unfold permuted
      rw [if_neg ((typeAt_eq_null hvalid.length.le).not.mpr (not_not.mpr hmem)), hidx i _ h]
    · intro hmem
      exact if_pos ((typeAt_eq_null hvalid.length.le).mpr hmem)

/-- A permutation is right or refused where the kernel loses nothing that the child looks at. -/
theorem arg_permute_iff (child : child_arrfunc T M E) (perm : List ℤ) : Agrees child.toarrfunc perm ↔
    Refused child.toarrfunc perm ∨ Valid child.toarrfunc perm ∧ NothingLost child.toarrfunc perm := by
  have hnil : Fine child.toarrfunc perm.length [] :=
    ⟨Nat.zero_le _, fun j hj => absurd hj List.not_mem_nil, List.nodup_nil, fun hmem => absurd hmem List.not_mem_nil⟩
  unfold Agrees Refused
  rcases permute_loop_spec perm hnil with ⟨hfine, hloop⟩ | ⟨hrefused, what, hloop⟩ | ⟨⟨hnot, hnot'⟩, hloop⟩
  · rw [List.nil_append] at hfine hloop
    by_cases himpl : Implemented child.toarrfunc
    · have hrefused : ¬ RefusedEntry child.toarrfunc perm.length perm := by
        rintro ⟨front, j, back, rfl, -, -, hrefuses⟩
        exact hfine.not_refuses hrefuses
      rw [permute_implemented himpl hloop, or_iff_right fun h => h.elim hrefused fun h => h.2 himpl]
      exact and_congr_right permuted_iff
    · rw [permute_not_implemented himpl hloop]
      exact iff_of_true True.intro (Or.inl (Or.inr ⟨hfine, himpl⟩))
  · rw [List.nil_append] at hrefused
    have hthrows : permute child.toarrfunc perm = .error (.invalid_argument what) := by
      unfold permute
      rw [← (placed_nil : placed child.toarrfunc perm.length [] = _)]
      exact congrArg (· >>= _) hloop
    rw [hthrows]
    exact iff_of_true True.intro (Or.inl (Or.inl hrefused))
  · rw [List.nil_append] at hnot hnot'
    have hundefined : permute child.toarrfunc perm = .error .undefined_behavior := by
      unfold permute
      rw [← (placed_nil : placed child.toarrfunc perm.length [] = _)]
      exact congrArg (· >>= _) hloop
    rw [hundefined]
    refine iff_of_false id ?_
    rintro ((h | ⟨h, -⟩) | ⟨hvalid, -⟩)
    · exact hnot' h
    · exact hnot h
    · exact hvalid.fine_or_refused.elim hnot hnot'

/-! ## A child with a result -/

/-- A subtraction: it returns its first argument less its second one. -/
def subtract : child_arrfunc Unit (ℤ → ℤ) Unit where
  pos_types := [.other (), .other ()]
  return_type := .other ()
  instantiate _ _ _ _ _ := .ok ⟨fun dst src m => .ok (Function.update m dst (m (src.getD 0 0) - m (src.getD 1 0))),
    fun _ _ _ _ _ m => .ok m⟩
  pos_types_set := by simp

/-- The result of a permuted subtraction is written to NULL. -/
theorem result_lost : ¬ ∀ (child : child_arrfunc Unit (ℤ → ℤ) Unit) (perm : List ℤ), Agrees child.toarrfunc perm := by
  intro h
  obtain ⟨-, hpermuted⟩ := h subtract [1, 0]
  have hsingle := (hpermuted.calls (.other ()) 0 [.other (), .other ()] [0, 0] rfl rfl).1 8 [16, 24] (fun _ => 1) rfl
  -- the memory that is left has the result at NULL, and not at the destination
  have hmemory : Function.update (fun _ : ℤ => (1 : ℤ)) 0 (1 - 1) = Function.update (fun _ : ℤ => (1 : ℤ)) 8 (1 - 1) :=
    Except.ok.inj hsingle
  have hdst := congrFun hmemory 8
  rw [Function.update_self, Function.update_of_ne (by decide)] at hdst
  exact absurd hdst (by decide)

end

end Dynd.ArgPermute
