import Dynd.ArrayViews
import Dynd.ExprType
/-!
# Indexing an expression before it is evaluated

An index of a dimension that an operand repeats is applied to the one element the
operand has there. This module says when an indexed expression still has the
elements of the indexed value: when every such index keeps the one element.
-/
namespace Dynd.ExprType
open Lib LinearIndex FixedDim

variable {T V : Type} [ElementType T] [DecidableEq T]

/-! ## Dimensions of size one -/

/-- The repeated dimensions that are indexed: of size one in the operand, and not in the value. -/
def EachRepeated (P : irange → dim_size_t → size_stride_t → Prop) :
    List irange → List dim_size_t → List size_stride_t → Prop
  | r :: indices, n :: dims, m :: md => (m.dim_size ≠ n.val → P r n m) ∧ EachRepeated P indices dims md
  | _, _, _ => True

theorem eachRepeated_and {P Q : irange → dim_size_t → size_stride_t → Prop} : ∀ {indices : List irange}
    {dims : List dim_size_t} {md : List size_stride_t},
    EachRepeated (fun r n m => P r n m ∧ Q r n m) indices dims md ↔ EachRepeated P indices dims md ∧ EachRepeated Q indices dims md
  | [], _, _ => by simp [EachRepeated]
  | _ :: _, [], _ => by simp [EachRepeated]
  | _ :: _, _ :: _, [] => by simp [EachRepeated]
  | r :: indices, n :: dims, m :: md => by
    rw [EachRepeated, EachRepeated, EachRepeated, eachRepeated_and]
    tauto

/-- The range can be applied to the one element there is. -/
def Resolves (r : irange) (_ : dim_size_t) (_ : size_stride_t) : Prop := r.InBounds 1 ∧ r.NoOverflow 1

/-- The range keeps the one element when it keeps any of the value's, and is read where they are. -/
def Kept (r : irange) (n : dim_size_t) (m : size_stride_t) : Prop :=
  r.denotes n.val ≠ [] → r.denotes 1 ≠ [] ∧ (m.stride = 0 ∨ r.first n.val = 0)

/-- One axis of that: the sizes fit, and an index moves the operand as it moves the value. -/
theorem repeated_axis {r : irange} {n d : dim_size_t} {m : size_stride_t} {o o' : Resolved} (hd : d = n ∨ d.val = 1)
    (hm : m.dim_size = d.val) (ho : resolved r n = some o) (ho' : resolved r d = some o')
    (hkept : m.dim_size ≠ n.val → Kept r n m) :
    (¬ o.remove_dimension = true → FitsAxis (toSize o.dimension_size) ⟨o'.dimension_size, m.stride * o'.index_stride⟩) ∧
      ∀ i : ℕ, (i : ℤ) < o.dimension_size → m.stride * (o.start_index + i * o.index_stride) =
        m.stride * o'.start_index + i * (m.stride * o'.index_stride) := by
  have hsel := resolved_selects ho
  have hsel' := resolved_selects ho'
  by_cases hdn : d = n
  · obtain rfl : o' = o := Option.some.inj ((hdn ▸ ho').symm.trans ho)
    refine ⟨fun _ => .inr hsel.toSize, fun i _ => ?_⟩
    ring
  · have h1 : d.val = 1 := hd.resolve_left hdn
    have hne : m.dim_size ≠ n.val := fun h => hdn (Subtype.ext (hm.symm.trans h))
    have hone : o.dimension_size ≠ 0 → o'.dimension_size ≠ 0 ∧ (m.stride = 0 ∨ r.first n.val = 0) := by
      intro hsize
      obtain ⟨hdenotes, hread⟩ := hkept hne (hsel.size_ne.1 hsize)
      rw [← h1] at hdenotes
      exact ⟨hsel'.size_ne.2 hdenotes, hread⟩
    constructor
    · intro _
      by_cases hsize' : o'.dimension_size = 0
      · have hsize : o.dimension_size = 0 := by
          by_contra hsize
          exact (hone hsize).1 hsize'
        refine .inr ?_
        rw [hsel.toSize, hsize, hsize']
      · exact .inl (hsel'.start_of_one h1 hsize').1
    · intro i hi
      have hpos : 0 ≤ o.dimension_size := by
        rw [hsel.size]
        exact Int.natCast_nonneg _
      have hsize : o.dimension_size ≠ 0 := by omega
      obtain ⟨hsize', hread⟩ := hone hsize
      have hstart' := (hsel'.start_of_one h1 hsize').2
      rcases hread with h0 | hfirst
      · rw [h0, zero_mul, zero_mul, zero_mul, mul_zero, add_zero]
      · have hstart : o.start_index = 0 := (hsel.start hsize).trans hfirst
        have hstride : (i : ℤ) * o.index_stride = i * o'.index_stride := by
          by_cases hstep : r.step.val = 0
          · have hi0 : (i : ℤ) = 0 := by
              rw [hsel.single (hsel.removes.2 hstep)] at hi
              omega
            rw [hi0, zero_mul, zero_mul]
          · rw [hsel.stride hsize hstep, hsel'.stride hsize' hstep]
        rw [hstart, hstart', zero_add, mul_zero, zero_add, hstride]
        ring

section
variable {dims op_dims : List dim_size_t} {md : List size_stride_t} (hb : Broadcasts dims op_dims md)
include hb

theorem Broadcasts.length : op_dims.length = dims.length ∧ md.length = op_dims.length := by
  induction hb with
  | nil => exact ⟨rfl, rfl⟩
  | cons _ _ _ ih => simp [ih.1, ih.2]

theorem Broadcasts.fits : List.Forall₂ FitsAxis dims md := by
  induction hb with
  | nil => exact .nil
  | cons hd hm _ ih =>
    refine .cons ?_ ih
    unfold FitsAxis
    rcases hd with rfl | h1
    · exact .inr hm.symm
    · exact .inl (hm.trans h1)

/-- Each operand can be indexed when its repeated dimensions can. -/
theorem repeated_resolves : ∀ {indices : List irange} {os : List Resolved}, resolveAll indices dims = some os →
    ((∃ os', resolveAll indices op_dims = some os') ↔ EachRepeated Resolves indices dims md) := by
  induction hb with
  | nil =>
    intro indices os hos
    cases indices with
    | nil => exact ⟨fun _ => trivial, fun _ => ⟨[], rfl⟩⟩
    | cons r indices => cases hos
  | @cons n d m dims op_dims md hd hm _ ih =>
    intro indices os hos
    cases indices with
    | nil => exact ⟨fun _ => trivial, fun _ => ⟨[], rfl⟩⟩
    | cons r indices =>
      obtain ⟨o, os, ho, htl, rfl⟩ := resolveAll_cons.1 hos
      have hhead : (∃ o', resolved r d = some o') ↔ (m.dim_size ≠ n.val → Resolves r n m) := by
        rw [hm]
        by_cases hdn : d = n
        · exact ⟨fun _ hne => absurd (congrArg _ hdn) hne, fun _ => ⟨o, hdn ▸ ho⟩⟩
        · have h1 : d.val = 1 := hd.resolve_left hdn
          rw [resolved_isSome, h1]
          exact ⟨fun h _ => h, fun h => h fun hval => hdn (Subtype.ext (h1.trans hval))⟩
      rw [EachRepeated, ← hhead, ← ih htl]
      constructor
      · rintro ⟨os', hos'⟩
        obtain ⟨o', os'', ho', hos'', -⟩ := resolveAll_cons.1 hos'
        exact ⟨⟨o', ho'⟩, ⟨os'', hos''⟩⟩
      · rintro ⟨⟨o', ho'⟩, ⟨os', hos'⟩⟩
        exact ⟨o' :: os', resolveAll_cons.2 ⟨o', os', ho', hos', rfl⟩⟩

/-- The ranges remove the same dimensions of the operand and of the value. -/
theorem repeated_length : ∀ {indices : List irange} {os os' : List Resolved}, resolveAll indices dims = some os →
    resolveAll indices op_dims = some os' → (newDims os' op_dims).length = (newDims os dims).length ∧
      (newArrmeta os' md).length = (newDims os dims).length := by
  induction hb with
  | nil =>
    intro indices os os' hos hos'
    cases indices with
    | nil =>
      cases hos
      cases hos'
      exact ⟨rfl, rfl⟩
    | cons r indices => cases hos
  | @cons n d m dims op_dims md _ _ hrest ih =>
    intro indices os os' hos hos'
    cases indices with
    | nil =>
      cases hos
      cases hos'
      obtain ⟨hl, hl'⟩ := hrest.length
      simp [hl, hl']
    | cons r indices =>
      obtain ⟨o, os, ho, htl, rfl⟩ := resolveAll_cons.1 hos
      obtain ⟨o', os', ho', htl', rfl⟩ := resolveAll_cons.1 hos'
      obtain ⟨hl, hl'⟩ := ih htl htl'
      have hremove : o'.remove_dimension = o.remove_dimension :=
        Bool.eq_iff_iff.2 ((resolved_selects ho').removes.trans (resolved_selects ho).removes.symm)
      rw [newDims, newDims, newArrmeta, hremove]
      split_ifs
      · exact ⟨hl, hl'⟩
      · exact ⟨by rw [List.length_cons, List.length_cons, hl], by rw [List.length_cons, List.length_cons, hl']⟩

/-- Where the repeated dimensions are kept, the indexed operand fits the indexed value and is
read where the value's elements were. -/
theorem repeated_view : ∀ {indices : List irange} {os os' : List Resolved}, resolveAll indices dims = some os →
    resolveAll indices op_dims = some os' → EachRepeated Kept indices dims md →
    List.Forall₂ FitsAxis (newDims os dims) (newArrmeta os' md) ∧ ∀ idx ∈ multiIndices (sizes (newDims os dims)),
      strideOffset md (select os idx) = startOffset os' md + strideOffset (newArrmeta os' md) idx := by
  induction hb with
  | nil =>
    intro indices os os' hos hos' _
    cases indices with
    | nil =>
      cases hos
      cases hos'
      exact ⟨.nil, fun idx _ => rfl⟩
    | cons r indices => cases hos
  | @cons n d m dims op_dims md hd hm hrest ih =>
    intro indices os os' hos hos' hkept
    cases indices with
    | nil =>
      cases hos
      cases hos'
      refine ⟨(Broadcasts.cons hd hm hrest).fits, fun idx _ => ?_⟩
      rw [newArrmeta_nil, startOffset_nil, zero_add]
      rfl
    | cons r indices =>
      obtain ⟨o, os, ho, htl, rfl⟩ := resolveAll_cons.1 hos
      obtain ⟨o', os', ho', htl', rfl⟩ := resolveAll_cons.1 hos'
      obtain ⟨hhead, hkept⟩ := hkept
      obtain ⟨hfits, hview⟩ := ih htl htl' hkept
      have hsel := resolved_selects ho
      have hsel' := resolved_selects ho'
      have hremove : o'.remove_dimension = o.remove_dimension := Bool.eq_iff_iff.2 (hsel'.removes.trans hsel.removes.symm)
      obtain ⟨hsame, hstep⟩ := repeated_axis hd hm ho ho' hhead
      rw [newDims, newArrmeta, hremove]
      by_cases hr : o.remove_dimension = true
      · rw [if_pos hr, if_pos hr]
        refine ⟨hfits, fun idx hidx => ?_⟩
        have hin := hsel.inside 0 (by rw [hsel.single hr]; decide)
        have haxis := hstep 0 (by rw [hsel.single hr]; decide)
        rw [select, if_pos hr, strideOffset, List.headI_cons, List.tail_cons, hview idx hidx, startOffset,
          Int.toNat_of_nonneg (by omega)]
        rw [Nat.cast_zero, zero_mul, zero_mul, add_zero, add_zero] at haxis
        rw [mul_comm o.start_index, haxis]
        ring
      · rw [if_neg hr, if_neg hr]
        refine ⟨.cons (hsame hr) hfits, fun idx hidx => ?_⟩
        rw [sizes_cons, hsel.toSize, mem_multiIndices_cons] at hidx
        obtain ⟨i, rest, rfl, hi, hrest⟩ := hidx
        have haxis := hstep i hi
        rw [select, if_neg hr, strideOffset, strideOffset, List.headI_cons, List.tail_cons, List.headI_cons, List.tail_cons,
          hview rest hrest, startOffset, Int.toNat_of_nonneg (hsel.inside i hi).1, mul_comm (o.start_index + _), haxis]
        ring

/-- An indexed operand that fits has its repeated dimensions kept, if their strides are zero. -/
theorem repeated_kept (hnorm : ∀ m ∈ md, m.dim_size = 1 → m.stride = 0) : ∀ {indices : List irange} {os os' : List Resolved},
    resolveAll indices dims = some os → resolveAll indices op_dims = some os' →
    List.Forall₂ FitsAxis (newDims os dims) (newArrmeta os' md) → EachRepeated Kept indices dims md := by
  induction hb with
  | nil =>
    intro indices os os' _ _ _
    cases indices <;> trivial
  | @cons n d m dims op_dims md hd hm _ ih =>
    intro indices os os' hos hos' hfits
    cases indices with
    | nil => trivial
    | cons r indices =>
      obtain ⟨o, os, ho, htl, rfl⟩ := resolveAll_cons.1 hos
      obtain ⟨o', os', ho', htl', rfl⟩ := resolveAll_cons.1 hos'
      obtain ⟨hm0, hnorm⟩ := List.forall_mem_cons.1 hnorm
      have hsel := resolved_selects ho
      have hsel' := resolved_selects ho'
      have hremove : o'.remove_dimension = o.remove_dimension := Bool.eq_iff_iff.2 (hsel'.removes.trans hsel.removes.symm)
      rw [newDims, newArrmeta, hremove] at hfits
      rw [EachRepeated]
      have hhead : (¬ o.remove_dimension = true → FitsAxis (toSize o.dimension_size) ⟨o'.dimension_size, m.stride * o'.index_stride⟩) →
          m.dim_size ≠ n.val → Kept r n m := by
        intro hfit hne hdenotes
        have h1 : d.val = 1 := hd.resolve_left fun h => hne (hm.trans (congrArg _ h))
        refine ⟨?_, .inl (hm0 (hm.trans h1))⟩
        have hsize := hsel.size_ne.2 hdenotes
        have hsize' : o'.dimension_size ≠ 0 := by
          by_cases hr : o.remove_dimension = true
          · rw [hsel'.single (hremove.trans hr)]
            decide
          · rcases hfit hr with h | h
            · rw [show o'.dimension_size = 1 from h]
              decide
            · rw [hsel.toSize] at h
              rwa [← show o.dimension_size = o'.dimension_size from h]
        rwa [← h1, ← hsel'.size_ne]
      by_cases hr : o.remove_dimension = true
      · rw [if_pos hr, if_pos hr] at hfits
        exact ⟨hhead fun hn => absurd hr hn, ih hnorm htl htl' hfits⟩
      · rw [if_neg hr, if_neg hr, List.forall₂_cons] at hfits
        exact ⟨hhead fun _ => hfits.1, ih hnorm htl htl' hfits.2⟩

end

/-! ## The indexed expression -/

/-- The ranges that an operand's own dimensions get, resolved. -/
def operandResolved (e : expr_array T V) (indices : List irange) (op : pointer_operand T) : Option (List Resolved) :=
  resolveAll (lastOf e op indices) op.target_tp.dims

def indexedOperand (e : expr_array T V) (indices : List irange) (op : pointer_operand T) : pointer_operand T :=
  let os := (operandResolved e indices op).getD []
  ⟨⟨newDims os op.target_tp.dims, op.target_tp.dtype⟩, op.offset + startOffset os op.arrmeta, newArrmeta os op.arrmeta, op.data⟩

def indexedExpr (e : expr_array T V) (indices : List irange) (os : List Resolved) : expr_array T V :=
  ⟨⟨newDims os e.m_value_type.dims, e.m_value_type.dtype⟩, e.operands.map (indexedOperand e indices), e.m_kgen⟩

section
omit [ElementType T] [DecidableEq T]

theorem indexedOperand_eq {e : expr_array T V} {indices : List irange} {op : pointer_operand T} {os : List Resolved}
    (h : operandResolved e indices op = some os) : indexedOperand e indices op =
      ⟨⟨newDims os op.target_tp.dims, op.target_tp.dtype⟩, op.offset + startOffset os op.arrmeta,
        newArrmeta os op.arrmeta, op.data⟩ := by
  unfold indexedOperand
  rw [h]
  rfl

/-- An operand of no more dimensions than are left unindexed gets no index. -/
theorem lastOf_short {e : expr_array T V} {indices : List irange} {op : pointer_operand T}
    (h : indices.length + op.ndim ≤ e.m_value_type.dims.length) : lastOf e op indices = [] :=
  List.drop_eq_nil_of_le (by omega)

theorem operand_type_ok {e : expr_array T V} {root : List dim_size_t} {indices : List irange} {op : pointer_operand T}
    {tp : FixedType T} : operand_type_index root e.m_value_type.dims.length indices op = .ok tp ↔
      ∃ os, operandResolved e indices op = some os ∧ tp = ⟨newDims os op.target_tp.dims, op.target_tp.dtype⟩ := by
  unfold operand_type_index operandResolved
  split_ifs with hshort
  · rw [lastOf_short hshort, resolveAll, Except.ok.injEq]
    simp [eq_comm]
  · show pointer_type_index root (lastOf e op indices) op.target_tp = .ok tp ↔ _
    unfold pointer_type_index
    split_ifs with hnil
    · rw [hnil, resolveAll, Except.ok.injEq]
      simp [eq_comm]
    · constructor
      · intro h
        obtain ⟨dims, hdims, h⟩ := bind_eq_ok.1 h
        obtain ⟨os, hos, rfl⟩ := applyToType_ok.1 hdims
        exact ⟨os, hos, (Except.ok.inj h).symm⟩
      · rintro ⟨os, hos, rfl⟩
        exact bind_eq_ok.2 ⟨_, applyToType_ok.2 ⟨os, hos, rfl⟩, rfl⟩

theorem operand_arrmeta_ok {e : expr_array T V} {root : List dim_size_t} {indices : List irange} {op : pointer_operand T}
    {os : List Resolved} (hlen : op.arrmeta.length = op.ndim) (hos : operandResolved e indices op = some os) :
    operand_arrmeta_index root e.m_value_type.dims.length indices op ⟨newDims os op.target_tp.dims, op.target_tp.dtype⟩ =
      .ok (indexedOperand e indices op) := by
  rw [indexedOperand_eq hos]
  unfold operand_arrmeta_index
  unfold operandResolved at hos
  split_ifs with hshort
  · rw [lastOf_short hshort] at hos
    obtain rfl : [] = os := Option.some.inj hos
    rw [newArrmeta_nil, startOffset_nil, add_zero]
  · exact bind_eq_ok.2 ⟨_, applyToArrmeta_ok hlen hos, rfl⟩

/-- An expression is indexed when its value and every operand can be. -/
theorem apply_linear_index_ok {e : expr_array T V} (helwise : e.m_kgen.m_elwise = true)
    (hlen : ∀ op ∈ e.operands, op.arrmeta.length = op.ndim) {indices : List irange} {e' : expr_array T V} :
    apply_linear_index indices e = .ok e' ↔ ∃ os, resolveAll indices e.m_value_type.dims = some os ∧
      (∀ op ∈ e.operands, ∃ os', operandResolved e indices op = some os') ∧ e' = indexedExpr e indices os := by
  unfold apply_linear_index
  rw [if_pos helwise]
  have htypes : (∀ op ∈ e.operands, ∃ os', operandResolved e indices op = some os') →
      ∀ op ∈ e.operands, operand_type_index (root_shape e) e.m_value_type.dims.length indices op =
        .ok (indexedOperand e indices op).target_tp := by
    intro hall op hop
    obtain ⟨os', hos'⟩ := hall op hop
    rw [indexedOperand_eq hos']
    exact operand_type_ok.2 ⟨os', hos', rfl⟩
  have hoperands : (∀ op ∈ e.operands, ∃ os', operandResolved e indices op = some os') →
      (e.operands.zip (e.operands.map fun op => (indexedOperand e indices op).target_tp)).mapM
        (fun x => operand_arrmeta_index (root_shape e) e.m_value_type.dims.length indices x.1 x.2) =
          .ok (e.operands.map (indexedOperand e indices)) := by
    intro hall
    have hmap : (e.operands.zip (e.operands.map fun op => (indexedOperand e indices op).target_tp)).map
        (fun x => indexedOperand e indices x.1) = e.operands.map (indexedOperand e indices) := by
      rw [← List.map_prod_left_eq_zip, List.map_map]
      rfl
    rw [← hmap]
    refine mapM_eq_map ?_
    rw [← List.map_prod_left_eq_zip]
    refine List.forall_mem_map.2 fun op hop => ?_
    obtain ⟨os', hos'⟩ := hall op hop
    show operand_arrmeta_index _ _ _ op (indexedOperand e indices op).target_tp = _
    rw [indexedOperand_eq hos', operand_arrmeta_ok (hlen op hop) hos', indexedOperand_eq hos']
  constructor
  · intro h
    obtain ⟨dims, hdims, h⟩ := bind_eq_ok.1 h
    obtain ⟨types, ht, h⟩ := bind_eq_ok.1 h
    obtain ⟨operands, hops, h⟩ := bind_eq_ok.1 h
    obtain ⟨os, hos, rfl⟩ := applyToType_ok.1 (lift_ok.1 hdims)
    have hall : ∀ op ∈ e.operands, ∃ os', operandResolved e indices op = some os' := by
      intro op hop
      obtain ⟨tp, htp⟩ := ok_of_mapM (lift_ok.1 ht) op hop
      obtain ⟨os', hos', -⟩ := operand_type_ok.1 htp
      exact ⟨os', hos'⟩
    obtain rfl := Except.ok.inj ((mapM_eq_map (htypes hall)).symm.trans (lift_ok.1 ht))
    obtain rfl := Except.ok.inj ((hoperands hall).symm.trans (lift_ok.1 hops))
    exact ⟨os, hos, hall, (Except.ok.inj h).symm⟩
  · rintro ⟨os, hos, hall, rfl⟩
    refine bind_eq_ok.2 ⟨_, lift_ok.2 (applyToType_ok.2 ⟨os, hos, rfl⟩), ?_⟩
    refine bind_eq_ok.2 ⟨_, lift_ok.2 (mapM_eq_map (htypes hall)), ?_⟩
    exact bind_eq_ok.2 ⟨_, lift_ok.2 (hoperands hall), rfl⟩

theorem at_expr_ok {e : expr_array T V} (helwise : e.m_kgen.m_elwise = true)
    (hlen : ∀ op ∈ e.operands, op.arrmeta.length = op.ndim) {indices : List irange} {e' : expr_array T V} :
    at_expr indices e = .ok e' ↔ ∃ os, resolveAll indices e.m_value_type.dims = some os ∧
      (∀ op ∈ e.operands, ∃ os', operandResolved e indices op = some os') ∧ e' = indexedExpr e indices os := by
  unfold at_expr
  split_ifs with hdims hidx
  · rw [hdims]
    cases indices with
    | nil => exact absurd rfl hidx
    | cons r indices => simp [resolveAll]
  · obtain rfl : indices = [] := not_not.1 hidx
    have hresolved : ∀ op, operandResolved e [] op = some [] := by
      intro op
      rw [operandResolved, lastOf, List.drop_nil, resolveAll]
    have hsame : indexedExpr e [] [] = e := by
      have hoperands : e.operands.map (indexedOperand e []) = e.operands := by
        refine (List.map_congr_left fun op _ => ?_).trans (List.map_id _)
        rw [indexedOperand_eq (hresolved op), newDims_nil, newArrmeta_nil, startOffset_nil, add_zero]
        rfl
      rw [indexedExpr, newDims_nil, hoperands]
    constructor
    · intro h
      exact ⟨[], rfl, fun op _ => ⟨[], hresolved op⟩, by rw [hsame, Except.ok.inj h]⟩
    · rintro ⟨os, hos, -, rfl⟩
      obtain rfl : [] = os := Option.some.inj hos
      rw [hsame]
  · exact apply_linear_index_ok helwise hlen

end

/-! ## Lazy and eager indexing -/

/-- The indexed repeated dimensions of all operands. -/
def AtRepeated (e : expr_array T V) (indices : List irange) (P : irange → dim_size_t → size_stride_t → Prop) : Prop :=
  ∀ op ∈ e.operands, EachRepeated P (lastOf e op indices) (lastOf e op e.m_value_type.dims) op.arrmeta

/-- When indexing an expression is indexing its value. The value can be indexed at all only if its
ranges are resolved; six operands at most are evaluated, unless there is no dimension. -/
def IndexesAlike (e : expr_array T V) (indices : List irange) : Prop :=
  Indexable indices e.m_value_type.dims →
    if e.operands.length ≤ 6 then AtRepeated e indices fun r n m => Resolves r n m ∧ Kept r n m
    else e.m_value_type.dims = [] ∨ (SingleElement indices e.m_value_type.dims → ¬ AtRepeated e indices Resolves)

/-- The stride invariant of the operands: a dimension of size one has stride zero. -/
def StridesZero (e : expr_array T V) : Prop := ∀ op ∈ e.operands, ∀ m ∈ op.arrmeta, m.dim_size = 1 → m.stride = 0

section
variable {e : expr_array T V} (he : Elementwise e)
include he

omit [DecidableEq T] in
theorem Elementwise.length {op : pointer_operand T} (hop : op ∈ e.operands) : op.arrmeta.length = op.ndim :=
  (he.broadcasts op hop).length.2

omit [DecidableEq T] in
theorem Elementwise.prepared : Prepared e :=
  ⟨by have := he.two; omega, he.rdt, he.op_dts, fun op hop => ⟨he.ndim op hop, he.length hop⟩, he.no_bytes⟩

omit [DecidableEq T] in
theorem Elementwise.evaluable : Evaluable e ↔ e.m_value_type.dims = [] ∨ e.operands.length ≤ 6 :=
  ⟨fun h => h.count, fun h => ⟨h, fun op hop => ⟨he.ndim op hop, (he.broadcasts op hop).fits⟩⟩⟩

omit [DecidableEq T] in
theorem Elementwise.resolves {indices : List irange} {os : List Resolved} (hos : resolveAll indices e.m_value_type.dims = some os) :
    (∀ op ∈ e.operands, ∃ os', operandResolved e indices op = some os') ↔ AtRepeated e indices Resolves := by
  refine forall₂_congr fun op hop => ?_
  obtain ⟨hlast, -⟩ := drop_view (Nat.sub_le _ op.ndim) hos
  exact repeated_resolves (he.broadcasts op hop) hlast

section
variable {indices : List irange} {os : List Resolved} (hos : resolveAll indices e.m_value_type.dims = some os)
  (hall : ∀ op ∈ e.operands, ∃ os', operandResolved e indices op = some os')
include hos hall

omit [DecidableEq T] in
/-- An indexed operand beside the last dimensions of the indexed value. -/
theorem Elementwise.indexed_operand {op : pointer_operand T} (hop : op ∈ e.operands) :
    (indexedOperand e indices op).ndim ≤ (newDims os e.m_value_type.dims).length ∧
      (indexedOperand e indices op).arrmeta.length = (indexedOperand e indices op).ndim ∧
      (Fits (newDims os e.m_value_type.dims) (indexedOperand e indices op).source ↔
        List.Forall₂ FitsAxis (newDims (lastOf e op os) (lastOf e op e.m_value_type.dims)) (indexedOperand e indices op).arrmeta) ∧
      ∀ idx, lastOf e op (select os idx) =
        select (lastOf e op os) (lastOf (indexedExpr e indices os) (indexedOperand e indices op) idx) := by
  obtain ⟨os', hos'⟩ := hall op hop
  obtain ⟨hlast, k', hk', hdrop, hselect⟩ := drop_view (Nat.sub_le _ op.ndim) hos
  obtain ⟨hl, hl'⟩ := repeated_length (he.broadcasts op hop) hlast hos'
  have hsub : (newDims os e.m_value_type.dims).length - (newDims os' op.target_tp.dims).length = k' := by
    rw [hl]
    exact Nat.sub_eq_of_eq_add (by rw [← hk']; rfl)
  rw [indexedOperand_eq hos']
  refine ⟨?_, hl'.trans hl.symm, ?_, ?_⟩
  · show (newDims os' op.target_tp.dims).length ≤ _
    rw [hl, ← hk']
    exact Nat.le_add_left _ _
  · have hlast' : (newDims os e.m_value_type.dims).drop ((newDims os e.m_value_type.dims).length -
        (newDims os' op.target_tp.dims).length) = newDims (lastOf e op os) (lastOf e op e.m_value_type.dims) := by
      rw [hsub]
      exact hdrop
    rw [← hlast']
    refine ⟨fun h => h.axes, fun h => ⟨?_, h⟩⟩
    show (newDims os' op.target_tp.dims).length ≤ _
    rw [hl, ← hk']
    exact Nat.le_add_left _ _
  · intro idx
    show (select os idx).drop _ = select _ (idx.drop ((newDims os e.m_value_type.dims).length - (newDims os' op.target_tp.dims).length))
    rw [hsub]
    exact hselect idx

omit [DecidableEq T] in
theorem Elementwise.indexed_prepared : Prepared (indexedExpr e indices os) := by
  have htwo := he.two
  refine ⟨?_, he.rdt, ?_, ?_, he.no_bytes⟩
  · show 0 < (e.operands.map (indexedOperand e indices)).length
    rw [List.length_map]
    omega
  · show (e.operands.map (indexedOperand e indices)).map (·.target_tp.dtype) = e.m_kgen.m_op_dts
    rw [List.map_map, ← he.op_dts]
    rfl
  · refine List.forall_mem_map.2 fun op hop => ?_
    obtain ⟨hndim, hlen, -⟩ := he.indexed_operand hos hall hop
    exact ⟨hndim, hlen⟩

omit [DecidableEq T] in
/-- The indexed expression can be evaluated when six operands are enough for it and they still fit. -/
theorem Elementwise.indexed_evaluable : Evaluable (indexedExpr e indices os) ↔
    (newDims os e.m_value_type.dims = [] ∨ e.operands.length ≤ 6) ∧ ∀ op ∈ e.operands,
      List.Forall₂ FitsAxis (newDims (lastOf e op os) (lastOf e op e.m_value_type.dims)) (indexedOperand e indices op).arrmeta := by
  have hfits : (∀ op ∈ (indexedExpr e indices os).operands, Fits (indexedExpr e indices os).m_value_type.dims op.source) ↔
      ∀ op ∈ e.operands, List.Forall₂ FitsAxis (newDims (lastOf e op os) (lastOf e op e.m_value_type.dims))
        (indexedOperand e indices op).arrmeta := by
    refine List.forall_mem_map.trans (forall₂_congr fun op hop => ?_)
    exact (he.indexed_operand hos hall hop).2.2.1
  rw [← hfits]
  constructor
  · rintro ⟨hcount, hops⟩
    exact ⟨by rwa [indexedExpr, List.length_map] at hcount, hops⟩
  · rintro ⟨hcount, hops⟩
    exact ⟨by rwa [indexedExpr, List.length_map], hops⟩

omit [DecidableEq T] in
/-- Where the repeated dimensions are kept, the indexed expression has the value's elements. -/
theorem Elementwise.indexed_value (hkept : AtRepeated e indices Kept) :
    (∀ op ∈ e.operands, List.Forall₂ FitsAxis (newDims (lastOf e op os) (lastOf e op e.m_value_type.dims))
        (indexedOperand e indices op).arrmeta) ∧
      ∀ idx ∈ multiIndices (sizes (newDims os e.m_value_type.dims)), ∀ mem,
        valueAt (indexedExpr e indices os) mem idx = valueAt e mem (select os idx) := by
  have hview : ∀ op ∈ e.operands, List.Forall₂ FitsAxis (newDims (lastOf e op os) (lastOf e op e.m_value_type.dims))
      (indexedOperand e indices op).arrmeta ∧ ∀ idx ∈ multiIndices (sizes (newDims os e.m_value_type.dims)),
        (indexedOperand e indices op).offset + strideOffset (indexedOperand e indices op).arrmeta
          (lastOf (indexedExpr e indices os) (indexedOperand e indices op) idx) =
            op.offset + strideOffset op.arrmeta (lastOf e op (select os idx)) := by
    intro op hop
    obtain ⟨os', hos'⟩ := hall op hop
    obtain ⟨hlast, k', hk', hdrop, -⟩ := drop_view (Nat.sub_le _ op.ndim) hos
    obtain ⟨hfits, hread⟩ := repeated_view (he.broadcasts op hop) hlast hos' (hkept op hop)
    obtain ⟨-, -, -, hselect⟩ := he.indexed_operand hos hall hop
    obtain ⟨hl, -⟩ := repeated_length (he.broadcasts op hop) hlast hos'
    have hsub : (newDims os e.m_value_type.dims).length - (newDims os' op.target_tp.dims).length = k' := by
      rw [hl]
      exact Nat.sub_eq_of_eq_add (by rw [← hk']; rfl)
    refine ⟨by rw [indexedOperand_eq hos']; exact hfits, fun idx hidx => ?_⟩
    have hmem : lastOf (indexedExpr e indices os) (indexedOperand e indices op) idx ∈
        multiIndices (sizes (newDims (lastOf e op os) (lastOf e op e.m_value_type.dims))) := by
      have h := drop_mem_multiIndices (k := k') hidx
      rw [indexedOperand_eq hos']
      show idx.drop ((newDims os e.m_value_type.dims).length - (newDims os' op.target_tp.dims).length) ∈ _
      rw [hsub]
      rw [sizes, ← List.map_drop, hdrop] at h
      exact h
    have hsame : strideOffset op.arrmeta
        (select (lastOf e op os) (lastOf (indexedExpr e indices os) (indexedOperand e indices op) idx)) =
        startOffset os' op.arrmeta +
          strideOffset (newArrmeta os' op.arrmeta) (lastOf (indexedExpr e indices os) (indexedOperand e indices op) idx) :=
      hread _ hmem
    rw [hselect idx, hsame, indexedOperand_eq hos', add_assoc]
  refine ⟨fun op hop => (hview op hop).1, fun idx hidx mem => ?_⟩
  have haddresses : operandAddresses (indexedExpr e indices os) idx = operandAddresses e (select os idx) := by
    unfold operandAddresses
    show (e.operands.map (indexedOperand e indices)).map _ = _
    rw [List.map_map]
    refine List.map_congr_left fun op hop => ?_
    show op.data + _ = op.data + _
    rw [← (hview op hop).2 idx hidx]
  unfold valueAt
  rw [haddresses]
  rfl

end

/-- The expression is indexed and evaluated when its repeated dimensions can be indexed and still fit. -/
theorem Elementwise.lazy_ok {indices : List irange} (mem : ℤ → V) (data : ℤ) {a : Stored T V} :
    lazy_index indices e mem data = .ok a ↔ ∃ os, resolveAll indices e.m_value_type.dims = some os ∧
      (∀ op ∈ e.operands, ∃ os', operandResolved e indices op = some os') ∧ eval (indexedExpr e indices os) mem data = .ok a := by
  have hlen : ∀ op ∈ e.operands, op.arrmeta.length = op.ndim := fun op hop => he.length hop
  unfold lazy_index
  constructor
  · intro h
    obtain ⟨e', he', h⟩ := bind_eq_ok.1 h
    obtain ⟨os, hos, hall, rfl⟩ := (at_expr_ok he.elwise hlen).1 he'
    exact ⟨os, hos, hall, h⟩
  · rintro ⟨os, hos, hall, h⟩
    exact bind_eq_ok.2 ⟨_, (at_expr_ok he.elwise hlen).2 ⟨os, hos, hall, rfl⟩, h⟩

/-- The value is evaluated and indexed when its ranges are resolved; its elements are the ones they denote. -/
theorem Elementwise.eager_ok {indices : List irange} (mem : ℤ → V) (data : ℤ) {b : Stored T V} :
    eager_index indices e mem data = .ok b ↔ ∃ os value, resolveAll indices e.m_value_type.dims = some os ∧
      eval e mem data = .ok value ∧ b = ⟨⟨⟨newDims os e.m_value_type.dims, e.m_value_type.dtype⟩,
        newArrmeta os value.array.arrmeta, data + startOffset os value.array.arrmeta⟩, value.memory⟩ := by
  have hlen : (FixedDim.empty e.m_value_type data).arrmeta.length = (FixedDim.empty e.m_value_type data).tp.dims.length :=
    default_length e.m_value_type.dtype e.m_value_type.dims
  have harray := fun value h => ((eval_spec he.prepared mem data).2 value h).1
  unfold eager_index
  constructor
  · intro h
    obtain ⟨value, hvalue, h⟩ := bind_eq_ok.1 h
    obtain ⟨view, hview, h⟩ := bind_eq_ok.1 h
    rw [lift_ok, harray value hvalue, at_array_ok hlen] at hview
    obtain ⟨os, hos, rfl⟩ := hview
    exact ⟨os, value, hos, hvalue, by rw [harray value hvalue]; exact (Except.ok.inj h).symm⟩
  · rintro ⟨os, value, hos, hvalue, rfl⟩
    refine bind_eq_ok.2 ⟨value, hvalue, bind_eq_ok.2 ⟨_, ?_, rfl⟩⟩
    rw [lift_ok, harray value hvalue, at_array_ok hlen]
    exact ⟨os, hos, rfl⟩

/-- The elements of the indexed value. -/
theorem Elementwise.eager_elements {indices : List irange} {mem : ℤ → V} {data : ℤ} {os : List Resolved} {value : Stored T V}
    (hos : resolveAll indices e.m_value_type.dims = some os) (hvalue : eval e mem data = .ok value) :
    Stored.elements ⟨⟨⟨newDims os e.m_value_type.dims, e.m_value_type.dtype⟩, newArrmeta os value.array.arrmeta,
        data + startOffset os value.array.arrmeta⟩, value.memory⟩ =
      (multiIndices (sizes (newDims os e.m_value_type.dims))).map fun idx => some (valueAt e mem (select os idx)) := by
  obtain ⟨harray, hmemory⟩ := (eval_spec he.prepared mem data).2 value hvalue
  refine List.map_congr_left fun idx hidx => ?_
  have hlen : (FixedDim.empty e.m_value_type data).arrmeta.length = e.m_value_type.dims.length :=
    default_length e.m_value_type.dtype e.m_value_type.dims
  rw [← hmemory _ (select_mem hos hidx), strideOffset_select hlen hos hidx, harray, add_assoc]

/-- The elements of the evaluated indexed expression. -/
theorem Elementwise.lazy_elements {indices : List irange} {mem : ℤ → V} {data : ℤ} {os : List Resolved} {a : Stored T V}
    (hos : resolveAll indices e.m_value_type.dims = some os) (hall : ∀ op ∈ e.operands, ∃ os', operandResolved e indices op = some os')
    (h : eval (indexedExpr e indices os) mem data = .ok a) :
    a.array.tp = ⟨newDims os e.m_value_type.dims, e.m_value_type.dtype⟩ ∧
      a.elements = (multiIndices (sizes (newDims os e.m_value_type.dims))).map fun idx =>
        some (valueAt (indexedExpr e indices os) mem idx) := by
  obtain ⟨harray, hmemory⟩ := (eval_spec (he.indexed_prepared hos hall) mem data).2 a h
  refine ⟨by rw [harray]; rfl, ?_⟩
  unfold Stored.elements
  rw [harray]
  exact List.map_congr_left fun idx hidx => hmemory idx hidx

/-- With its repeated dimensions kept, and enough for the evaluation, the two orders give one array. -/
theorem Elementwise.same_array {indices : List irange} {os : List Resolved} (hos : resolveAll indices e.m_value_type.dims = some os)
    (hcount : e.m_value_type.dims = [] ∨ e.operands.length ≤ 6) (hresolves : AtRepeated e indices Resolves)
    (hkept : AtRepeated e indices Kept) (mem : ℤ → V) (data data' : ℤ) :
    SameArray (lazy_index indices e mem data) (eager_index indices e mem data') := by
  have hall := (he.resolves hos).2 hresolves
  obtain ⟨hfits, hvalues⟩ := he.indexed_value hos hall hkept
  have hcount' : newDims os e.m_value_type.dims = [] ∨ e.operands.length ≤ 6 := by
    rcases hcount with hnil | h6
    · rw [hnil]
      exact .inl (by cases os <;> rfl)
    · exact .inr h6
  obtain ⟨a, ha⟩ := (eval_spec (he.indexed_prepared hos hall) mem data).1.2 ((he.indexed_evaluable hos hall).2 ⟨hcount', hfits⟩)
  obtain ⟨value, hvalue⟩ := (eval_spec he.prepared mem data').1.2 (he.evaluable.2 hcount)
  obtain ⟨htp, helements⟩ := he.lazy_elements hos hall ha
  unfold SameArray
  rw [(he.lazy_ok mem data).2 ⟨os, hos, hall, ha⟩, (he.eager_ok mem data').2 ⟨os, value, hos, hvalue, rfl⟩]
  refine .ok ⟨htp, ?_⟩
  rw [helements, he.eager_elements hos hvalue]
  exact List.map_congr_left fun idx hidx => congrArg some (hvalues idx hidx mem)

end

omit [ElementType T] [DecidableEq T] in
theorem not_ok {x : Except (expr_error T) (Stored T V)} (h : ∀ a, x ≠ .ok a) : ∃ e, x = .error e := by
  cases x with
  | error e => exact ⟨e, rfl⟩
  | ok a => exact absurd rfl (h a)

omit [ElementType T] [DecidableEq T] in
/-- Two runs that both throw. -/
theorem same_of_errors {x y : Except (expr_error T) (Stored T V)} (hx : ∀ a, x ≠ .ok a) (hy : ∀ b, y ≠ .ok b) : SameArray x y := by
  obtain ⟨e, rfl⟩ := not_ok hx
  obtain ⟨e', rfl⟩ := not_ok hy
  exact .error e e'

omit [ElementType T] [DecidableEq T] in
theorem SameArray.ok_iff {x y : Except (expr_error T) (Stored T V)} (h : SameArray x y) :
    (∃ a, x = .ok a) ↔ ∃ b, y = .ok b := by
  cases h with
  | ok => exact ⟨fun _ => ⟨_, rfl⟩, fun _ => ⟨_, rfl⟩⟩
  | error e e' => simp

section
variable {e : expr_array T V} {indices : List irange} (he : Elementwise e)

omit [ElementType T] [DecidableEq T] in
theorem atRepeated_and {P Q : irange → dim_size_t → size_stride_t → Prop} :
    AtRepeated e indices (fun r n m => P r n m ∧ Q r n m) ↔ AtRepeated e indices P ∧ AtRepeated e indices Q := by
  unfold AtRepeated
  simp only [eachRepeated_and]
  exact forall₂_and

omit [ElementType T] [DecidableEq T] in
/-- Where the value has no dimension, no operand has one that is repeated. -/
theorem atRepeated_nil (h : e.m_value_type.dims = []) (P : irange → dim_size_t → size_stride_t → Prop) : AtRepeated e indices P := by
  intro op _
  unfold lastOf
  rw [h, List.drop_nil]
  cases indices.drop (([] : List dim_size_t).length - op.ndim) <;> trivial

include he

theorem Elementwise.eager_isOk (mem : ℤ → V) (data : ℤ) : (∃ b, eager_index indices e mem data = .ok b) ↔
    Indexable indices e.m_value_type.dims ∧ (e.m_value_type.dims = [] ∨ e.operands.length ≤ 6) := by
  rw [← resolveAll_isSome, ← he.evaluable, ← (eval_spec he.prepared mem data).1]
  constructor
  · rintro ⟨b, hb⟩
    obtain ⟨os, value, hos, hvalue, -⟩ := (he.eager_ok mem data).1 hb
    exact ⟨⟨os, hos⟩, ⟨value, hvalue⟩⟩
  · rintro ⟨⟨os, hos⟩, ⟨value, hvalue⟩⟩
    exact ⟨_, (he.eager_ok mem data).2 ⟨os, value, hos, hvalue, rfl⟩⟩

theorem Elementwise.lazy_isOk {os : List Resolved} (hos : resolveAll indices e.m_value_type.dims = some os) (mem : ℤ → V) (data : ℤ) :
    (∃ a, lazy_index indices e mem data = .ok a) ↔ AtRepeated e indices Resolves ∧ Evaluable (indexedExpr e indices os) := by
  rw [← he.resolves hos]
  constructor
  · rintro ⟨a, ha⟩
    obtain ⟨os', hos', hall, heval⟩ := (he.lazy_ok mem data).1 ha
    obtain rfl := Option.some.inj (hos.symm.trans hos')
    exact ⟨hall, (eval_spec (he.indexed_prepared hos hall) mem data).1.1 ⟨a, heval⟩⟩
  · rintro ⟨hall, heval⟩
    obtain ⟨a, ha⟩ := (eval_spec (he.indexed_prepared hos hall) mem data).1.2 heval
    exact ⟨a, (he.lazy_ok mem data).2 ⟨os, hos, hall, ha⟩⟩

omit [DecidableEq T] in
/-- Operands of stride zero where they are repeated fit only if they are kept. -/
theorem Elementwise.kept_of_evaluable {os : List Resolved} (hos : resolveAll indices e.m_value_type.dims = some os)
    (hzero : StridesZero e) (hresolves : AtRepeated e indices Resolves) (heval : Evaluable (indexedExpr e indices os)) :
    AtRepeated e indices Kept := by
  have hall := (he.resolves hos).2 hresolves
  obtain ⟨-, hfits⟩ := (he.indexed_evaluable hos hall).1 heval
  intro op hop
  obtain ⟨os', hos'⟩ := hall op hop
  obtain ⟨hlast, -⟩ := drop_view (Nat.sub_le _ op.ndim) hos
  have hfit := hfits op hop
  rw [indexedOperand_eq hos'] at hfit
  exact repeated_kept (he.broadcasts op hop) (hzero op hop) hlast hos' hfit

omit [DecidableEq T] in
/-- A single index for every dimension leaves nothing that could not fit. -/
theorem Elementwise.single_evaluable {os : List Resolved} (hos : resolveAll indices e.m_value_type.dims = some os)
    (hsingle : SingleElement indices e.m_value_type.dims) (hresolves : AtRepeated e indices Resolves) :
    Evaluable (indexedExpr e indices os) := by
  have hall := (he.resolves hos).2 hresolves
  have hnil : newDims os e.m_value_type.dims = [] := (newDims_eq_nil hos).2 hsingle
  refine ⟨.inl hnil, List.forall_mem_map.2 fun op hop => ?_⟩
  obtain ⟨hndim, hlen, -⟩ := he.indexed_operand hos hall hop
  rw [hnil, List.length_nil, Nat.le_zero] at hndim
  rw [hndim] at hlen
  refine ⟨hndim.le.trans (Nat.zero_le _), ?_⟩
  show List.Forall₂ FitsAxis ((newDims os e.m_value_type.dims).drop _) (indexedOperand e indices op).arrmeta
  rw [hnil, List.drop_nil, List.length_eq_zero_iff.1 hlen]
  exact .nil

end

/-- `1 * int32` at address 64. -/
def one : FixedArray Element := FixedDim.empty firstOfThree.tp 64

def sum : expr_kernel_generator Element ℤ := ⟨true, "sum", int32, [int32, int32], List.sum⟩

/-- `3 * int32` and `1 * int32`, added. -/
def threePlusOne : expr_array Element ℤ :=
  ⟨three.tp, [⟨three.tp, 0, three.arrmeta, three.data⟩, ⟨one.tp, 0, one.arrmeta, one.data⟩], sum⟩

theorem threePlusOne_elementwise : Elementwise threePlusOne := by
  refine ⟨rfl, le_rfl, rfl, rfl, ?_, ?_, ?_⟩
  · exact List.forall_mem_cons.2 ⟨le_rfl, List.forall_mem_singleton.2 le_rfl⟩
  · exact List.forall_mem_cons.2 ⟨.cons (.inl rfl) rfl .nil, List.forall_mem_singleton.2 (.cons (.inr rfl) rfl .nil)⟩
  · intro h
    cases h

theorem threePlusOne_strides : StridesZero threePlusOne := by
  refine List.forall_mem_cons.2 ⟨?_, List.forall_mem_singleton.2 ?_⟩
  · exact List.forall_mem_singleton.2 fun h => absurd h (by decide)
  · exact List.forall_mem_singleton.2 fun _ => rfl

theorem intptrRange_zero : IntptrRange 0 := by decide

/-- A single index. -/
def at_index (i : intptr_t) : irange := ⟨i, ⟨0, intptrRange_zero⟩, ⟨0, intptrRange_zero⟩⟩

theorem inBounds_at_index {i : intptr_t} {n : ℤ} : (at_index i).InBounds n ↔ -n ≤ i.val ∧ i.val < n := by
  unfold irange.InBounds at_index
  simp

end Dynd.ExprType
