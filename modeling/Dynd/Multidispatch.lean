import Mathlib.Data.List.FinRange
import Mathlib.Data.Fintype.Card
import Dynd.Lib.Except
import Dynd.Lib.TopologicalOrder
/-!
# Multiple dispatch

`old_multidispatch` sorts the arrfuncs it is given topologically and checks their
signatures for ambiguities; a call then takes the first arrfunc that the types of
its sources convert to.
-/
namespace Dynd.Multidispatch
open Lib

/-! ## Types -/

/-- In the order of the enumeration, which the edges of the graph compare. -/
inductive type_kind_t where
  | bool_kind | uint_kind | sint_kind | real_kind | complex_kind | void_kind | char_kind | string_kind | bytes_kind
  | datetime_kind | type_kind | dim_kind | struct_kind | tuple_kind | dynamic_kind | expr_kind | option_kind | memory_kind
  | function_kind | kind_kind | pattern_kind | custom_kind
deriving DecidableEq, Repr

inductive builtin_type_id where
  | uninitialized | bool | int8 | int16 | int32 | int64 | int128 | uint8 | uint16 | uint32 | uint64 | uint128
  | float16 | float32 | float64 | float128 | complex_float32 | complex_float64 | void
deriving DecidableEq, Repr

def builtin_data_sizes : builtin_type_id → ℕ
  | .uninitialized | .void => 0
  | .bool | .int8 | .uint8 => 1
  | .int16 | .uint16 | .float16 => 2
  | .int32 | .uint32 | .float32 => 4
  | .int64 | .uint64 | .float64 | .complex_float32 => 8
  | .int128 | .uint128 | .float128 | .complex_float64 => 16

def builtin_kinds : builtin_type_id → type_kind_t
  | .uninitialized | .void => .void_kind
  | .bool => .bool_kind
  | .int8 | .int16 | .int32 | .int64 | .int128 => .sint_kind
  | .uint8 | .uint16 | .uint32 | .uint64 | .uint128 => .uint_kind
  | .float16 | .float32 | .float64 | .float128 => .real_kind
  | .complex_float32 | .complex_float64 => .complex_kind

/-- A builtin type, or a type object of some class in `E`. -/
inductive type (E : Type) where
  | builtin (id : builtin_type_id)
  | extended (tp : E)
deriving DecidableEq, Repr

/-- What the type objects answer. `typevars` is the map that `match` may add to. -/
class base_type (E : Type) (Typevars : outParam Type) where
  get_kind : E → type_kind_t
  get_data_size : E → ℕ
  get_ndim : E → ℕ
  get_dtype : E → type E
  is_symbolic : E → Bool
  match_type : E → type E → Typevars → Bool × Typevars
  no_typevars : Typevars

section
variable {E V : Type} [DecidableEq E] [base_type E V]

namespace type

def get_kind : type E → type_kind_t
  | builtin id => builtin_kinds id
  | extended tp => base_type.get_kind tp

def get_data_size : type E → ℕ
  | builtin id => builtin_data_sizes id
  | extended tp => base_type.get_data_size tp

def get_ndim : type E → ℕ
  | builtin _ => 0
  | extended tp => base_type.get_ndim tp

def get_dtype : type E → type E
  | builtin id => builtin id
  | extended tp => base_type.get_dtype tp

def is_symbolic : type E → Bool
  | builtin _ => false
  | extended tp => base_type.is_symbolic tp

/-- Of two different types: builtin types only match against themselves. -/
def match_type : type E → type E → V → Bool × V
  | builtin _, _, typevars => (false, typevars)
  | extended tp, candidate_tp, typevars => base_type.match_type tp candidate_tp typevars

end type

/-- The conversions between two types without dimensions. -/
def dtype_converts (src dst : type E) : Bool :=
  if src = dst then true
  else if src.get_kind = .uint_kind && dst.get_kind ∈ [.uint_kind, .sint_kind, .real_kind] then
    src.get_data_size < dst.get_data_size
  else if src.get_kind = .sint_kind && dst.get_kind ∈ [.sint_kind, .real_kind] then
    src.get_data_size < dst.get_data_size
  else if src.get_kind = .real_kind && dst.get_kind = .real_kind then
    src.get_data_size < dst.get_data_size
  else if src.get_kind = .real_kind && dst.get_kind = .complex_kind then
    src.get_data_size * 2 ≤ dst.get_data_size
  else false

/-- The dtypes that the recursive call gets have no dimensions. -/
def can_implicitly_convert (src dst : type E) (typevars : V) : Bool × V :=
  if src = dst then (true, typevars)
  else if 0 < src.get_ndim || 0 < dst.get_ndim then
    let (matched, typevars) := src.match_type dst typevars
    (matched && dtype_converts src.get_dtype dst.get_dtype, typevars)
  else (dtype_converts src dst, typevars)

theorem can_implicitly_convert_self (tp : type E) (typevars : V) : (can_implicitly_convert tp tp typevars).1 = true := by
  simp [can_implicitly_convert]

/-! ## Signatures -/

structure arrfunc_type (E : Type) where
  pos_types : List (type E)
  kwd_types : List (String × type E)
  return_type : type E
deriving DecidableEq

/-- An arrfunc: its type, and whatever the object itself holds. -/
structure arrfunc (E F : Type) where
  tp : arrfunc_type E
  data : F

namespace arrfunc
variable {F : Type}

def get_npos (af : arrfunc E F) : ℕ := af.tp.pos_types.length

def get_nkwd (af : arrfunc E F) : ℕ := af.tp.kwd_types.length

def get_narg (af : arrfunc E F) : ℕ := af.get_npos + af.get_nkwd

end arrfunc

variable {F : Type}

/-- The loop of `supercedes` and `toposort_edge`: neither has keywords, and every pair of positional types passes. -/
def each_position (lhs rhs : arrfunc E F) (passes : type E → type E → Bool) : Bool :=
  if 0 < lhs.get_nkwd || 0 < rhs.get_nkwd then false
  else if lhs.get_npos = rhs.get_npos then
    (lhs.tp.pos_types.zip rhs.tp.pos_types).all fun (lpt, rpt) => passes lpt rpt
  else false

def converts (lpt rpt : type E) : Bool := (can_implicitly_convert lpt rpt (base_type.no_typevars E)).1

def supercedes (lhs rhs : arrfunc E F) : Bool := each_position lhs rhs converts

def toposort_edge (lhs rhs : arrfunc E F) : Bool :=
  each_position lhs rhs fun lpt rpt => !(rpt.get_kind.ctorIdx ≤ lpt.get_kind.ctorIdx && !converts lpt rpt)

/-- The counts are of the positions at which the one converts to the other. -/
def ambiguous (lhs rhs : arrfunc E F) : Bool :=
  if 0 < lhs.get_nkwd || 0 < rhs.get_nkwd then false
  else if lhs.get_npos = rhs.get_npos then
    let npos := lhs.get_npos
    let positions := lhs.tp.pos_types.zip rhs.tp.pos_types
    let lsupercount := positions.countP fun (lpt, rpt) => converts lpt rpt
    let rsupercount := positions.countP fun (lpt, rpt) => converts rpt lpt
    positions.all (fun (lpt, rpt) => converts lpt rpt || converts rpt lpt) &&
      ((lsupercount ≠ npos && rsupercount ≠ npos) || lsupercount = rsupercount)
  else false

/-! ## Sorting -/

/-- The text of an exception, and the signatures that it names. -/
structure invalid_argument (E : Type) where
  what : String
  signatures : List (arrfunc_type E)
deriving DecidableEq

section
variable {naf : ℕ} (af : Fin naf → arrfunc E F)

/-- The first pair that the loops of `get_graph` stop at. -/
def same_signature : Option (Fin naf × Fin naf) :=
  ((List.finRange naf).product (List.finRange naf)).find? fun (i, j) =>
    i ≠ j && toposort_edge (af i) (af j) && toposort_edge (af j) (af i)

def get_graph : Except (invalid_argument E) (Fin naf → List (Fin naf)) :=
  match same_signature af with
  | some (i, j) =>
    .error ⟨"Multidispatch provided with two arrfunc signatures matching the same types: ", [(af i).tp, (af j).tp]⟩
  | none => .ok fun i => (List.finRange naf).filter fun j => i ≠ j && toposort_edge (af i) (af j)

/-- The marks that stay, and what has been sorted so far. -/
structure toposort_state (E F : Type) (naf : ℕ) where
  mark : Fin naf → Bool
  sorted_af : List (arrfunc E F)

/-- The temporary marks are those of the visits that are going on. -/
def toposort_visit (adjlist : Fin naf → List (Fin naf)) (temp_mark : Finset (Fin naf)) (n : Fin naf)
    (s : toposort_state E F naf) : Except (invalid_argument E) (toposort_state E F naf) :=
  if n ∈ temp_mark then
    .error ⟨"Detected a graph loop trying to topologically sort arrfunc signatures for a multidispatch arrfunc", []⟩
  else if s.mark n then .ok s
  else do
    let s ← (adjlist n).foldlM (fun s it => toposort_visit adjlist (insert n temp_mark) it s) s
    .ok ⟨Function.update s.mark n true, s.sorted_af ++ [af n]⟩
termination_by naf - temp_mark.card
decreasing_by
  rename_i hn _
  have hle : (insert n temp_mark).card ≤ naf := by simpa using Finset.card_le_univ (insert n temp_mark)
  rw [Finset.card_insert_of_notMem hn] at hle ⊢
  omega

def toposort (adjlist : Fin naf → List (Fin naf)) : Except (invalid_argument E) (List (arrfunc E F)) := do
  let s ← (List.finRange naf).foldlM
    (fun s n => if s.mark n then .ok s else toposort_visit af adjlist ∅ n s) ⟨fun _ => false, []⟩
  .ok s.sorted_af.reverse

def sort_arrfuncs : Except (invalid_argument E) (List (arrfunc E F)) := do
  let adjlist ← get_graph af
  toposort af adjlist

end

/-- The pairs whose first arrfunc is in the list, with `before` in front of it. -/
def get_ambiguous_pairs (before : List (arrfunc E F)) : List (arrfunc E F) → List (arrfunc E F × arrfunc E F)
  | [] => []
  | i :: rest =>
    (rest.filter fun j => ambiguous i j && !before.any fun k => supercedes k i && supercedes k j).map (i, ·) ++
      get_ambiguous_pairs (before ++ [i]) rest

/-- The sorted arrfuncs are what the kernel holds. -/
def old_multidispatch : List (arrfunc E F) → Except (invalid_argument E) (List (arrfunc E F))
  | [] => .error ⟨"Require one or more functions to create a multidispatch arrfunc", []⟩
  | child :: rest =>
    let child_af := child :: rest
    match rest.find? fun af => child.get_narg ≠ af.get_narg with
    | some af =>
      .error ⟨"All child arrfuncs must have the same number of arguments to generate a multidispatch arrfunc, differing: ",
        [child.tp, af.tp]⟩
    | none => do
      let sorted_af ← sort_arrfuncs child_af.get
      let ambig_pairs := get_ambiguous_pairs [] sorted_af
      if ambig_pairs = [] then .ok sorted_af
      else .error ⟨"Arrfuncs provided to create multidispatch arrfunc have ambiguous case(s):\n",
        ambig_pairs.flatMap fun (i, j) => [i.tp, j.tp]⟩

/-! ## Calling -/

/-- One type after the other, with one map of typevars. The sources are as many as the arguments of the arrfunc. -/
def accepts : List (type E) → List (type E) → V → Bool
  | _, [], _ => true
  | [], _ :: _, _ => false
  | src_tp :: src_tps, pos_tp :: pos_tps, typevars =>
    let (converts, typevars) := can_implicitly_convert src_tp pos_tp typevars
    converts && accepts src_tps pos_tps typevars

/-- The arrfunc that `old_multidispatch_ck::instantiate` takes. -/
def selected (icd : List (arrfunc E F)) (src_tp : List (type E)) : Option (arrfunc E F) :=
  icd.find? fun af => accepts src_tp af.tp.pos_types (base_type.no_typevars E)

inductive ckernel (E F : Type) where
  | direct (child : arrfunc E F)
  | buffered (child : arrfunc E F)

/-- Sources that are not of the types of the arrfunc are converted through buffers. -/
def instantiate (icd : List (arrfunc E F)) (src_tp : List (type E)) : Except (invalid_argument E) (ckernel E F) :=
  match selected icd src_tp with
  | some af =>
    if (src_tp.zip af.tp.pos_types).all fun (src, arg_tp) => arg_tp.is_symbolic || src = arg_tp then .ok (.direct af)
    else .ok (.buffered af)
  | none => .error ⟨"No matching signature found in multidispatch arrfunc", []⟩

end

/-! ## What the sorting does -/

section
variable {E F : Type} {naf : ℕ} (af : Fin naf → arrfunc E F) (adjlist : Fin naf → List (Fin naf))

/-- The nodes of `out` have been pushed, each after everything it has an edge to. -/
structure Pushed (out : List (Fin naf)) (s : toposort_state E F naf) : Prop where
  mark : ∀ n, s.mark n = true ↔ n ∈ out
  sorted : s.sorted_af = out.map af
  nodup : out.Nodup
  closed : ∀ a ∈ out, ∀ b ∈ adjlist a, b ∈ out
  ordered : out.Pairwise fun a b => b ∉ adjlist a

variable {af adjlist}

theorem Pushed.push {out : List (Fin naf)} {s : toposort_state E F naf} (h : Pushed af adjlist out s) {n : Fin naf}
    (hn : n ∉ out) (hadj : ∀ b ∈ adjlist n, b ∈ out) :
    Pushed af adjlist (out ++ [n]) ⟨Function.update s.mark n true, s.sorted_af ++ [af n]⟩ where
  mark m := by
    by_cases hm : m = n
    · simp [hm]
    · simp [hm, h.mark]
  sorted := by simp [h.sorted]
  nodup := by
    rw [List.nodup_append]
    exact ⟨h.nodup, List.nodup_singleton n, by rintro a ha b hb rfl; exact hn (List.mem_singleton.1 hb ▸ ha)⟩
  closed a ha b hb := by
    rw [List.mem_append, List.mem_singleton] at ha
    rcases ha with ha | rfl
    · exact List.mem_append_left _ (h.closed a ha b hb)
    · exact List.mem_append_left _ (hadj b hb)
  ordered := by
    rw [List.pairwise_append]
    refine ⟨h.ordered, List.pairwise_singleton _ n, fun a ha b hb hab => ?_⟩
    rw [List.mem_singleton.1 hb] at hab
    exact hn (h.closed a ha n hab)

/-- A loop of visits pushes what its nodes need and leaves the nodes with a temporary mark alone. -/
theorem visits_spec (temp : Finset (Fin naf))
    {visit : toposort_state E F naf → Fin naf → Except (invalid_argument E) (toposort_state E F naf)}
    (hvisit : ∀ n out s s', Pushed af adjlist out s → visit s n = .ok s' →
      ∃ new, Pushed af adjlist (out ++ new) s' ∧ n ∈ out ++ new ∧ ∀ t ∈ temp, t ∉ new)
    {nodes : List (Fin naf)} {out : List (Fin naf)} {s s' : toposort_state E F naf} (hs : Pushed af adjlist out s)
    (h : nodes.foldlM visit s = .ok s') :
    ∃ new, Pushed af adjlist (out ++ new) s' ∧ (∀ n ∈ nodes, n ∈ out ++ new) ∧ ∀ t ∈ temp, t ∉ new := by
  induction nodes generalizing out s with
  | nil =>
    obtain rfl : s = s' := Except.ok.inj h
    exact ⟨[], by simpa using hs, by simp, by simp⟩
  | cons n nodes ih =>
    rw [List.foldlM_cons] at h
    cases hn : visit s n with
    | error e => simp [hn, error_bind] at h
    | ok s₁ =>
      rw [hn, ok_bind] at h
      obtain ⟨new₁, hs₁, hmem₁, htemp₁⟩ := hvisit n out s s₁ hs hn
      obtain ⟨new₂, hs₂, hmem₂, htemp₂⟩ := ih hs₁ h
      rw [List.append_assoc] at hs₂ hmem₂
      refine ⟨new₁ ++ new₂, hs₂, ?_, ?_⟩
      · rw [List.forall_mem_cons]
        exact ⟨by rw [← List.append_assoc]; exact List.mem_append_left _ hmem₁, hmem₂⟩
      · intro t ht hnew
        rcases List.mem_append.1 hnew with hnew | hnew
        · exact htemp₁ t ht hnew
        · exact htemp₂ t ht hnew

theorem visit_decreases {temp : Finset (Fin naf)} {n : Fin naf} (hn : n ∉ temp) :
    naf - (insert n temp).card < naf - temp.card := by
  have hle : (insert n temp).card ≤ naf := by simpa using Finset.card_le_univ (insert n temp)
  rw [Finset.card_insert_of_notMem hn] at hle ⊢
  omega

theorem toposort_visit_spec {temp : Finset (Fin naf)} {n : Fin naf} {out : List (Fin naf)} {s s' : toposort_state E F naf}
    (hs : Pushed af adjlist out s) (h : toposort_visit af adjlist temp n s = .ok s') :
    ∃ new, Pushed af adjlist (out ++ new) s' ∧ n ∈ out ++ new ∧ ∀ t ∈ temp, t ∉ new := by
  generalize hk : naf - temp.card = k
  induction k using Nat.strong_induction_on generalizing temp n out s s' with
  | _ k ih =>
    rw [toposort_visit] at h
    split_ifs at h with htemp hmark
    · obtain rfl : s = s' := Except.ok.inj h
      exact ⟨[], by simpa using hs, by simpa using (hs.mark n).1 hmark, by simp⟩
    · have hlt : naf - (insert n temp).card < k := hk ▸ visit_decreases htemp
      cases hfold : (adjlist n).foldlM (fun s it => toposort_visit af adjlist (insert n temp) it s) s with
      | error e => simp [hfold, error_bind] at h
      | ok s₁ =>
        rw [hfold, ok_bind] at h
        obtain ⟨new, hs₁, hadj, hnew⟩ :=
          visits_spec (insert n temp) (fun m out s s' hs h => ih _ hlt hs h rfl) hs hfold
        obtain rfl := Except.ok.inj h
        have hn : n ∉ out ++ new := by
          rw [List.mem_append, not_or]
          exact ⟨fun hout => hmark ((hs.mark n).2 hout), hnew n (Finset.mem_insert_self n temp)⟩
        refine ⟨new ++ [n], ?_, by simp, ?_⟩
        · rw [← List.append_assoc]
          exact hs₁.push hn hadj
        · intro t ht hmem
          rcases List.mem_append.1 hmem with hmem | hmem
          · exact hnew t (Finset.mem_insert_of_mem ht) hmem
          · rw [List.mem_singleton.1 hmem] at ht
            exact htemp ht

/-- What is sorted without an exception is the nodes, none with an edge to one in front of it. -/
theorem toposort_spec {sorted_af : List (arrfunc E F)} (h : toposort af adjlist = .ok sorted_af) :
    ∃ out : List (Fin naf), out.Perm (List.finRange naf) ∧ sorted_af = (out.map af).reverse ∧
      out.Pairwise fun a b => b ∉ adjlist a := by
  obtain ⟨s', hfold, hsorted⟩ := bind_eq_ok.1 h
  have hstart : Pushed af adjlist [] ⟨fun _ => false, []⟩ := ⟨by simp, rfl, List.nodup_nil, by simp, List.Pairwise.nil⟩
  have hvisit : ∀ n out s s', Pushed af adjlist out s →
      (if s.mark n then .ok s else toposort_visit af adjlist ∅ n s) = .ok s' →
      ∃ new, Pushed af adjlist (out ++ new) s' ∧ n ∈ out ++ new ∧ ∀ t ∈ (∅ : Finset (Fin naf)), t ∉ new := by
    intro n out s s' hs h
    split_ifs at h with hmark
    · obtain rfl : s = s' := Except.ok.inj h
      exact ⟨[], by simpa using hs, by simpa using (hs.mark n).1 hmark, by simp⟩
    · exact toposort_visit_spec hs h
  obtain ⟨out, hpushed, hall, -⟩ := visits_spec ∅ hvisit hstart hfold
  simp only [List.nil_append] at hpushed hall
  refine ⟨out, ?_, ?_, hpushed.ordered⟩
  · rw [List.perm_ext_iff_of_nodup hpushed.nodup (List.nodup_finRange naf)]
    exact fun n => ⟨fun _ => List.mem_finRange n, fun hn => hall n hn⟩
  · rw [← Except.ok.inj hsorted, hpushed.sorted]

/-- A node whose edges lead to marked nodes is pushed at once. -/
theorem toposort_visit_ready {n : Fin naf} {s : toposort_state E F naf} (hn : s.mark n = false)
    (hadj : ∀ j ∈ adjlist n, s.mark j = true) :
    toposort_visit af adjlist ∅ n s = .ok ⟨Function.update s.mark n true, s.sorted_af ++ [af n]⟩ := by
  have hskip : ∀ nodes : List (Fin naf), (∀ j ∈ nodes, s.mark j = true) →
      nodes.foldlM (fun s it => toposort_visit af adjlist (insert n ∅) it s) s = .ok s := by
    intro nodes hnodes
    induction nodes with
    | nil => rfl
    | cons j nodes ih =>
      rw [List.forall_mem_cons] at hnodes
      have hj : j ∉ insert n (∅ : Finset (Fin naf)) := by
        simp only [insert_empty_eq, Finset.mem_singleton]
        rintro rfl
        rw [hn] at hnodes
        exact Bool.false_ne_true hnodes.1
      rw [List.foldlM_cons, toposort_visit, if_neg hj, if_pos hnodes.1, ok_bind]
      exact ih hnodes.2
  rw [toposort_visit, if_neg (Finset.notMem_empty n), hn, hskip (adjlist n) hadj]
  rfl

variable (af) in
theorem visits_backwards (hback : ∀ i, ∀ j ∈ adjlist i, j < i) (nodes : List (Fin naf)) (s : toposort_state E F naf)
    (hsorted : nodes.Pairwise (· < ·)) (hfresh : ∀ n ∈ nodes, s.mark n = false)
    (hbelow : ∀ n ∈ nodes, ∀ j < n, s.mark j = true ∨ j ∈ nodes) :
    ∃ mark, nodes.foldlM (fun s n => if s.mark n then .ok s else toposort_visit af adjlist ∅ n s) s =
      .ok ⟨mark, s.sorted_af ++ nodes.map af⟩ := by
  induction nodes generalizing s with
  | nil => exact ⟨s.mark, by simp⟩
  | cons n nodes ih =>
    rw [List.pairwise_cons] at hsorted
    have hn := hfresh n List.mem_cons_self
    have hadj : ∀ j ∈ adjlist n, s.mark j = true := by
      intro j hj
      have hlt := hback n j hj
      rcases hbelow n List.mem_cons_self j hlt with h | h
      · exact h
      · rcases List.mem_cons.1 h with rfl | h
        · exact absurd hlt (lt_irrefl j)
        · exact absurd hlt (lt_asymm (hsorted.1 j h))
    have hfresh' : ∀ m ∈ nodes, Function.update s.mark n true m = false := by
      intro m hm
      rw [Function.update_of_ne (ne_of_gt (hsorted.1 m hm))]
      exact hfresh m (List.mem_cons_of_mem _ hm)
    have hbelow' : ∀ m ∈ nodes, ∀ j < m, Function.update s.mark n true j = true ∨ j ∈ nodes := by
      intro m hm j hj
      by_cases hjn : j = n
      · exact .inl (by simp [hjn])
      · rw [Function.update_of_ne hjn]
        rcases hbelow m (List.mem_cons_of_mem _ hm) j hj with h | h
        · exact .inl h
        · exact .inr (List.mem_of_ne_of_mem hjn h)
    obtain ⟨mark, hmark⟩ := ih ⟨Function.update s.mark n true, s.sorted_af ++ [af n]⟩ hsorted.2 hfresh' hbelow'
    refine ⟨mark, ?_⟩
    rw [List.foldlM_cons, hn, if_neg Bool.false_ne_true, toposort_visit_ready hn hadj, ok_bind, hmark]
    simp

/-- A listing in which every edge leads to a node before it is pushed in its own order. -/
theorem toposort_backwards (hback : ∀ i, ∀ j ∈ adjlist i, j < i) :
    toposort af adjlist = .ok ((List.finRange naf).map af).reverse := by
  obtain ⟨mark, hmark⟩ := visits_backwards af hback (List.finRange naf) ⟨fun _ => false, []⟩
    (List.pairwise_lt_finRange naf) (by simp) fun _ _ j _ => .inr (List.mem_finRange j)
  rw [toposort, hmark]
  rfl

theorem each_position_eq_true {lhs rhs : arrfunc E F} {passes : type E → type E → Bool} :
    each_position lhs rhs passes = true ↔ lhs.get_nkwd = 0 ∧ rhs.get_nkwd = 0 ∧ lhs.get_npos = rhs.get_npos ∧
      ∀ p ∈ lhs.tp.pos_types.zip rhs.tp.pos_types, passes p.1 p.2 = true := by
  rw [each_position]
  split_ifs with hkwd hnpos
  · simp only [Bool.or_eq_true, decide_eq_true_eq] at hkwd
    simp only [false_iff]
    omega
  · simp only [Bool.or_eq_true, decide_eq_true_eq, not_or, Nat.not_lt, Nat.le_zero] at hkwd
    simp [hkwd, hnpos, List.all_eq_true]
  · simp [hnpos]

end

section
variable {E V F : Type} [DecidableEq E] [base_type E V]

/-- The edges of the graph. -/
def edge (a b : arrfunc E F) : Prop := toposort_edge a b = true

theorem edge_of_supercedes {a b : arrfunc E F} (h : supercedes a b = true) : edge a b := by
  rw [supercedes, each_position_eq_true] at h
  rw [edge, toposort_edge, each_position_eq_true]
  refine ⟨h.1, h.2.1, h.2.2.1, fun p hp => ?_⟩
  simp [h.2.2.2 p hp]

theorem edge_self {a : arrfunc E F} (h : a.get_nkwd = 0) : edge a a := by
  apply edge_of_supercedes
  rw [supercedes, each_position_eq_true]
  refine ⟨h, h, rfl, fun p hp => ?_⟩
  have heq : p.1 = p.2 := by
    obtain ⟨i, hi, rfl⟩ := List.getElem_of_mem hp
    simp
  rw [heq, converts, can_implicitly_convert_self]

theorem ambiguous_no_kwd {a b : arrfunc E F} (h : ambiguous a b = true) : a.get_nkwd = 0 ∧ b.get_nkwd = 0 := by
  rw [ambiguous] at h
  split_ifs at h with hkwd
  simp only [Bool.or_eq_true, decide_eq_true_eq] at hkwd
  omega

theorem ambiguous_comm (a b : arrfunc E F) : ambiguous a b = ambiguous b a := by
  have hswap := List.zip_swap b.tp.pos_types a.tp.pos_types
  have hkwd : (0 < b.get_nkwd || 0 < a.get_nkwd) = (0 < a.get_nkwd || 0 < b.get_nkwd : Bool) := Bool.or_comm _ _
  rw [ambiguous, ambiguous, hkwd]
  by_cases hnpos : a.get_npos = b.get_npos
  · rw [if_pos hnpos, if_pos hnpos.symm, ← hswap]
    simp only [List.countP_map, List.all_map, Function.comp_def, Prod.swap, hnpos]
    have hall : (fun x : type E × type E => converts x.2 x.1 || converts x.1 x.2) =
        fun x => converts x.1 x.2 || converts x.2 x.1 := funext fun x => Bool.or_comm _ _
    rw [hall]
    generalize List.countP (fun x : type E × type E => converts x.2 x.1) _ = l
    generalize List.countP (fun x : type E × type E => converts x.1 x.2) _ = r
    rw [Bool.and_comm (decide (l ≠ b.get_npos)), decide_eq_decide.2 (eq_comm (a := l) (b := r))]
  · rw [if_neg hnpos, if_neg (Ne.symm hnpos)]

/-- No two arrfuncs of the list have edges to each other. -/
def Distinct (L : List (arrfunc E F)) : Prop := L.Pairwise fun a b => ¬ (edge a b ∧ edge b a)

theorem Distinct.perm {L L' : List (arrfunc E F)} (h : Distinct L) (hperm : L.Perm L') : Distinct L' :=
  (hperm.pairwise_iff fun {_ _} hab hba => hab hba.symm).1 h

theorem same_signature_eq_none {L : List (arrfunc E F)} : same_signature L.get = none ↔ Distinct L := by
  rw [same_signature, List.find?_eq_none, Distinct, List.pairwise_iff_get]
  constructor
  · intro h i j hij hedges
    have hnone := h (i, j) (by simp [List.mem_finRange])
    simp only [Bool.and_eq_true, decide_eq_true_eq] at hnone
    exact hnone ⟨⟨ne_of_lt hij, hedges.1⟩, hedges.2⟩
  · rintro h ⟨i, j⟩ - hedges
    simp only [Bool.and_eq_true, decide_eq_true_eq] at hedges
    rcases lt_or_gt_of_ne hedges.1.1 with hij | hij
    · exact h i j hij ⟨hedges.1.2, hedges.2⟩
    · exact h j i hij ⟨hedges.2, hedges.1.2⟩

theorem get_graph_ok {naf : ℕ} {af : Fin naf → arrfunc E F} {adjlist : Fin naf → List (Fin naf)}
    (h : get_graph af = .ok adjlist) :
    same_signature af = none ∧ ∀ i j, j ∈ adjlist i ↔ i ≠ j ∧ edge (af i) (af j) := by
  rw [get_graph] at h
  split at h
  · cases h
  · next hnone =>
    obtain rfl := Except.ok.inj h
    simp [hnone, edge]

theorem sort_arrfuncs_ok {L T : List (arrfunc E F)} (h : sort_arrfuncs L.get = .ok T) :
    T.Perm L ∧ Topological edge T ∧ Distinct L := by
  obtain ⟨adjlist, hgraph, hsort⟩ := bind_eq_ok.1 h
  obtain ⟨hnone, hadj⟩ := get_graph_ok hgraph
  obtain ⟨out, hperm, rfl, hordered⟩ := toposort_spec hsort
  refine ⟨?_, ?_, same_signature_eq_none.1 hnone⟩
  · have hmap := hperm.map L.get
    rw [List.map_get_finRange] at hmap
    exact (List.reverse_perm _).trans hmap
  · have hnodup : out.Nodup := hperm.nodup_iff.2 (List.nodup_finRange _)
    rw [Topological, List.pairwise_reverse, List.pairwise_map]
    refine (hordered.and hnodup).imp fun {i j} hij hedge => ?_
    exact hij.1 ((hadj i j).2 ⟨hij.2, hedge⟩)

/-- Any topological arrangement is the result of some listing: the one backwards. -/
theorem sort_arrfuncs_reverse {T : List (arrfunc E F)} (hT : Topological edge T) (hdistinct : Distinct T) :
    sort_arrfuncs T.reverse.get = .ok T := by
  have hnone := same_signature_eq_none.2 (hdistinct.perm (List.reverse_perm T).symm)
  have hpairs : T.reverse.Pairwise fun a b => ¬ edge a b := List.pairwise_reverse.2 hT
  rw [List.pairwise_iff_get] at hpairs
  rw [sort_arrfuncs, get_graph, hnone, ok_bind, toposort_backwards]
  · rw [List.map_get_finRange, List.reverse_reverse]
  · intro i j hj
    simp only [List.mem_filter, Bool.and_eq_true, decide_eq_true_eq] at hj
    rcases lt_or_gt_of_ne hj.2.1 with hij | hij
    · exact absurd hj.2.2 (hpairs i j hij)
    · exact hij

/-! ## The ambiguities -/

theorem get_ambiguous_pairs_eq_nil {before L : List (arrfunc E F)} :
    get_ambiguous_pairs before L = [] ↔ ∀ pre x post, L = pre ++ x :: post → ∀ y ∈ post, ambiguous x y = true →
      ∃ z ∈ before ++ pre, supercedes z x = true ∧ supercedes z y = true := by
  induction L generalizing before with
  | nil => simp [get_ambiguous_pairs]
  | cons a L ih =>
    rw [get_ambiguous_pairs, List.append_eq_nil_iff, List.map_eq_nil_iff, List.filter_eq_nil_iff, ih]
    constructor
    · rintro ⟨hfirst, hrest⟩ pre x post heq y hy hxy
      cases pre with
      | nil =>
        obtain ⟨rfl, rfl⟩ := List.cons.inj heq
        have hy' := hfirst y hy
        simp only [hxy, Bool.true_and, Bool.not_eq_true', Bool.not_eq_false, List.any_eq_true, Bool.and_eq_true] at hy'
        simpa using hy'
      | cons p pre =>
        obtain ⟨rfl, rfl⟩ := List.cons.inj heq
        simpa using hrest pre x post rfl y hy hxy
    · refine fun h => ⟨fun y hy hcond => ?_, fun pre x post heq y hy hxy => ?_⟩
      · simp only [Bool.and_eq_true, Bool.not_eq_true'] at hcond
        obtain ⟨z, hz, hza, hzy⟩ := h [] a L rfl y hy hcond.1
        rw [List.append_nil] at hz
        have hnone := List.any_eq_false.1 hcond.2 z hz
        simp [hza, hzy] at hnone
      · obtain ⟨z, hz, hzx⟩ := h (a :: pre) x post (by rw [heq, List.cons_append]) y hy hxy
        exact ⟨z, by simpa using hz, hzx⟩

theorem Distinct.ne {pre post : List (arrfunc E F)} (h : Distinct (pre ++ post)) {z x : arrfunc E F} (hz : z ∈ pre)
    (hx : x ∈ post) (hkwd : x.get_nkwd = 0) : z ≠ x := by
  rintro rfl
  exact (List.pairwise_append.1 h).2.2 z hz z hx ⟨edge_self hkwd, edge_self hkwd⟩

/-- The check does not depend on the topological arrangement. -/
theorem get_ambiguous_pairs_perm {T T' : List (arrfunc E F)} (hperm : T.Perm T') (hdistinct : Distinct T)
    (hT' : Topological edge T') (h : get_ambiguous_pairs [] T = []) : get_ambiguous_pairs [] T' = [] := by
  rw [get_ambiguous_pairs_eq_nil] at h ⊢
  simp only [List.nil_append] at h ⊢
  rintro pre x post rfl y hy hxy
  obtain ⟨hx, hy0⟩ := ambiguous_no_kwd hxy
  have hne : x ≠ y := by
    have hsplit : Distinct (pre ++ [x] ++ post) := by
      rw [List.append_assoc]
      exact hdistinct.perm hperm
    exact hsplit.ne (by simp) hy hy0
  -- the arrfunc that disambiguates the two, whichever comes first in `T`
  obtain ⟨z, hz, hzne, hzx, hzy⟩ : ∃ z ∈ T, z ≠ x ∧ supercedes z x = true ∧ supercedes z y = true := by
    obtain ⟨p, q, rfl⟩ := List.append_of_mem (hperm.mem_iff.2 (by simp : x ∈ pre ++ x :: post))
    have hyT : y ∈ p ++ x :: q := hperm.mem_iff.2 (by simp [hy])
    rw [List.mem_append, List.mem_cons] at hyT
    rcases hyT with hyp | rfl | hyq
    · obtain ⟨p₁, p₂, rfl⟩ := List.append_of_mem hyp
      rw [List.append_assoc, List.cons_append] at h hdistinct ⊢
      obtain ⟨z, hz, hzy, hzx⟩ := h p₁ y _ rfl x (by simp) (by rwa [ambiguous_comm])
      exact ⟨z, List.mem_append_left _ hz, hdistinct.ne hz (by simp) hx, hzx, hzy⟩
    · exact absurd rfl hne
    · obtain ⟨z, hz, hzx, hzy⟩ := h p x q rfl y hyq hxy
      exact ⟨z, List.mem_append_left _ hz, hdistinct.ne hz (by simp) hx, hzx, hzy⟩
  have hmem : z ∈ pre ++ x :: post := hperm.mem_iff.1 hz
  rw [List.mem_append, List.mem_cons] at hmem
  rcases hmem with hpre | rfl | hpost
  · exact ⟨z, hpre, hzx, hzy⟩
  · exact absurd rfl hzne
  · exact absurd (edge_of_supercedes hzx) (hT'.not_edge hpost (.inr rfl))

theorem old_multidispatch_eq_ok {L T : List (arrfunc E F)} :
    old_multidispatch L = .ok T ↔ L ≠ [] ∧ (∀ a ∈ L, ∀ b ∈ L, a.get_narg = b.get_narg) ∧
      sort_arrfuncs L.get = .ok T ∧ get_ambiguous_pairs [] T = [] := by
  cases L with
  | nil => simp [old_multidispatch]
  | cons child rest =>
    have hsame : (∀ a ∈ child :: rest, ∀ b ∈ child :: rest, a.get_narg = b.get_narg) ↔
        rest.find? (fun af => child.get_narg ≠ af.get_narg) = none := by
      rw [List.find?_eq_none]
      constructor
      · intro h af haf
        simpa using h child List.mem_cons_self af (List.mem_cons_of_mem _ haf)
      · intro h
        have hchild : ∀ a ∈ child :: rest, a.get_narg = child.get_narg := by
          rw [List.forall_mem_cons]
          exact ⟨rfl, fun a ha => (not_not.1 fun hne => h a ha (decide_eq_true hne)).symm⟩
        exact fun a ha b hb => (hchild a ha).trans (hchild b hb).symm
    rw [hsame, old_multidispatch]
    cases hfind : rest.find? (fun af => child.get_narg ≠ af.get_narg) with
    | some af => simp
    | none =>
      simp only [bind_eq_ok, ne_eq, reduceCtorEq, not_false_eq_true, true_and]
      constructor
      · rintro ⟨sorted_af, hsort, h⟩
        split_ifs at h with hpairs
        obtain rfl := Except.ok.inj h
        exact ⟨hsort, hpairs⟩
      · rintro ⟨hsort, hpairs⟩
        exact ⟨T, hsort, by rw [if_pos hpairs]⟩

/-! ## The order of the listing -/

/-- Every topological arrangement of an accepted list comes out of a listing that is accepted too. -/
theorem old_multidispatch_reverse {L T T' : List (arrfunc E F)} (h : old_multidispatch L = .ok T) (hperm : T'.Perm L)
    (hT' : Topological edge T') : old_multidispatch T'.reverse = .ok T' := by
  obtain ⟨hne, hnarg, hsort, hpairs⟩ := old_multidispatch_eq_ok.1 h
  obtain ⟨hTperm, hT, hdistinct⟩ := sort_arrfuncs_ok hsort
  rw [old_multidispatch_eq_ok]
  refine ⟨?_, ?_, sort_arrfuncs_reverse hT' (hdistinct.perm hperm.symm), ?_⟩
  · intro hnil
    rw [List.reverse_eq_nil_iff] at hnil
    exact hne (List.perm_nil.1 (hnil ▸ hperm.symm))
  · intro a ha b hb
    rw [List.mem_reverse, hperm.mem_iff] at ha hb
    exact hnarg a ha b hb
  · exact get_ambiguous_pairs_perm (hTperm.trans hperm.symm) (hdistinct.perm hTperm.symm) hT' hpairs

/-- Sources that a call of the multidispatch arrfunc can have. -/
def Callable (L : List (arrfunc E F)) (src_tp : List (type E)) : Prop := ∀ child ∈ L, src_tp.length = child.get_narg

/-- All accepted listings of the same arrfuncs select the same child exactly if for all sources it is settled by the
edges of the graph which of the children that take them comes first. -/
theorem listing_order_irrelevant_iff (L T : List (arrfunc E F)) (h : old_multidispatch L = .ok T) :
    (∀ L' T', L'.Perm L → old_multidispatch L' = .ok T' → ∀ src_tp, Callable L src_tp →
      selected T' src_tp = selected T src_tp) ↔
    ∀ src_tp, Callable L src_tp →
      Settled edge L fun child => accepts src_tp child.tp.pos_types (base_type.no_typevars E) := by
  obtain ⟨-, -, hsort, -⟩ := old_multidispatch_eq_ok.1 h
  obtain ⟨hperm, hT, -⟩ := sort_arrfuncs_ok hsort
  have hfirst := fun src_tp => find_topological_iff hT hperm
    fun child => accepts src_tp child.tp.pos_types (base_type.no_typevars E)
  constructor
  · intro hall src_tp hcall
    rw [← hfirst src_tp]
    intro T' hT'perm hT'
    exact hall T'.reverse T' ((List.reverse_perm T').trans hT'perm) (old_multidispatch_reverse h hT'perm hT') src_tp hcall
  · intro hsettled L' T' hL' h' src_tp hcall
    obtain ⟨-, -, hsort', -⟩ := old_multidispatch_eq_ok.1 h'
    obtain ⟨hperm', hT', -⟩ := sort_arrfuncs_ok hsort'
    exact (hfirst src_tp).2 (hsettled src_tp hcall) T' (hperm'.trans hL') hT'

end

/-! ## Two listings of two arrfuncs -/

/-- There are only builtin types. -/
instance : base_type Empty Unit where
  get_kind := nofun
  get_data_size := nofun
  get_ndim := nofun
  get_dtype := nofun
  is_symbolic := nofun
  match_type := nofun
  no_typevars := ()

/-- An arrfunc of one argument. -/
def unary (id : builtin_type_id) : arrfunc Empty builtin_type_id := ⟨⟨[.builtin id], [], .builtin .void⟩, id⟩

theorem old_multidispatch_unary {a b : builtin_type_id} (hab : toposort_edge (unary b) (unary a) = false)
    (hambiguous : get_ambiguous_pairs [] [unary a, unary b] = []) :
    old_multidispatch [unary b, unary a] = .ok [unary a, unary b] := by
  have hT : Topological edge [unary a, unary b] := by simp [Topological, edge, hab]
  have hdistinct : Distinct [unary a, unary b] := by simp [Distinct, edge, hab]
  rw [old_multidispatch_eq_ok]
  exact ⟨by simp, by simp [arrfunc.get_narg, arrfunc.get_npos, arrfunc.get_nkwd, unary], sort_arrfuncs_reverse hT hdistinct,
    hambiguous⟩

/-- No listing of these two selects another one of them. -/
theorem int16_before_int32 : ¬ ∃ L' T' src_tp, L'.Perm [unary .int32, unary .int16] ∧ old_multidispatch L' = .ok T' ∧
    Callable [unary .int32, unary .int16] src_tp ∧ selected T' src_tp ≠ selected [unary .int16, unary .int32] src_tp := by
  rintro ⟨L', T', src_tp, hperm, h, hcall, hne⟩
  refine hne ((listing_order_irrelevant_iff [unary .int32, unary .int16] [unary .int16, unary .int32]
    (old_multidispatch_unary rfl rfl)).2 (fun src_tp _ d hd hpd => ?_) L' T' hperm h src_tp hcall)
  by_cases h16 : accepts src_tp (unary .int16).tp.pos_types () = true
  · refine ⟨unary .int16, by simp, h16, fun e he _ => ?_⟩
    rcases List.mem_cons.1 he with rfl | he
    · exact .inr (.single ⟨by simp, rfl⟩)
    · exact .inl (List.mem_singleton.1 he)
  · have honly : ∀ e ∈ [unary .int32, unary .int16], accepts src_tp e.tp.pos_types () = true → e = unary .int32 := by
      intro e he hpe
      rcases List.mem_cons.1 he with rfl | he
      · rfl
      · rw [List.mem_singleton.1 he] at hpe
        exact absurd hpe h16
    exact ⟨d, hd, hpd, fun e he hpe => .inl ((honly e he hpe).trans (honly d hd hpd).symm)⟩

/-- A `float32` converts to both complex types, which are neither ordered nor ambiguous. -/
theorem complex_by_listing : ¬ ∀ L L' T T' : List (arrfunc Empty builtin_type_id), L'.Perm L →
    old_multidispatch L = .ok T → old_multidispatch L' = .ok T' → ∀ src_tp, Callable L src_tp →
    selected T' src_tp = selected T src_tp := by
  intro hall
  have h := hall [unary .complex_float64, unary .complex_float32] [unary .complex_float32, unary .complex_float64] _ _
    (List.Perm.swap _ _ _) (old_multidispatch_unary rfl rfl) (old_multidispatch_unary rfl rfl) [.builtin .float32]
    (by simp [Callable, arrfunc.get_narg, arrfunc.get_npos, arrfunc.get_nkwd, unary])
  have h32 : selected [unary .complex_float32, unary .complex_float64] [.builtin .float32] = some (unary .complex_float32) :=
    rfl
  have h64 : selected [unary .complex_float64, unary .complex_float32] [.builtin .float32] = some (unary .complex_float64) :=
    rfl
  rw [h32, h64] at h
  exact absurd (congrArg arrfunc.data (Option.some.inj h)) (by decide)

end Dynd.Multidispatch
