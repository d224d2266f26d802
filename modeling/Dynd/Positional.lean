import Dynd.Kwds
/-!
# Positional arguments of an arrfunc

A call makes three vectors as long as the positional parameters of the arrfunc
(`arrfunc::call`), the arguments are checked and stored in them one by one
(`args::validate_types`), and the arrfunc gets the vectors.
-/
namespace Dynd
open Lib

/-! ## The signature -/

namespace Kwds.arrfunc_type
variable (self : arrfunc_type)

/-- The field types of `m_pos_tuple`, which the constructor requires to be a tuple. -/
def get_pos_types : List Ty :=
  match self.pos_tuple with
  | .tuple field_types _ => field_types
  | _ => []

def get_npos : ℕ := self.get_pos_types.length

def is_pos_variadic : Bool :=
  match self.pos_tuple with
  | .tuple _ variadic => variadic
  | _ => false

/-- The read is not checked: `none` is behind the last of them. -/
def get_pos_type (i : ℕ) : Option Ty := self.get_pos_types[i]?

end Kwds.arrfunc_type

namespace Positional
open Kwds (arrfunc_type environment kwds_struct)

/-! ## The arguments -/

/-- An `nd::array`: its type, its arrmeta and its origin pointer. -/
structure array (M D : Type) where
  get_type : Ty
  get_arrmeta : M
  get_readonly_originptr : D

/-- The run-time packs. `args<A...>` reads its arrays as `values` does, one after the other. -/
inductive args (M D : Type) where
  | values (m_size : ℕ) (m_values : ℕ → array M D)
  | components (m_size : ℕ) (m_types : ℕ → Ty) (m_arrmetas : ℕ → M) (m_datas : ℕ → D)

namespace args
variable {M D : Type}

def m_size : args M D → ℕ
  | values m_size _ | components m_size _ _ _ => m_size

def type : args M D → ℕ → Ty
  | values _ m_values, i => (m_values i).get_type
  | components _ m_types _ _, i => m_types i

def arrmeta : args M D → ℕ → M
  | values _ m_values, i => (m_values i).get_arrmeta
  | components _ _ m_arrmetas _, i => m_arrmetas i

def data_of : args M D → ℕ → D
  | values _ m_values, i => (m_values i).get_readonly_originptr
  | components _ _ _ m_datas, i => m_datas i

end args

/-- The vectors of a call; `none` is an entry as the vector was made. -/
structure vectors (M D : Type) where
  arg_tp : List (Option Ty)
  arg_arrmeta : List (Option M)
  arg_data : List (Option D)

def vectors.sized {M D : Type} (n : ℕ) : vectors M D where
  arg_tp := List.replicate n none
  arg_arrmeta := List.replicate n none
  arg_data := List.replicate n none

/-- `v[i] = a` -/
def store {α : Type} (v : List (Option α)) (i : ℕ) (a : α) : Except SubstituteError (List (Option α)) :=
  if i < v.length then .ok (v.set i (some a)) else .error .undefined

/-! ## The checks -/

section
variable {M D : Type} (match_arg : Ty → Ty → M → Typevars → Bool × Typevars) (af_tp : arrfunc_type) (args : args M D)

def narg_error (npos : ℕ) : SubstituteError :=
  .invalid_argument [.text "arrfunc expected ", .text (toString af_tp.get_npos), .text " positional arguments, but received ",
    .text (toString npos)]

def check_narg (npos : ℕ) : Except SubstituteError Unit :=
  if !af_tp.is_pos_variadic && npos != af_tp.get_npos then .error (narg_error af_tp npos) else .ok ()

def arg_error (i : ℕ) (expected_tp actual_tp : Ty) : SubstituteError :=
  .invalid_argument [.text "positional argument ", .text (toString i), .text " to arrfunc does not match, ",
    .text "expected ", .type expected_tp, .text ", received ", .type actual_tp]

/-- `match_arg` is `expected_tp.match(NULL, actual_tp.value_type(), actual_arrmeta, tp_vars)`. -/
def check_arg (i : ℕ) (actual_tp : Ty) (actual_arrmeta : M) (tp_vars : Typevars) : Except SubstituteError Typevars :=
  match af_tp.get_pos_type i with
  | none => .error .undefined
  | some expected_tp =>
    let (matched, tp_vars) := match_arg expected_tp actual_tp actual_arrmeta tp_vars
    if !matched then .error (arg_error i expected_tp actual_tp) else .ok tp_vars

/-- A round of the loops of `validate_types`. -/
def validate_arg (s : vectors M D × Typevars) (i : ℕ) : Except SubstituteError (vectors M D × Typevars) := do
  let tp_vars ← check_arg match_arg af_tp i (args.type i) (args.arrmeta i) s.2
  let src_tp ← store s.1.arg_tp i (args.type i)
  let src_arrmeta ← store s.1.arg_arrmeta i (args.arrmeta i)
  let src_data ← store s.1.arg_data i (args.data_of i)
  return ({ arg_tp := src_tp, arg_arrmeta := src_arrmeta, arg_data := src_data }, tp_vars)

def validate_types (src : vectors M D) (tp_vars : Typevars) : Except SubstituteError (vectors M D × Typevars) := do
  check_narg af_tp args.m_size
  (List.range args.m_size).foldlM (validate_arg match_arg af_tp args) (src, tp_vars)

/-- The positional arguments of `arrfunc::call`. -/
def positional : Except SubstituteError (vectors M D × Typevars) :=
  validate_types match_arg af_tp args (.sized af_tp.get_npos) fun _ => none

/-- What the arrfunc is called with. -/
structure handed (M D A : Type) where
  nsrc : ℕ
  src : vectors M D
  kwds : kwds_struct A
  dst : Option (Kwds.array A)
  tp_vars : Typevars

/-- `arrfunc::call` up to the arrfunc itself. Where the keywords have been handled, the arguments have been stored. -/
def call {A : Type} (env : environment A) (kwds : List (String × Kwds.array A)) : Except SubstituteError (handed M D A) := do
  let validated := positional match_arg af_tp args
  let (kwds_as_array, dst, tp_vars) ← Kwds.call { env with validate_types := validated.map Prod.snd } af_tp kwds
  let (src, _) ← validated
  return { nsrc := src.arg_tp.length, src := src, kwds := kwds_as_array, dst := dst, tp_vars := tp_vars }

/-! ## What the arrfunc may rely on -/

/-- The errors that name the arguments. -/
def Refused (e : SubstituteError) : Prop :=
  e = narg_error af_tp args.m_size ∨
    ∃ i < args.m_size, ∃ expected_tp, af_tp.get_pos_type i = some expected_tp ∧ e = arg_error i expected_tp (args.type i)

/-- An entry for every argument. -/
structure Stored (src : vectors M D) : Prop where
  arg_tp : src.arg_tp = (List.range args.m_size).map fun i => some (args.type i)
  arg_arrmeta : src.arg_arrmeta = (List.range args.m_size).map fun i => some (args.arrmeta i)
  arg_data : src.arg_data = (List.range args.m_size).map fun i => some (args.data_of i)

structure Safe : Prop where
  validated : (∃ e, positional match_arg af_tp args = .error e ∧ Refused af_tp args e) ∨
    ∃ src tp_vars, positional match_arg af_tp args = .ok (src, tp_vars) ∧ Stored args src
  handed : ∀ {A : Type} (env : environment A) kwds r, call match_arg af_tp args env kwds = .ok r →
    Stored args r.src ∧ r.nsrc = args.m_size

/-- The type variables once the first `k` arguments match. -/
def first_match : ℕ → Option Typevars
  | 0 => some fun _ => none
  | k + 1 => do
    let tp_vars ← first_match k
    let expected_tp ← af_tp.get_pos_type k
    let (matched, tp_vars) := match_arg expected_tp (args.type k) (args.arrmeta k) tp_vars
    if matched then some tp_vars else none

/-- The vectors while the first `k` arguments are in them. -/
def filled (k : ℕ) : vectors M D where
  arg_tp := (List.range af_tp.get_npos).map fun i => if i < k then some (args.type i) else none
  arg_arrmeta := (List.range af_tp.get_npos).map fun i => if i < k then some (args.arrmeta i) else none
  arg_data := (List.range af_tp.get_npos).map fun i => if i < k then some (args.data_of i) else none

end

/-! ## Storing -/

section
variable {M D : Type} {match_arg : Ty → Ty → M → Typevars → Bool × Typevars} {af_tp : arrfunc_type} {args : args M D}
  {tp_vars : Typevars} {e : SubstituteError} {k n : ℕ}

theorem store_next {α : Type} (f : ℕ → α) (hk : k < n) :
    store ((List.range n).map fun i => if i < k then some (f i) else none) k (f k) =
      .ok ((List.range n).map fun i => if i < k + 1 then some (f i) else none) := by
  rw [store, if_pos (by simpa using hk)]
  congr 1
  apply List.ext_getElem
  · simp
  · intro i hi _
    rcases eq_or_ne k i with rfl | hne
    · simp
    · simp [List.getElem_set_ne hne, Order.lt_add_one_iff, le_iff_lt_or_eq, hne.symm]

theorem filled_zero : filled af_tp args 0 = vectors.sized af_tp.get_npos := by
  simp [filled, vectors.sized]

theorem stored_of_filled (h : args.m_size = af_tp.get_npos) : Stored args (filled af_tp args args.m_size) := by
  have hall {α : Type} (f : ℕ → α) : ((List.range af_tp.get_npos).map fun i => if i < args.m_size then some (f i) else none) =
      (List.range args.m_size).map fun i => some (f i) := by
    rw [← h]
    apply List.map_congr_left
    intro i hi
    rw [if_pos (List.mem_range.mp hi)]
  exact ⟨hall _, hall _, hall _⟩

theorem length_filled : (filled af_tp args k).arg_tp.length = af_tp.get_npos := by
  simp [filled]

theorem get_pos_type_lt (h : k < af_tp.get_npos) : ∃ expected_tp, af_tp.get_pos_type k = some expected_tp :=
  ⟨_, List.getElem?_eq_getElem h⟩

theorem get_pos_type_behind (h : af_tp.get_npos ≤ k) : af_tp.get_pos_type k = none :=
  List.getElem?_eq_none h

/-- A round whose argument matches. -/
theorem validate_arg_matches (h : first_match match_arg af_tp args k = some tp_vars) (hk : k < af_tp.get_npos)
    {tp_vars' : Typevars} (hnext : first_match match_arg af_tp args (k + 1) = some tp_vars') :
    validate_arg match_arg af_tp args (filled af_tp args k, tp_vars) k = .ok (filled af_tp args (k + 1), tp_vars') := by
  obtain ⟨expected_tp, htp⟩ := get_pos_type_lt hk
  simp only [first_match, h, htp, Option.bind_eq_bind, Option.bind_some] at hnext
  split_ifs at hnext with hmatched
  cases hnext
  simp only [validate_arg, check_arg, htp, hmatched, filled, store_next _ hk]
  rfl

/-- A round whose argument does not. -/
theorem validate_arg_refuses (h : first_match match_arg af_tp args k = some tp_vars) (hk : k < af_tp.get_npos)
    (hnext : first_match match_arg af_tp args (k + 1) = none) :
    ∃ expected_tp, af_tp.get_pos_type k = some expected_tp ∧
      validate_arg match_arg af_tp args (filled af_tp args k, tp_vars) k = .error (arg_error k expected_tp (args.type k)) := by
  obtain ⟨expected_tp, htp⟩ := get_pos_type_lt hk
  refine ⟨expected_tp, htp, ?_⟩
  simp only [first_match, h, htp, Option.bind_eq_bind, Option.bind_some] at hnext
  split_ifs at hnext with hmatched
  simp only [validate_arg, check_arg, htp, hmatched]
  rfl

/-- The loop up to the argument `n`. -/
def rounds (match_arg : Ty → Ty → M → Typevars → Bool × Typevars) (af_tp : arrfunc_type) (args : Positional.args M D) (n : ℕ) :
    Except SubstituteError (vectors M D × Typevars) :=
  (List.range n).foldlM (validate_arg match_arg af_tp args) (.sized af_tp.get_npos, fun _ => none)

theorem rounds_succ (n : ℕ) :
    rounds match_arg af_tp args (n + 1) = rounds match_arg af_tp args n >>= fun s => validate_arg match_arg af_tp args s n := by
  rw [rounds, List.range_succ, List.foldlM_append]
  simp only [List.foldlM_cons, List.foldlM_nil, bind_pure]
  rfl

theorem rounds_error (h : rounds match_arg af_tp args k = .error e) (hkn : k ≤ n) : rounds match_arg af_tp args n = .error e := by
  induction n, hkn using Nat.le_induction with
  | base => exact h
  | succ n _ ih =>
    rw [rounds_succ, ih]
    rfl

/-- As long as the arguments match they are stored. -/
theorem rounds_match (hk : k ≤ af_tp.get_npos) (h : first_match match_arg af_tp args k = some tp_vars) :
    rounds match_arg af_tp args k = .ok (filled af_tp args k, tp_vars) := by
  induction k generalizing tp_vars with
  | zero =>
    cases h
    rw [filled_zero]
    rfl
  | succ k ih =>
    obtain ⟨before, hbefore, -⟩ := Option.bind_eq_some_iff.mp h
    rw [rounds_succ, ih (by omega) hbefore]
    exact validate_arg_matches hbefore hk h

/-- The first that does not match is refused. -/
theorem rounds_mismatch (hk : k ≤ af_tp.get_npos) (h : first_match match_arg af_tp args k = none) :
    ∃ i < k, ∃ expected_tp, af_tp.get_pos_type i = some expected_tp ∧
      rounds match_arg af_tp args k = .error (arg_error i expected_tp (args.type i)) := by
  induction k with
  | zero => cases h
  | succ k ih =>
    cases hbefore : first_match match_arg af_tp args k with
    | none =>
      obtain ⟨i, hi, expected_tp, htp, herror⟩ := ih (by omega) hbefore
      exact ⟨i, by omega, expected_tp, htp, rounds_error herror (by omega)⟩
    | some before =>
      obtain ⟨expected_tp, htp, herror⟩ := validate_arg_refuses hbefore hk h
      refine ⟨k, by omega, expected_tp, htp, ?_⟩
      rw [rounds_succ, rounds_match (by omega) hbefore]
      exact herror

/-- The argument behind the last parameter is compared with no type. -/
theorem rounds_behind (h : first_match match_arg af_tp args af_tp.get_npos = some tp_vars) (hn : af_tp.get_npos < n) :
    rounds match_arg af_tp args n = .error .undefined := by
  apply rounds_error (k := af_tp.get_npos + 1) _ hn
  rw [rounds_succ, rounds_match le_rfl h]
  simp only [Lib.ok_bind, validate_arg, check_arg, get_pos_type_behind le_rfl]
  rfl

theorem positional_eq : positional match_arg af_tp args =
    if !af_tp.is_pos_variadic && args.m_size != af_tp.get_npos then .error (narg_error af_tp args.m_size)
    else rounds match_arg af_tp args args.m_size := by
  rw [positional, validate_types, check_narg]
  split_ifs
  · rfl
  · rfl

/-- The arrfunc gets what was stored. -/
theorem call_hands_over {A : Type} {env : environment A} {kwds : List (String × Kwds.array A)} {r : handed M D A}
    (h : call match_arg af_tp args env kwds = .ok r) :
    ∃ tp_vars, positional match_arg af_tp args = .ok (r.src, tp_vars) ∧ r.nsrc = r.src.arg_tp.length := by
  obtain ⟨⟨kwds_as_array, dst, tp_vars⟩, -, h⟩ := Lib.bind_eq_ok.mp h
  obtain ⟨⟨src, validated⟩, hsrc, h⟩ := Lib.bind_eq_ok.mp h
  cases h
  exact ⟨validated, hsrc, rfl⟩

theorem Stored.length {src : vectors M D} (h : Stored args src) : src.arg_tp.length = args.m_size := by
  rw [h.arg_tp, List.length_map, List.length_range]

/-- A call of as many arguments as parameters, or that ends before the first one too many, is safe. -/
theorem safe_of_validated (h : (∃ e, positional match_arg af_tp args = .error e ∧ Refused af_tp args e) ∨
    ∃ src tp_vars, positional match_arg af_tp args = .ok (src, tp_vars) ∧ Stored args src) : Safe match_arg af_tp args where
  validated := h
  handed := by
    intro A env kwds r hr
    obtain ⟨tp_vars, hpositional, hnsrc⟩ := call_hands_over hr
    rcases h with ⟨e, herror, -⟩ | ⟨src, tp_vars', hok, hstored⟩
    · rw [herror] at hpositional
      cases hpositional
    · rw [hok] at hpositional
      cases hpositional
      exact ⟨hstored, hnsrc.trans hstored.length⟩

theorem safe_of_mismatch (h : first_match match_arg af_tp args (min args.m_size af_tp.get_npos) = none) :
    Safe match_arg af_tp args := by
  apply safe_of_validated
  left
  obtain ⟨i, hi, expected_tp, htp, herror⟩ := rounds_mismatch (min_le_right _ _) h
  rw [positional_eq]
  split_ifs
  · exact ⟨_, rfl, Or.inl rfl⟩
  · exact ⟨_, rounds_error herror (min_le_left _ _), Or.inr ⟨i, by omega, expected_tp, htp, rfl⟩⟩

theorem safe_of_count (h : args.m_size = af_tp.get_npos) : Safe match_arg af_tp args := by
  cases hmatch : first_match match_arg af_tp args args.m_size with
  | none =>
    apply safe_of_mismatch
    rwa [← h, min_self]
  | some tp_vars =>
    apply safe_of_validated
    right
    refine ⟨_, tp_vars, ?_, stored_of_filled h⟩
    rw [positional_eq, if_neg (by simp [h])]
    exact rounds_match h.le hmatch

theorem safe_of_fixed (h : af_tp.is_pos_variadic = false) : Safe match_arg af_tp args := by
  rcases eq_or_ne args.m_size af_tp.get_npos with hcount | hcount
  · exact safe_of_count hcount
  · apply safe_of_validated
    left
    refine ⟨_, ?_, Or.inl rfl⟩
    rw [positional_eq, if_pos (by simp [h, hcount])]

/-- Too few matching arguments leave entries of the vectors empty, too many are stored behind them. -/
theorem count_of_safe (hsafe : Safe match_arg af_tp args) (hvariadic : af_tp.is_pos_variadic = true)
    (hmatch : first_match match_arg af_tp args (min args.m_size af_tp.get_npos) ≠ none) : args.m_size = af_tp.get_npos := by
  obtain ⟨tp_vars, htp_vars⟩ := Option.ne_none_iff_exists'.mp hmatch
  have hpositional : positional match_arg af_tp args = rounds match_arg af_tp args args.m_size := by
    rw [positional_eq, hvariadic]
    rfl
  rcases Nat.lt_or_ge af_tp.get_npos args.m_size with hmany | hfew
  · rw [min_eq_right hmany.le] at htp_vars
    rw [rounds_behind htp_vars hmany] at hpositional
    rcases hsafe.validated with ⟨e, herror, hrefused⟩ | ⟨src, tp_vars', hok, -⟩
    · rw [hpositional] at herror
      cases herror
      rcases hrefused with h | ⟨i, -, expected_tp, -, h⟩
      · cases h
      · cases h
    · rw [hpositional] at hok
      cases hok
  · rw [min_eq_left hfew] at htp_vars
    rw [rounds_match hfew htp_vars] at hpositional
    rcases hsafe.validated with ⟨e, herror, -⟩ | ⟨src, tp_vars', hok, hstored⟩
    · rw [hpositional] at herror
      cases herror
    · rw [hpositional] at hok
      cases hok
      rw [← hstored.length, length_filled]

end

/-- Every argument of a call is stored where the arrfunc finds it, unless the
parameters are variadic and their number is not that of the arguments. -/
theorem positional_safe_iff {M D : Type} (match_arg : Ty → Ty → M → Typevars → Bool × Typevars) (af_tp : arrfunc_type)
    (args : args M D) : Safe match_arg af_tp args ↔
      af_tp.is_pos_variadic = false ∨ args.m_size = af_tp.get_npos ∨
        first_match match_arg af_tp args (min args.m_size af_tp.get_npos) = none := by
  constructor
  · intro hsafe
    by_contra h
    push Not at h
    obtain ⟨hvariadic, hcount, hmatch⟩ := h
    exact hcount (count_of_safe hsafe (by simpa using hvariadic) hmatch)
  · rintro (h | h | h)
    · exact safe_of_fixed h
    · exact safe_of_count h
    · exact safe_of_mismatch h

/-- The signature `(...) -> void`. -/
def any_arguments : arrfunc_type where
  pos_tuple := .tuple [] true
  kwd_names := []
  kwd_types := []
  same_count := rfl
  kwd_variadic := false
  return_type := .void

/-- One argument to no declared parameter. -/
theorem one_argument_too_many : ¬ ∀ (match_arg : Ty → Ty → Unit → Typevars → Bool × Typevars) (af_tp : arrfunc_type)
    (args : args Unit Unit), Safe match_arg af_tp args := by
  intro h
  have hsafe := h (fun _ _ _ tp_vars => (true, tp_vars)) any_arguments
    (.components 1 (fun _ => .scalar "int32") (fun _ => ()) (fun _ => ()))
  have hcount := count_of_safe hsafe rfl (Option.some_ne_none _)
  cases hcount

end Positional
end Dynd
