import Mathlib.Logic.Function.Basic
import Dynd.SubstituteTypevars
/-!
# Keyword arguments of an arrfunc

A call resolves the names it is given to the fields of the arrfunc's keyword
struct (`kwds::validate_names`), checks and completes the types
(`validate_kwd_types`) and fills the struct it hands on (`kwds::as_array`).
-/
namespace Dynd
open Lib

/-! ## Types and values -/

namespace Ty

def builtin_names : List String :=
  ["bool", "int8", "int16", "int32", "int64", "int128", "uint8", "uint16", "uint32", "uint64", "uint128",
    "float16", "float32", "float64", "float128", "complex[float32]", "complex[float64]"]

def is_builtin : Ty → Bool
  | .void => true
  | .scalar name => name ∈ builtin_names
  | _ => false

/-- The types of kind `dim_kind`: the symbolic dimensions are of other kinds. Types of kind `memory_kind` are not built. -/
def is_dim_kind : Ty → Bool
  | .fixed_dim _ _ | .var_dim _ => true
  | _ => false

/-- `get_option_builtin_assign_na`, where it answers. -/
def builtin_assign_na (name : String) : Bool :=
  name ∈ ["bool", "int8", "int16", "int32", "int64", "int128", "float32", "float64", "complex[float32]", "complex[float64]"]

end Ty

namespace Kwds

/-- An `nd::array`: its type, and the memory its origin pointer leads to. -/
structure array (A : Type) where
  tp : Ty
  data : A

/-- The type of an arrfunc: `kwd_types` are the fields of `m_kwd_struct`, under the names `kwd_names`. -/
structure arrfunc_type where
  pos_tuple : Ty
  kwd_names : List String
  kwd_types : List Ty
  same_count : kwd_types.length = kwd_names.length
  kwd_variadic : Bool
  return_type : Ty

namespace arrfunc_type
variable (self : arrfunc_type)

def as_type : Ty := .arrfunc self.pos_tuple (.struct self.kwd_names self.kwd_types self.kwd_variadic) self.return_type

def get_nkwd : ℕ := self.kwd_names.length

def get_kwd_name (i : ℕ) : String := self.kwd_names.getD i ""

def get_kwd_type (i : ℕ) : Ty := self.kwd_types.getD i .void

/-- `base_struct_type::get_field_index`: the first field of that name, and none under the empty name. -/
def get_kwd_index (name : String) : Option ℕ := if name = "" then none else self.kwd_names.findIdx? (· = name)

/-- `m_opt_kwd_indices`, as the constructor makes it. -/
def get_option_kwd_indices : List ℕ := (List.range self.get_nkwd).filter fun i => (self.get_kwd_type i).is_option

theorem get_kwd_index_lt {name : String} {j : ℕ} (h : self.get_kwd_index name = some j) : j < self.get_nkwd := by
  unfold get_kwd_index at h
  split_ifs at h
  obtain ⟨hj, -⟩ := List.findIdx?_eq_some_iff_findIdx_eq.mp h
  exact hj

end arrfunc_type

/-- What the call asks of the rest of the library. -/
structure environment (A : Type) where
  /-- `nd::empty(value.as<ndt::type>())` -/
  empty_as : array A → Except SubstituteError (array A)
  /-- `args.validate_types`, for the positional arguments of the call -/
  validate_types : Except SubstituteError Typevars
  /-- `self_tp->get_return_type().match`, for the type and arrmeta of a destination -/
  match_dst : Ty → array A → Typevars → Bool × Typevars
  /-- `expected_tp.match(actual_tp.value_type(), tp_vars)` -/
  match_value : Ty → Ty → Typevars → Bool × Typevars
  /-- Whether the virtual functions `get_is_avail` and `get_assign_na` answer. -/
  get_assign_na : Ty → Bool

variable {A : Type}

/-- Whether the constructor of `option_type` finds an `is_avail` and an `assign_na` for the value type. -/
def has_assign_na (env : environment A) : Ty → Bool
  | .void => true
  | .scalar name => if name ∈ Ty.builtin_names then Ty.builtin_assign_na name else env.get_assign_na (.scalar name)
  | value_tp => env.get_assign_na value_tp

/-! ## Names -/

/-- What `check_name` reads and writes. A null type of `kwd_tp` and the -1 of `available` are `none`. -/
structure names_state (A : Type) where
  dst : Option (array A)
  has_dst_tp : Bool
  kwd_tp : ℕ → Option Ty
  available : List (Option ℕ)

def names_state.initial : names_state A where
  dst := none
  has_dst_tp := false
  kwd_tp := fun _ => none
  available := []

/-- The answer, and `dst` as it leaves it. -/
def is_special_kwd (env : environment A) (dst : Option (array A)) (name : String) (value : array A) :
    Except SubstituteError (Bool × Option (array A)) :=
  if name = "dst_tp" then do
    let res ← env.empty_as value
    return (true, some res)
  else if name = "dst" then .ok (true, some value)
  else .ok (false, dst)

def check_name (env : environment A) (af_tp : arrfunc_type) (s : names_state A) (kwd : String × array A) :
    Except SubstituteError (names_state A) :=
  match af_tp.get_kwd_index kwd.1 with
  | none => do
    let (is_special, dst) ← is_special_kwd env s.dst kwd.1 kwd.2
    if is_special then return { s with dst := dst, has_dst_tp := true, available := s.available ++ [none] }
    else throw (.invalid_argument [.text "passed an unexpected keyword \"", .text kwd.1,
      .text "\" to arrfunc with type ", .type af_tp.as_type])
  | some j =>
    if (s.kwd_tp j).isSome then
      .error (.invalid_argument [.text "arrfunc passed keyword \"", .text kwd.1, .text "\" more than once"])
    else .ok { s with kwd_tp := Function.update s.kwd_tp j (some kwd.2.tp), available := s.available ++ [some j] }

def check_nkwd (af_tp : arrfunc_type) (available : List (Option ℕ)) (missing : List ℕ) : Except SubstituteError Unit :=
  if available.length + missing.length < af_tp.get_nkwd then
    .error (.invalid_argument [.text "arrfunc requires keyword parameters that were not provided. arrfunc signature ",
      .type af_tp.as_type])
  else .ok ()

/-- The number `nkwd` that it computes from `has_dst_tp` is not used. -/
def validate_names (env : environment A) (af_tp : arrfunc_type) (kwds : List (String × array A)) :
    Except SubstituteError (names_state A × List ℕ) := do
  let s ← kwds.foldlM (check_name env af_tp) names_state.initial
  let missing := af_tp.get_option_kwd_indices.filter fun j => (s.kwd_tp j).isNone
  check_nkwd af_tp s.available missing
  return (s, missing)

/-! ## Types -/

/-- The type a value has to match: the value type where the keyword is optional. -/
def expected_type (af_tp : arrfunc_type) (j : ℕ) : Ty :=
  match af_tp.get_kwd_type j with
  | .option value_tp => value_tp
  | tp => tp

/-- A round of the loop over `available`. -/
def validate_available (env : environment A) (af_tp : arrfunc_type) (s : (ℕ → Option Ty) × Typevars) :
    Option ℕ → Except SubstituteError ((ℕ → Option Ty) × Typevars)
  | none => .ok s
  | some j =>
    match s.1 j with
    | none => .error .undefined
    | some actual_tp =>
      let (matched, tp_vars) := env.match_value (expected_type af_tp j) actual_tp s.2
      if !matched then
        .error (.invalid_argument [.text "keyword \"", .text (af_tp.get_kwd_name j), .text "\" does not match, ",
          .text "arrfunc expected ", .type (expected_type af_tp j), .text " but passed ", .type actual_tp])
      else if actual_tp.is_dim_kind then .ok (Function.update s.1 j (some (.pointer actual_tp)), tp_vars)
      else .ok (s.1, tp_vars)

/-- The type of the field of a missing keyword. -/
def missing_type (af_tp : arrfunc_type) (tp_vars : Typevars) (j : ℕ) : Except SubstituteError Ty := do
  let actual_tp ← substitute tp_vars false (af_tp.get_kwd_type j)
  if actual_tp.is_symbolic then Ty.make_option .void else return actual_tp

/-- A round of the loop over `missing`. -/
def validate_missing (af_tp : arrfunc_type) (tp_vars : Typevars) (kwd_tp : ℕ → Option Ty) (j : ℕ) :
    Except SubstituteError (ℕ → Option Ty) := do
  let actual_tp ← missing_type af_tp tp_vars j
  return Function.update kwd_tp j (some actual_tp)

def validate_kwd_types (env : environment A) (af_tp : arrfunc_type) (kwd_tp : ℕ → Option Ty)
    (available : List (Option ℕ)) (missing : List ℕ) (tp_vars : Typevars) :
    Except SubstituteError ((ℕ → Option Ty) × Typevars) := do
  let (kwd_tp, tp_vars) ← available.foldlM (validate_available env af_tp) (kwd_tp, tp_vars)
  let kwd_tp ← missing.foldlM (validate_missing af_tp tp_vars) kwd_tp
  return (kwd_tp, tp_vars)

/-! ## The struct -/

/-- The data of a field: `value` has the bytes of the array's data, `pointer` has their address. -/
inductive field_data (A : Type) where
  | unset
  | value (val : array A)
  | pointer (val : array A)
  | na

def forward_as_array (tp : Ty) (val : array A) : field_data A :=
  if tp.is_builtin || tp.is_arrfunc then .value val else .pointer val

/-- A round of the loop of `fill_available_values`; the value goes by the type of its field. -/
def fill_available_value (tp : ℕ → Option Ty) (data : ℕ → field_data A) : Option ℕ × array A → ℕ → field_data A
  | (none, _) => data
  | (some j, val) => Function.update data j (forward_as_array ((tp j).getD .void) val)

/-- `arrmeta_default_construct` and `assign_na`, on the type of a missing field. -/
def assign_na (env : environment A) : Option Ty → Except SubstituteError (field_data A)
  | some (.option value_tp) =>
    if has_assign_na env value_tp then .ok .na
    else .error (.type_error [.text "cannot instantiate data with type ", .type (.option value_tp)])
  | _ => .error .undefined

/-- A round of `fill_missing_values`. -/
def fill_missing_value (env : environment A) (tp : ℕ → Option Ty) (data : ℕ → field_data A) (j : ℕ) :
    Except SubstituteError (ℕ → field_data A) := do
  return Function.update data j (← assign_na env (tp j))

/-- The keyword struct that the arrfunc gets. A field type that is still null is `none`. -/
structure kwds_struct (A : Type) where
  field_types : ℕ → Option Ty
  data : ℕ → field_data A

def as_array (env : environment A) (kwds : List (String × array A)) (tp : ℕ → Option Ty) (available : List (Option ℕ))
    (missing : List ℕ) : Except SubstituteError (kwds_struct A) := do
  let data := (available.zip (kwds.map Prod.snd)).foldl (fill_available_value tp) fun _ => .unset
  let data ← missing.foldlM (fill_missing_value env tp) data
  return { field_types := tp, data := data }

/-! ## The call -/

def check_dst (env : environment A) (af_tp : arrfunc_type) (dst : Option (array A)) (tp_vars : Typevars) :
    Except SubstituteError Typevars :=
  match dst with
  | none => .ok tp_vars
  | some dst =>
    let (matched, tp_vars) := env.match_dst af_tp.return_type dst tp_vars
    if matched then .ok tp_vars
    else .error (.invalid_argument [.text "provided \"dst\" type ", .type dst.tp,
      .text " does not match arrfunc return type ", .type af_tp.return_type])

/-- `arrfunc::call` up to the arrfunc itself: the keywords and the destination that it gets. -/
def call (env : environment A) (self_tp : arrfunc_type) (kwds : List (String × array A)) :
    Except SubstituteError (kwds_struct A × Option (array A) × Typevars) := do
  let (s, missing) ← validate_names env self_tp kwds
  let tp_vars ← env.validate_types
  let tp_vars ← check_dst env self_tp s.dst tp_vars
  let (kwd_tp, tp_vars) ← validate_kwd_types env self_tp s.kwd_tp s.available missing tp_vars
  let kwds_as_array ← as_array env kwds kwd_tp s.available missing
  return (kwds_as_array, s.dst, tp_vars)

/-! ## What the call is given -/

/-- The keywords that are named, by the index of their field. -/
def given (af_tp : arrfunc_type) (kwds : List (String × array A)) : List ℕ := kwds.filterMap fun k => af_tp.get_kwd_index k.1

/-- The first value under a keyword's name. -/
def value_of (af_tp : arrfunc_type) (kwds : List (String × array A)) (j : ℕ) : Option (array A) :=
  (kwds.find? fun k => af_tp.get_kwd_index k.1 = some j).map Prod.snd

/-- The names that no keyword is declared under. -/
def special_count (af_tp : arrfunc_type) (kwds : List (String × array A)) : ℕ :=
  kwds.countP fun k => (af_tp.get_kwd_index k.1).isNone

/-- The optional keywords that are not given. -/
def missing_options (af_tp : arrfunc_type) (kwds : List (String × array A)) : List ℕ :=
  af_tp.get_option_kwd_indices.filter fun j => j ∉ given af_tp kwds

/-- The other keywords that are not given. -/
def missing_required (af_tp : arrfunc_type) (kwds : List (String × array A)) : List ℕ :=
  (List.range af_tp.get_nkwd).filter fun j => !(af_tp.get_kwd_type j).is_option && j ∉ given af_tp kwds

/-- The names are declared or special, and no declared one is repeated. -/
structure NamesValid (af_tp : arrfunc_type) (kwds : List (String × array A)) : Prop where
  known : ∀ k ∈ kwds, (af_tp.get_kwd_index k.1).isSome ∨ k.1 = "dst" ∨ k.1 = "dst_tp"
  nodup : (given af_tp kwds).Nodup

section
variable {af_tp : arrfunc_type} {kwds : List (String × array A)} {k : String × array A} {j : ℕ}

@[simp] theorem given_nil : given af_tp ([] : List (String × array A)) = [] := rfl

theorem given_cons_none (h : af_tp.get_kwd_index k.1 = none) : given af_tp (k :: kwds) = given af_tp kwds :=
  List.filterMap_cons_none h

theorem given_cons_some (h : af_tp.get_kwd_index k.1 = some j) : given af_tp (k :: kwds) = j :: given af_tp kwds :=
  List.filterMap_cons_some h

theorem mem_given : j ∈ given af_tp kwds ↔ ∃ k ∈ kwds, af_tp.get_kwd_index k.1 = some j := List.mem_filterMap

theorem lt_of_mem_given (h : j ∈ given af_tp kwds) : j < af_tp.get_nkwd := by
  obtain ⟨k, -, hk⟩ := mem_given.mp h
  exact af_tp.get_kwd_index_lt hk

@[simp] theorem value_of_nil : value_of af_tp ([] : List (String × array A)) j = none := rfl

theorem value_of_cons_self (h : af_tp.get_kwd_index k.1 = some j) : value_of af_tp (k :: kwds) j = some k.2 := by
  simp [value_of, h]

theorem value_of_cons_of_ne (h : af_tp.get_kwd_index k.1 ≠ some j) :
    value_of af_tp (k :: kwds) j = value_of af_tp kwds j := by
  simp [value_of, h]

theorem value_of_isSome : (value_of af_tp kwds j).isSome ↔ j ∈ given af_tp kwds := by
  rw [mem_given, value_of, Option.isSome_map, List.find?_isSome]
  simp

theorem value_of_eq_none : value_of af_tp kwds j = none ↔ j ∉ given af_tp kwds := by
  rw [← value_of_isSome, Option.not_isSome_iff_eq_none]

theorem value_of_eq_some (hnodup : (given af_tp kwds).Nodup) {val : array A} :
    value_of af_tp kwds j = some val ↔ ∃ k ∈ kwds, af_tp.get_kwd_index k.1 = some j ∧ k.2 = val := by
  constructor
  · intro h
    obtain ⟨k, hk, rfl⟩ := Option.map_eq_some_iff.mp h
    exact ⟨k, List.mem_of_find?_eq_some hk, by simpa using List.find?_some hk, rfl⟩
  · rintro ⟨k, hk, hindex, rfl⟩
    induction kwds with
    | nil => cases hk
    | cons l kwds ih =>
      rcases List.mem_cons.mp hk with rfl | hk
      · exact value_of_cons_self hindex
      · cases hl : af_tp.get_kwd_index l.1 with
        | none =>
          rw [given_cons_none hl] at hnodup
          rw [value_of_cons_of_ne (by simp [hl]), ih hnodup hk]
        | some i =>
          rw [given_cons_some hl] at hnodup
          obtain ⟨hi, hnodup⟩ := List.nodup_cons.mp hnodup
          have hij : i ≠ j := fun hij => hi (mem_given.mpr ⟨k, hk, hij ▸ hindex⟩)
          rw [value_of_cons_of_ne (by simpa [hl] using hij), ih hnodup hk]

theorem length_eq_given (af_tp : arrfunc_type) (kwds : List (String × array A)) :
    kwds.length = (given af_tp kwds).length + special_count af_tp kwds := by
  induction kwds with
  | nil => rfl
  | cons k kwds ih =>
    unfold special_count at ih ⊢
    cases h : af_tp.get_kwd_index k.1 with
    | none => simp [given_cons_none h, h, ih, Nat.add_assoc]
    | some j => simp [given_cons_some h, h, ih, Nat.add_right_comm]

/-- Every keyword is given, an option without a value, or required and without one. -/
theorem keywords_partition (h : (given af_tp kwds).Nodup) :
    (given af_tp kwds).length + (missing_options af_tp kwds).length + (missing_required af_tp kwds).length
      = af_tp.get_nkwd := by
  have hgiven : (given af_tp kwds).length = ((List.range af_tp.get_nkwd).filter (· ∈ given af_tp kwds)).length := by
    refine List.Perm.length_eq ((List.perm_ext_iff_of_nodup h (List.nodup_range.filter _)).mpr ?_)
    intro j
    simp only [List.mem_filter, List.mem_range, decide_eq_true_eq]
    exact ⟨fun hj => ⟨lt_of_mem_given hj, hj⟩, And.right⟩
  have hsplit : ∀ fields : List ℕ, (fields.filter (· ∈ given af_tp kwds)).length
      + (fields.filter fun j => j ∉ given af_tp kwds && (af_tp.get_kwd_type j).is_option).length
      + (fields.filter fun j => !(af_tp.get_kwd_type j).is_option && j ∉ given af_tp kwds).length = fields.length := by
    intro fields
    induction fields with
    | nil => rfl
    | cons j fields ih =>
      by_cases hj : j ∈ given af_tp kwds <;> cases ho : (af_tp.get_kwd_type j).is_option <;> simp [hj, ho] at ih ⊢ <;> omega
  rw [hgiven, missing_options, missing_required, arrfunc_type.get_option_kwd_indices, List.filter_filter, hsplit,
    List.length_range]

end

/-! ## Names, resolved -/

/-- What the special names leave in `dst`. -/
def passed_dst (env : environment A) (af_tp : arrfunc_type) :
    List (String × array A) → Option (array A) → Except SubstituteError (Option (array A))
  | [], dst => .ok dst
  | k :: kwds, dst =>
    match af_tp.get_kwd_index k.1 with
    | some _ => passed_dst env af_tp kwds dst
    | none => do
      let (_, dst) ← is_special_kwd env dst k.1 k.2
      passed_dst env af_tp kwds dst

section
variable {env : environment A} {af_tp : arrfunc_type} {kwds : List (String × array A)} {k : String × array A}
  {s s' : names_state A}

/-- What one name does. -/
theorem check_name_cases (h : check_name env af_tp s k = .ok s') :
    (∃ j, af_tp.get_kwd_index k.1 = some j ∧ s.kwd_tp j = none ∧
      s' = { s with kwd_tp := Function.update s.kwd_tp j (some k.2.tp), available := s.available ++ [some j] }) ∨
    (∃ dst, af_tp.get_kwd_index k.1 = none ∧ (k.1 = "dst" ∨ k.1 = "dst_tp") ∧
      is_special_kwd env s.dst k.1 k.2 = .ok (true, dst) ∧
      s' = { s with dst := dst, has_dst_tp := true, available := s.available ++ [none] }) := by
  unfold check_name at h
  split at h
  next hindex =>
    right
    obtain ⟨⟨is_special, dst⟩, hspecial, h⟩ := bind_eq_ok.mp h
    have hname : k.1 = "dst" ∨ k.1 = "dst_tp" ∨ is_special = false := by
      unfold is_special_kwd at hspecial
      split_ifs at hspecial with h1 h2
      · exact .inr (.inl h1)
      · exact .inl h2
      · cases hspecial
        exact .inr (.inr rfl)
    cases is_special with
    | false => cases h
    | true =>
      cases h
      exact ⟨dst, hindex, by simpa using hname, hspecial, rfl⟩
  next j hindex =>
    left
    split_ifs at h with hnull
    cases h
    exact ⟨j, hindex, by simpa using hnull, rfl⟩

/-- All names have been resolved: they are valid, and this is what the loop has gathered. -/
theorem check_names_spec (h : kwds.foldlM (check_name env af_tp) s = .ok s') :
    NamesValid af_tp kwds ∧ (∀ j ∈ given af_tp kwds, s.kwd_tp j = none) ∧
      s'.available = s.available ++ kwds.map (fun k => af_tp.get_kwd_index k.1) ∧
      (∀ j, s'.kwd_tp j = ((value_of af_tp kwds j).map array.tp).or (s.kwd_tp j)) ∧
      passed_dst env af_tp kwds s.dst = .ok s'.dst := by
  induction kwds generalizing s with
  | nil =>
    cases h
    exact ⟨⟨by simp, by simp⟩, by simp, by simp, by simp, rfl⟩
  | cons k kwds ih =>
    rw [List.foldlM_cons] at h
    obtain ⟨s₁, hk, h⟩ := bind_eq_ok.mp h
    obtain ⟨hvalid, hfresh, havailable, htp, hdst⟩ := ih h
    rcases check_name_cases hk with ⟨j, hindex, hnull, rfl⟩ | ⟨dst, hindex, hname, hspecial, rfl⟩
    · have hj : j ∉ given af_tp kwds := by
        intro hj
        simpa using hfresh j hj
      refine ⟨⟨?_, ?_⟩, ?_, ?_, ?_, ?_⟩
      · exact List.forall_mem_cons.mpr ⟨.inl (by simp [hindex]), hvalid.known⟩
      · rw [given_cons_some hindex]
        exact List.nodup_cons.mpr ⟨hj, hvalid.nodup⟩
      · rw [given_cons_some hindex]
        refine List.forall_mem_cons.mpr ⟨hnull, fun i hi => ?_⟩
        have hne : i ≠ j := fun hij => hj (hij ▸ hi)
        simpa [hne] using hfresh i hi
      · simp [havailable, hindex]
      · intro i
        rw [htp i]
        by_cases hij : i = j
        · subst hij
          rw [value_of_eq_none.mpr hj, value_of_cons_self hindex]
          simp
        · rw [value_of_cons_of_ne (by simpa [hindex] using Ne.symm hij)]
          simp [hij]
      · simpa [passed_dst, hindex] using hdst
    · refine ⟨⟨?_, ?_⟩, ?_, ?_, ?_, ?_⟩
      · exact List.forall_mem_cons.mpr ⟨.inr hname, hvalid.known⟩
      · rw [given_cons_none hindex]
        exact hvalid.nodup
      · rw [given_cons_none hindex]
        exact hfresh
      · simp [havailable, hindex]
      · intro i
        rw [htp i, value_of_cons_of_ne (by simp [hindex])]
      · simpa [passed_dst, hindex, hspecial] using hdst

/-- Valid names are resolved. -/
theorem check_names_run {dst : Option (array A)} (hvalid : NamesValid af_tp kwds)
    (hfresh : ∀ j ∈ given af_tp kwds, s.kwd_tp j = none) (hdst : passed_dst env af_tp kwds s.dst = .ok dst) :
    ∃ s', kwds.foldlM (check_name env af_tp) s = .ok s' := by
  induction kwds generalizing s with
  | nil => exact ⟨s, rfl⟩
  | cons k kwds ih =>
    rw [List.foldlM_cons]
    have hknown : ∀ k ∈ kwds, (af_tp.get_kwd_index k.1).isSome ∨ k.1 = "dst" ∨ k.1 = "dst_tp" :=
      fun l hl => hvalid.known l (List.mem_cons_of_mem _ hl)
    cases hindex : af_tp.get_kwd_index k.1 with
    | some j =>
      have hnodup := hvalid.nodup
      rw [given_cons_some hindex] at hnodup hfresh
      obtain ⟨hj, hnodup⟩ := List.nodup_cons.mp hnodup
      have hnull : s.kwd_tp j = none := hfresh j List.mem_cons_self
      simp only [check_name, hindex, hnull, Option.isSome_none, Bool.false_eq_true, if_false, ok_bind]
      apply ih ⟨hknown, hnodup⟩
      · intro i hi
        have hne : i ≠ j := fun hij => hj (hij ▸ hi)
        simpa [hne] using hfresh i (List.mem_cons_of_mem _ hi)
      · simpa [passed_dst, hindex] using hdst
    | none =>
      have hnodup := hvalid.nodup
      rw [given_cons_none hindex] at hnodup hfresh
      have hname : k.1 = "dst" ∨ k.1 = "dst_tp" := by
        simpa [hindex] using hvalid.known k List.mem_cons_self
      simp only [passed_dst, hindex] at hdst
      obtain ⟨⟨is_special, dst₁⟩, hspecial, hdst⟩ := bind_eq_ok.mp hdst
      have htrue : is_special = true := by
        unfold is_special_kwd at hspecial
        split_ifs at hspecial with h1 h2
        · obtain ⟨_, -, h⟩ := bind_eq_ok.mp hspecial
          cases h
          rfl
        · cases hspecial
          rfl
        · exact absurd hname (by tauto)
      subst htrue
      simp only [check_name, hindex, hspecial, ok_bind, if_true, pure_eq_ok]
      exact ih ⟨hknown, hnodup⟩ hfresh hdst

end

/-! ## Types, checked and completed -/

/-- The values match the declared types, one after the other: each may bind type variables. -/
inductive KwdsMatch (env : environment A) (af_tp : arrfunc_type) :
    List (String × array A) → Typevars → Typevars → Prop
  | nil (tp_vars : Typevars) : KwdsMatch env af_tp [] tp_vars tp_vars
  | other {name : String} {value : array A} {kwds : List (String × array A)} {v v' : Typevars} :
      af_tp.get_kwd_index name = none → KwdsMatch env af_tp kwds v v' → KwdsMatch env af_tp ((name, value) :: kwds) v v'
  | declared {name : String} {value : array A} {kwds : List (String × array A)} {j : ℕ} {v v₁ v' : Typevars} :
      af_tp.get_kwd_index name = some j → env.match_value (expected_type af_tp j) value.tp v = (true, v₁) →
      KwdsMatch env af_tp kwds v₁ v' → KwdsMatch env af_tp ((name, value) :: kwds) v v'

/-- The type of the field that gets a value of this type. -/
def forwarded_type (tp : Ty) : Ty := if tp.is_dim_kind then .pointer tp else tp

/-- A loop that gives each place of a list its own value. -/
theorem foldlM_update_ok {ε β : Type} {f : ℕ → Except ε β} {l : List ℕ} {g g' : ℕ → β} :
    l.foldlM (fun g j => do return Function.update g j (← f j)) g = .ok g' ↔
      (∀ j ∈ l, f j = .ok (g' j)) ∧ ∀ j, j ∉ l → g' j = g j := by
  induction l generalizing g with
  | nil =>
    simp only [List.foldlM_nil, pure_eq_ok, Except.ok.injEq, List.not_mem_nil, not_false_eq_true, forall_const,
      false_implies, true_and]
    exact ⟨fun h j => by rw [h], fun h => (funext h).symm⟩
  | cons a l ih =>
    rw [List.foldlM_cons]
    constructor
    · intro h
      obtain ⟨g₁, h₁, h⟩ := bind_eq_ok.mp h
      obtain ⟨b, hb, h₁⟩ := bind_eq_ok.mp h₁
      cases h₁
      obtain ⟨hmem, hnot⟩ := ih.mp h
      refine ⟨List.forall_mem_cons.mpr ⟨?_, hmem⟩, ?_⟩
      · by_cases ha : a ∈ l
        · exact hmem a ha
        · rw [hb, hnot a ha, Function.update_self]
      · intro j hj
        obtain ⟨hja, hj⟩ : j ≠ a ∧ j ∉ l := by simpa using hj
        rw [hnot j hj, Function.update_of_ne hja]
    · rintro ⟨hmem, hnot⟩
      obtain ⟨ha, hmem⟩ := List.forall_mem_cons.mp hmem
      rw [ha, ok_bind, pure_eq_ok, ok_bind]
      refine ih.mpr ⟨hmem, fun j hj => ?_⟩
      by_cases hja : j = a
      · rw [hja, Function.update_self]
      · rw [Function.update_of_ne hja]
        exact hnot j (by simp [hja, hj])

section
variable {env : environment A} {af_tp : arrfunc_type} {kwds : List (String × array A)} {v v' : Typevars}

/-- Each given value's type is checked once, and a dimension goes behind a pointer. -/
theorem validate_available_run {kwd_tp : ℕ → Option Ty} (hmatch : KwdsMatch env af_tp kwds v v')
    (hnodup : (given af_tp kwds).Nodup)
    (htp : ∀ j ∈ given af_tp kwds, kwd_tp j = (value_of af_tp kwds j).map array.tp) :
    (kwds.map fun k => af_tp.get_kwd_index k.1).foldlM (validate_available env af_tp) (kwd_tp, v) =
      .ok (fun j => if j ∈ given af_tp kwds then (kwd_tp j).map forwarded_type else kwd_tp j, v') := by
  induction hmatch generalizing kwd_tp with
  | nil v => simp
  | @other name value kwds v v' hindex hmatch ih =>
    rw [given_cons_none hindex] at hnodup htp
    rw [List.map_cons, List.foldlM_cons, hindex, validate_available, ok_bind, given_cons_none hindex]
    refine ih hnodup fun j hj => ?_
    rw [htp j hj, value_of_cons_of_ne (by simp [hindex])]
  | @declared name value kwds j v v₁ v' hindex hm hmatch ih =>
    rw [given_cons_some hindex] at hnodup htp
    obtain ⟨hj, hnodup⟩ := List.nodup_cons.mp hnodup
    have hactual : kwd_tp j = some value.tp := by
      rw [htp j List.mem_cons_self, value_of_cons_self hindex]
      rfl
    have hround : validate_available env af_tp (kwd_tp, v) (some j) =
        .ok (Function.update kwd_tp j (some (forwarded_type value.tp)), v₁) := by
      simp only [validate_available, hactual, hm, Bool.not_true, Bool.false_eq_true, if_false, forwarded_type]
      split_ifs
      · rfl
      · rw [← hactual, Function.update_eq_self]
    rw [List.map_cons, List.foldlM_cons, hindex, hround, ok_bind, given_cons_some hindex, ih hnodup]
    · congr 2
      funext i
      by_cases hij : i = j
      · simp [hij, hj, hactual]
      · simp [hij]
    · intro i hi
      have hij : i ≠ j := fun h => hj (h ▸ hi)
      rw [Function.update_of_ne hij, htp i (List.mem_cons_of_mem _ hi),
        value_of_cons_of_ne (by simpa [hindex] using Ne.symm hij)]

/-- The field of a missing keyword that is an option gets an option type. -/
theorem missing_type_option {tp : Ty} {j : ℕ} (ho : (af_tp.get_kwd_type j).is_option) (h : missing_type af_tp v j = .ok tp) :
    ∃ value_tp, tp = .option value_tp := by
  obtain ⟨actual_tp, hsub, h⟩ := bind_eq_ok.mp h
  split_ifs at h
  · cases h
    exact ⟨_, rfl⟩
  cases h
  generalize af_tp.get_kwd_type j = pattern at ho hsub
  cases pattern <;> simp only [Ty.is_option, Bool.false_eq_true] at ho
  next value_tp =>
    rw [substitute, unless_concrete] at hsub
    split_ifs at hsub
    · cases hsub
      exact ⟨_, rfl⟩
    · obtain ⟨r, -, hr⟩ := bind_eq_ok.mp hsub
      unfold Ty.make_option at hr
      split_ifs at hr
      cases hr
      exact ⟨_, rfl⟩

end

/-! ## The struct, filled -/

/-- A missing keyword can be given NA: its option type is known, and has a missing value. -/
def Fillable (env : environment A) (af_tp : arrfunc_type) (tp_vars : Typevars) (j : ℕ) : Prop :=
  ∃ value_tp, missing_type af_tp tp_vars j = .ok (.option value_tp) ∧ has_assign_na env value_tp

section
variable {env : environment A} {af_tp : arrfunc_type} {kwds : List (String × array A)}

theorem fill_available_spec {tp : ℕ → Option Ty} {data : ℕ → field_data A} (hnodup : (given af_tp kwds).Nodup) (j : ℕ) :
    ((kwds.map fun k => af_tp.get_kwd_index k.1).zip (kwds.map Prod.snd)).foldl (fill_available_value tp) data j =
      ((value_of af_tp kwds j).map fun val => forward_as_array ((tp j).getD .void) val).getD (data j) := by
  induction kwds generalizing data with
  | nil => rfl
  | cons k kwds ih =>
    rw [List.map_cons, List.map_cons, List.zip_cons_cons, List.foldl_cons]
    cases hindex : af_tp.get_kwd_index k.1 with
    | none =>
      rw [given_cons_none hindex] at hnodup
      rw [ih hnodup, value_of_cons_of_ne (by simp [hindex]), fill_available_value]
    | some i =>
      rw [given_cons_some hindex] at hnodup
      obtain ⟨hi, hnodup⟩ := List.nodup_cons.mp hnodup
      rw [ih hnodup, fill_available_value]
      by_cases hij : j = i
      · subst hij
        rw [value_of_eq_none.mpr hi, value_of_cons_self hindex]
        simp
      · rw [value_of_cons_of_ne (by simpa [hindex] using Ne.symm hij), Function.update_of_ne hij]

/-- The types of the missing keywords are completed when each of them can be. -/
theorem validate_missing_ok {tp_vars : Typevars} {l : List ℕ} {kwd_tp kwd_tp' : ℕ → Option Ty} :
    l.foldlM (validate_missing af_tp tp_vars) kwd_tp = .ok kwd_tp' ↔
      (∀ j ∈ l, ∃ tp, missing_type af_tp tp_vars j = .ok tp ∧ kwd_tp' j = some tp) ∧ ∀ j, j ∉ l → kwd_tp' j = kwd_tp j := by
  have hround : validate_missing af_tp tp_vars =
      fun g j => do return Function.update g j (← some <$> missing_type af_tp tp_vars j) := by
    funext g j
    unfold validate_missing
    cases missing_type af_tp tp_vars j <;> rfl
  rw [hround, foldlM_update_ok]
  refine and_congr_left fun _ => forall₂_congr fun j _ => ?_
  rw [map_eq_ok]
  exact exists_congr fun tp => and_congr_right fun _ => eq_comm

theorem assign_na_ok {tp : Option Ty} {data : field_data A} :
    assign_na env tp = .ok data ↔ (∃ value_tp, tp = some (.option value_tp) ∧ has_assign_na env value_tp) ∧ data = .na := by
  unfold assign_na
  split
  next value_tp =>
    split_ifs with hna
    · rw [Except.ok.injEq, eq_comm]
      simp [hna]
    · simp [hna]
  next hother =>
    simp only [reduceCtorEq, false_iff, not_and]
    rintro ⟨value_tp, htp, -⟩
    exact absurd htp (hother value_tp)

/-- The missing keywords are filled with NA when their types have one. -/
theorem fill_missing_ok {tp : ℕ → Option Ty} {l : List ℕ} {data data' : ℕ → field_data A} :
    l.foldlM (fill_missing_value env tp) data = .ok data' ↔
      (∀ j ∈ l, (∃ value_tp, tp j = some (.option value_tp) ∧ has_assign_na env value_tp) ∧ data' j = .na) ∧
        ∀ j, j ∉ l → data' j = data j := by
  have hround : fill_missing_value env tp = fun g j => do return Function.update g j (← assign_na env (tp j)) := rfl
  rw [hround, foldlM_update_ok]
  simp only [assign_na_ok]

end

/-! ## The call -/

/-- The values of a call match what is declared: the positional arguments, a destination, and the
keywords in the order they are given. `tp_vars` is what the type variables are bound to then. -/
inductive ValuesMatch (env : environment A) (af_tp : arrfunc_type) (kwds : List (String × array A)) (tp_vars : Typevars) :
    Prop
  | intro (vars₀ vars₁ : Typevars) (dst : Option (array A)) (positional : env.validate_types = .ok vars₀)
      (destination : passed_dst env af_tp kwds none = .ok dst) (returned : check_dst env af_tp dst vars₀ = .ok vars₁)
      (keywords : KwdsMatch env af_tp kwds vars₁ tp_vars)

section
variable {env : environment A} {af_tp : arrfunc_type} {kwds : List (String × array A)} {tp_vars : Typevars}
  {s : names_state A} {missing : List ℕ}

/-- The names of a call, resolved. -/
theorem resolved_names (h : kwds.foldlM (check_name env af_tp) names_state.initial = .ok s) :
    NamesValid af_tp kwds ∧ s.available = kwds.map (fun k => af_tp.get_kwd_index k.1) ∧
      s.kwd_tp = (fun j => (value_of af_tp kwds j).map array.tp) ∧ passed_dst env af_tp kwds none = .ok s.dst ∧
      (af_tp.get_option_kwd_indices.filter fun j => (s.kwd_tp j).isNone) = missing_options af_tp kwds := by
  obtain ⟨hvalid, -, havailable, htp, hdst⟩ := check_names_spec h
  have htp : s.kwd_tp = fun j => (value_of af_tp kwds j).map array.tp := by
    funext j
    simpa [names_state.initial] using htp j
  refine ⟨hvalid, by simpa [names_state.initial] using havailable, htp, hdst, ?_⟩
  unfold missing_options
  congr 1
  funext j
  rw [htp, Bool.eq_iff_iff]
  simp [value_of_eq_none]

/-- The special names count for required keywords. -/
theorem check_nkwd_ok (hnodup : (given af_tp kwds).Nodup) :
    check_nkwd af_tp (kwds.map fun k => af_tp.get_kwd_index k.1) (missing_options af_tp kwds) = .ok () ↔
      (missing_required af_tp kwds).length ≤ special_count af_tp kwds := by
  have hpart := keywords_partition hnodup
  have hlength := length_eq_given af_tp kwds
  rw [check_nkwd, List.length_map]
  split_ifs with hlt
  · refine iff_of_false ?_ (by omega)
    exact fun h => nomatch h
  · exact iff_of_true rfl (by omega)

theorem validate_names_ok (h : validate_names env af_tp kwds = .ok (s, missing)) :
    NamesValid af_tp kwds ∧ (missing_required af_tp kwds).length ≤ special_count af_tp kwds ∧
      missing = missing_options af_tp kwds ∧ s.available = kwds.map (fun k => af_tp.get_kwd_index k.1) ∧
      s.kwd_tp = (fun j => (value_of af_tp kwds j).map array.tp) ∧ passed_dst env af_tp kwds none = .ok s.dst := by
  obtain ⟨s₁, hnames, h⟩ := bind_eq_ok.mp h
  obtain ⟨⟨⟩, hcount, h⟩ := bind_eq_ok.mp h
  cases h
  obtain ⟨hvalid, havailable, htp, hdst, hmissing⟩ := resolved_names hnames
  rw [hmissing, havailable] at hcount
  exact ⟨hvalid, (check_nkwd_ok hvalid.nodup).mp hcount, hmissing, havailable, htp, hdst⟩

theorem validate_names_run {dst : Option (array A)} (hvalid : NamesValid af_tp kwds)
    (hcount : (missing_required af_tp kwds).length ≤ special_count af_tp kwds)
    (hdst : passed_dst env af_tp kwds none = .ok dst) : ∃ s missing, validate_names env af_tp kwds = .ok (s, missing) := by
  obtain ⟨s, hs⟩ := check_names_run (s := names_state.initial) hvalid (fun _ _ => rfl) hdst
  obtain ⟨-, havailable, -, -, hmissing⟩ := resolved_names hs
  refine ⟨s, missing_options af_tp kwds, ?_⟩
  have hcheck := (check_nkwd_ok hvalid.nodup).mpr hcount
  rw [← havailable] at hcheck
  simp only [validate_names, hs, ok_bind, hmissing, hcheck, pure_eq_ok]

/-- What a field holds of its value: the bytes, or their address in a field of pointer type. Without a value it is NA. -/
inductive Holds : Option (array A) → Option Ty → field_data A → Prop
  | value (val : array A) : Holds (some val) (some val.tp) (.value val)
  | pointer (val : array A) : Holds (some val) (some (.pointer val.tp)) (.pointer val)
  | na (value_tp : Ty) : Holds none (some (.option value_tp)) .na

/-- The struct has the values passed under the names of its fields, and NA where none was passed. -/
def FieldsHold (af_tp : arrfunc_type) (kwds : List (String × array A)) (res : kwds_struct A) : Prop :=
  ∀ j < af_tp.get_nkwd, Holds (value_of af_tp kwds j) (res.field_types j) (res.data j)

/-- What validation is to accept. -/
structure Acceptable (af_tp : arrfunc_type) (kwds : List (String × array A)) : Prop extends NamesValid af_tp kwds where
  required : ∀ j < af_tp.get_nkwd, (af_tp.get_kwd_type j).is_option = false → j ∈ given af_tp kwds

/-- The types whose values `forward_as_array` leaves as the field's type says. -/
def Forwardable (tp : Ty) : Prop := tp.is_builtin ∨ tp.is_arrfunc ∨ tp.is_dim_kind

theorem holds_forwarded {val : array A} :
    Holds (some val) (some (forwarded_type val.tp)) (forward_as_array (forwarded_type val.tp) val) ↔ Forwardable val.tp := by
  have hself : ∀ tp : Ty, tp ≠ .pointer tp := fun tp h => absurd (congrArg sizeOf h) (by simp)
  unfold Forwardable forward_as_array forwarded_type
  by_cases hdim : val.tp.is_dim_kind
  · simp only [hdim, if_true, Ty.is_builtin, Ty.is_arrfunc, Bool.or_self, Bool.false_eq_true, if_false, or_true, iff_true]
    exact .pointer val
  · simp only [hdim, Bool.false_eq_true, if_false, or_false]
    split_ifs with hcopied
    · exact iff_of_true (.value val) (by simpa using hcopied)
    · refine iff_of_false ?_ (by simpa using hcopied)
      rintro h
      generalize hfield : some val.tp = field at h
      cases h
      exact hself _ (Option.some.inj hfield)

/-- The types of the fields whose values are given. -/
def given_types (af_tp : arrfunc_type) (kwds : List (String × array A)) (j : ℕ) : Option Ty :=
  (value_of af_tp kwds j).map fun val => forwarded_type val.tp

/-- With matching values, what remains to do for valid names is to complete the missing keywords. -/
theorem call_of_names {res : kwds_struct A × Option (array A) × Typevars} (h : ValuesMatch env af_tp kwds tp_vars)
    (hnames : validate_names env af_tp kwds = .ok (s, missing)) :
    call env af_tp kwds = .ok res ↔ ∃ kwd_tp data,
      (missing_options af_tp kwds).foldlM (validate_missing af_tp tp_vars) (given_types af_tp kwds) = .ok kwd_tp ∧
      (missing_options af_tp kwds).foldlM (fill_missing_value env kwd_tp) (fun j =>
        ((value_of af_tp kwds j).map fun val => forward_as_array ((kwd_tp j).getD .void) val).getD .unset) = .ok data ∧
      ({ field_types := kwd_tp, data := data }, s.dst, tp_vars) = res := by
  obtain ⟨vars₀, vars₁, dst, hpos, hdst, hret, hkwds⟩ := h
  obtain ⟨hvalid, -, rfl, havailable, htp, hs⟩ := validate_names_ok hnames
  have hdst : s.dst = dst := Except.ok.inj (hs.symm.trans hdst)
  have hgiven : ∀ j ∈ given af_tp kwds, s.kwd_tp j = (value_of af_tp kwds j).map array.tp := fun j _ => by rw [htp]
  have htypes : (fun j => if j ∈ given af_tp kwds then (s.kwd_tp j).map forwarded_type else s.kwd_tp j) =
      given_types af_tp kwds := by
    funext j
    rw [htp, given_types]
    split_ifs with hj
    · rw [Option.map_map]
      rfl
    · simp [value_of_eq_none.mpr hj]
  have hfirst := validate_available_run hkwds hvalid.nodup hgiven
  rw [htypes, ← havailable] at hfirst
  have hfill : ∀ tp : ℕ → Option Ty,
      (s.available.zip (kwds.map Prod.snd)).foldl (fill_available_value tp) (fun _ => .unset) =
        fun j => ((value_of af_tp kwds j).map fun val => forward_as_array ((tp j).getD .void) val).getD .unset := by
    intro tp
    funext j
    rw [havailable, fill_available_spec hvalid.nodup]
  rw [← hdst] at hret
  simp only [call, hnames, hpos, hret, validate_kwd_types, hfirst, as_array, hfill, ok_bind, pure_eq_ok, bind_eq_ok,
    Except.ok.injEq]
  constructor
  · rintro ⟨_, ⟨kwd_tp, htp, rfl⟩, _, ⟨data, hdata, rfl⟩, rfl⟩
    exact ⟨kwd_tp, data, htp, hdata, rfl⟩
  · rintro ⟨kwd_tp, data, htp, hdata, rfl⟩
    exact ⟨_, ⟨kwd_tp, htp, rfl⟩, _, ⟨data, hdata, rfl⟩, rfl⟩

/-- The call succeeds for valid names when the special names make up for the required keywords
that are missing, and the optional ones that are missing can be filled. -/
theorem call_accepts_iff (h : ValuesMatch env af_tp kwds tp_vars) :
    (∃ res, call env af_tp kwds = .ok res) ↔
      NamesValid af_tp kwds ∧ (missing_required af_tp kwds).length ≤ special_count af_tp kwds ∧
        ∀ j ∈ missing_options af_tp kwds, Fillable env af_tp tp_vars j := by
  constructor
  · rintro ⟨res, hres⟩
    obtain ⟨⟨s, missing⟩, hnames, -⟩ := bind_eq_ok.mp hres
    obtain ⟨kwd_tp, data, htypes, hdata, -⟩ := (call_of_names h hnames).mp hres
    obtain ⟨hvalid, hcount, -⟩ := validate_names_ok hnames
    refine ⟨hvalid, hcount, fun j hj => ?_⟩
    obtain ⟨tp, htp, hfield⟩ := (validate_missing_ok.mp htypes).1 j hj
    obtain ⟨⟨value_tp, hoption, hna⟩, -⟩ := (fill_missing_ok.mp hdata).1 j hj
    obtain rfl : tp = .option value_tp := Option.some.inj (hfield.symm.trans hoption)
    exact ⟨value_tp, htp, hna⟩
  · rintro ⟨hvalid, hcount, hfill⟩
    obtain ⟨-, -, dst, -, hdst, -, -⟩ := id h
    obtain ⟨s, missing, hnames⟩ := validate_names_run hvalid hcount hdst
    let kwd_tp := fun j => if j ∈ missing_options af_tp kwds then (missing_type af_tp tp_vars j).toOption
      else given_types af_tp kwds j
    let data := fun j => if j ∈ missing_options af_tp kwds then .na
      else ((value_of af_tp kwds j).map fun val => forward_as_array ((kwd_tp j).getD .void) val).getD .unset
    refine ⟨_, (call_of_names h hnames).mpr ⟨kwd_tp, data, ?_, ?_, rfl⟩⟩
    · refine validate_missing_ok.mpr ⟨fun j hj => ?_, fun j hj => if_neg hj⟩
      obtain ⟨value_tp, htp, -⟩ := hfill j hj
      exact ⟨_, htp, by simp only [kwd_tp, if_pos hj, htp]; rfl⟩
    · refine fill_missing_ok.mpr ⟨fun j hj => ⟨?_, if_pos hj⟩, fun j hj => if_neg hj⟩
      obtain ⟨value_tp, htp, hna⟩ := hfill j hj
      exact ⟨value_tp, by simp only [kwd_tp, if_pos hj, htp]; rfl, hna⟩

/-- What the fields of a struct that was filled hold: a value as `forward_as_array` leaves it, NA, or nothing. -/
theorem call_fields {res : kwds_struct A × Option (array A) × Typevars} (h : ValuesMatch env af_tp kwds tp_vars)
    (hres : call env af_tp kwds = .ok res) (j : ℕ) :
    (∀ val, value_of af_tp kwds j = some val → res.1.field_types j = some (forwarded_type val.tp) ∧
      res.1.data j = forward_as_array (forwarded_type val.tp) val) ∧
    (j ∈ missing_options af_tp kwds → ∃ value_tp, res.1.field_types j = some (.option value_tp) ∧ res.1.data j = .na) := by
  obtain ⟨⟨s, missing⟩, hnames, -⟩ := bind_eq_ok.mp hres
  obtain ⟨kwd_tp, data, htypes, hdata, rfl⟩ := (call_of_names h hnames).mp hres
  obtain ⟨hmissing, hgiven⟩ := validate_missing_ok.mp htypes
  obtain ⟨hna, hvalue⟩ := fill_missing_ok.mp hdata
  constructor
  · intro val hval
    have hj : j ∉ missing_options af_tp kwds := by
      intro hj
      have hnot := (List.mem_filter.mp hj).2
      rw [decide_eq_true_eq, ← value_of_eq_none, hval] at hnot
      cases hnot
    have htp : kwd_tp j = some (forwarded_type val.tp) := by
      rw [hgiven j hj, given_types, hval]
      rfl
    refine ⟨htp, (hvalue j hj).trans ?_⟩
    rw [hval, htp]
    rfl
  · intro hj
    obtain ⟨⟨value_tp, htp, -⟩, hdata⟩ := hna j hj
    exact ⟨value_tp, htp, hdata⟩

theorem mem_missing_options {j : ℕ} : j ∈ missing_options af_tp kwds ↔
    j < af_tp.get_nkwd ∧ (af_tp.get_kwd_type j).is_option ∧ j ∉ given af_tp kwds := by
  simp only [missing_options, arrfunc_type.get_option_kwd_indices, List.mem_filter, List.mem_range, decide_eq_true_eq,
    and_assoc]

theorem missing_required_eq_nil : missing_required af_tp kwds = [] ↔
    ∀ j < af_tp.get_nkwd, (af_tp.get_kwd_type j).is_option = false → j ∈ given af_tp kwds := by
  simp [missing_required, List.filter_eq_nil_iff]

/-- The fields of an acceptable call are right when `forward_as_array` serves every value's type. -/
theorem fieldsHold_iff {res : kwds_struct A × Option (array A) × Typevars} (h : ValuesMatch env af_tp kwds tp_vars)
    (hres : call env af_tp kwds = .ok res) (hok : Acceptable af_tp kwds) :
    FieldsHold af_tp kwds res.1 ↔ ∀ k ∈ kwds, (af_tp.get_kwd_index k.1).isSome → Forwardable k.2.tp := by
  constructor
  · intro hfields k hk hindex
    obtain ⟨j, hj⟩ := Option.isSome_iff_exists.mp hindex
    have hval : value_of af_tp kwds j = some k.2 := (value_of_eq_some hok.nodup).mpr ⟨k, hk, hj, rfl⟩
    have hfield := hfields j (af_tp.get_kwd_index_lt hj)
    obtain ⟨htp, hdata⟩ := (call_fields h hres j).1 k.2 hval
    rw [hval, htp, hdata] at hfield
    exact holds_forwarded.mp hfield
  · intro hforward j hj
    cases hval : value_of af_tp kwds j with
    | some val =>
      obtain ⟨k, hk, hindex, rfl⟩ := (value_of_eq_some hok.nodup).mp hval
      obtain ⟨htp, hdata⟩ := (call_fields h hres j).1 k.2 hval
      rw [htp, hdata]
      exact holds_forwarded.mpr (hforward k hk (by simp [hindex]))
    | none =>
      have hgiven := value_of_eq_none.mp hval
      have hoption : (af_tp.get_kwd_type j).is_option = true := by
        by_contra hno
        exact hgiven (hok.required j hj (by simpa using hno))
      obtain ⟨value_tp, htp, hdata⟩ := (call_fields h hres j).2 (mem_missing_options.mpr ⟨hj, hoption, hgiven⟩)
      rw [htp, hdata]
      exact .na value_tp

/-- Keyword validation does what it is meant to do on a call: it accepts the call when it is acceptable,
and hands on a struct whose fields hold the passed values. -/
def ValidatesCall (env : environment A) (af_tp : arrfunc_type) (kwds : List (String × array A)) : Prop :=
  ((∃ res, call env af_tp kwds = .ok res) ↔ Acceptable af_tp kwds) ∧
    ∀ res, call env af_tp kwds = .ok res → FieldsHold af_tp kwds res.1

end

/-- A call without positional arguments, where scalars match themselves. -/
def scalar_environment : environment ℕ where
  empty_as _ := .error .undefined
  validate_types := .ok fun _ => none
  match_dst ret dst tp_vars := (scalar_match ret dst.tp, tp_vars)
  match_value expected actual tp_vars := (scalar_match expected actual, tp_vars)
  get_assign_na _ := false
where
  scalar_match : Ty → Ty → Bool
    | .scalar expected, .scalar actual => expected = actual
    | _, _ => false

end Kwds
end Dynd
