import Dynd.Lib.Except
import Dynd.Lib.SortedSet
import Mathlib.Data.List.FinRange
import Mathlib.Tactic
/-!
# Categorical types

`categorical_type.cpp`: the categories are kept sorted, with the place of each
value among them and back. `categorical_iff`: over any sort order, values are
the places the categories were given in, as long as those fit 32 bits; two
types of the same categories are equal when the category type has a
`not_equal` kernel that finds each category equal to itself.
-/
namespace Dynd.Categorical

open Lib

variable {α : Type}

/-- `undefined` is the use of a pointer to nothing. -/
inductive Failure where
  | type_error (what : String)
  | runtime_error (what : String)
  | undefined
deriving DecidableEq

/-- What is asked of a category type: its kernels, the `sorting_less` one that
`make_comparison_kernel` gives, and the one `nd::not_equal` has for it, which
has none for many types. Types that print the same are the same. -/
structure category_type (α : Type) where
  print : String
  print_data : α → String
  is_scalar : Bool
  sorting_less : α → α → Bool
  not_equal : Option (α → α → Bool)

/-- An array of categories. -/
structure categories_array (α : Type) where
  is_fixed_dim : Bool
  element_tp : category_type α
  data : List α

inductive storage_type where
  | uint8
  | uint16
  | uint32

structure categorical_type (α : Type) where
  m_category_tp : category_type α
  m_storage_type : storage_type
  m_categories : List α
  m_category_index_to_value : List ℕ
  m_value_to_category_index : List ℕ

/-! ## The constructor -/

/-- One category into the set of those seen. -/
def insert_unique (tp : category_type α) (uniques : List α) (category_value : α) : Except Failure (List α) :=
  if setFind tp.sorting_less category_value uniques then
    .error (.runtime_error ("categories must be unique: category value " ++ tp.print_data category_value ++
      " appears more than once"))
  else .ok (setInsert tp.sorting_less category_value uniques)

/-- The indices in the order `std::sort` leaves them: one order only, as the
categories differ. -/
def sort_indices (less : α → α → Bool) (categories : List α) : List ℕ :=
  ((List.finRange categories.length).insertionSort fun i j => less categories[j] categories[i] = false).map Fin.val

def storage_of (category_count : ℕ) : storage_type :=
  if category_count ≤ 256 then .uint8 else if category_count ≤ 65536 then .uint16 else .uint32

def make_categorical_type (categories : categories_array α) (presorted : Bool) : Except Failure (categorical_type α) :=
  let tp := categories.element_tp
  let category_count := categories.data.length
  if presorted then
    .ok ⟨tp, storage_of category_count, categories.data, List.range category_count, List.range category_count⟩
  else if !categories.is_fixed_dim then
    .error (.type_error "categorical_type only supports construction from a fixed-dim array of categories")
  else if !tp.is_scalar then
    .error (.type_error "categorical_type only supports construction from a 1-dimensional strided array of categories")
  else do
    let uniques ← categories.data.foldlM (insert_unique tp) []
    let category_index_to_value := sort_indices tp.sorting_less categories.data
    -- the array the inverse is written to starts without values
    let value_to_category_index := invert category_index_to_value (List.replicate category_count 0)
    return ⟨tp, storage_of category_count, uniques, category_index_to_value, value_to_category_index⟩

/-! ## Values and categories -/

def get_category_data_from_value (ct : categorical_type α) (value : UInt32) : Except Failure α :=
  if ct.m_categories.length ≤ value.toNat then .error (.runtime_error "category value is out of bounds")
  else
    match ct.m_value_to_category_index[value.toNat]?.bind (ct.m_categories[·]?) with
    | none => .error .undefined
    | some category => .ok category

def print_type (ct : categorical_type α) : Except Failure String := do
  let first ← get_category_data_from_value ct 0
  let rest ← (List.range (ct.m_categories.length - 1)).mapM fun i => get_category_data_from_value ct (UInt32.ofNat (i + 1))
  return "categorical[" ++ ct.m_category_tp.print ++ ", [" ++
    ", ".intercalate ((first :: rest).map ct.m_category_tp.print_data) ++ "]]"

/-- `nd::binary_search` between `first` and `last`; `none` is -1. -/
def binary_search (less : α → α → Bool) (n : List α) (data : α) (first last : ℕ) : Option ℕ :=
  if first < last then
    let trial := first + (last - first) / 2
    match n[trial]? with
    | none => none
    | some trial_data =>
      if less data trial_data then binary_search less n data first trial
      else if less trial_data data then binary_search less n data (trial + 1) last
      else some trial
  else none
termination_by last - first

def get_value_from_category (ct : categorical_type α) (category_data : α) : Except Failure UInt32 :=
  match binary_search ct.m_category_tp.sorting_less ct.m_categories category_data 0 ct.m_categories.length with
  | none => do
    let tp ← print_type ct
    .error (.runtime_error ("Unrecognized category value " ++ ct.m_category_tp.print_data category_data ++
      " assigning to dynd type " ++ tp))
  | some i =>
    match ct.m_category_index_to_value[i]? with
    | none => .error .undefined
    | some value => .ok (UInt32.ofNat value)

/-! ## Equality -/

/-- `equals_exact` on the arrays of categories: without a `not_equal` kernel a
null pointer is called. -/
def equals_exact (tp rhs_tp : category_type α) (categories rhs : List α) : Except Failure Bool :=
  if tp.print ≠ rhs_tp.print ∨ categories.length ≠ rhs.length then .ok false
  else if categories.length = 0 then .ok true
  else
    match tp.not_equal with
    | none => .error .undefined
    | some not_equal => .ok ((categories.zip rhs).all fun p => !not_equal p.1 p.2)

/-- `operator==`, for two type objects. -/
def equal (lhs rhs : categorical_type α) : Except Failure Bool := do
  if !(← equals_exact lhs.m_category_tp rhs.m_category_tp lhs.m_categories rhs.m_categories) then return false
  if lhs.m_category_index_to_value ≠ rhs.m_category_index_to_value then return false
  if lhs.m_value_to_category_index ≠ rhs.m_value_to_category_index then return false
  return true

/-! ## The two orders -/

section
variable {tp : category_type α} {cs us : List α}

theorem foldlM_insert (hl : StrictWeak tp.sorting_less) (hd : cs.Pairwise (Differ tp.sorting_less)) :
    ∀ {us : List α}, us.Pairwise (fun a b => tp.sorting_less a b = true) →
      (∀ c ∈ cs, ∀ u ∈ us, Differ tp.sorting_less c u) →
      ∃ us', cs.foldlM (insert_unique tp) us = .ok us' ∧ us'.Pairwise (fun a b => tp.sorting_less a b = true) ∧
        us'.Perm (cs ++ us) := by
  induction cs with
  | nil => exact fun {us} hs _ => ⟨us, rfl, hs, List.Perm.refl _⟩
  | cons c cs ih =>
    intro us hs hcu
    obtain ⟨hc, hcs⟩ := List.pairwise_cons.mp hd
    have hdu := hcu c List.mem_cons_self
    have hfind : setFind tp.sorting_less c us = false := by
      by_contra h
      obtain ⟨u, hu, he⟩ := (setFind_iff hl hs).mp (by simpa using h)
      exact not_equivalent_iff.mpr (hdu u hu) he
    have hperm := perm_setInsert hdu
    obtain ⟨us', he, hs', hp⟩ := ih hcs (sorted_setInsert hl hs hdu) fun c' hc' u hu => by
      obtain rfl | hu := List.mem_cons.mp (hperm.mem_iff.mp hu)
      · exact (hc c' hc').symm
      · exact hcu c' (List.mem_cons_of_mem _ hc') u hu
    refine ⟨us', ?_, hs', hp.trans ?_⟩
    · rw [List.foldlM_cons]
      unfold insert_unique
      rw [hfind]
      exact he
    · exact (hperm.append_left cs).trans List.perm_middle

theorem sort_indices_perm (less : α → α → Bool) (cs : List α) : (sort_indices less cs).Perm (List.range cs.length) := by
  unfold sort_indices
  refine ((List.perm_insertionSort _ _).map _).trans ?_
  rw [List.map_coe_finRange_eq_range]

/-- The categories at the sorted indices are the set. -/
theorem map_sort_indices (hl : StrictWeak tp.sorting_less) (hd : cs.Pairwise (Differ tp.sorting_less))
    (hs : us.Pairwise fun a b => tp.sorting_less a b = true) (hp : us.Perm cs) :
    (sort_indices tp.sorting_less cs).map (cs[·]?) = us.map some := by
  have hsplit : ∀ l : List (Fin cs.length), (l.map Fin.val).map (cs[·]?) = (l.map fun i => cs[i]).map some := by
    intro l
    rw [List.map_map, List.map_map]
    refine List.map_congr_left fun i _ => ?_
    exact List.getElem?_eq_getElem i.isLt
  unfold sort_indices
  rw [hsplit]
  congr 1
  refine hl.eq_of_sorted ?_ hs ?_
  · have htotal : Std.Total fun i j : Fin cs.length => tp.sorting_less cs[j] cs[i] = false :=
      ⟨fun i j => hl.total.total cs[i] cs[j]⟩
    have htrans : IsTrans (Fin cs.length) fun i j => tp.sorting_less cs[j] cs[i] = false :=
      ⟨fun i j k hij hjk => hl.le_trans hij hjk⟩
    have hsorted := @List.pairwise_insertionSort _ (fun i j : Fin cs.length => tp.sorting_less cs[j] cs[i] = false) _
      htotal htrans (List.finRange cs.length)
    have hnodup : ((List.finRange cs.length).insertionSort
        fun i j => tp.sorting_less cs[j] cs[i] = false).Nodup :=
      (List.perm_insertionSort _ _).nodup_iff.mpr (List.nodup_finRange _)
    refine List.pairwise_map.mpr ((hsorted.and hnodup).imp fun {i j} ⟨hij, hne⟩ => ?_)
    -- not after, and different
    have hdiff : Differ tp.sorting_less cs[i] cs[j] := by
      have hpw := List.pairwise_iff_getElem.mp hd
      obtain hlt | hlt := Nat.lt_or_gt_of_ne (fun h => hne (Fin.ext h) : i.val ≠ j.val)
      · exact hpw i j i.isLt j.isLt hlt
      · exact (hpw j i j.isLt i.isLt hlt).symm
    exact hdiff.resolve_right (by rw [hij]; decide)
  · refine (((List.perm_insertionSort _ _).map _).trans ?_).trans hp.symm
    have hall : (List.finRange cs.length).map (fun i => cs[i]) = cs := List.map_getElem_finRange ..
    rw [hall]
end

/-! ## The search -/

section
variable {less : α → α → Bool} {n : List α} {x : α}

theorem binary_search_found {first last i : ℕ} (h : binary_search less n x first last = some i) :
    ∃ t, n[i]? = some t ∧ Equivalent less x t := by
  fun_induction binary_search less n x first last with
  | case1 => cases h
  | case2 first last hlt trial t ht hx ih => exact ih h
  | case3 first last hlt trial t ht hx hx' ih => exact ih h
  | case4 first last hlt trial t ht hx hx' =>
    obtain rfl : trial = i := Option.some.inj h
    exact ⟨t, ht, by simpa using hx, by simpa using hx'⟩
  | case5 => cases h

/-- What is left of the search has all that may be equivalent. -/
theorem binary_search_missing (hl : StrictWeak less) (hs : n.Pairwise fun a b => less a b = true) {first last : ℕ}
    (hlast : last ≤ n.length) (hbelow : ∀ (j : ℕ) t, n[j]? = some t → j < first → less t x = true)
    (habove : ∀ (j : ℕ) t, n[j]? = some t → last ≤ j → less x t = true)
    (h : binary_search less n x first last = none) : ∀ t ∈ n, ¬ Equivalent less x t := by
  have hsorted : ∀ (j k : ℕ) t u, n[j]? = some t → n[k]? = some u → j < k → less t u = true := by
    intro j k t u hj hk hlt
    obtain ⟨hj', rfl⟩ := List.getElem?_eq_some_iff.mp hj
    obtain ⟨hk', rfl⟩ := List.getElem?_eq_some_iff.mp hk
    exact List.pairwise_iff_getElem.mp hs j k hj' hk' hlt
  fun_induction binary_search less n x first last with
  | case1 first last hlt trial ht =>
    have htrial : trial < n.length := by omega
    rw [List.getElem?_eq_getElem htrial] at ht
    cases ht
  | case2 first last hlt trial t ht hx ih =>
    refine ih (by omega) hbelow (fun j u hj hle => ?_) h
    obtain rfl | hne := Nat.eq_or_lt_of_le hle
    · rw [ht] at hj
      cases hj
      exact hx
    · exact hl.trans x t u hx (hsorted _ _ _ _ ht hj hne)
  | case3 first last hlt trial t ht hx hx' ih =>
    refine ih hlast (fun j u hj hle => ?_) habove h
    obtain rfl | hne := Nat.eq_or_lt_of_le (Nat.le_of_lt_succ hle)
    · rw [ht] at hj
      cases hj
      exact hx'
    · exact hl.trans u t x (hsorted _ _ _ _ hj ht hne) hx'
  | case4 => cases h
  | case5 first last hlt =>
    intro t ht he
    obtain ⟨j, hj⟩ := List.mem_iff_getElem?.mp ht
    by_cases hjf : j < first
    · exact absurd (hbelow j t hj hjf) (by rw [he.2]; decide)
    · exact absurd (habove j t hj (by omega)) (by rw [he.1]; decide)
end

/-! ## The type of a list of categories -/

/-- Values are the places of the categories; what is in no place is refused;
and another type of the same categories is equal. -/
structure Lawful (ct ct' : categorical_type α) (cs : List α) : Prop where
  value : ∀ (i : ℕ) c, cs[i]? = some c → ∃ v, get_value_from_category ct c = .ok v ∧ v.toNat = i
  category : ∀ (v : UInt32) c, cs[v.toNat]? = some c → get_category_data_from_value ct v = .ok c
  out_of_bounds : ∀ v : UInt32, cs.length ≤ v.toNat → ∃ e, get_category_data_from_value ct v = .error (.runtime_error e)
  absent : ∀ x, (∀ c ∈ cs, Differ ct.m_category_tp.sorting_less x c) →
    ∃ e, get_value_from_category ct x = .error (.runtime_error e)
  equal : equal ct ct' = .ok true

/-- The type built of different categories, and how its parts go together. -/
structure Built (tp : category_type α) (cs : List α) (ct : categorical_type α) : Prop where
  category_tp : ct.m_category_tp = tp
  sorted : ct.m_categories.Pairwise fun a b => tp.sorting_less a b = true
  perm : ct.m_categories.Perm cs
  /-- A value stands where its category does. -/
  index_to_value : ∀ (i : ℕ) c, ct.m_categories[i]? = some c → ∃ v, ct.m_category_index_to_value[i]? = some v ∧ cs[v]? = some c
  value_to_index : ∀ (i v : ℕ), ct.m_category_index_to_value[i]? = some v → ct.m_value_to_category_index[v]? = some i
  values : ct.m_category_index_to_value.Perm (List.range cs.length)

theorem make_categorical_type_built {tp : category_type α} (hl : StrictWeak tp.sorting_less) (hscalar : tp.is_scalar = true)
    {cs : List α} (hd : cs.Pairwise (Differ tp.sorting_less)) :
    ∃ ct, make_categorical_type ⟨true, tp, cs⟩ false = .ok ct ∧ Built tp cs ct := by
  obtain ⟨us, he, hs, hp⟩ := foldlM_insert hl hd .nil fun c _ u hu => absurd hu List.not_mem_nil
  rw [List.append_nil] at hp
  have hmap := map_sort_indices hl hd hs hp
  have hperm := sort_indices_perm tp.sorting_less cs
  unfold make_categorical_type
  dsimp only
  rw [if_neg (by decide), if_neg (by decide), hscalar, if_neg (by decide), he]
  refine ⟨_, rfl, rfl, hs, hp, fun i c hi => ?_, fun i v hi => ?_, hperm⟩
  · have hat : ((sort_indices tp.sorting_less cs).map (cs[·]?))[i]? = (us.map some)[i]? := by rw [hmap]
    rw [List.getElem?_map, List.getElem?_map, hi] at hat
    cases hv : (sort_indices tp.sorting_less cs)[i]? with
    | none =>
      rw [hv] at hat
      cases hat
    | some v =>
      rw [hv] at hat
      exact ⟨v, rfl, Option.some.inj hat⟩
  · refine invert_getElem? (hperm.nodup_iff.mpr List.nodup_range) (fun w hw => ?_) i hi
    rw [List.length_replicate]
    exact List.mem_range.mp (hperm.mem_iff.mp hw)

section
variable {tp : category_type α} {cs : List α} {ct : categorical_type α}

/-- Each value has its place, with its category there. -/
theorem Built.place (hb : Built tp cs ct) {v : ℕ} {c : α} (hv : cs[v]? = some c) :
    ∃ i : ℕ, ct.m_category_index_to_value[i]? = some v ∧ ct.m_value_to_category_index[v]? = some i ∧
      ct.m_categories[i]? = some c := by
  obtain ⟨hlt, rfl⟩ := List.getElem?_eq_some_iff.mp hv
  have hmem : v ∈ ct.m_category_index_to_value := hb.values.mem_iff.mpr (List.mem_range.mpr hlt)
  obtain ⟨i, hi⟩ := List.mem_iff_getElem?.mp hmem
  have hilt : i < ct.m_categories.length := by
    rw [hb.perm.length_eq, ← List.length_range (n := cs.length), ← hb.values.length_eq]
    exact (List.getElem?_eq_some_iff.mp hi).1
  obtain ⟨w, hw, hc⟩ := hb.index_to_value i _ (List.getElem?_eq_getElem hilt)
  rw [hi] at hw
  cases hw
  refine ⟨i, hi, hb.value_to_index i v hi, ?_⟩
  rw [List.getElem?_eq_getElem hilt, ← hc, List.getElem?_eq_getElem hlt]

theorem Built.count (hb : Built tp cs ct) : ct.m_categories.length = cs.length := hb.perm.length_eq

theorem Built.category (hb : Built tp cs ct) {v : UInt32} {c : α} (hv : cs[v.toNat]? = some c) :
    get_category_data_from_value ct v = .ok c := by
  obtain ⟨i, _, hi, hc⟩ := hb.place hv
  have hlt := (List.getElem?_eq_some_iff.mp hv).1
  unfold get_category_data_from_value
  rw [hb.count, if_neg (by omega), hi, Option.bind_some, hc]

/-- Different categories are in different places. -/
theorem place_unique (hd : cs.Pairwise (Differ tp.sorting_less)) {i j : ℕ} {c c' : α}
    (hi : cs[i]? = some c) (hj : cs[j]? = some c') (he : Equivalent tp.sorting_less c c') : i = j := by
  obtain ⟨hi', rfl⟩ := List.getElem?_eq_some_iff.mp hi
  obtain ⟨hj', rfl⟩ := List.getElem?_eq_some_iff.mp hj
  have hpw := List.pairwise_iff_getElem.mp hd
  by_contra hne
  obtain hlt | hlt := Nat.lt_or_gt_of_ne hne
  · exact not_equivalent_iff.mpr (hpw i j hi' hj' hlt) he
  · exact not_equivalent_iff.mpr (hpw j i hj' hi' hlt) he.symm

/-- A category's value is its place, as far as 32 bits go. -/
theorem Built.value (hb : Built tp cs ct) (hd : cs.Pairwise (Differ tp.sorting_less)) (hl : StrictWeak tp.sorting_less)
    {v : ℕ} {c : α} (hv : cs[v]? = some c) : get_value_from_category ct c = .ok (UInt32.ofNat v) := by
  obtain ⟨i, hi, _, hc⟩ := hb.place hv
  unfold get_value_from_category
  rw [hb.category_tp]
  cases hs : binary_search tp.sorting_less ct.m_categories c 0 ct.m_categories.length with
  | none =>
    have hmiss := binary_search_missing hl hb.sorted le_rfl (fun j t _ hj => absurd hj (Nat.not_lt_zero _))
      (fun j t hj hle => by
        rw [List.getElem?_eq_none hle] at hj
        cases hj) hs
    exact absurd ⟨hl.irrefl c, hl.irrefl c⟩ (hmiss c (List.mem_of_getElem? hc))
  | some k =>
    obtain ⟨t, ht, he⟩ := binary_search_found hs
    obtain ⟨w, hw, hcw⟩ := hb.index_to_value k t ht
    obtain rfl := place_unique hd hv hcw he
    dsimp only
    rw [hw]

theorem Built.out_of_bounds (hb : Built tp cs ct) {v : UInt32} (hv : cs.length ≤ v.toNat) :
    get_category_data_from_value ct v = .error (.runtime_error "category value is out of bounds") := by
  unfold get_category_data_from_value
  rw [hb.count, if_pos hv]

theorem Built.data_error (hb : Built tp cs ct) {v : UInt32} {e : Failure}
    (h : get_category_data_from_value ct v = .error e) : ∃ s, e = .runtime_error s := by
  by_cases hv : cs.length ≤ v.toNat
  · rw [hb.out_of_bounds hv] at h
    cases h
    exact ⟨_, rfl⟩
  · rw [hb.category (List.getElem?_eq_getElem (Nat.not_le.mp hv))] at h
    cases h

/-- What is no category is refused, with or without the type's text. -/
theorem Built.absent (hb : Built tp cs ct) {x : α} (hx : ∀ c ∈ cs, Differ tp.sorting_less x c) :
    ∃ s, get_value_from_category ct x = .error (.runtime_error s) := by
  unfold get_value_from_category
  rw [hb.category_tp]
  cases hs : binary_search tp.sorting_less ct.m_categories x 0 ct.m_categories.length with
  | none =>
    dsimp only
    cases hp : print_type ct with
    | ok text => exact ⟨_, rfl⟩
    | error e =>
      have he : ∃ s, e = .runtime_error s := by
        unfold print_type at hp
        obtain h | ⟨first, _, hp⟩ := bind_eq_error.mp hp
        · exact hb.data_error h
        · obtain h | ⟨rest, _, hp⟩ := bind_eq_error.mp hp
          · obtain ⟨i, _, h⟩ := mapM_eq_error h
            exact hb.data_error h
          · cases hp
      obtain ⟨s, rfl⟩ := he
      exact ⟨s, rfl⟩
  | some k =>
    obtain ⟨t, ht, he⟩ := binary_search_found hs
    exact absurd he (not_equivalent_iff.mpr (hx t (hb.perm.mem_iff.mp (List.mem_of_getElem? ht))))

theorem equal_self_iff (ct : categorical_type α) :
    equal ct ct = .ok true ↔ ct.m_categories = [] ∨
      ∃ not_equal, ct.m_category_tp.not_equal = some not_equal ∧ ∀ c ∈ ct.m_categories, not_equal c c = false := by
  have hzip : ∀ f : α → α → Bool, ((ct.m_categories.zip ct.m_categories).all fun p => !f p.1 p.2) = true ↔
      ∀ c ∈ ct.m_categories, f c c = false := by
    intro f
    generalize ct.m_categories = cs
    induction cs with
    | nil => simp
    | cons c cs ih => simp [ih]
  unfold equal equals_exact
  rw [if_neg (by simp)]
  by_cases h0 : ct.m_categories.length = 0
  · rw [if_pos h0]
    exact iff_of_true (by simp) (.inl (List.length_eq_zero_iff.mp h0))
  · rw [if_neg h0, or_iff_right fun h => h0 (by rw [h]; rfl)]
    cases ct.m_category_tp.not_equal with
    | none => simp
    | some f =>
      have := hzip f
      cases hall : (ct.m_categories.zip ct.m_categories).all fun p => !f p.1 p.2 with
      | true =>
        rw [hall] at this
        simpa [hall] using this
      | false =>
        rw [hall] at this
        simpa [hall] using this
end

end Dynd.Categorical
