import Dynd.ArrayViews
/-!
# Elements of a permuted array

`nd::array::permute` and what is built on it. Where the axes move in one group
that ends with the last of them, the element of the result at an index is the
element of the array at the index with its entries put at their axes. A group
that does not end with the last axis gives a type of too many dimensions.
-/
namespace Dynd.FixedDim
open Lib LinearIndex

/-! ## Rotating and transposing -/

def rotate_axes (to_axis from_axis : ℕ) : List ℕ :=
  if from_axis < to_axis then
    (List.range (to_axis + 1)).map fun i => if i < from_axis then i else if i < to_axis then i + 1 else from_axis
  else
    (List.range (from_axis + 1)).map fun i => if i < to_axis then i else if i = to_axis then from_axis else i - 1

def transpose_axes (ndim : ℕ) : List ℕ := (List.range ndim).map fun i => ndim - i - 1

section
variable {T : Type}

section
variable [ElementType T]

def rotate (to_axis from_axis : ℕ) (a : FixedArray T) : Except array_error (FixedArray T) :=
  if from_axis ≠ to_axis then permute ((rotate_axes to_axis from_axis).map Int.ofNat) a else .ok a

def transpose (a : FixedArray T) : Except array_error (FixedArray T) :=
  permute ((transpose_axes a.tp.dims.length).map Int.ofNat) a

end

/-! ## What permuting means -/

/-- `orig` has every index of `idx` at its axis. -/
def Placed (axes : List ℕ) (idx orig : List irange) : Prop :=
  orig.length = axes.length ∧ List.Forall₂ (fun x r => orig[x]? = some r) axes idx

/-- One index for each dimension, that is in its range. -/
def InRange (idx : List irange) (dims : List dim_size_t) : Prop :=
  List.Forall₂ (fun r (d : dim_size_t) => r.step.val = 0 ∧ r.InBounds d.val) idx dims

structure Permuted (axes : List ℕ) (a b : FixedArray T) : Prop where
  sizes : List.Forall₂ (fun x d => a.tp.dims[x]? = some d) axes (b.tp.dims.take axes.length)
  rest : b.tp.dims.drop axes.length = a.tp.dims.drop axes.length
  dtype : b.tp.dtype = a.tp.dtype
  elements : ∀ idx orig, Placed axes idx orig → InRange idx (b.tp.dims.take axes.length) →
    ∃ e, at_array idx b = .ok e ∧ at_array orig a = .ok e

/-- Lists that are related are so at every index. -/
theorem forall₂_iff_at {α β : Type} {R : α → β → Prop} {xs : List α} {ys : List β} :
    List.Forall₂ R xs ys ↔ xs.length = ys.length ∧ ∀ (k : ℕ) x y, xs[k]? = some x → ys[k]? = some y → R x y := by
  induction xs generalizing ys with
  | nil => cases ys <;> simp
  | cons x xs ih =>
    cases ys with
    | nil => simp
    | cons y ys =>
      rw [List.forall₂_cons, ih, List.length_cons, List.length_cons, Nat.add_right_cancel_iff]
      constructor
      · rintro ⟨hxy, hlen, hrest⟩
        refine ⟨hlen, ?_⟩
        intro k x' y' hx hy
        cases k with
        | zero =>
          cases hx
          cases hy
          exact hxy
        | succ k => exact hrest k x' y' hx hy
      · rintro ⟨hlen, hall⟩
        exact ⟨hall 0 x y rfl rfl, hlen, fun k x' y' hx hy => hall (k + 1) x' y' hx hy⟩

/-! ## Indexing with single indices -/

/-- What the index of one dimension adds to the address. -/
def stepAt (md : List size_stride_t) (dims : List dim_size_t) (idx : List irange) (j : ℕ) : ℤ :=
  match md[j]?, dims[j]?, idx[j]? with
  | some m, some d, some r => m.stride * r.first d.val
  | _, _, _ => 0

theorem resolve_single {r : irange} {d : dim_size_t} (hstep : r.step.val = 0) (hin : r.InBounds d.val) (i : ℕ)
    (root : List dim_size_t) : resolve r d i root = .ok ⟨true, r.first d.val, 1, 1⟩ := by
  simp only [irange.InBounds, if_pos hstep] at hin
  have hsingle : apply_single_linear_index r d.toIntptr (some ⟨i, root.map (·.toIntptr)⟩) = .ok ⟨true, r.first d.val, 1, 1⟩ := by
    rw [apply_single_linear_index]
    simp only [if_pos hstep]
    rw [singleIndex_spec d.property.1]
    exact if_pos hin
  rw [resolve, hsingle]

theorem applyToType_single (root : List dim_size_t) (idx : List irange) : ∀ (i : ℕ) (dims : List dim_size_t),
    InRange idx (dims.take idx.length) → applyToType root i idx dims = .ok (dims.drop idx.length) := by
  induction idx with
  | nil =>
    intro i dims _
    rfl
  | cons r idx ih =>
    intro i dims hin
    cases dims with
    | nil => cases hin
    | cons d dims =>
      obtain ⟨⟨hstep, hr⟩, hrest⟩ := List.forall₂_cons.mp hin
      simp only [applyToType, resolve_single hstep hr, ih (i + 1) dims hrest, ok_bind, if_true, pure_eq_ok]
      rfl

theorem applyToArrmeta_single (root : List dim_size_t) (idx : List irange) : ∀ (i : ℕ) (dims : List dim_size_t)
    (md : List size_stride_t), md.length = dims.length → InRange idx (dims.take idx.length) →
    applyToArrmeta root i idx dims md = .ok (md.drop idx.length, ((List.range idx.length).map (stepAt md dims idx)).sum) := by
  induction idx with
  | nil =>
    intro i dims md hlen _
    rw [applyToArrmeta, if_pos (le_of_eq hlen.symm), List.take_of_length_le (le_of_eq hlen)]
    rfl
  | cons r idx ih =>
    intro i dims md hlen hin
    cases dims with
    | nil => cases hin
    | cons d dims =>
      cases md with
      | nil => cases hlen
      | cons m md =>
        obtain ⟨⟨hstep, hr⟩, hrest⟩ := List.forall₂_cons.mp hin
        have hsum : ((List.range (r :: idx).length).map (stepAt (m :: md) (d :: dims) (r :: idx))).sum =
            m.stride * r.first d.val + ((List.range idx.length).map (stepAt md dims idx)).sum := by
          rw [List.length_cons, List.range_succ_eq_map, List.map_cons, List.sum_cons, List.map_map]
          rfl
        rw [hsum]
        simp only [applyToArrmeta, resolve_single hstep hr, ih (i + 1) dims md (Nat.succ.inj hlen) hrest, ok_bind, if_true,
          pure_eq_ok]
        rfl

/-- Indices in range lead to what is below their dimensions. -/
theorem at_array_single {a : FixedArray T} (ha : a.arrmeta.length = a.tp.dims.length) {idx : List irange}
    (hin : InRange idx (a.tp.dims.take idx.length)) :
    at_array idx a = .ok ⟨⟨a.tp.dims.drop idx.length, a.tp.dtype⟩, a.arrmeta.drop idx.length,
      a.data + ((List.range idx.length).map (stepAt a.arrmeta a.tp.dims idx)).sum⟩ := by
  by_cases hdims : a.tp.dims = []
  · have hidx : idx = [] := by
      rw [hdims, List.take_nil] at hin
      exact List.forall₂_nil_right_iff.mp hin
    subst hidx
    rw [at_array, if_pos hdims]
    simp
  · rw [at_array, if_neg hdims, applyToType_single _ idx 0 _ hin, applyToArrmeta_single _ idx 0 _ _ ha hin]
    rfl

/-! ## Groups of axes -/

theorem maxInterval_lt {j : ℕ} (axes : List ℕ) : ∀ loop_i max_i, max_i < j →
    (∀ k x, loop_i + k < j → axes[k]? = some x → x < j) → maxInterval axes loop_i max_i < j := by
  induction axes with
  | nil =>
    intro loop_i max_i hmax _
    exact hmax
  | cons x axes ih =>
    intro loop_i max_i hmax hclosed
    rw [maxInterval]
    split_ifs with hloop hx
    · apply ih _ _ (hclosed 0 x (by omega) rfl)
      intro k y hk hy
      exact hclosed (k + 1) y (by omega) hy
    · apply ih _ _ hmax
      intro k y hk hy
      exact hclosed (k + 1) y (by omega) hy
    · exact hmax

section
variable {axes : List ℕ} {i a : ℕ}

/-- A first group that reaches the last axis is the only one. -/
theorem oneBlock_of_last (hstat : ∀ k < i, axes.getD k 0 = k) (hi : axes[i]? = some a) 
    (hlast : maxInterval (axes.drop (i + 1)) (i + 1) a + 1 = axes.length) : OneBlock axes := by
  intro j hj hclosed k hk
  by_cases hij : j ≤ i
  · exact hstat k (by omega)
  · have hai : a < j := by
      have h := hclosed i (by omega)
      rwa [List.getD_eq_getElem?_getD, hi] at h
    have hlt : maxInterval (axes.drop (i + 1)) (i + 1) a < j := by
      apply maxInterval_lt _ _ _ hai
      intro k x hk hx
      rw [List.getElem?_drop] at hx
      have h := hclosed (i + 1 + k) hk
      rwa [List.getD_eq_getElem?_getD, hx] at h
    omega

theorem oneBlock_of_stationary (hstat : ∀ k < axes.length, axes.getD k 0 = k) : OneBlock axes := by
  intro j hj _ k hk
  exact hstat k (by omega)

/-- Behind stationary axes come axes that are not smaller. -/
theorem le_of_mem_drop (hlt : ∀ x ∈ axes, x < axes.length) (hnodup : axes.Nodup) (hstat : ∀ k < i, axes.getD k 0 = k) {s : ℕ}
    (hs : s ∈ axes.drop i) : i ≤ s := by
  obtain ⟨k, hk⟩ := List.mem_iff_getElem?.mp hs
  rw [List.getElem?_drop] at hk
  obtain ⟨hik, hget⟩ := List.getElem?_eq_some_iff.mp hk
  by_contra hsi
  have hs' : s < axes.length := hlt s (List.mem_of_mem_drop hs)
  have hself : axes[s] = s := by
    rw [← List.getD_eq_getElem axes 0 hs']
    exact hstat s (by omega)
  have heq : i + k = s := (hnodup.getElem_inj_iff).mp (hget.trans hself.symm)
  omega

theorem stationary_succ (hstat : ∀ k < i, axes.getD k 0 = k) (hi : axes[i]? = some i) : ∀ k < i + 1, axes.getD k 0 = k := by
  intro k hk
  rcases Nat.lt_succ_iff_lt_or_eq.mp hk with hk | rfl
  · exact hstat k hk
  · rw [List.getD_eq_getElem?_getD, hi]
    rfl

end

/-! ## The shape and the arrmeta -/

section
variable [ElementType T] (dtype : T) {axes : List ℕ} (hlt : ∀ x ∈ axes, x < axes.length) (hnodup : axes.Nodup)
include hlt hnodup

/-- From axis `i` on, everything goes to its place. -/
theorem permute_type_dims_places (hone : OneBlock axes) (dims : List dim_size_t) : ∀ (i : ℕ) (md : List size_stride_t),
    (∀ k < i, axes.getD k 0 = k) → i < axes.length → axes.length ≤ i + dims.length → md.length = i + dims.length →
    ∃ tp, permute_type_dims dtype axes dims i i md =
        .ok (tp, md.take i ++ (axes.drop i).map (md.getD · ⟨0, 0⟩) ++ md.drop axes.length) ∧
      tp.getD dims = (axes.drop i).map (fun s => dims.getD (s - i) dim_size_t.zero) ++ dims.drop (axes.length - i) := by
  induction dims with
  | nil =>
    intro i md _ hi hlen _
    simp only [List.length_nil, Nat.add_zero] at hlen
    omega
  | cons d dims ih =>
    intro i md hstat hi hlen hmd
    rw [List.length_cons] at hlen hmd
    have hget : axes[i]? = some axes[i] := List.getElem?_eq_getElem hi
    have hdrop : axes.drop i = axes[i] :: axes.drop (i + 1) := List.drop_eq_getElem_cons hi
    rw [permute_type_dims.eq_def]
    simp only [hget]
    by_cases hai : axes[i] = i
    · have hstat' := stationary_succ hstat (hget.trans (congrArg some hai))
      have hmdi : md.getD i ⟨0, 0⟩ = md[i] := List.getD_eq_getElem _ _ (by omega)
      have htake : md.take (i + 1) = md.take i ++ [md.getD axes[i] ⟨0, 0⟩] := by
        rw [hai, hmdi, List.take_add_one, List.getElem?_eq_getElem (by omega)]
        rfl
      rw [if_pos hai]
      by_cases hlast : i + 1 = axes.length
      · rw [if_pos hlast]
        have hnil : axes.drop (i + 1) = [] := List.drop_eq_nil_of_le (by omega)
        refine ⟨none, ?_, ?_⟩
        · rw [hdrop, hnil, List.map_singleton, ← htake, ← hlast, List.take_append_drop]
        · rw [hdrop, hnil, List.map_singleton, hai, Nat.sub_self, show axes.length - i = 1 by omega]
          rfl
      · rw [if_neg hlast]
        obtain ⟨tmp, htmp, hshape⟩ := ih (i + 1) md hstat' (by omega) (by omega) (by omega)
        refine ⟨tmp.map (d :: ·), ?_, ?_⟩
        · simp only [htmp, ok_bind, pure_eq_ok]
          rw [hdrop, List.map_cons, htake, List.append_assoc (md.take i), List.singleton_append]
        · have hbelow : (axes.drop (i + 1)).map (fun s => (d :: dims).getD (s - i) dim_size_t.zero) =
              (axes.drop (i + 1)).map (fun s => dims.getD (s - (i + 1)) dim_size_t.zero) := by
            apply List.map_congr_left
            intro s hs
            have hle := le_of_mem_drop hlt hnodup hstat' hs
            rw [show s - i = s - (i + 1) + 1 by omega]
            rfl
          have hcons : (tmp.map (d :: ·)).getD (d :: dims) = d :: tmp.getD dims := by cases tmp <;> rfl
          rw [hcons, hshape, hdrop, List.map_cons, hbelow, hai, Nat.sub_self, show axes.length - i = axes.length - (i + 1) + 1 by omega]
          rfl
    · obtain ⟨hlast, hle⟩ := maxInterval_last hlt hnodup hone hstat hget hai
      set m := maxInterval (axes.drop (i + 1)) (i + 1) axes[i]
      have hsrcs : (axes.drop i).take (m - i + 1) = axes.drop i := by
        apply List.take_of_length_le
        rw [List.length_drop]
        omega
      have hmap : (axes.drop i).map (fun s => md.getD (i + (s - i)) ⟨0, 0⟩) = (axes.drop i).map (md.getD · ⟨0, 0⟩) := by
        apply List.map_congr_left
        intro s hs
        have hle := le_of_mem_drop hlt hnodup hstat hs
        rw [show i + (s - i) = s by omega]
      rw [if_neg hai, if_neg (by rw [List.length_cons]; omega), if_neg (by omega)]
      simp only [pure_eq_ok, ok_bind]
      rw [if_neg (by omega), hsrcs, hmap, show i + (m - i + 1) = axes.length by omega]
      refine ⟨_, rfl, ?_⟩
      rw [Option.getD_some, show m - i + 1 = axes.length - i by omega]

omit hnodup

/-- A group that does not reach the last axis gives too many dimensions; none gives too few. -/
theorem permute_type_dims_grows (dims : List dim_size_t) :
    ∀ (i offset : ℕ) (md md' : List size_stride_t) (tp : Option (List dim_size_t)),
    permute_type_dims dtype axes dims i offset md = .ok (tp, md') → dims.length ≤ (tp.getD dims).length ∧
      ∀ a, axes[i]? = some a → a ≠ i → maxInterval (axes.drop (i + 1)) (i + 1) a + 1 < axes.length →
        dims.length < (tp.getD dims).length := by
  induction dims with
  | nil =>
    intro i offset md md' tp h
    refine ⟨Nat.zero_le _, ?_⟩
    intro a hi hne hmore
    rw [permute_type_dims.eq_def] at h
    simp only [hi, if_neg hne, List.length_nil] at h
    rw [if_pos (by omega)] at h
    cases h
  | cons d dims ih =>
    intro i offset md md' tp h
    rw [permute_type_dims.eq_def] at h
    cases hi : axes[i]? with
    | none =>
      simp only [hi] at h
      cases h
    | some a =>
      simp only [hi] at h
      have hilt := (List.getElem?_eq_some_iff.mp hi).1
      by_cases hai : a = i
      · rw [if_pos hai] at h
        refine ⟨?_, ?_⟩
        · split_ifs at h with hlast
          · cases h
            exact le_refl _
          · obtain ⟨⟨tmp, md₁⟩, hrec, hres⟩ := bind_eq_ok.mp h
            cases hres
            have hle := (ih _ _ _ _ _ hrec).1
            cases tmp with
            | none => exact le_refl _
            | some tmp => exact Nat.succ_le_succ hle
        · intro a' ha' hne
          cases ha'
          exact absurd hai hne
      · rw [if_neg hai] at h
        set m := maxInterval (axes.drop (i + 1)) (i + 1) a
        split_ifs at h with hdims hmore
        · obtain ⟨⟨tmp, md₁⟩, hrec, hres⟩ := bind_eq_ok.mp h
          simp only [pure_eq_ok, ok_bind] at hres
          split_ifs at hres
          · cases hres
          · obtain ⟨rfl, _⟩ := Prod.mk.inj (Except.ok.inj hres)
            have hle := (ih _ _ _ _ _ hrec).1
            have hsrcs : 0 < ((axes.drop i).take (m - i + 1)).length := by
              rw [List.length_take, List.length_drop]
              omega
            have hlt : (d :: dims).length <
                (((axes.drop i).take (m - i + 1)).map (fun s => (d :: dims).getD (s - i) dim_size_t.zero) ++
                  d :: tmp.getD dims).length := by
              rw [List.length_append, List.length_map, List.length_cons, List.length_cons]
              omega
            exact ⟨le_of_lt hlt, fun _ _ _ _ => hlt⟩
        · simp only [pure_eq_ok, ok_bind] at h
          split_ifs at h
          · cases h
          · obtain ⟨rfl, _⟩ := Prod.mk.inj (Except.ok.inj h)
            refine ⟨?_, ?_⟩
            · have hsrcs : ((axes.drop i).take (m - i + 1)).length = m - i + 1 := by
                have hmlt : m < axes.length := by
                  apply maxInterval_lt _ _ _ (hlt a (List.mem_of_getElem? hi))
                  intro k x _ hx
                  exact hlt x (List.mem_of_mem_drop (List.mem_of_getElem? hx))
                rw [List.length_take, List.length_drop]
                omega
              rw [Option.getD_some, List.length_append, List.length_map, hsrcs, List.length_drop]
              omega
            · intro a' ha' _ hmore'
              cases ha'
              exact absurd hmore' hmore

/-- Axes that are not one group give too many dimensions. -/
theorem permute_type_dims_too_many (hnotone : ¬ OneBlock axes) (dims : List dim_size_t) : ∀ (i : ℕ) (md md' : List size_stride_t)
    (tp : Option (List dim_size_t)), (∀ k < i, axes.getD k 0 = k) → axes.length ≤ i + dims.length →
    permute_type_dims dtype axes dims i i md = .ok (tp, md') → dims.length < (tp.getD dims).length := by
  induction dims with
  | nil =>
    intro i md md' tp hstat hlen _
    rw [List.length_nil] at hlen
    exact absurd (oneBlock_of_stationary fun k hk => hstat k (by omega)) hnotone
  | cons d dims ih =>
    intro i md md' tp hstat hlen h
    by_cases hi : i < axes.length
    · have hget : axes[i]? = some axes[i] := List.getElem?_eq_getElem hi
      by_cases hai : axes[i] = i
      · have hstat' := stationary_succ hstat (hget.trans (congrArg some hai))
        rw [permute_type_dims.eq_def] at h
        simp only [hget, if_pos hai] at h
        split_ifs at h with hlast
        · exact absurd (oneBlock_of_stationary fun k hk => hstat' k (by omega)) hnotone
        · obtain ⟨⟨tmp, md₁⟩, hrec, hres⟩ := bind_eq_ok.mp h
          cases hres
          rw [List.length_cons] at hlen
          have hlt := ih (i + 1) md md₁ tmp hstat' (by omega) hrec
          cases tmp with
          | none => exact absurd hlt (lt_irrefl _)
          | some tmp => exact Nat.succ_lt_succ hlt
      · apply (permute_type_dims_grows dtype hlt _ _ _ _ _ _ h).2 _ hget hai
        have hlast := mt (oneBlock_of_last hstat hget) hnotone
        have hmlt : maxInterval (axes.drop (i + 1)) (i + 1) axes[i] < axes.length := by
          apply maxInterval_lt _ _ _ (hlt _ (List.getElem_mem hi))
          intro k x _ hx
          exact hlt x (List.mem_of_mem_drop (List.mem_of_getElem? hx))
        omega
    · exact absurd (oneBlock_of_stationary fun k hk => hstat k (by omega)) hnotone

end

/-! ## The elements -/

section
variable {axes : List ℕ} (hlt : ∀ x ∈ axes, x < axes.length) (hnodup : axes.Nodup)
include hlt hnodup

theorem perm_range : axes.Perm (List.range axes.length) := by
  apply (List.subperm_of_subset hnodup _).perm_of_length_le
  · rw [List.length_range]
  · intro x hx
    exact List.mem_range.mpr (hlt x hx)

/-- Sizes and strides at their places make a permuted array. -/
theorem permuted_of_places {a b : FixedArray T} (ha : a.arrmeta.length = a.tp.dims.length) (hlen : axes.length ≤ a.tp.dims.length)
    (hdims : b.tp.dims = axes.map (a.tp.dims.getD · dim_size_t.zero) ++ a.tp.dims.drop axes.length)
    (hmd : b.arrmeta = axes.map (a.arrmeta.getD · ⟨0, 0⟩) ++ a.arrmeta.drop axes.length)
    (hdtype : b.tp.dtype = a.tp.dtype) (hdata : b.data = a.data) : Permuted axes a b := by
  have htake : b.tp.dims.take axes.length = axes.map (a.tp.dims.getD · dim_size_t.zero) := by
    rw [hdims]
    exact List.take_left' (List.length_map _)
  have hrest : b.tp.dims.drop axes.length = a.tp.dims.drop axes.length := by
    rw [hdims]
    exact List.drop_left' (List.length_map _)
  have hrest' : b.arrmeta.drop axes.length = a.arrmeta.drop axes.length := by
    rw [hmd]
    exact List.drop_left' (List.length_map _)
  have hb : b.arrmeta.length = b.tp.dims.length := by
    rw [hdims, hmd]
    simp only [List.length_append, List.length_map, List.length_drop]
    omega
  have hsize : ∀ k x : ℕ, axes[k]? = some x → b.tp.dims[k]? = a.tp.dims[x]? := by
    intro k x hx
    have hxa : x < a.tp.dims.length := lt_of_lt_of_le (hlt x (List.mem_of_getElem? hx)) hlen
    have hk := (List.getElem?_eq_some_iff.mp hx).1
    rw [hdims, List.getElem?_append_left (by rwa [List.length_map]), List.getElem?_map, hx, Option.map_some,
      List.getD_eq_getElem _ _ hxa, List.getElem?_eq_getElem hxa]
  have hstride : ∀ k x : ℕ, axes[k]? = some x → b.arrmeta[k]? = a.arrmeta[x]? := by
    intro k x hx
    have hxa : x < a.arrmeta.length := by
      have := hlt x (List.mem_of_getElem? hx)
      omega
    have hk := (List.getElem?_eq_some_iff.mp hx).1
    rw [hmd, List.getElem?_append_left (by rwa [List.length_map]), List.getElem?_map, hx, Option.map_some,
      List.getD_eq_getElem _ _ hxa, List.getElem?_eq_getElem hxa]
  refine ⟨?_, hrest, hdtype, ?_⟩
  · rw [htake, List.forall₂_map_right_iff, List.forall₂_same]
    intro x hx
    have hxa : x < a.tp.dims.length := lt_of_lt_of_le (hlt x hx) hlen
    rw [List.getD_eq_getElem _ _ hxa, List.getElem?_eq_getElem hxa]
  · rintro idx orig ⟨horig, hplaced⟩ hin
    rw [forall₂_iff_at] at hplaced
    rw [InRange, forall₂_iff_at] at hin
    obtain ⟨hidx, hplaced⟩ := hplaced
    have hindex : ∀ k x : ℕ, axes[k]? = some x → idx[k]? = orig[x]? := by
      intro k x hx
      have hk : k < idx.length := by
        rw [← hidx]
        exact (List.getElem?_eq_some_iff.mp hx).1
      have hr := List.getElem?_eq_getElem hk
      rw [hr, hplaced k x _ hx hr]
    have hin' : InRange orig (a.tp.dims.take orig.length) := by
      rw [InRange, forall₂_iff_at]
      refine ⟨by rw [List.length_take]; omega, ?_⟩
      intro j r d hr hd
      have hj : j < axes.length := by
        rw [← horig]
        exact (List.getElem?_eq_some_iff.mp hr).1
      obtain ⟨k, hk⟩ := List.mem_iff_getElem?.mp ((perm_range hlt hnodup).mem_iff.mpr (List.mem_range.mpr hj))
      have hklt := (List.getElem?_eq_some_iff.mp hk).1
      apply hin.2 k r d
      · rw [hindex k j hk, hr]
      · rw [List.getElem?_take_of_lt hklt, hsize k j hk, ← hd, List.getElem?_take_of_lt (by omega)]
    have hsteps : (List.range idx.length).map (stepAt b.arrmeta b.tp.dims idx) = axes.map (stepAt a.arrmeta a.tp.dims orig) := by
      apply List.ext_getElem?
      intro k
      rw [List.getElem?_map, List.getElem?_map, ← hidx]
      cases hk : axes[k]? with
      | none => rw [List.getElem?_eq_none (by simpa using hk), Option.map_none, Option.map_none]
      | some x =>
        rw [List.getElem?_range (List.getElem?_eq_some_iff.mp hk).1, Option.map_some, Option.map_some]
        simp only [stepAt, hsize k x hk, hstride k x hk, hindex k x hk]
    have hsum : ((List.range idx.length).map (stepAt b.arrmeta b.tp.dims idx)).sum =
        ((List.range orig.length).map (stepAt a.arrmeta a.tp.dims orig)).sum := by
      rw [hsteps, horig]
      exact ((perm_range hlt hnodup).map _).sum_eq
    have hinb : InRange idx (b.tp.dims.take idx.length) := by
      rw [show idx.length = axes.length from hidx.symm]
      exact forall₂_iff_at.mpr hin
    refine ⟨_, at_array_single hb hinb, ?_⟩
    rw [at_array_single ha hin', hsum, ← hidx, hrest, hrest', hdtype, hdata, horig]

end

/-! ## Permuting, rotating and transposing -/

section
variable [ElementType T]

theorem valid_axes {axes : List ℤ} (hperm : is_valid_perm axes = true) :
    (∀ x ∈ axes.map Int.toNat, x < (axes.map Int.toNat).length) ∧ (axes.map Int.toNat).Nodup := by
  simp only [is_valid_perm, Bool.and_eq_true, List.all_eq_true, decide_eq_true_eq] at hperm
  obtain ⟨hrange, hnodup⟩ := hperm
  constructor
  · intro x hx
    obtain ⟨v, hv, rfl⟩ := List.mem_map.mp hx
    have := hrange v hv
    rw [List.length_map]
    omega
  · apply List.Nodup.map_on _ hnodup
    intro x hx y hy hxy
    have := hrange x hx
    have := hrange y hy
    omega

theorem permute_eq {axes : List ℤ} {a : FixedArray T} (hperm : is_valid_perm axes = true) (hlen : axes.length ≤ a.tp.dims.length) :
    permute axes a = (fun p => ⟨⟨p.1.getD a.tp.dims, a.tp.dtype⟩, p.2, a.data⟩) <$>
      permute_type_dims a.tp.dtype (axes.map Int.toNat) a.tp.dims 0 0 a.arrmeta := by
  rw [permute, if_neg (not_lt.mpr hlen), hperm]
  rfl

/-- One group of axes that ends with the last one is permuted, and no other. -/
theorem permute_iff {a : FixedArray T} (ha : a.arrmeta.length = a.tp.dims.length) {axes : List ℤ}
    (hperm : is_valid_perm axes = true) (hlen : axes.length ≤ a.tp.dims.length) :
    (∃ b, permute axes a = .ok b ∧ Permuted (axes.map Int.toNat) a b) ↔ axes ≠ [] ∧ OneBlock (axes.map Int.toNat) := by
  obtain ⟨hlt, hnodup⟩ := valid_axes hperm
  rw [permute_eq hperm hlen]
  constructor
  · rintro ⟨b, hb, hp⟩
    obtain ⟨⟨tp, md⟩, hrec, rfl⟩ := map_eq_ok.mp hb
    refine ⟨?_, ?_⟩
    · rintro rfl
      rw [permute_type_dims.eq_def] at hrec
      cases hrec
    · by_contra hnotone
      have hmore := permute_type_dims_too_many a.tp.dtype hlt hnotone a.tp.dims 0 a.arrmeta md tp (fun k hk => by omega)
        (by rw [List.length_map]; omega) hrec
      have hdrop := congrArg List.length hp.rest
      simp only [List.length_drop, List.length_map] at hdrop
      omega
  · rintro ⟨hne, hone⟩
    obtain ⟨tp, hrec, hdims⟩ := permute_type_dims_places a.tp.dtype hlt hnodup hone a.tp.dims 0 a.arrmeta (fun k hk => by omega)
      (List.length_pos_iff.mpr (by simpa using hne)) (by rw [List.length_map]; omega) (by omega)
    refine ⟨_, map_eq_ok.mpr ⟨_, hrec, rfl⟩, ?_⟩
    exact permuted_of_places hlt hnodup ha (by rw [List.length_map]; exact hlen) (by simpa using hdims) (by simp) rfl rfl

omit [ElementType T]

theorem map_toNat_ofNat (axes : List ℕ) : (axes.map Int.ofNat).map Int.toNat = axes := by
  rw [List.map_map]
  exact List.map_id axes

/-- The axes that a function gives are a valid permutation when it stays below their number and hits none twice. -/
theorem valid_of_injOn {f : ℕ → ℕ} {n : ℕ} (hlt : ∀ i < n, f i < n) (hinj : ∀ i < n, ∀ j < n, f i = f j → i = j) :
    is_valid_perm (((List.range n).map f).map Int.ofNat) = true := by
  simp only [is_valid_perm, Bool.and_eq_true, List.all_eq_true, decide_eq_true_eq, List.length_map, List.length_range]
  constructor
  · intro v hv
    obtain ⟨x, hx, rfl⟩ := List.mem_map.mp hv
    obtain ⟨i, hi, rfl⟩ := List.mem_map.mp hx
    have := hlt i (List.mem_range.mp hi)
    constructor
    · exact Int.natCast_nonneg _
    · exact Int.ofNat_lt.mpr this
  · apply List.Nodup.map (fun _ _ h => Int.ofNat.inj h)
    apply List.Nodup.map_on _ List.nodup_range
    intro i hi j hj h
    exact hinj i (List.mem_range.mp hi) j (List.mem_range.mp hj) h

theorem getD_map_range {f : ℕ → ℕ} {n k : ℕ} (hk : k < n) : ((List.range n).map f).getD k 0 = f k := by
  rw [List.getD_eq_getElem _ _ (by simpa using hk)]
  simp

theorem rotate_axes_valid (to_axis from_axis : ℕ) :
    is_valid_perm ((rotate_axes to_axis from_axis).map Int.ofNat) = true ∧ OneBlock (rotate_axes to_axis from_axis) ∧
      (rotate_axes to_axis from_axis).length = max to_axis from_axis + 1 := by
  unfold rotate_axes
  split_ifs with h
  · refine ⟨valid_of_injOn ?_ ?_, ?_, ?_⟩
    · intro i hi
      split_ifs <;> omega
    · intro i hi j hj heq
      split_ifs at heq <;> omega
    · intro j hj hclosed k hk
      rw [List.length_map, List.length_range] at hj
      -- no axis from `from_axis` on stays below `j`, since each goes to the next one
      have hjf : j ≤ from_axis := by
        by_contra hjf
        have hlast := hclosed (j - 1) (by omega)
        rw [getD_map_range (by omega)] at hlast
        split_ifs at hlast <;> omega
      rw [getD_map_range (by omega), if_pos (by omega)]
    · rw [List.length_map, List.length_range, max_eq_left (by omega)]
  · refine ⟨valid_of_injOn ?_ ?_, ?_, ?_⟩
    · intro i hi
      split_ifs <;> omega
    · intro i hi j hj heq
      split_ifs at heq <;> omega
    · intro j hj hclosed k hk
      rw [List.length_map, List.length_range] at hj
      have hjt : j ≤ to_axis := by
        by_contra hjt
        have hto := hclosed to_axis (by omega)
        rw [getD_map_range (by omega), if_neg (lt_irrefl _), if_pos rfl] at hto
        omega
      rw [getD_map_range (by omega), if_pos (by omega)]
    · rw [List.length_map, List.length_range, max_eq_right (by omega)]

theorem transpose_axes_valid (ndim : ℕ) :
    is_valid_perm ((transpose_axes ndim).map Int.ofNat) = true ∧ OneBlock (transpose_axes ndim) ∧
      (transpose_axes ndim).length = ndim := by
  refine ⟨valid_of_injOn ?_ ?_, ?_, ?_⟩
  · intro i hi
    omega
  · intro i hi j hj heq
    omega
  · intro j hj hclosed k hk
    rw [transpose_axes, List.length_map, List.length_range] at hj
    have hfirst := hclosed 0 (by omega)
    rw [transpose_axes, getD_map_range (by omega)] at hfirst
    omega
  · rw [transpose_axes, List.length_map, List.length_range]

/-- Which permutations give the elements at their places: one group of axes that ends with the last
one. Rotations are such groups, and so is turning all the axes around, where there are any. -/
theorem permute_elements [ElementType T] {a : FixedArray T} (ha : a.arrmeta.length = a.tp.dims.length) :
    (∀ axes, is_valid_perm axes = true → axes.length ≤ a.tp.dims.length →
      ((∃ b, permute axes a = .ok b ∧ Permuted (axes.map Int.toNat) a b) ↔ axes ≠ [] ∧ OneBlock (axes.map Int.toNat))) ∧
    ((∃ b, transpose a = .ok b ∧ Permuted (transpose_axes a.tp.dims.length) a b) ↔ a.tp.dims ≠ []) ∧
    ∀ to_axis from_axis, to_axis < a.tp.dims.length → from_axis < a.tp.dims.length →
      if to_axis = from_axis then rotate to_axis from_axis a = .ok a
      else ∃ b, rotate to_axis from_axis a = .ok b ∧ Permuted (rotate_axes to_axis from_axis) a b := by
  refine ⟨fun axes hperm hlen => permute_iff ha hperm hlen, ?_, ?_⟩
  · obtain ⟨hperm, hone, hlen⟩ := transpose_axes_valid a.tp.dims.length
    have h := permute_iff ha hperm (by rw [List.length_map, hlen])
    rw [map_toNat_ofNat] at h
    have hne : (transpose_axes a.tp.dims.length).map Int.ofNat ≠ [] ↔ a.tp.dims ≠ [] := by
      rw [← List.length_pos_iff, List.length_map, hlen, List.length_pos_iff]
    rw [transpose, h, hne]
    exact and_iff_left hone
  · intro to_axis from_axis hto hfrom
    split_ifs with heq
    · exact if_neg (not_not_intro heq.symm)
    · obtain ⟨hperm, hone, hlen⟩ := rotate_axes_valid to_axis from_axis
      have h := permute_iff ha hperm (by rw [List.length_map, hlen]; omega)
      rw [map_toNat_ofNat] at h
      rw [rotate, if_pos (Ne.symm heq), h]
      refine ⟨?_, hone⟩
      rw [← List.length_pos_iff, List.length_map, hlen]
      omega

/-- The transpose of a two by three array. -/
theorem permute_elements_two_by_three : ∃ b, permute [1, 0] twoByThree = .ok b ∧ Permuted [1, 0] twoByThree b :=
  ((permute_elements (a := twoByThree) rfl).1 [1, 0] (by decide) (by decide)).mpr ⟨by decide, by decide⟩

/-- `2 * 3 * 4 * int32`. -/
def twoThreeFour : FixedArray Element := empty ⟨twoByThree.tp.dims ++ [⟨4, by decide⟩], int32⟩ 16

/-- Two axes swapped before one that stays give five dimensions. -/
theorem swapped_before_stationary : ¬ ∀ (a : FixedArray Element) (axes : List ℤ), a.arrmeta.length = a.tp.dims.length →
    is_valid_perm axes = true → axes.length ≤ a.tp.dims.length →
    ∃ b, permute axes a = .ok b ∧ Permuted (axes.map Int.toNat) a b := by
  intro h
  obtain ⟨b, hb, hp⟩ := h twoThreeFour [1, 0, 2] rfl (by decide) (by decide)
  have hdims : (permute [1, 0, 2] twoThreeFour).toOption.map (·.tp.dims.length) = some 5 := by decide
  rw [hb] at hdims
  have hfive : b.tp.dims.length = 5 := Option.some.inj hdims
  have hrest := congrArg List.length hp.rest
  rw [List.length_drop, hfive] at hrest
  exact absurd hrest (by decide)

end
end
end Dynd.FixedDim
