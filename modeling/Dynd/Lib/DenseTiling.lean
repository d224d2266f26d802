import Dynd.Lib.DenseLayout
/-!
# Dense layouts tile

A layout sends an index to an offset. Where every axis has an element, the
layout is dense along the axes exactly when the offsets are the first
multiples of the unit, one for each index, the strides grow along the axes and
an axis of one element has stride zero: `denseAlong_iff_tiles`.
-/
namespace Dynd.Lib

/-! ## Tiling an interval -/

section
variable {s P : ℤ} {R : ℤ → Prop}

/-- Copies of `[0, s)` that fill `[0, s * P)`, none over another, start at the multiples of `s`. -/
theorem tile_starts (hs : 0 < s) (inside : ∀ r, R r → 0 ≤ r ∧ r < s * P)
    (fill : ∀ m, 0 ≤ m → m < s * P → ∃ i r, 0 ≤ i ∧ i < s ∧ R r ∧ m = i + r)
    (apart : ∀ i r i' r', 0 ≤ i → i < s → 0 ≤ i' → i' < s → R r → R r' → i + r = i' + r' → i = i' ∧ r = r') (r : ℤ) :
    R r ↔ ∃ j, 0 ≤ j ∧ j < P ∧ r = s * j := by
  have starts : ∀ j : ℕ, (j : ℤ) < P → R (s * j) := by
    intro j
    induction j with
    | zero =>
      intro hP
      obtain ⟨i, r, hi, -, hr, hm⟩ := fill 0 le_rfl (mul_pos hs (by simpa using hP))
      have := inside r hr
      obtain rfl : r = 0 := by omega
      simpa using hr
    | succ j ih =>
      intro hP
      have hj := ih (by omega)
      have hlt : s * (j + 1 : ℕ) < s * P := mul_lt_mul_of_pos_left hP hs
      obtain ⟨i, r, hi, his, hr, hm⟩ := fill (s * (j + 1 : ℕ)) (by positivity) hlt
      rcases hi.eq_or_lt with h0 | hpos
      · rw [← h0, zero_add] at hm
        rwa [hm]
      · -- the copy would start inside the one before
        have hr' : r = s - i + s * j := by
          push_cast at hm
          linarith
        have hover := apart 0 r (s - i) (s * j) le_rfl hs (by omega) (by omega) hr hj (by omega)
        omega
  constructor
  · intro hr
    obtain ⟨h0, hlt⟩ := inside r hr
    have hdiv : r / s < P := Int.ediv_lt_of_lt_mul hs (by rwa [mul_comm])
    have hj : 0 ≤ r / s := Int.ediv_nonneg h0 hs.le
    have hstart : R (s * (r / s)) := by
      have h := starts (r / s).toNat (by omega)
      rwa [Int.toNat_of_nonneg hj] at h
    have hmod := Int.emod_nonneg r hs.ne'
    have hmods := Int.emod_lt_of_pos r hs
    have hsplit : 0 + r = r % s + s * (r / s) := by rw [zero_add, Int.emod_add_mul_ediv]
    exact ⟨r / s, hj, hdiv, (apart 0 r (r % s) (s * (r / s)) le_rfl hs hmod hmods hr hstart hsplit).2⟩
  · rintro ⟨j, hj, hP, rfl⟩
    have h := starts j.toNat (by omega)
    rwa [Int.toNat_of_nonneg hj] at h

end

/-! ## The offsets of a layout -/

section
variable {α : Type*} (size stride : α → ℤ)

/-- How far the element at an index is from the first one. -/
def offsetAlong (idx : α → ℕ) (axes : List α) : ℤ := (axes.map fun a => (idx a : ℤ) * stride a).sum

/-- The index is inside the axes. -/
def InBox (idx : α → ℕ) (axes : List α) : Prop := ∀ a ∈ axes, (idx a : ℤ) < size a

/-- The offsets are the first multiples of the unit, one for each index. -/
structure Tiles (unit : ℤ) (axes : List α) : Prop where
  inside : ∀ idx, InBox size idx axes → ∃ k, 0 ≤ k ∧ k < (axes.map size).prod ∧ offsetAlong stride idx axes = unit * k
  covers : ∀ k, 0 ≤ k → k < (axes.map size).prod → ∃ idx, InBox size idx axes ∧ offsetAlong stride idx axes = unit * k
  one_to_one : ∀ idx idx', InBox size idx axes → InBox size idx' axes →
    offsetAlong stride idx axes = offsetAlong stride idx' axes → ∀ a ∈ axes, idx a = idx' a

variable {size stride} {idx idx' : α → ℕ} {axes : List α} {a : α}

theorem offsetAlong_cons : offsetAlong stride idx (a :: axes) = idx a * stride a + offsetAlong stride idx axes := List.sum_cons

theorem inBox_cons : InBox size idx (a :: axes) ↔ (idx a : ℤ) < size a ∧ InBox size idx axes := List.forall_mem_cons

theorem offsetAlong_congr (h : ∀ b ∈ axes, idx b = idx' b) : offsetAlong stride idx axes = offsetAlong stride idx' axes := by
  rw [offsetAlong, offsetAlong]
  congr 1
  exact List.map_congr_left fun b hb => by rw [h b hb]

theorem InBox.congr (h : ∀ b ∈ axes, idx b = idx' b) (hin : InBox size idx axes) : InBox size idx' axes :=
  fun b hb => h b hb ▸ hin b hb

/-- An offset does not depend on the order of the axes. -/
theorem offsetAlong_perm {axes' : List α} (h : axes.Perm axes') : offsetAlong stride idx axes = offsetAlong stride idx axes' :=
  (h.map _).sum_eq

theorem inBox_perm {axes' : List α} (h : axes.Perm axes') : InBox size idx axes ↔ InBox size idx axes' :=
  forall_congr' fun _ => imp_congr_left h.mem_iff

/-- The element that is `i` along one axis and 0 along the others. -/
theorem offsetAlong_single [DecidableEq α] (hnodup : axes.Nodup) (ha : a ∈ axes) (i : ℕ) :
    offsetAlong stride (Pi.single a i) axes = i * stride a := by
  induction axes with
  | nil => cases ha
  | cons b axes ih =>
    obtain ⟨hb, hnodup⟩ := List.nodup_cons.1 hnodup
    rw [offsetAlong_cons]
    rcases List.mem_cons.1 ha with rfl | ha
    · have hzero : offsetAlong stride (Pi.single a i) axes = offsetAlong stride (fun _ => 0) axes :=
        offsetAlong_congr fun c hc => by rw [Pi.single_eq_of_ne (ne_of_mem_of_not_mem hc hb)]
      rw [hzero, Pi.single_eq_same, offsetAlong]
      simp
    · have hne : b ≠ a := (ne_of_mem_of_not_mem ha hb).symm
      rw [ih hnodup ha, Pi.single_eq_of_ne hne]
      simp

theorem inBox_single [DecidableEq α] (hsize : ∀ b ∈ axes, 1 ≤ size b) {i : ℕ} (hi : (i : ℤ) < size a) :
    InBox size (Pi.single a i) axes := by
  intro b hb
  by_cases h : b = a
  · rw [h, Pi.single_eq_same]
    exact hi
  · rw [Pi.single_eq_of_ne h]
    exact hsize b hb

theorem prod_pos (hsize : ∀ b ∈ axes, 1 ≤ size b) : 0 < (axes.map size).prod := by
  apply List.prod_pos
  intro n hn
  obtain ⟨b, hb, rfl⟩ := List.mem_map.1 hn
  exact hsize b hb

/-! ## A dense layout tiles -/

/-- On one more axis inside, which has the stride of a dense layout. -/
theorem offsetAlong_dense_cons {unit : ℤ} (hstride : stride a = if 1 < size a then unit else 0) (hi : (idx a : ℤ) < size a) :
    offsetAlong stride idx (a :: axes) = unit * idx a + offsetAlong stride idx axes := by
  rw [offsetAlong_cons, hstride]
  split_ifs with hlong
  · ring
  · obtain h0 : (idx a : ℤ) = 0 := by omega
    rw [h0]
    ring

theorem DenseAlong.tiles {unit : ℤ} (hunit : 0 < unit) (hnodup : axes.Nodup) (hsize : ∀ b ∈ axes, 1 ≤ size b)
    (hd : DenseAlong size stride unit axes) : Tiles size stride unit axes := by
  classical
  induction axes generalizing unit with
  | nil =>
    refine ⟨fun idx _ => ⟨0, le_rfl, by simp, by simp [offsetAlong]⟩, fun k h0 h1 => ⟨fun _ => 0, by simp [InBox], ?_⟩, by simp⟩
    have h1' : k < 1 := by simpa using h1
    obtain rfl : k = 0 := by omega
    simp [offsetAlong]
  | cons a axes ih =>
    obtain ⟨ha, hnodup⟩ := List.nodup_cons.1 hnodup
    obtain ⟨hsa, hsize⟩ := List.forall_mem_cons.1 hsize
    obtain ⟨hstride, hrest⟩ := hd
    have ih := ih (mul_pos hunit (by omega)) hnodup hsize hrest
    have hoff : ∀ {idx}, InBox size idx (a :: axes) →
        offsetAlong stride idx (a :: axes) = unit * idx a + offsetAlong stride idx axes :=
      fun h => offsetAlong_dense_cons hstride (inBox_cons.1 h).1
    have hprod : ((a :: axes).map size).prod = size a * (axes.map size).prod := List.prod_cons
    refine ⟨fun idx hin => ?_, fun k h0 hk => ?_, fun idx idx' hin hin' heq => ?_⟩
    · obtain ⟨k, h0, hk, hrestk⟩ := ih.inside idx (inBox_cons.1 hin).2
      refine ⟨idx a + size a * k, by positivity, ?_, ?_⟩
      · have hi := (inBox_cons.1 hin).1
        have hstep : size a * (k + 1) ≤ size a * (axes.map size).prod := mul_le_mul_of_nonneg_left hk (by omega)
        rw [hprod]
        linarith
      · rw [hoff hin, hrestk]
        ring
    · rw [hprod] at hk
      have hsa0 : 0 < size a := by omega
      have hmod := Int.emod_nonneg k hsa0.ne'
      have hmodlt := Int.emod_lt_of_pos k hsa0
      obtain ⟨rest, hin, hrestk⟩ := ih.covers (k / size a) (Int.ediv_nonneg h0 hsa0.le)
        (Int.ediv_lt_of_lt_mul hsa0 (by rwa [mul_comm]))
      -- the digit of this axis beside those of the others
      have hsame : ∀ b ∈ axes, rest b = Function.update rest a (k % size a).toNat b :=
        fun b hb => (Function.update_of_ne (ne_of_mem_of_not_mem hb ha) _ _).symm
      have hbox : InBox size (Function.update rest a (k % size a).toNat) (a :: axes) := by
        refine inBox_cons.2 ⟨?_, hin.congr hsame⟩
        rw [Function.update_self, Int.toNat_of_nonneg hmod]
        exact hmodlt
      refine ⟨_, hbox, ?_⟩
      rw [hoff hbox, ← offsetAlong_congr hsame, hrestk, Function.update_self, Int.toNat_of_nonneg hmod, mul_assoc, ← mul_add,
        Int.emod_add_mul_ediv]
    · obtain ⟨hi, hin2⟩ := inBox_cons.1 hin
      obtain ⟨hi', hin2'⟩ := inBox_cons.1 hin'
      obtain ⟨k, -, -, hk⟩ := ih.inside idx hin2
      obtain ⟨k', -, -, hk'⟩ := ih.inside idx' hin2'
      rw [hoff hin, hoff hin', hk, hk', mul_assoc, mul_assoc, ← mul_add, ← mul_add] at heq
      have heq := mul_left_cancel₀ hunit.ne' heq
      have hfirst : (idx a : ℤ) = idx' a := by
        have h := congrArg (· % size a) heq
        rwa [Int.add_mul_emod_self_left, Int.add_mul_emod_self_left, Int.emod_eq_of_lt (by positivity) hi,
          Int.emod_eq_of_lt (by positivity) hi'] at h
      have hk2 : offsetAlong stride idx axes = offsetAlong stride idx' axes := by
        rw [hk, hk', mul_assoc, mul_assoc]
        rw [hfirst] at heq
        rw [add_left_cancel heq]
      exact List.forall_mem_cons.2 ⟨by exact_mod_cast hfirst, ih.one_to_one idx idx' hin2 hin2' hk2⟩

theorem DenseAlong.stride_of_one {unit : ℤ} (hd : DenseAlong size stride unit axes) (ha : a ∈ axes) (h1 : size a = 1) :
    stride a = 0 := by
  induction axes generalizing unit with
  | nil => cases ha
  | cons b axes ih =>
    obtain ⟨hb, hrest⟩ := hd
    rcases List.mem_cons.1 ha with rfl | ha
    · rw [hb, if_neg (by omega)]
    · exact ih hrest ha

theorem DenseAlong.unit_le_long {unit : ℤ} (hunit : 0 < unit) (hsize : ∀ b ∈ axes, 1 ≤ size b)
    (hd : DenseAlong size stride unit axes) (ha : a ∈ axes) (hlong : 1 < size a) : unit ≤ stride a := by
  induction axes generalizing unit with
  | nil => cases ha
  | cons b axes ih =>
    obtain ⟨hb, hrest⟩ := hd
    obtain ⟨hsb, hsize⟩ := List.forall_mem_cons.1 hsize
    rcases List.mem_cons.1 ha with rfl | ha
    · rw [hb, if_pos hlong]
    · exact (le_mul_of_one_le_right hunit.le hsb).trans (ih (mul_pos hunit (by omega)) hsize hrest ha)

theorem DenseAlong.grows {unit : ℤ} (hunit : 0 < unit) (hsize : ∀ b ∈ axes, 1 ≤ size b) (hd : DenseAlong size stride unit axes) :
    axes.Pairwise fun a b => 1 < size a → 1 < size b → stride a < stride b := by
  induction axes generalizing unit with
  | nil => exact List.Pairwise.nil
  | cons a axes ih =>
    obtain ⟨ha, hrest⟩ := hd
    obtain ⟨hsa, hsize⟩ := List.forall_mem_cons.1 hsize
    have hpos : 0 < unit * size a := mul_pos hunit (by omega)
    refine List.pairwise_cons.2 ⟨fun b hb hla hlb => ?_, ih hpos hsize hrest⟩
    rw [ha, if_pos hla]
    exact (lt_mul_of_one_lt_right hunit hla).trans_le (hrest.unit_le_long hpos hsize hb hlb)

/-! ## A layout that tiles is dense -/

section
variable {unit : ℤ} (hunit : 0 < unit)
include hunit

/-- An axis of more than one element has at least the unit as its stride. -/
theorem Tiles.unit_le (hsize : ∀ b ∈ axes, 1 ≤ size b) (hnodup : axes.Nodup) (ht : Tiles size stride unit axes) (ha : a ∈ axes) (hlong : 1 < size a) :
    unit ≤ stride a := by
  classical
  have hone := inBox_single (i := 1) hsize (by exact_mod_cast hlong)
  have hzero := inBox_single (i := 0) (a := a) hsize (by have := hsize a ha; omega)
  have hoff : offsetAlong stride (Pi.single a 1) axes = (1 : ℕ) * stride a := offsetAlong_single hnodup ha 1
  obtain ⟨k, h0, -, hk⟩ := ht.inside _ hone
  rw [hoff, Nat.cast_one, one_mul] at hk
  rcases h0.eq_or_lt with rfl | hpos
  · -- then the first element would share its offset
    have hsame : offsetAlong stride (Pi.single a 1) axes = offsetAlong stride (Pi.single a 0) axes := by
      rw [hoff, offsetAlong_single hnodup ha, hk]
      simp
    have := ht.one_to_one _ _ hone hzero hsame a ha
    simp at this
  · rw [hk]
    exact le_mul_of_one_le_right hunit.le hpos

/-- The axes after the first tile with what the first one takes up. -/
theorem Tiles.tail (ha : a ∉ axes) (hsa : 1 ≤ size a) (hstride : stride a = if 1 < size a then unit else 0)
    (ht : Tiles size stride unit (a :: axes)) : Tiles size stride (unit * size a) axes := by
  classical
  have hprod : ((a :: axes).map size).prod = size a * (axes.map size).prod := List.prod_cons
  -- an index of the other axes, with a digit for the first one
  have hsame : ∀ (idx : α → ℕ) (i : ℕ), ∀ b ∈ axes, idx b = Function.update idx a i b :=
    fun idx i b hb => (Function.update_of_ne (ne_of_mem_of_not_mem hb ha) _ _).symm
  have hbox : ∀ {idx : α → ℕ} {i : ℕ}, InBox size idx axes → (i : ℤ) < size a →
      InBox size (Function.update idx a i) (a :: axes) := by
    intro idx i hin hi
    refine inBox_cons.2 ⟨?_, hin.congr (hsame idx i)⟩
    rwa [Function.update_self]
  have hoff : ∀ {idx : α → ℕ} {i : ℕ}, (i : ℤ) < size a →
      offsetAlong stride (Function.update idx a i) (a :: axes) = unit * i + offsetAlong stride idx axes := by
    intro idx i hi
    rw [offsetAlong_dense_cons hstride (by rwa [Function.update_self]), Function.update_self, ← offsetAlong_congr (hsame idx i)]
  have hmultiple : ∀ {idx : α → ℕ}, InBox size idx axes → ∃ r, 0 ≤ r ∧ r < size a * (axes.map size).prod ∧
      offsetAlong stride idx axes = unit * r := by
    intro idx hin
    obtain ⟨r, h0, hr, hk⟩ := ht.inside _ (hbox (i := 0) hin (by omega))
    rw [hoff (by omega), Nat.cast_zero, mul_zero, zero_add] at hk
    exact ⟨r, h0, hprod ▸ hr, hk⟩
  have hstarts := tile_starts (s := size a) (P := (axes.map size).prod)
    (R := fun r => ∃ idx, InBox size idx axes ∧ offsetAlong stride idx axes = unit * r) (by omega)
    (by
      rintro r ⟨idx, hin, hr⟩
      obtain ⟨r', h0, hlt, hr'⟩ := hmultiple hin
      obtain rfl : r = r' := mul_left_cancel₀ hunit.ne' (hr.symm.trans hr')
      exact ⟨h0, hlt⟩)
    (by
      intro m h0 hm
      obtain ⟨idx, hin, hk⟩ := ht.covers m h0 (hprod ▸ hm)
      obtain ⟨hi, hin⟩ := inBox_cons.1 hin
      rw [offsetAlong_dense_cons hstride hi] at hk
      refine ⟨idx a, m - idx a, by positivity, hi, ⟨idx, hin, ?_⟩, by ring⟩
      rw [mul_sub, ← hk]
      ring)
    (by
      rintro i r i' r' hi his hi' his' ⟨idx, hin, hr⟩ ⟨idx', hin', hr'⟩ heq
      have hi2 : ((i.toNat : ℕ) : ℤ) = i := Int.toNat_of_nonneg hi
      have hi2' : ((i'.toNat : ℕ) : ℤ) = i' := Int.toNat_of_nonneg hi'
      have hsum : unit * i + offsetAlong stride idx axes = unit * i' + offsetAlong stride idx' axes := by
        rw [hr, hr', ← mul_add, ← mul_add, heq]
      have h := ht.one_to_one _ _ (hbox (i := i.toNat) hin (by omega)) (hbox (i := i'.toNat) hin' (by omega))
        (by rw [hoff (by omega), hoff (by omega), hi2, hi2', hsum]) a List.mem_cons_self
      rw [Function.update_self, Function.update_self] at h
      omega)
  refine ⟨fun idx hin => ?_, fun j h0 hj => ?_, fun idx idx' hin hin' heq => ?_⟩
  · obtain ⟨r, -, -, hr⟩ := hmultiple hin
    obtain ⟨j, h0, hj, rfl⟩ := (hstarts r).1 ⟨idx, hin, hr⟩
    exact ⟨j, h0, hj, by rw [hr, mul_assoc]⟩
  · obtain ⟨idx, hin, hr⟩ := (hstarts (size a * j)).2 ⟨j, h0, hj, rfl⟩
    exact ⟨idx, hin, by rw [hr, mul_assoc]⟩
  · intro b hb
    have h := ht.one_to_one _ _ (hbox (i := 0) hin (by omega)) (hbox (i := 0) hin' (by omega))
      (by rw [hoff (by omega), hoff (by omega), heq]) b (List.mem_cons_of_mem a hb)
    rwa [← hsame idx 0 b hb, ← hsame idx' 0 b hb] at h

end

/-- The first axis with more than one element has the unit as its stride. -/
theorem Tiles.first_stride {unit : ℤ} (hunit : 0 < unit) (hnodup : (a :: axes).Nodup) (hsize : ∀ b ∈ a :: axes, 1 ≤ size b)
    (ht : Tiles size stride unit (a :: axes)) (hone : ∀ b ∈ a :: axes, size b = 1 → stride b = 0)
    (hgrows : (a :: axes).Pairwise fun a b => 1 < size a → 1 < size b → stride a < stride b) :
    stride a = if 1 < size a then unit else 0 := by
  have hsa := hsize a List.mem_cons_self
  split_ifs with hlong
  · refine le_antisymm ?_ (ht.unit_le hunit hsize hnodup List.mem_cons_self hlong)
    -- the element at one unit is not the first one along some axis
    have hcount : 1 < ((a :: axes).map size).prod := by
      have hpos := prod_pos (List.forall_mem_cons.1 hsize).2
      rw [List.map_cons, List.prod_cons]
      exact hlong.trans_le (le_mul_of_one_le_right (by omega) hpos)
    obtain ⟨idx, hin, hk⟩ := ht.covers 1 (by omega) hcount
    rw [mul_one] at hk
    have hsome : ∃ b ∈ a :: axes, idx b ≠ 0 := by
      by_contra hall
      push Not at hall
      have hzero : offsetAlong stride idx (a :: axes) = offsetAlong stride (fun _ => 0) (a :: axes) := offsetAlong_congr hall
      rw [hk, offsetAlong] at hzero
      simp at hzero
      omega
    obtain ⟨b, hb, hne⟩ := hsome
    have hib := hin b hb
    have hlb : 1 < size b := by omega
    have hnonneg : ∀ c ∈ a :: axes, 0 ≤ (idx c : ℤ) * stride c := by
      intro c hc
      have hsc := hsize c hc
      rcases hsc.eq_or_lt with h1 | hlc
      · rw [hone c hc h1.symm, mul_zero]
      · exact mul_nonneg (by positivity) (hunit.le.trans (ht.unit_le hunit hsize hnodup hc hlc))
    have hterm : (idx b : ℤ) * stride b ≤ unit := by
      rw [← hk]
      apply List.single_le_sum
      · intro x hx
        obtain ⟨c, hc, rfl⟩ := List.mem_map.1 hx
        exact hnonneg c hc
      · exact List.mem_map_of_mem hb
    have hb0 : 0 ≤ stride b := hunit.le.trans (ht.unit_le hunit hsize hnodup hb hlb)
    have hle : stride b ≤ idx b * stride b := le_mul_of_one_le_left hb0 (by omega)
    have hab : stride a ≤ stride b := by
      rcases List.mem_cons.1 hb with rfl | hb
      · exact le_rfl
      · exact ((List.pairwise_cons.1 hgrows).1 b hb hlong hlb).le
    omega
  · exact hone a List.mem_cons_self (by omega)

/-- A layout is dense along axes exactly when its offsets are the first multiples of the unit, one for each index, the
strides grow along the axes, and an axis of one element has stride zero. -/
theorem denseAlong_iff_tiles {unit : ℤ} (hunit : 0 < unit) (hnodup : axes.Nodup) (hsize : ∀ b ∈ axes, 1 ≤ size b) :
    DenseAlong size stride unit axes ↔ Tiles size stride unit axes ∧ (∀ b ∈ axes, size b = 1 → stride b = 0) ∧
      axes.Pairwise fun a b => 1 < size a → 1 < size b → stride a < stride b := by
  refine ⟨fun hd => ⟨hd.tiles hunit hnodup hsize, fun b hb h1 => hd.stride_of_one hb h1, hd.grows hunit hsize⟩, ?_⟩
  rintro ⟨ht, hone, hgrows⟩
  induction axes generalizing unit with
  | nil => trivial
  | cons a axes ih =>
    have hstride := ht.first_stride hunit hnodup hsize hone hgrows
    obtain ⟨ha, hnodup⟩ := List.nodup_cons.1 hnodup
    obtain ⟨hsa, hsize⟩ := List.forall_mem_cons.1 hsize
    exact ⟨hstride, ih (mul_pos hunit (by omega)) hnodup hsize (ht.tail hunit ha hsa hstride)
      (List.forall_mem_cons.1 hone).2 (List.pairwise_cons.1 hgrows).2⟩

end

end Dynd.Lib
