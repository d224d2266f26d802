import Dynd.ArrayElements
import Dynd.ReorderStrides
import Dynd.Lib.DenseTiling
/-!
# Strides from a permutation of the axes

`axis_perm_to_strides` and `make_strided_array` give the axes of a shape
strides in the order of a permutation. In the first one a second assignment
overwrites each stride with the axis' size: `axis_perm_to_strides_iff` says for
which shapes the strides are right all the same. The second one is right.
-/
namespace Dynd.FixedDim
open Lib

/-! ## The functions -/

/-- The loop over the axes of the permutation. -/
def axis_perm_to_strides : List ℕ → List ℤ → ℤ → List ℤ → List ℤ
  | [], _, _, out_strides => out_strides
  | i_perm :: axis_perm, shape, element_size, out_strides =>
    let dim_size := shape.getD i_perm 0
    let out_strides := out_strides.set i_perm (if dim_size > 1 then element_size else 0)
    -- not `out_shape`, which the function does not have
    let out_strides := out_strides.set i_perm dim_size
    axis_perm_to_strides axis_perm shape (element_size * dim_size) out_strides

/-- The loop of `make_strided_array` that fills in the arrmeta, over these axes. -/
def fillArrmeta : List ℕ → List ℤ → ℤ → List size_stride_t → List size_stride_t
  | [], _, _, md => md
  | i :: axes, shape, stride, md =>
    let dim_size := shape.getD i 0
    fillArrmeta axes shape (stride * dim_size) (md.set i ⟨dim_size, if dim_size > 1 then stride else 0⟩)

/-- The arrmeta of the dimensions that `make_strided_array` makes, in C order when there is no `axis_perm`. -/
def stridedArrmeta (data_size : ℤ) (shape : List ℤ) (axis_perm : Option (List ℕ)) (md : List size_stride_t) :
    List size_stride_t :=
  fillArrmeta (axis_perm.getD (List.range shape.length).reverse) shape data_size md

/-! ## What the strides are for -/

/-- The elements fill the array, one at each multiple of the unit, the axes in this order. -/
structure LaysOut (unit : ℤ) (axes : List ℕ) (md : List size_stride_t) : Prop where
  bijection : Set.BijOn (strideOffset md) {idx | idx ∈ multiIndices (md.map (·.dim_size))}
    {z | ∃ k, 0 ≤ k ∧ k < (md.map (·.dim_size)).prod ∧ z = unit * k}
  axis_order : axes.Pairwise fun a b => 1 < (arrmetaAt md a).dim_size → 1 < (arrmetaAt md b).dim_size →
    (arrmetaAt md a).stride < (arrmetaAt md b).stride
  ones : ∀ m ∈ md, m.dim_size = 1 → m.stride = 0

/-! ## Indices as functions of the axis -/

theorem strideOffset_eq (md : List size_stride_t) (idx : List ℕ) :
    strideOffset md idx = offsetAlong (fun i => (arrmetaAt md i).stride) (fun i => idx.getD i 0) (List.range md.length) := by
  induction md generalizing idx with
  | nil => rfl
  | cons m md ih =>
    have htail : offsetAlong (fun i => (arrmetaAt (m :: md) i).stride) (fun i => idx.getD i 0)
        ((List.range md.length).map Nat.succ) =
        offsetAlong (fun i => (arrmetaAt md i).stride) (fun i => idx.tail.getD i 0) (List.range md.length) := by
      rw [offsetAlong, offsetAlong, List.map_map]
      cases idx <;> rfl
    rw [strideOffset, ih, List.length_cons, List.range_succ_eq_map, offsetAlong_cons, htail]
    cases idx <;> rfl

theorem mem_multiIndices_iff {shape : List ℤ} {idx : List ℕ} : idx ∈ multiIndices shape ↔
    idx.length = shape.length ∧ InBox (fun i => shape.getD i 0) (fun i => idx.getD i 0) (List.range shape.length) := by
  induction shape generalizing idx with
  | nil => simp [multiIndices, InBox]
  | cons d shape ih =>
    cases idx with
    | nil => simp [mem_multiIndices_cons]
    | cons i idx =>
      have hbox : InBox (fun i => (d :: shape).getD i 0) (fun j => (i :: idx).getD j 0) (List.range (shape.length + 1)) ↔
          (i : ℤ) < d ∧ InBox (fun i => shape.getD i 0) (fun i => idx.getD i 0) (List.range shape.length) := by
        rw [List.range_succ_eq_map, inBox_cons]
        refine and_congr Iff.rfl ?_
        rw [InBox, InBox, List.forall_mem_map]
        exact Iff.rfl
      rw [mem_multiIndices_cons, List.length_cons, List.length_cons, hbox, Nat.add_right_cancel_iff]
      constructor
      · rintro ⟨_, _, heq, hi, hrest⟩
        obtain ⟨rfl, rfl⟩ := List.cons.inj heq
        exact ⟨(ih.1 hrest).1, hi, (ih.1 hrest).2⟩
      · rintro ⟨hlen, hi, hbox⟩
        exact ⟨i, idx, rfl, hi, ih.2 ⟨hlen, hbox⟩⟩

/-- The index that a function of the axis gives. -/
theorem getD_ofFn {n : ℕ} (f : ℕ → ℕ) {i : ℕ} (hi : i < n) : ((List.range n).map f).getD i 0 = f i := by
  rw [List.getD_eq_getElem _ _ (by simpa using hi), List.getElem_map, List.getElem_range]

/-- The offsets of the indices are those of the index functions. -/
theorem bijOn_iff_tiles (unit : ℤ) (md : List size_stride_t) :
    Set.BijOn (strideOffset md) {idx | idx ∈ multiIndices (md.map (·.dim_size))}
      {z | ∃ k, 0 ≤ k ∧ k < (md.map (·.dim_size)).prod ∧ z = unit * k} ↔
    Tiles (fun i => (arrmetaAt md i).dim_size) (fun i => (arrmetaAt md i).stride) unit (List.range md.length) := by
  have hsizes : (List.range md.length).map (fun i => (arrmetaAt md i).dim_size) = md.map (·.dim_size) := by
    apply List.ext_getElem (by simp)
    intro i hi _
    have hi : i < md.length := by simpa using hi
    rw [List.getElem_map, List.getElem_range, List.getElem_map, arrmetaAt, List.getD_eq_getElem _ _ hi]
  have hmem : ∀ {idx : List ℕ}, idx ∈ multiIndices (md.map (·.dim_size)) ↔ idx.length = md.length ∧
      InBox (fun i => (arrmetaAt md i).dim_size) (fun i => idx.getD i 0) (List.range md.length) := by
    intro idx
    rw [mem_multiIndices_iff, List.length_map]
    simp only [arrmetaAt_dim_size]
  -- an index function, listed
  have hlisted : ∀ f : ℕ → ℕ, ∀ i ∈ List.range md.length, f i = ((List.range md.length).map f).getD i 0 :=
    fun f i hi => (getD_ofFn f (List.mem_range.1 hi)).symm
  have hlist : ∀ {f : ℕ → ℕ}, InBox (fun i => (arrmetaAt md i).dim_size) f (List.range md.length) →
      (List.range md.length).map f ∈ multiIndices (md.map (·.dim_size)) ∧
        strideOffset md ((List.range md.length).map f) =
          offsetAlong (fun i => (arrmetaAt md i).stride) f (List.range md.length) := by
    intro f hin
    refine ⟨hmem.2 ⟨by simp, hin.congr (hlisted f)⟩, ?_⟩
    rw [strideOffset_eq]
    exact (offsetAlong_congr (hlisted f)).symm
  constructor
  · rintro ⟨hmaps, hinj, hsurj⟩
    refine ⟨fun f hin => ?_, fun k h0 hk => ?_, fun f g hin hin' heq i hi => ?_⟩
    · obtain ⟨hf, hoff⟩ := hlist hin
      obtain ⟨k, h0, hk, hz⟩ := hmaps hf
      exact ⟨k, h0, hsizes ▸ hk, hoff ▸ hz⟩
    · obtain ⟨idx, hidx, hz⟩ := hsurj ⟨k, h0, hsizes ▸ hk, rfl⟩
      exact ⟨fun i => idx.getD i 0, (hmem.1 hidx).2, by rw [← strideOffset_eq, hz]⟩
    · obtain ⟨hf, hoff⟩ := hlist hin
      obtain ⟨hg, hoff'⟩ := hlist hin'
      have hlists := hinj hf hg (by rw [hoff, hoff', heq])
      rw [hlisted f i hi, hlisted g i hi, hlists]
  · intro ht
    refine ⟨fun idx hidx => ?_, fun idx hidx idx' hidx' heq => ?_, ?_⟩
    · obtain ⟨k, h0, hk, hz⟩ := ht.inside _ (hmem.1 hidx).2
      exact ⟨k, h0, hsizes ▸ hk, by rw [strideOffset_eq, hz]⟩
    · obtain ⟨hlen, hbox⟩ := hmem.1 hidx
      obtain ⟨hlen', hbox'⟩ := hmem.1 hidx'
      rw [strideOffset_eq, strideOffset_eq] at heq
      have hsame := ht.one_to_one _ _ hbox hbox' heq
      apply List.ext_getElem (hlen.trans hlen'.symm)
      intro i hi hi'
      have h := hsame i (List.mem_range.2 (hlen ▸ hi))
      rwa [List.getD_eq_getElem _ _ hi, List.getD_eq_getElem _ _ hi'] at h
    · rintro z ⟨k, h0, hk, rfl⟩
      obtain ⟨f, hin, hz⟩ := ht.covers k h0 (hsizes ▸ hk)
      obtain ⟨hf, hoff⟩ := hlist hin
      exact ⟨_, hf, hoff.trans hz⟩

theorem Tiles.perm {α : Type*} {size stride : α → ℤ} {unit : ℤ} {axes axes' : List α} (h : axes.Perm axes')
    (ht : Tiles size stride unit axes) : Tiles size stride unit axes' := by
  have hprod : (axes.map size).prod = (axes'.map size).prod := (h.map size).prod_eq
  refine ⟨fun idx hin => ?_, fun k h0 hk => ?_, fun idx idx' hin hin' heq a ha => ?_⟩
  · rw [← offsetAlong_perm h, ← hprod]
    exact ht.inside idx ((inBox_perm h).2 hin)
  · obtain ⟨idx, hin, hz⟩ := ht.covers k h0 (hprod ▸ hk)
    exact ⟨idx, (inBox_perm h).1 hin, by rw [← offsetAlong_perm h, hz]⟩
  · rw [← offsetAlong_perm h, ← offsetAlong_perm h] at heq
    exact ht.one_to_one idx idx' ((inBox_perm h).2 hin) ((inBox_perm h).2 hin') heq a (h.mem_iff.2 ha)

/-! ## Dense layouts -/

section
variable {unit : ℤ} {axes : List ℕ} {md : List size_stride_t}

theorem laysOut_iff_dense (hunit : 0 < unit) (hperm : axes.Perm (List.range md.length)) (hsize : ∀ m ∈ md, 1 ≤ m.dim_size) :
    LaysOut unit axes md ↔
      DenseAlong (fun i => (arrmetaAt md i).dim_size) (fun i => (arrmetaAt md i).stride) unit axes := by
  have hat : ∀ {i}, i ∈ axes → ∃ h : i < md.length, arrmetaAt md i = md[i] := by
    intro i hi
    have hlt := List.mem_range.1 (hperm.mem_iff.1 hi)
    exact ⟨hlt, List.getD_eq_getElem _ _ hlt⟩
  have hsize' : ∀ i ∈ axes, 1 ≤ (arrmetaAt md i).dim_size := by
    intro i hi
    obtain ⟨hlt, heq⟩ := hat hi
    rw [heq]
    exact hsize _ (List.getElem_mem hlt)
  have hones : (∀ m ∈ md, m.dim_size = 1 → m.stride = 0) ↔
      ∀ i ∈ axes, (arrmetaAt md i).dim_size = 1 → (arrmetaAt md i).stride = 0 := by
    constructor
    · intro h i hi
      obtain ⟨hlt, heq⟩ := hat hi
      rw [heq]
      exact h _ (List.getElem_mem hlt)
    · intro h m hm
      obtain ⟨i, hi, rfl⟩ := List.mem_iff_getElem.1 hm
      have hia := hperm.mem_iff.2 (List.mem_range.2 hi)
      have h := h i hia
      rwa [(hat hia).2] at h
  rw [denseAlong_iff_tiles hunit (hperm.nodup_iff.2 List.nodup_range) hsize', ← hones]
  constructor
  · rintro ⟨hbij, horder, hone⟩
    exact ⟨Tiles.perm hperm.symm ((bijOn_iff_tiles unit md).1 hbij), hone, horder⟩
  · rintro ⟨ht, hone, horder⟩
    exact ⟨(bijOn_iff_tiles unit md).2 (Tiles.perm hperm ht), horder, hone⟩

end

/-! ## The overwritten strides -/

theorem axis_perm_to_strides_spec (axis_perm : List ℕ) (shape : List ℤ) (element_size : ℤ) (out_strides : List ℤ) :
    (axis_perm_to_strides axis_perm shape element_size out_strides).length = out_strides.length ∧
      ∀ i < out_strides.length, (axis_perm_to_strides axis_perm shape element_size out_strides).getD i 0 =
        if i ∈ axis_perm then shape.getD i 0 else out_strides.getD i 0 := by
  induction axis_perm generalizing element_size out_strides with
  | nil => exact ⟨rfl, fun i _ => by simp [axis_perm_to_strides]⟩
  | cons a axis_perm ih =>
    rw [axis_perm_to_strides, List.set_set]
    obtain ⟨hlen, hget⟩ := ih (element_size * shape.getD a 0) (out_strides.set a (shape.getD a 0))
    rw [List.length_set] at hlen hget
    refine ⟨hlen, fun i hi => ?_⟩
    rw [hget i hi]
    by_cases hmem : i ∈ axis_perm
    · rw [if_pos hmem, if_pos (List.mem_cons_of_mem a hmem)]
    · rw [if_neg hmem]
      by_cases hia : i = a
      · rw [hia, if_pos List.mem_cons_self, List.getD_eq_getElem _ _ (by simpa [← hia] using hi), List.getElem_set_self]
      · rw [if_neg (by simp [hia, hmem]), List.getD_eq_getElem?_getD, List.getElem?_set_ne (Ne.symm hia),
          ← List.getD_eq_getElem?_getD]

/-- The strides are the sizes. -/
theorem axis_perm_to_strides_eq {axis_perm : List ℕ} {shape : List ℤ} (hperm : axis_perm.Perm (List.range shape.length))
    (element_size : ℤ) {out_strides : List ℤ} (hout : out_strides.length = shape.length) :
    axis_perm_to_strides axis_perm shape element_size out_strides = shape := by
  obtain ⟨hlen, hget⟩ := axis_perm_to_strides_spec axis_perm shape element_size out_strides
  apply List.ext_getElem (hlen.trans hout)
  intro i hi hi'
  have h := hget i (hout ▸ hi')
  rwa [if_pos (hperm.mem_iff.2 (List.mem_range.2 hi')), List.getD_eq_getElem _ _ hi, List.getD_eq_getElem _ _ hi'] at h

/-- A layout whose strides are its sizes is dense when each size is the square of the one before. -/
theorem denseAlong_self_iff {size : ℕ → ℤ} {axes : List ℕ} (hsize : ∀ a ∈ axes, 1 ≤ size a) (unit : ℤ) :
    DenseAlong size size unit axes ↔ ∀ (k : ℕ) (a : ℕ), axes[k]? = some a → 1 < unit ∧ size a = unit ^ 2 ^ k := by
  induction axes generalizing unit with
  | nil => simp [DenseAlong]
  | cons a axes ih =>
    obtain ⟨hsa, hsize⟩ := List.forall_mem_cons.1 hsize
    have hfirst : size a = (if 1 < size a then unit else 0) ↔ 1 < unit ∧ size a = unit := by
      split_ifs with hlong <;> omega
    rw [DenseAlong, ih hsize, hfirst]
    constructor
    · rintro ⟨⟨hunit, ha⟩, hrest⟩ k b hk
      cases k with
      | zero =>
        obtain rfl : a = b := Option.some.inj hk
        exact ⟨hunit, by simpa using ha⟩
      | succ k =>
        obtain ⟨-, hb⟩ := hrest k b hk
        refine ⟨hunit, ?_⟩
        rw [hb, ha, ← pow_two, ← pow_mul, ← pow_succ']
    · intro h
      obtain ⟨hunit, ha⟩ := h 0 a rfl
      have ha : size a = unit := by simpa using ha
      refine ⟨⟨hunit, ha⟩, fun k b hk => ?_⟩
      obtain ⟨-, hb⟩ := h (k + 1) b hk
      rw [ha, ← pow_two, ← pow_mul, ← pow_succ', hb]
      exact ⟨one_lt_pow₀ hunit two_ne_zero, rfl⟩

/-- `axis_perm_to_strides` lays the axes out when each size is the element size to the power of two to the axis' place. -/
theorem axis_perm_to_strides_iff (axis_perm : List ℕ) (shape : List ℤ) (element_size : ℤ) (out_strides : List ℤ)
    (hperm : axis_perm.Perm (List.range shape.length)) (hout : out_strides.length = shape.length)
    (hshape : ∀ d ∈ shape, 0 < d) (helement : 0 < element_size) :
    LaysOut element_size axis_perm (withStrides shape (axis_perm_to_strides axis_perm shape element_size out_strides)) ↔
      ∀ (k : ℕ) (a : ℕ), axis_perm[k]? = some a → 1 < element_size ∧ shape.getD a 0 = element_size ^ 2 ^ k := by
  have hsame : withStrides shape shape = shape.map fun d => ⟨d, d⟩ := List.zipWith_self
  have hat : ∀ i, arrmetaAt (shape.map fun d => ⟨d, d⟩) i = ⟨shape.getD i 0, shape.getD i 0⟩ :=
    fun i => List.getD_map shape 0 fun d => (⟨d, d⟩ : size_stride_t)
  have hsize : ∀ a ∈ axis_perm, 1 ≤ shape.getD a 0 := by
    intro a ha
    have hlt := List.mem_range.1 (hperm.mem_iff.1 ha)
    rw [List.getD_eq_getElem _ _ hlt]
    exact hshape _ (List.getElem_mem hlt)
  rw [axis_perm_to_strides_eq hperm element_size hout, hsame, laysOut_iff_dense helement (by simpa using hperm),
    ← denseAlong_self_iff hsize]
  · simp only [hat]
  · intro m hm
    obtain ⟨d, hd, rfl⟩ := List.mem_map.1 hm
    exact hshape d hd

theorem axis_perm_to_strides_square :
    LaysOut 2 [1, 0] (withStrides [4, 2] (axis_perm_to_strides [1, 0] [4, 2] 2 [0, 0])) := by
  refine (axis_perm_to_strides_iff [1, 0] [4, 2] 2 [0, 0] (by decide) rfl (by decide) (by decide)).2 fun k a hk => ?_
  match k with
  | 0 => exact Option.some.inj hk ▸ by decide
  | 1 => exact Option.some.inj hk ▸ by decide
  | k + 2 => cases hk

/-- A C-contiguous array of two rows of three: the first axis has stride 2, not 12. -/
theorem strides_overwritten :
    ¬ LaysOut 4 [1, 0] (withStrides [2, 3] (axis_perm_to_strides [1, 0] [2, 3] 4 [0, 0])) := by
  intro h
  obtain ⟨k, h0, -, hk⟩ := h.bijection.mapsTo (show [1, 0] ∈ multiIndices [2, 3] by decide)
  have hoff : strideOffset (withStrides [2, 3] (axis_perm_to_strides [1, 0] [2, 3] 4 [0, 0])) [1, 0] = 2 := by decide
  rw [hoff] at hk
  omega

/-! ## The sibling -/

/-- An axis that is not in the list keeps its arrmeta; the others have their sizes and are dense along the list. -/
theorem fillArrmeta_spec {axes : List ℕ} (hnodup : axes.Nodup) (shape : List ℤ) (stride : ℤ) {md : List size_stride_t}
    (hrange : ∀ a ∈ axes, a < md.length) : (fillArrmeta axes shape stride md).length = md.length ∧
      (∀ i, i ∉ axes → arrmetaAt (fillArrmeta axes shape stride md) i = arrmetaAt md i) ∧
      (∀ a ∈ axes, (arrmetaAt (fillArrmeta axes shape stride md) a).dim_size = shape.getD a 0) ∧
      DenseAlong (fun i => shape.getD i 0) (fun i => (arrmetaAt (fillArrmeta axes shape stride md) i).stride) stride axes := by
  induction axes generalizing stride md with
  | nil => exact ⟨rfl, fun _ _ => rfl, by simp, trivial⟩
  | cons a axes ih =>
    obtain ⟨hnotin, hnodup⟩ := List.nodup_cons.1 hnodup
    obtain ⟨ha, hrange⟩ := List.forall_mem_cons.1 hrange
    rw [fillArrmeta]
    generalize hm : (⟨shape.getD a 0, if shape.getD a 0 > 1 then stride else 0⟩ : size_stride_t) = m
    have hrange' : ∀ b ∈ axes, b < (md.set a m).length := by
      intro b hb
      rw [List.length_set]
      exact hrange b hb
    obtain ⟨hlen, hkeep, hsizes, hdense⟩ := ih hnodup (stride * shape.getD a 0) hrange'
    have hself : arrmetaAt (fillArrmeta axes shape (stride * shape.getD a 0) (md.set a m)) a = m := by
      rw [hkeep a hnotin, arrmetaAt_set_self ha]
    refine ⟨hlen.trans List.length_set, fun i hi => ?_, List.forall_mem_cons.2 ⟨?_, hsizes⟩, ?_, hdense⟩
    · obtain ⟨hia, hi⟩ := not_or.1 (List.mem_cons.not.1 hi)
      rw [hkeep i hi, arrmetaAt_set_ne (Ne.symm hia)]
    · rw [hself, ← hm]
    · dsimp only
      rw [hself, ← hm]

/-- `make_strided_array` lays the axes out, in the order of the permutation or in C order. -/
theorem make_strided_array_lays_out {data_size : ℤ} (hdata : 0 < data_size) {shape : List ℤ} (hshape : ∀ d ∈ shape, 0 < d)
    (axis_perm : Option (List ℕ)) (hperm : ∀ axes ∈ axis_perm, axes.Perm (List.range shape.length))
    {md : List size_stride_t} (hlen : md.length = shape.length) :
    (stridedArrmeta data_size shape axis_perm md).map (·.dim_size) = shape ∧
      LaysOut data_size (axis_perm.getD (List.range shape.length).reverse) (stridedArrmeta data_size shape axis_perm md) := by
  have hperm : (axis_perm.getD (List.range shape.length).reverse).Perm (List.range shape.length) := by
    cases axis_perm with
    | none => exact List.reverse_perm _
    | some axes => exact hperm axes rfl
  rw [stridedArrmeta]
  generalize axis_perm.getD (List.range shape.length).reverse = axes at hperm
  have hrange : ∀ a ∈ axes, a < md.length := fun a ha => hlen ▸ List.mem_range.1 (hperm.mem_iff.1 ha)
  obtain ⟨hlen', -, hsizes, hdense⟩ := fillArrmeta_spec (hperm.nodup_iff.2 List.nodup_range) shape data_size hrange
  generalize fillArrmeta axes shape data_size md = out at hlen' hsizes hdense
  have hlen := hlen'.trans hlen
  have hshape' : out.map (·.dim_size) = shape := by
    apply List.ext_getElem (by simpa using hlen)
    intro i hi hi'
    have h := hsizes i (hperm.mem_iff.2 (List.mem_range.2 hi'))
    rw [arrmetaAt, List.getD_eq_getElem _ _ (by simpa using hi), List.getD_eq_getElem _ _ hi'] at h
    rw [List.getElem_map, h]
  refine ⟨hshape', (laysOut_iff_dense hdata (hlen ▸ hperm) ?_).2 (hdense.congr fun a ha => ⟨hsizes a ha, rfl⟩)⟩
  intro m hm
  exact hshape _ (hshape' ▸ List.mem_map_of_mem hm)

end Dynd.FixedDim
