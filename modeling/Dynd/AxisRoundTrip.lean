import Dynd.AxisPerm
import Dynd.AxisStrides
/-!
# Layouts and axis permutations

`make_strided_array` lays an array out along a permutation of its axes, and
`strides_to_axis_perm` reads a permutation off the strides of an array. Without
axes of size one the second gives back what the first was asked for, whatever
`std::sort` does with ties.
-/
namespace Dynd.FixedDim
open Lib

/-- Along a dense layout the strides grow from the unit on. -/
theorem strides_grow {α : Type*} {size stride : α → ℤ} {axes : List α} : ∀ {unit : ℤ}, 0 < unit → (∀ a ∈ axes, 1 < size a) →
    DenseAlong size stride unit axes → (∀ a ∈ axes, unit ≤ stride a) ∧ axes.Pairwise fun a b => stride a < stride b := by
  induction axes with
  | nil =>
    intro unit _ _ _
    exact ⟨fun a ha => absurd ha List.not_mem_nil, List.Pairwise.nil⟩
  | cons a axes ih =>
    intro unit hunit hsize hdense
    obtain ⟨ha, hsize⟩ := List.forall_mem_cons.mp hsize
    obtain ⟨hstride, hrest⟩ := hdense
    rw [if_pos ha] at hstride
    have hnext : unit < unit * size a := lt_mul_of_one_lt_right hunit ha
    obtain ⟨hle, hpair⟩ := ih (hunit.trans hnext) hsize hrest
    refine ⟨List.forall_mem_cons.mpr ⟨hstride.ge, fun b hb => hnext.le.trans (hle b hb)⟩, List.pairwise_cons.mpr ⟨?_, hpair⟩⟩
    intro b hb
    rw [hstride]
    exact hnext.trans_le (hle b hb)

/-- Axes in strictly growing order are what any sort gives. -/
theorem sort_of_growing (std : std_sort) {strides : List ℤ} {axes : List ℕ} (hperm : axes.Perm (List.range strides.length))
    (hgrow : axes.Pairwise fun i j => |strides.getD i 0| < |strides.getD j 0|) : strides_to_axis_perm std strides = axes := by
  have hne : axes.Pairwise fun i j => |strides.getD i 0| ≠ |strides.getD j 0| := hgrow.imp fun h => h.ne
  have hdistinct : DistinctStrides strides := by
    intro i j hij hj
    have hmem {k : ℕ} (hk : k < strides.length) : k ∈ axes := hperm.mem_iff.mpr (List.mem_range.mpr hk)
    have hsymm : Std.Symm fun i j => |strides.getD i 0| ≠ |strides.getD j 0| := ⟨fun _ _ h => h.symm⟩
    exact hne.forall (hmem (hij.trans hj)) (hmem hj) hij.ne
  have hsorted := (strides_to_axis_perm_sorted_iff strides).mpr (.inr hdistinct) std
  exact hsorted.unique ⟨hperm, hgrow.imp .inl⟩

/-- The permutation that an array was laid out along is the one its strides are sorted by. -/
theorem axis_perm_read_back (std : std_sort) {data_size : ℤ} (hdata : 0 < data_size) {shape : List ℤ}
    (hshape : ∀ d ∈ shape, 1 < d) {axes : List ℕ} (hperm : axes.Perm (List.range shape.length)) {md : List size_stride_t}
    (hlen : md.length = shape.length) :
    strides_to_axis_perm std ((stridedArrmeta data_size shape (some axes) md).map (·.stride)) = axes := by
  have hrange : ∀ a ∈ axes, a < md.length := fun a ha => hlen ▸ List.mem_range.mp (hperm.mem_iff.mp ha)
  obtain ⟨hlen', -, -, hdense⟩ := fillArrmeta_spec (hperm.nodup_iff.mpr List.nodup_range) shape data_size hrange
  rw [stridedArrmeta, Option.getD_some]
  generalize fillArrmeta axes shape data_size md = out at hlen' hdense
  have hsize : ∀ a ∈ axes, 1 < shape.getD a 0 := by
    intro a ha
    have hlt := List.mem_range.mp (hperm.mem_iff.mp ha)
    rw [List.getD_eq_getElem _ _ hlt]
    exact hshape _ (List.getElem_mem hlt)
  obtain ⟨hle, hgrow⟩ := strides_grow hdata hsize hdense
  have hstride : ∀ a ∈ axes, (out.map (·.stride)).getD a 0 = (arrmetaAt out a).stride := by
    intro a ha
    have hlt : a < out.length := hlen'.symm ▸ hrange a ha
    rw [arrmetaAt, List.getD_eq_getElem _ _ (by simpa using hlt), List.getD_eq_getElem _ _ hlt, List.getElem_map]
  apply sort_of_growing std
  · rwa [List.length_map, hlen', hlen]
  · refine hgrow.imp_of_mem fun {i j} hi hj hij => ?_
    rw [hstride i hi, hstride j hj, abs_of_pos (hdata.trans_le (hle i hi)), abs_of_pos (hdata.trans_le (hle j hj))]
    exact hij

theorem axis_perm_read_back_three : strides_to_axis_perm reversingSort
    ((stridedArrmeta 8 [2, 3, 4] (some [1, 0, 2]) (List.replicate 3 ⟨0, 0⟩)).map (·.stride)) = [1, 0, 2] :=
  axis_perm_read_back reversingSort (by decide) (by decide) (by decide) rfl

end Dynd.FixedDim
