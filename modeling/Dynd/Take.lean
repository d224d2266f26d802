import Dynd.Lib.Strided
import Dynd.PointerType
import Dynd.VarDimElement
/-!
# Masked and indexed take

`masked_take_ck` copies the elements whose mask byte is not zero into a new var
dimension, one run of them at a time, and `indexed_take_ck` copies the elements
at a list of indices.
-/
namespace Dynd.Take
open Lib VarDim
open PointerType (apply_single_index)

inductive error (E : Type) where
  | memory (f : fault)
  | index_out_of_bounds (i dimension_size : ℤ)
  | child (e : E)

/-! ## The masked kernel -/

structure masked_take_ck where
  m_dst_meta : var_dim_type_arrmeta
  m_dim_size : ℕ
  m_src0_stride : ℤ
  m_mask_stride : ℤ

/-- The position, and the two pointers that go with it. -/
structure cursor where
  i : ℕ
  src0 : ℤ
  mask : ℤ

namespace masked_take_ck
variable (self : masked_take_ck) (mask_byte : ℤ → UInt8)

def run_of_false (s : cursor) : cursor :=
  if s.i < self.m_dim_size ∧ mask_byte s.mask = 0 then
    run_of_false { i := s.i + 1, src0 := s.src0 + self.m_src0_stride, mask := s.mask + self.m_mask_stride }
  else s
termination_by self.m_dim_size - s.i

/-- `src0` stays at the start of the run. -/
def run_of_true (s : cursor) : cursor :=
  if s.i < self.m_dim_size ∧ mask_byte s.mask ≠ 0 then
    run_of_true { s with i := s.i + 1, mask := s.mask + self.m_mask_stride }
  else s
termination_by self.m_dim_size - s.i

theorem le_run_of_false (s : cursor) : s.i ≤ (self.run_of_false mask_byte s).i := by
  fun_induction run_of_false self mask_byte s with
  | case1 s h ih => exact le_trans (Nat.le_succ _) ih
  | case2 s h => exact le_rfl

theorem le_run_of_true (s : cursor) : s.i ≤ (self.run_of_true mask_byte s).i := by
  fun_induction run_of_true self mask_byte s with
  | case1 s h ih => exact le_trans (Nat.le_succ _) ih
  | case2 s h => exact le_rfl

theorem run_of_false_stops (s : cursor) (h : (self.run_of_false mask_byte s).i < self.m_dim_size) :
    mask_byte (self.run_of_false mask_byte s).mask ≠ 0 := by
  fun_induction run_of_false self mask_byte s with
  | case1 s hs ih => exact ih h
  | case2 s hs => exact fun hzero => hs ⟨h, hzero⟩

/-- The two runs together go on. -/
theorem lt_runs (s : cursor) (h : s.i < self.m_dim_size) :
    s.i < (self.run_of_true mask_byte (self.run_of_false mask_byte s)).i := by
  have hfalse := self.le_run_of_false mask_byte s
  have htrue := self.le_run_of_true mask_byte (self.run_of_false mask_byte s)
  rcases Nat.lt_or_ge (self.run_of_false mask_byte s).i self.m_dim_size with hlt | hge
  · rw [run_of_true, if_pos ⟨hlt, self.run_of_false_stops mask_byte s hlt⟩]
    have hnext := self.le_run_of_true mask_byte { self.run_of_false mask_byte s with
      i := (self.run_of_false mask_byte s).i + 1, mask := (self.run_of_false mask_byte s).mask + self.m_mask_stride }
    dsimp only at hnext
    omega
  · omega

section
variable {M E : Type} (child : ℤ → ℤ → M → Except E M)

/-- The while loop: `dst_count` elements have been copied, the next goes to `dst_ptr`. -/
def take_loop (s : cursor) (dst_ptr : ℤ) (dst_count : ℕ) (m : M) : Except E (ℕ × M) :=
  if s.i < self.m_dim_size then
    let saved := self.run_of_false mask_byte s
    let after := self.run_of_true mask_byte saved
    if saved.i < after.i then do
      let run_count := after.i - saved.i
      let m ← strided (fun p => child p.1 p.2) (dst_ptr, after.src0) ((self.m_dst_meta.stride : ℤ), self.m_src0_stride) run_count m
      take_loop { after with src0 := after.src0 + run_count * self.m_src0_stride }
        (dst_ptr + run_count * self.m_dst_meta.stride) (dst_count + run_count) m
    else take_loop after dst_ptr dst_count m
  else .ok (dst_count, m)
termination_by self.m_dim_size - s.i
decreasing_by
  all_goals
    have := self.lt_runs mask_byte s ‹_›
    omega

end

def single {E : Type} (al : allocator) (child : ℤ → ℤ → Heap → Except E Heap) (dst : var_dim_type_data) (src0 mask : ℤ)
    (blockref : Option memory_block) : Except (error E) (memory_block × var_dim_type_data) := do
  let (b, vdd) ← ( var_dim_element_initialize al self.m_dst_meta dst self.m_dim_size blockref).mapError .memory
  let (dst_count, heap) ← (self.take_loop mask_byte child ⟨0, src0, mask⟩ vdd.begin 0 b.heap).mapError .child
  (var_dim_element_resize al self.m_dst_meta vdd dst_count (some (b.set_heap heap))).mapError .memory

end masked_take_ck

/-! ## The indexed kernel -/

structure indexed_take_ck where
  m_dst_dim_size : ℕ
  m_dst_stride : ℤ
  m_index_stride : ℤ
  m_src0_dim_size : ℕ
  m_src0_stride : ℤ

namespace indexed_take_ck
variable {M E : Type} (self : indexed_take_ck) (index_at : ℤ → ℤ) (child : ℤ → ℤ → M → Except E M)

/-- The rounds that are left, with the pointers they start at. -/
def take_loop (src0 : ℤ) : ℕ → ℤ → ℤ → M → Except (error E) M
  | 0, _, _, m => .ok m
  | n + 1, dst, index, m => do
    match apply_single_index (index_at index) self.m_src0_dim_size with
    | none => .error (.index_out_of_bounds (index_at index) self.m_src0_dim_size)
    | some ix =>
      let child_src0 := src0 + ix * self.m_src0_stride
      let m ← (child dst child_src0 m).mapError .child
      take_loop src0 n (dst + self.m_dst_stride) (index + self.m_index_stride) m

def single (dst src0 index : ℤ) (m : M) : Except (error E) M :=
  self.take_loop index_at child src0 self.m_dst_dim_size dst index m

end indexed_take_ck

/-! ## What is taken -/

/-- The elements at `srcs` are assigned one after the other. -/
def copy_each {M E : Type} (child : ℤ → ℤ → M → Except E M) (dst dst_stride : ℤ) : List ℤ → M → Except E M
  | [], m => .ok m
  | src :: srcs, m => child dst src m >>= copy_each child (dst + dst_stride) dst_stride srcs

section
variable {M E : Type} {child : ℤ → ℤ → M → Except E M} {dst dst_stride : ℤ} {m : M}

theorem copy_each_append (l₁ l₂ : List ℤ) : copy_each child dst dst_stride (l₁ ++ l₂) m =
    copy_each child dst dst_stride l₁ m >>= copy_each child (dst + l₁.length * dst_stride) dst_stride l₂ := by
  induction l₁ generalizing dst m with
  | nil =>
    rw [List.length_nil, Nat.cast_zero, zero_mul, add_zero]
    rfl
  | cons src l₁ ih =>
    rw [List.cons_append, copy_each, copy_each, bind_assoc, List.length_cons]
    apply bind_congr
    intro m'
    rw [ih, show dst + dst_stride + (l₁.length : ℤ) * dst_stride = dst + (l₁.length + 1 : ℕ) * dst_stride by push_cast; ring]

/-- A strided call copies a run. -/
theorem strided_eq_copy_each (src src_stride : ℤ) (n : ℕ) :
    strided (fun p => child p.1 p.2) (dst, src) (dst_stride, src_stride) n m =
      copy_each child dst dst_stride ((List.range n).map fun i : ℕ => src + i * src_stride) m := by
  induction n generalizing dst src m with
  | zero => rfl
  | succ n ih =>
    rw [strided, List.range_succ_eq_map, List.map_cons, copy_each, List.map_map, Nat.cast_zero, zero_mul, add_zero]
    apply bind_congr
    intro m'
    rw [Prod.mk_add_mk, ih]
    congr 1
    apply List.map_congr_left
    intro i _
    rw [Function.comp_apply]
    push_cast
    ring

end

namespace masked_take_ck
variable (self : masked_take_ck) (mask_byte : ℤ → UInt8) (src0 mask : ℤ)

/-- The pointers at a position. -/
def place (i : ℕ) : cursor := ⟨i, src0 + i * self.m_src0_stride, mask + i * self.m_mask_stride⟩

/-- Whether the mask is true. -/
def chosen (i : ℕ) : Bool := mask_byte (mask + i * self.m_mask_stride) ≠ 0

/-- The positions from `i` on whose mask is true. -/
def selected_from (i : ℕ) : List ℕ := (List.range' i (self.m_dim_size - i)).filter (self.chosen mask_byte mask)

/-- The positions whose mask is true. -/
def selected : List ℕ := (List.range self.m_dim_size).filter (self.chosen mask_byte mask)

theorem selected_from_zero : self.selected_from mask_byte mask 0 = self.selected mask_byte mask := by
  rw [selected_from, selected, Nat.sub_zero, List.range_eq_range']

variable {self mask_byte src0 mask}

theorem selected_from_end {i : ℕ} (h : self.m_dim_size ≤ i) : self.selected_from mask_byte mask i = [] := by
  rw [selected_from, Nat.sub_eq_zero_of_le h]
  rfl

theorem selected_from_split {i j : ℕ} (hij : i ≤ j) (hj : j ≤ self.m_dim_size) : self.selected_from mask_byte mask i =
    (List.range' i (j - i)).filter (self.chosen mask_byte mask) ++ self.selected_from mask_byte mask j := by
  have hrange : List.range' i (self.m_dim_size - i) = List.range' i (j - i) ++ List.range' j (self.m_dim_size - j) := by
    have happend := List.range'_append_1 (s := i) (m := j - i) (n := self.m_dim_size - j)
    rw [Nat.add_sub_cancel' hij] at happend
    rw [happend]
    congr 1
    omega
  rw [selected_from, selected_from, hrange, List.filter_append]

/-- What the run of false passes is not selected. -/
theorem run_of_false_place (mask_byte : ℤ → UInt8) (src0 mask : ℤ) (i : ℕ) (hi : i ≤ self.m_dim_size) : ∃ j, i ≤ j ∧ j ≤ self.m_dim_size ∧
    self.run_of_false mask_byte (self.place src0 mask i) = self.place src0 mask j ∧
    ∀ k, i ≤ k → k < j → self.chosen mask_byte mask k = false := by
  generalize hs : self.place src0 mask i = s
  fun_induction run_of_false self mask_byte s generalizing i with
  | case1 s h ih =>
    subst hs
    obtain ⟨hlt, hzero⟩ := h
    dsimp only [place] at hlt hzero
    obtain ⟨j, hij, hj, hrun, hnone⟩ := ih (i + 1) (by omega) (by simp only [place]; push_cast; congr 1 <;> ring)
    refine ⟨j, by omega, hj, hrun, ?_⟩
    intro k hk hkj
    rcases Nat.eq_or_lt_of_le hk with rfl | hk
    · simp [chosen, hzero]
    · exact hnone k hk hkj
  | case2 s h =>
    subst hs
    exact ⟨i, le_rfl, hi, rfl, fun k hk hki => by omega⟩

/-- What the run of true passes is selected. -/
theorem run_of_true_place (mask_byte : ℤ → UInt8) (src0 mask : ℤ) (i : ℕ) (hi : i ≤ self.m_dim_size) (src : ℤ) : ∃ j, i ≤ j ∧ j ≤ self.m_dim_size ∧
    self.run_of_true mask_byte { self.place src0 mask i with src0 := src } = { self.place src0 mask j with src0 := src } ∧
    ∀ k, i ≤ k → k < j → self.chosen mask_byte mask k = true := by
  generalize hs : { self.place src0 mask i with src0 := src } = s
  fun_induction run_of_true self mask_byte s generalizing i with
  | case1 s h ih =>
    subst hs
    obtain ⟨hlt, hone⟩ := h
    dsimp only [place] at hlt hone
    obtain ⟨j, hij, hj, hrun, hall⟩ := ih (i + 1) (by omega) (by simp only [place]; push_cast; congr 1; ring)
    refine ⟨j, by omega, hj, hrun, ?_⟩
    intro k hk hkj
    rcases Nat.eq_or_lt_of_le hk with rfl | hk
    · simp [chosen, hone]
    · exact hall k hk hkj
  | case2 s h =>
    subst hs
    exact ⟨i, le_rfl, hi, rfl, fun k hk hki => by omega⟩

section
variable {M E : Type} (child : ℤ → ℤ → M → Except E M)

/-- Two runs take the positions up to their end. -/
theorem selected_from_runs {i j k : ℕ} (hij : i ≤ j) (hjk : j ≤ k) (hk : k ≤ self.m_dim_size)
    (hnone : ∀ t, i ≤ t → t < j → self.chosen mask_byte mask t = false)
    (hall : ∀ t, j ≤ t → t < k → self.chosen mask_byte mask t = true) :
    self.selected_from mask_byte mask i = List.range' j (k - j) ++ self.selected_from mask_byte mask k := by
  rw [selected_from_split hij (hjk.trans hk), selected_from_split hjk hk, List.filter_eq_nil_iff.mpr, List.nil_append,
    List.filter_eq_self.mpr]
  · intro t ht
    rw [List.mem_range'_1] at ht
    exact hall t ht.1 (by omega)
  · intro t ht
    rw [List.mem_range'_1] at ht
    simp [hnone t ht.1 (by omega)]

theorem take_loop_run {s saved after : cursor} (hlt : s.i < self.m_dim_size) (hfalse : self.run_of_false mask_byte s = saved)
    (htrue : self.run_of_true mask_byte saved = after) (hrun : saved.i < after.i) (dst_ptr : ℤ) (dst_count : ℕ) (m : M) :
    self.take_loop mask_byte child s dst_ptr dst_count m =
      strided (fun p => child p.1 p.2) (dst_ptr, after.src0) ((self.m_dst_meta.stride : ℤ), self.m_src0_stride)
        (after.i - saved.i) m >>= self.take_loop mask_byte child
          { after with src0 := after.src0 + (after.i - saved.i : ℕ) * self.m_src0_stride }
          (dst_ptr + (after.i - saved.i : ℕ) * self.m_dst_meta.stride) (dst_count + (after.i - saved.i)) := by
  subst hfalse htrue
  rw [take_loop, if_pos hlt]
  dsimp only
  rw [if_pos hrun]

theorem take_loop_no_run {s saved after : cursor} (hlt : s.i < self.m_dim_size) (hfalse : self.run_of_false mask_byte s = saved)
    (htrue : self.run_of_true mask_byte saved = after) (hrun : ¬ saved.i < after.i) (dst_ptr : ℤ) (dst_count : ℕ) (m : M) :
    self.take_loop mask_byte child s dst_ptr dst_count m = self.take_loop mask_byte child after dst_ptr dst_count m := by
  subst hfalse htrue
  rw [take_loop, if_pos hlt]
  dsimp only
  rw [if_neg hrun]

/-- The loop copies what is selected, in order. By induction on the positions that are left. -/
theorem take_loop_eq (i : ℕ) (hi : i ≤ self.m_dim_size) (dst_ptr : ℤ) (dst_count : ℕ) (m : M) :
    self.take_loop mask_byte child (self.place src0 mask i) dst_ptr dst_count m =
      (fun m' => (dst_count + (self.selected_from mask_byte mask i).length, m')) <$>
        copy_each child dst_ptr self.m_dst_meta.stride
          ((self.selected_from mask_byte mask i).map fun j : ℕ => src0 + j * self.m_src0_stride) m := by
  induction hleft : self.m_dim_size - i using Nat.strong_induction_on generalizing i dst_ptr dst_count m with
  | _ left ih =>
    by_cases hlt : i < self.m_dim_size
    · obtain ⟨j, hij, hj, hfalse, hnone⟩ := self.run_of_false_place mask_byte src0 mask i hi
      obtain ⟨k, hjk, hk, htrue, hall⟩ := self.run_of_true_place mask_byte src0 mask j hj
        (self.place src0 mask j).src0
      have hprogress := self.lt_runs mask_byte (self.place src0 mask i) hlt
      rw [hfalse] at hprogress
      change self.run_of_true mask_byte (self.place src0 mask j) = _ at htrue
      rw [htrue] at hprogress
      change i < k at hprogress
      rw [selected_from_runs hij hjk hk hnone hall]
      by_cases hrun : j < k
      · have hsrc : src0 + (j : ℤ) * self.m_src0_stride + ((k - j : ℕ) : ℤ) * self.m_src0_stride =
            src0 + (k : ℤ) * self.m_src0_stride := by
          rw [Nat.cast_sub hjk]
          ring
        have hsrcs : (List.range (k - j)).map (fun t : ℕ => src0 + (j : ℤ) * self.m_src0_stride + t * self.m_src0_stride) =
            (List.range' j (k - j)).map fun t : ℕ => src0 + t * self.m_src0_stride := by
          rw [List.range'_eq_map_range, List.map_map]
          apply List.map_congr_left
          intro t _
          rw [Function.comp_apply]
          push_cast
          ring
        rw [take_loop_run child hlt hfalse htrue hrun]
        dsimp only [place]
        rw [strided_eq_copy_each, hsrcs, hsrc, List.map_append, copy_each_append, map_bind]
        apply bind_congr
        intro m'
        have hrest := ih _ (by omega) k hk (dst_ptr + ((k - j : ℕ) : ℤ) * self.m_dst_meta.stride) (dst_count + (k - j)) m' rfl
        rw [place] at hrest
        rw [hrest]
        simp only [List.length_append, List.length_range', List.length_map, Nat.add_assoc]
      · obtain rfl : j = k := by omega
        rw [take_loop_no_run child hlt hfalse htrue (lt_irrefl _), Nat.sub_self, List.range'_zero, List.nil_append]
        exact ih _ (by omega) j hj dst_ptr dst_count m rfl
    · rw [take_loop, if_neg (show ¬ (self.place src0 mask i).i < self.m_dim_size from hlt), selected_from_end (by omega)]
      rfl

end

/-- The sources of what is selected. -/
def sources (self : masked_take_ck) (mask_byte : ℤ → UInt8) (src0 mask : ℤ) : List ℤ :=
  (self.selected mask_byte mask).map fun j : ℕ => src0 + j * self.m_src0_stride

/-- All of the loop. -/
theorem take_loop_zero {M E : Type} (child : ℤ → ℤ → M → Except E M) (dst_ptr : ℤ) (m : M) :
    self.take_loop mask_byte child ⟨0, src0, mask⟩ dst_ptr 0 m =
      (fun m' => ((self.selected mask_byte mask).length, m')) <$>
        copy_each child dst_ptr self.m_dst_meta.stride (self.sources mask_byte src0 mask) m := by
  have hplace : self.place src0 mask 0 = ⟨0, src0, mask⟩ := by
    simp [place]
  rw [← hplace, take_loop_eq child 0 (Nat.zero_le _), selected_from_zero, Nat.zero_add, sources]

theorem length_selected : (self.selected mask_byte mask).length ≤ self.m_dim_size := by
  rw [selected]
  exact (List.length_filter_le _ _).trans List.length_range.le

theorem length_selected_eq : (self.selected mask_byte mask).length = self.m_dim_size ↔
    ∀ i < self.m_dim_size, self.chosen mask_byte mask i = true := by
  have hlen := List.length_filter_eq_length_iff (l := List.range self.m_dim_size) (p := self.chosen mask_byte mask)
  rw [List.length_range] at hlen
  rw [selected, hlen]
  simp only [List.mem_range]

end masked_take_ck

namespace indexed_take_ck
variable {M E : Type} (self : indexed_take_ck) (index_at : ℤ → ℤ) (index : ℤ)

/-- What the index array holds. -/
def indices : List ℤ := (List.range self.m_dst_dim_size).map fun i : ℕ => index_at (index + i * self.m_index_stride)

/-- An index of the dimension, from its start or from its end. -/
def InRange (n : ℕ) (ix : ℤ) : Prop := -(n : ℤ) ≤ ix ∧ ix < n

/-- A negative index counts from the end. -/
def counted (n : ℕ) (ix : ℤ) : ℤ := if 0 ≤ ix then ix else ix + n

theorem apply_single_index_in_range {n : ℕ} {ix : ℤ} (h : InRange n ix) : apply_single_index ix n = some (counted n ix) := by
  obtain ⟨hlow, hhigh⟩ := h
  unfold apply_single_index counted
  split_ifs
  · rfl
  · rfl

theorem apply_single_index_out_of_range {n : ℕ} {ix : ℤ} (h : ¬ InRange n ix) : apply_single_index ix n = none := by
  unfold InRange at h
  unfold apply_single_index
  split_ifs <;> first | rfl | omega

variable {self index_at} (child : ℤ → ℤ → M → Except E M) (src0 : ℤ)

/-- A round at an index in range. -/
theorem take_loop_round {n : ℕ} {dst index : ℤ} {m : M} (h : InRange self.m_src0_dim_size (index_at index)) :
    self.take_loop index_at child src0 (n + 1) dst index m =
      (child dst (src0 + counted self.m_src0_dim_size (index_at index) * self.m_src0_stride) m).mapError .child >>=
        self.take_loop index_at child src0 n (dst + self.m_dst_stride) (index + self.m_index_stride) := by
  rw [take_loop, apply_single_index_in_range h]

/-- A round at an index out of range. -/
theorem take_loop_throws {n : ℕ} {dst index : ℤ} {m : M} (h : ¬ InRange self.m_src0_dim_size (index_at index)) :
    self.take_loop index_at child src0 (n + 1) dst index m =
      .error (.index_out_of_bounds (index_at index) self.m_src0_dim_size) := by
  rw [take_loop, apply_single_index_out_of_range h]

/-- The rounds up to `a`, and then those after them, while the indices are in range. -/
theorem take_loop_add (a b : ℕ) (dst index : ℤ) (m : M)
    (h : ∀ i < a, InRange self.m_src0_dim_size (index_at (index + i * self.m_index_stride))) :
    self.take_loop index_at child src0 (a + b) dst index m =
      (copy_each child dst self.m_dst_stride ((List.range a).map fun i : ℕ =>
          src0 + counted self.m_src0_dim_size (index_at (index + i * self.m_index_stride)) * self.m_src0_stride) m).mapError .child >>=
        self.take_loop index_at child src0 b (dst + a * self.m_dst_stride) (index + a * self.m_index_stride) := by
  induction a generalizing dst index m with
  | zero =>
    rw [Nat.zero_add, Nat.cast_zero, zero_mul, add_zero, zero_mul, add_zero]
    rfl
  | succ a ih =>
    have hfirst := h 0 (by omega)
    rw [Nat.cast_zero, zero_mul, add_zero] at hfirst
    have hnext (i : ℕ) : index + self.m_index_stride + i * self.m_index_stride = index + (i + 1 : ℕ) * self.m_index_stride := by
      push_cast
      ring
    rw [Nat.succ_add, take_loop_round child src0 hfirst, List.range_succ_eq_map, List.map_cons, List.map_map, copy_each,
      Nat.cast_zero, zero_mul, add_zero]
    cases child dst (src0 + counted self.m_src0_dim_size (index_at index) * self.m_src0_stride) m with
    | error e => rfl
    | ok m' =>
      have hrest := ih (dst + self.m_dst_stride) (index + self.m_index_stride) m' (fun i hi => by
        rw [hnext]
        exact h (i + 1) (by omega))
      rw [hnext, show dst + self.m_dst_stride + (a : ℤ) * self.m_dst_stride = dst + (a + 1 : ℕ) * self.m_dst_stride by
        push_cast; ring] at hrest
      simp only [hnext] at hrest
      exact hrest

end indexed_take_ck

/-! ## The laws -/

/-- The elements under a true mask, in order, are the new element; what is thrown on the way is thrown. -/
def Masked (self : masked_take_ck) (al : allocator) (mask_byte : ℤ → UInt8) (dst : var_dim_type_data) (mask : ℤ)
    (blockref : Option memory_block) : Prop :=
  ∀ {E : Type} (child : ℤ → ℤ → Heap → Except E Heap) (src0 : ℤ),
    match var_dim_element_initialize al self.m_dst_meta dst self.m_dim_size blockref with
    | .error f => self.single mask_byte al child dst src0 mask blockref = .error (.memory f)
    | .ok (b, vdd) =>
      match copy_each child vdd.begin self.m_dst_meta.stride (self.sources mask_byte src0 mask) b.heap with
      | .error e => self.single mask_byte al child dst src0 mask blockref = .error (.child e)
      | .ok heap => ∃ t, self.single mask_byte al child dst src0 mask blockref =
          .ok (t, ⟨vdd.begin, (self.selected mask_byte mask).length⟩) ∧ t.heap = heap

/-- The elements at the indices, in order. The first index out of range throws. -/
structure Indexed (taker : indexed_take_ck) (index_at : ℤ → ℤ) (index : ℤ) : Prop where
  in_range : (∀ ix ∈ taker.indices index_at index, indexed_take_ck.InRange taker.m_src0_dim_size ix) →
    ∀ {M E : Type} (child : ℤ → ℤ → M → Except E M) (dst src0 : ℤ) (m : M), taker.single index_at child dst src0 index m =
      (copy_each child dst taker.m_dst_stride ((taker.indices index_at index).map fun ix =>
        src0 + indexed_take_ck.counted taker.m_src0_dim_size ix * taker.m_src0_stride) m).mapError .child
  out_of_range : ∀ before ix after, taker.indices index_at index = before ++ ix :: after →
    (∀ j ∈ before, indexed_take_ck.InRange taker.m_src0_dim_size j) → ¬ indexed_take_ck.InRange taker.m_src0_dim_size ix →
    ∀ {M E : Type} (child : ℤ → ℤ → M → Except E M) (dst src0 : ℤ) (m : M), taker.single index_at child dst src0 index m = do
      let _ ← (copy_each child dst taker.m_dst_stride (before.map fun j =>
        src0 + indexed_take_ck.counted taker.m_src0_dim_size j * taker.m_src0_stride) m).mapError .child
      .error (.index_out_of_bounds ix taker.m_src0_dim_size)

/-- The masked take is the indexed take at the positions of the true mask elements. -/
def Same (self : masked_take_ck) (al : allocator) (mask_byte : ℤ → UInt8) (dst : var_dim_type_data) (mask : ℤ)
    (blockref : Option memory_block) : Prop :=
  ∀ (ck : indexed_take_ck) (index_at : ℤ → ℤ) (index : ℤ), ck.m_src0_dim_size = self.m_dim_size →
    ck.m_src0_stride = self.m_src0_stride → ck.m_dst_stride = self.m_dst_meta.stride →
    ck.indices index_at index = (self.selected mask_byte mask).map Nat.cast →
    ∀ {E : Type} (child : ℤ → ℤ → Heap → Except E Heap) (src0 : ℤ) (b : memory_block) (vdd : var_dim_type_data),
      var_dim_element_initialize al self.m_dst_meta dst self.m_dim_size blockref = .ok (b, vdd) →
      (self.single mask_byte al child dst src0 mask blockref).map (fun r => r.1.heap) =
        ck.single index_at child vdd.begin src0 index b.heap

/-- An assignment that writes the bytes which the source element has in the destination. -/
def assign_bytes {E : Type} (element : ℤ → Except E (List UInt8)) (dst src : ℤ) (h : Heap) : Except E Heap := do
  let bytes ← element src
  return { h with byte := fun x => if dst ≤ x ∧ (x : ℤ) < dst + bytes.length then bytes.getD (x - dst).toNat 0 else h.byte x }

/-- The bytes of an element stand at an address. -/
def Holds (h : Heap) (address : ℤ) (bytes : List UInt8) : Prop :=
  ∀ i < bytes.length, ∀ x : ℕ, (x : ℤ) = address + i → h.byte x = bytes.getD i 0

/-- The element `k` of the result has the bytes of the data element at the `k`-th position whose mask is true. -/
def Elements (self : masked_take_ck) (al : allocator) (mask_byte : ℤ → UInt8) (dst : var_dim_type_data) (mask : ℤ)
    (blockref : Option memory_block) : Prop :=
  ∀ {E : Type} (element : ℤ → Except E (List UInt8)) (src0 : ℤ) (t : memory_block) (vdd : var_dim_type_data),
    (∀ src bytes, element src = .ok bytes → bytes.length ≤ self.m_dst_meta.stride) →
    self.single mask_byte al (assign_bytes element) dst src0 mask blockref = .ok (t, vdd) →
    vdd.size = (self.selected mask_byte mask).length ∧ ∀ k (hk : k < (self.selected mask_byte mask).length), ∃ bytes,
      element (src0 + (self.selected mask_byte mask)[k] * self.m_src0_stride) = .ok bytes ∧
        Holds t.heap (vdd.begin + k * self.m_dst_meta.stride) bytes

structure Takes (taker : masked_take_ck) (al : allocator) (mask_byte : ℤ → UInt8) (dst : var_dim_type_data) (mask : ℤ)
    (blockref : Option memory_block) : Prop where
  masked : Masked taker al mask_byte dst mask blockref
  elements : Elements taker al mask_byte dst mask blockref
  indexed : ∀ ck index_at index, Indexed ck index_at index
  same : Same taker al mask_byte dst mask blockref

theorem indexed_law (ck : indexed_take_ck) (index_at : ℤ → ℤ) (index : ℤ) : Indexed ck index_at index where
  in_range := by
    intro hrange M E child dst src0 m
    have hindices (i : ℕ) (hi : i < ck.m_dst_dim_size) :
        indexed_take_ck.InRange ck.m_src0_dim_size (index_at (index + i * ck.m_index_stride)) :=
      hrange _ (List.mem_map_of_mem (List.mem_range.mpr hi))
    have hloop := indexed_take_ck.take_loop_add child src0 ck.m_dst_dim_size 0 dst index m hindices
    rw [Nat.add_zero] at hloop
    rw [indexed_take_ck.single, hloop, indexed_take_ck.indices, List.map_map]
    exact bind_pure _
  out_of_range := by
    intro before ix after hsplit hrange hout M E child dst src0 m
    have hlen : ck.m_dst_dim_size = before.length + (after.length + 1) := by
      have hcount := congrArg List.length hsplit
      rw [indexed_take_ck.indices, List.length_map, List.length_range, List.length_append, List.length_cons] at hcount
      exact hcount
    have hbefore : before = (List.range before.length).map fun i : ℕ => index_at (index + i * ck.m_index_stride) := by
      have htake := congrArg (List.take before.length) hsplit
      rw [List.take_left, indexed_take_ck.indices, ← List.map_take, List.take_range, min_eq_left (by omega)] at htake
      exact htake.symm
    have hat : index_at (index + before.length * ck.m_index_stride) = ix := by
      have hget := congrArg (fun l => l[before.length]?) hsplit
      simp only [indexed_take_ck.indices, List.getElem?_map, List.getElem?_append_right le_rfl, Nat.sub_self,
        List.getElem?_cons_zero] at hget
      rw [List.getElem?_range (by omega)] at hget
      exact Option.some.inj hget
    have hindices (i : ℕ) (hi : i < before.length) :
        indexed_take_ck.InRange ck.m_src0_dim_size (index_at (index + i * ck.m_index_stride)) := by
      apply hrange
      rw [hbefore]
      exact List.mem_map_of_mem (List.mem_range.mpr hi)
    rw [← hat] at hout
    rw [indexed_take_ck.single, hlen, indexed_take_ck.take_loop_add child src0 before.length _ dst index m hindices]
    conv_rhs => rw [hbefore]
    rw [List.map_map]
    apply bind_congr
    intro m'
    rw [indexed_take_ck.take_loop_throws child src0 hout, hat]

namespace masked_take_ck
variable {self : masked_take_ck} {al : allocator} {mask_byte : ℤ → UInt8} {dst vdd : var_dim_type_data} {mask : ℤ}
  {blockref : Option memory_block} {b t : memory_block}

/-- The kernel once the element is initialized: the copies, and the trimming. -/
theorem single_eq {E : Type} (child : ℤ → ℤ → Heap → Except E Heap) (src0 : ℤ)
    (hinit : var_dim_element_initialize al self.m_dst_meta dst self.m_dim_size blockref = .ok (t, vdd)) :
    self.single mask_byte al child dst src0 mask blockref = (do
      let heap ← (copy_each child vdd.begin self.m_dst_meta.stride (self.sources mask_byte src0 mask) t.heap).mapError .child
      (var_dim_element_resize al self.m_dst_meta vdd (self.selected mask_byte mask).length (some (t.set_heap heap))).mapError
        .memory : Except (error E) (memory_block × var_dim_type_data)) := by
  rw [single, hinit]
  change (self.take_loop mask_byte child ⟨0, src0, mask⟩ vdd.begin 0 t.heap).mapError error.child >>= _ = _
  rw [take_loop_zero]
  cases copy_each child vdd.begin self.m_dst_meta.stride (self.sources mask_byte src0 mask) t.heap with
  | error e => rfl
  | ok heap => rfl

theorem masked_of_throws {f : fault} (mask_byte : ℤ → UInt8) (mask : ℤ)
    (h : var_dim_element_initialize al self.m_dst_meta dst self.m_dim_size blockref = .error f) :
    Masked self al mask_byte dst mask blockref := by
  intro E child src0
  rw [h]
  dsimp only
  rw [single, h]
  rfl

theorem masked_of_kept (hb : b.Sound)
    (hkeep : b.is_objectarray = false ∨ b.object_stride ≠ 0 ∧ (self.selected mask_byte mask).length = self.m_dim_size) :
    Masked self al mask_byte dst mask (some b) := by
  intro E child src0
  cases hinit : var_dim_element_initialize al self.m_dst_meta dst self.m_dim_size (some b) with
  | error f =>
    have hthrows := masked_of_throws mask_byte mask hinit child src0
    rw [hinit] at hthrows
    exact hthrows
  | ok r =>
    obtain ⟨t, vdd⟩ := r
    dsimp only
    rw [single_eq child src0 hinit]
    cases copy_each child vdd.begin self.m_dst_meta.stride (self.sources mask_byte src0 mask) t.heap with
    | error e => rfl
    | ok heap =>
      obtain ⟨t', hresize, hheap⟩ := resize_initialized hb hinit length_selected hkeep heap
      refine ⟨t', ?_, hheap⟩
      change (var_dim_element_resize _ _ _ _ _).mapError _ = _
      rw [hresize]
      rfl

/-- Trimming an objectarray block is undefined. -/
theorem not_masked (hb : b.Sound) (hinit : var_dim_element_initialize al self.m_dst_meta dst self.m_dim_size (some b) = .ok (t, vdd))
    (hobjects : b.is_objectarray = true)
    (hless : b.object_stride = 0 ∨ (self.selected mask_byte mask).length < self.m_dim_size) :
    ¬ Masked self al mask_byte dst mask (some b) := by
  intro h
  have hcopies (srcs : List ℤ) (dst : ℤ) (heap : Heap) :
      copy_each (E := Unit) (fun _ _ heap => .ok heap) dst self.m_dst_meta.stride srcs heap = .ok heap := by
    induction srcs generalizing dst with
    | nil => rfl
    | cons src srcs ih => exact ih _
  have hmasked := h (E := Unit) (fun _ _ heap => .ok heap) 0
  rw [hinit] at hmasked
  dsimp only at hmasked
  rw [hcopies] at hmasked
  obtain ⟨t', hsingle, -⟩ := hmasked
  have hset : t.set_heap t.heap = t := by
    cases t <;> rfl
  rw [single_eq _ _ hinit, hcopies] at hsingle
  change (var_dim_element_resize _ _ _ _ _).mapError _ = _ at hsingle
  rw [hset, resize_undefined hb hinit hobjects hless] at hsingle
  cases hsingle

/-- The later elements are written behind. -/
theorem copy_each_holds {E : Type} {element : ℤ → Except E (List UInt8)} {dst_stride : ℕ}
    (hlen : ∀ src bytes, element src = .ok bytes → bytes.length ≤ dst_stride) : ∀ (srcs : List ℤ) (dst : ℤ) (h h' : Heap),
    copy_each (assign_bytes element) dst dst_stride srcs h = .ok h' →
      (∀ x : ℕ, (x : ℤ) < dst → h'.byte x = h.byte x) ∧
        ∀ k (hk : k < srcs.length), ∃ bytes, element srcs[k] = .ok bytes ∧ Holds h' (dst + k * dst_stride) bytes
  | [], dst, h, h', hcopy => by
    cases hcopy
    exact ⟨fun _ _ => rfl, fun k hk => absurd hk (Nat.not_lt_zero k)⟩
  | src :: srcs, dst, h, h', hcopy => by
    obtain ⟨h₁, hfirst, hrest⟩ := bind_eq_ok.mp hcopy
    obtain ⟨bytes, hbytes, hwrite⟩ := bind_eq_ok.mp hfirst
    cases hwrite
    have hsize := hlen src bytes hbytes
    obtain ⟨hframe, helements⟩ := copy_each_holds hlen srcs (dst + dst_stride) _ h' hrest
    refine ⟨fun x hx => ?_, fun k hk => ?_⟩
    · rw [hframe x (by omega)]
      exact if_neg (by omega)
    · cases k with
      | zero =>
        refine ⟨bytes, hbytes, fun i hi x hx => ?_⟩
        rw [Nat.cast_zero, zero_mul, add_zero] at hx
        rw [hframe x (by omega), show bytes.getD i 0 = bytes.getD ((x : ℤ) - dst).toNat 0 by congr 1; omega]
        exact if_pos (by omega)
      | succ k =>
        obtain ⟨next, hnext, hholds⟩ := helements k (by simpa using hk)
        refine ⟨next, by simpa using hnext, ?_⟩
        rwa [show dst + dst_stride + (k : ℤ) * dst_stride = dst + (k + 1 : ℕ) * dst_stride by push_cast; ring] at hholds

theorem elements_of_masked (h : Masked self al mask_byte dst mask blockref) : Elements self al mask_byte dst mask blockref := by
  intro E element src0 t vdd hlen hsingle
  have hmasked := h (assign_bytes element) src0
  cases hinit : var_dim_element_initialize al self.m_dst_meta dst self.m_dim_size blockref with
  | error f =>
    rw [hinit] at hmasked
    dsimp only at hmasked
    rw [hmasked] at hsingle
    cases hsingle
  | ok r =>
    rw [hinit] at hmasked
    dsimp only at hmasked
    cases hcopy : copy_each (assign_bytes element) r.2.begin self.m_dst_meta.stride (self.sources mask_byte src0 mask) r.1.heap with
    | error e =>
      rw [hcopy] at hmasked
      dsimp only at hmasked
      rw [hmasked] at hsingle
      cases hsingle
    | ok heap =>
      rw [hcopy] at hmasked
      obtain ⟨t', hresult, rfl⟩ := hmasked
      rw [hresult] at hsingle
      cases hsingle
      refine ⟨rfl, fun k hk => ?_⟩
      obtain ⟨-, helements⟩ := copy_each_holds hlen _ _ _ _ hcopy
      have hsource := helements k (by rwa [sources, List.length_map])
      simpa only [sources, List.getElem_map] using hsource

theorem sources_eq (src0 : ℤ) : ((self.selected mask_byte mask).map Nat.cast).map (fun ix =>
    src0 + indexed_take_ck.counted self.m_dim_size ix * self.m_src0_stride) = self.sources mask_byte src0 mask := by
  rw [sources, List.map_map]
  apply List.map_congr_left
  intro j _
  rw [Function.comp_apply, indexed_take_ck.counted, if_pos (Int.natCast_nonneg j)]

theorem same_of_masked (h : Masked self al mask_byte dst mask blockref) : Same self al mask_byte dst mask blockref := by
  intro ck index_at index hsize hsrc hdst hindices E child src0 b vdd hinit
  have hmasked := h child src0
  rw [hinit] at hmasked
  dsimp only at hmasked
  have hrange : ∀ ix ∈ ck.indices index_at index, indexed_take_ck.InRange ck.m_src0_dim_size ix := by
    intro ix hix
    rw [hindices] at hix
    obtain ⟨j, hj, rfl⟩ := List.mem_map.mp hix
    have hlt := List.mem_range.mp (List.mem_of_mem_filter hj)
    rw [hsize]
    exact ⟨by omega, by omega⟩
  rw [(indexed_law ck index_at index).in_range hrange, hindices, hsize, hsrc, hdst, sources_eq]
  cases hcopy : copy_each child vdd.begin self.m_dst_meta.stride (self.sources mask_byte src0 mask) b.heap with
  | error e =>
    rw [hcopy] at hmasked
    dsimp only at hmasked
    rw [hmasked]
    rfl
  | ok heap =>
    rw [hcopy] at hmasked
    obtain ⟨t, hsingle, rfl⟩ := hmasked
    rw [hsingle]
    rfl

end masked_take_ck

open masked_take_ck

/-- The takes are right unless the new element is in an objectarray block and the mask leaves one out, or the objects have no bytes. -/
theorem takes_iff (self : masked_take_ck) (al : allocator) (mask_byte : ℤ → UInt8) (dst : var_dim_type_data) (mask : ℤ)
    (blockref : Option {b : memory_block // b.Sound}) : Takes self al mask_byte dst mask (blockref.map Subtype.val) ↔
      (∃ f, var_dim_element_initialize al self.m_dst_meta dst self.m_dim_size (blockref.map Subtype.val) = .error f) ∨
        ∀ b ∈ blockref, b.val.is_objectarray = true →
          b.val.object_stride ≠ 0 ∧ ∀ i < self.m_dim_size, self.chosen mask_byte mask i = true := by
  constructor
  · intro h
    by_contra hnot
    push Not at hnot
    obtain ⟨hinit, b, rfl, hobjects, hless⟩ := hnot
    cases hresult : var_dim_element_initialize al self.m_dst_meta dst self.m_dim_size (some b.val) with
    | error f => exact hinit f hresult
    | ok r =>
      refine not_masked b.property hresult hobjects ?_ h.masked
      rw [or_iff_not_imp_left]
      intro hstride
      obtain ⟨i, hi, hchosen⟩ := hless hstride
      apply lt_of_le_of_ne length_selected
      intro hlen
      exact hchosen (length_selected_eq.mp hlen i hi)
  · intro h
    have hmasked : Masked self al mask_byte dst mask (blockref.map Subtype.val) := by
      rcases h with ⟨f, hf⟩ | h
      · exact masked_of_throws mask_byte mask hf
      · cases blockref with
        | none =>
          obtain ⟨f, hf⟩ := initialize_none al self.m_dst_meta dst self.m_dim_size
          exact masked_of_throws mask_byte mask hf
        | some b =>
          apply masked_of_kept b.property
          cases hobjects : b.val.is_objectarray with
          | false => exact Or.inl rfl
          | true =>
            obtain ⟨hstride, hall⟩ := h b rfl hobjects
            exact Or.inr ⟨hstride, length_selected_eq.mpr hall⟩
    exact ⟨hmasked, elements_of_masked hmasked, indexed_law, same_of_masked hmasked⟩

/-! ## Two objects, one of them masked -/

def bump : allocator where
  toAllocator := ObjectArrayMemoryBlock.bump
  fresh := by
    intro h n r hr
    cases hr
    exact Heap.fresh_of_top_le le_rfl n

/-- A block of four objects, none of them given out. -/
def objects : memory_block := .objectarray ObjectArrayMemoryBlock.four_objects.state

theorem objects_sound : objects.Sound := by
  refine ⟨⟨_, ObjectArrayMemoryBlock.made_inv ObjectArrayMemoryBlock.four_objects_made⟩, ?_⟩
  intro c hc
  cases List.mem_singleton.mp hc
  decide

def two_objects : masked_take_ck where
  m_dst_meta := ⟨8, 0, 8, 3, rfl⟩
  m_dim_size := 2
  m_src0_stride := 8
  m_mask_stride := 1

/-- The mask is true, false: the trimming to one object is undefined. -/
theorem second_object_masked : ¬ ∀ (taker : masked_take_ck) (al : allocator) (mask_byte : ℤ → UInt8) (dst : var_dim_type_data)
    (mask : ℤ) (blockref : Option {b : memory_block // b.Sound}), Takes taker al mask_byte dst mask (blockref.map Subtype.val) := by
  intro h
  have htakes := h two_objects bump (fun z => if z = 0 then 1 else 0) ⟨0, 0⟩ 0 (some ⟨objects, objects_sound⟩)
  obtain ⟨r, hr⟩ : ∃ r, var_dim_element_initialize bump two_objects.m_dst_meta ⟨0, 0⟩ two_objects.m_dim_size (some objects) =
      .ok r := ⟨_, rfl⟩
  exact not_masked objects_sound hr rfl (Or.inr (by decide)) htakes.masked

end Dynd.Take
