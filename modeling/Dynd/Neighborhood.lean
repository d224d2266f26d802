import Dynd.FixedDim
import Dynd.Lib.Events
import Mathlib.Data.List.GetD
/-!
# Neighborhoods

The kernel of each axis runs over the axis in three segments, and keeps beside
it a `start` and a `stop` that bound the positions of the neighborhood which
lie in the source. `bounded_iff` says when they do, for the result that
`resolve_dst_type` gives the shape of the source.
-/
namespace Dynd.Neighborhood
open Lib
open FixedDim (dim_size_t size_stride_t)

/-! ## The kernels -/

/-- local indices of the first in bounds and of the first out of bounds element in the neighborhood -/
structure start_stop_t where
  start : ℤ
  stop : ℤ
deriving DecidableEq

/-- `start_stop` is by axes; the neighborhood operation works on the rest. -/
structure State (M : Type) where
  start_stop : ℕ → start_stop_t
  memory : M

def State.set {M : Type} (st : State M) (axis : ℕ) (s : start_stop_t) : State M :=
  { st with start_stop := Function.update st.start_stop axis s }

/-- `single` of a kernel, with its destination and its sources. -/
abbrev expr_single_t (N : ℕ) (M E : Type) := ℤ → (Fin N → ℤ) → State M → Except E (State M)

/-- `nh_start_stop` is the axis whose bounds the kernel keeps. -/
structure neighborhood_ck (N : ℕ) where
  dst_stride : ℤ
  src_offset : Fin N → ℤ
  src_stride : Fin N → ℤ
  count0 : ℤ
  count1 : ℤ
  count2 : ℤ
  nh_size : ℤ
  nh_start_stop : ℕ

namespace neighborhood_ck
variable {N : ℕ} {M E : Type} (self : neighborhood_ck N)

def decrement_start (st : State M) : State M :=
  st.set self.nh_start_stop
    ⟨(st.start_stop self.nh_start_stop).start - 1, (st.start_stop self.nh_start_stop).stop⟩

def decrement_stop (st : State M) : State M :=
  st.set self.nh_start_stop
    ⟨(st.start_stop self.nh_start_stop).start, (st.start_stop self.nh_start_stop).stop - 1⟩

def single (child : expr_single_t N M E) : expr_single_t N M E := fun dst src st => do
  let p := (dst, src + self.src_offset)
  let s := (self.dst_stride, self.src_stride)
  let st := st.set self.nh_start_stop ⟨self.count0, self.nh_size⟩
  let st ← strided (fun p st => do
    let st ← child p.1 p.2 st
    return self.decrement_start st) p s self.count0.toNat st
  let st ← strided (fun p => child p.1 p.2) (p + self.count0.toNat • s) s self.count1.toNat st
  strided (fun p st => child p.1 p.2 (self.decrement_stop st)) (p + (self.count0.toNat + self.count1.toNat) • s) s
    self.count2.toNat st

end neighborhood_ck

/-- What `instantiate` finds for an axis; there may be no offset. -/
structure axis where
  dst : size_stride_t
  src0_stride : ℤ
  shape : ℤ
  offset : Option ℤ

namespace axis
variable (a : axis)

def get_offset : ℤ := a.offset.getD 0

def count0 : ℤ :=
  let count := -a.get_offset
  if count < 0 then 0
  else if count > a.dst.dim_size then a.dst.dim_size
  else count

def count2 : ℤ :=
  let count := a.shape + a.get_offset - 1
  if count < 0 then 0
  else if count > a.dst.dim_size - a.count0 then a.dst.dim_size - a.count0
  else count

def count1 : ℤ := a.dst.dim_size - a.count0 - a.count2

def make (N i : ℕ) : neighborhood_ck N where
  dst_stride := a.dst.stride
  src_offset _ := a.get_offset * a.src0_stride
  src_stride _ := a.src0_stride
  count0 := a.count0
  count1 := a.count1
  count2 := a.count2
  nh_size := a.shape
  nh_start_stop := i

end axis

/-- One axis for each element of `shape`, which is that of the mask if it is not given. -/
def axes (dst src0 : List size_stride_t) (shape : List ℤ) (offset : Option (List ℤ)) : List axis :=
  (List.range shape.length).map fun i =>
    ⟨dst.getD i ⟨0, 0⟩, (src0.getD i ⟨0, 0⟩).stride, shape.getD i 0, offset.map fun o => o.getD i 0⟩

/-- The dimensions of the destination and the source are those that are strided. -/
def instantiate (N : ℕ) (dst_tp src_tp : String) (dst src0 : List size_stride_t) (shape : List ℤ) (offset : Option (List ℤ)) :
    Except String (List (neighborhood_ck N)) :=
  if dst.length < shape.length then .error ("neighborhood arrfunc dst must be a strided array, not " ++ dst_tp)
  else if src0.length < shape.length then
    .error ("neighborhood arrfunc argument 1 must be a 2D strided array, not " ++ src_tp)
  else .ok ((axes dst src0 shape offset).mapIdx fun i a => a.make N i)

/-- The kernels one inside the other; the neighborhood operation gets the bounds of `ndim` axes. -/
def kernel {N : ℕ} {M E : Type} (op : ℤ → (Fin N → ℤ) → List start_stop_t → M → Except E M) (ndim : ℕ) :
    List (neighborhood_ck N) → expr_single_t N M E
  | [] => fun dst src st => do
    let m ← op dst src ((List.range ndim).map st.start_stop) st.memory
    return { st with memory := m }
  | ck :: cks => ck.single (kernel op ndim cks)

/-! ## What is asked of them -/

/-- The positions of the result, the last axis changing fastest. -/
def positions : List axis → List (List ℕ)
  | [] => [[]]
  | a :: as => (List.range a.dst.dim_size.toNat).flatMap fun p => (positions as).map (p :: ·)

/-- The element of the result at a position, and where its neighborhood begins in the sources. -/
def place {N : ℕ} : List axis → List ℕ → ℤ × (Fin N → ℤ) → ℤ × (Fin N → ℤ)
  | a :: as, p :: ps, (dst, src) => place as ps (dst + p * a.dst.stride, fun i => src i + (a.get_offset + p) * a.src0_stride)
  | _, _, q => q

/-- `start` and `stop` bound the positions of the neighborhood that lie in the source. -/
structure Exact (a : axis) (p : ℕ) (s : start_stop_t) : Prop where
  start_nonneg : 0 ≤ s.start
  start_le_stop : s.start ≤ s.stop
  stop_le : s.stop ≤ a.shape
  bounds : ∀ j, s.start ≤ j ∧ j < s.stop ↔
    0 ≤ j ∧ j < a.shape ∧ 0 ≤ p + a.get_offset + j ∧ p + a.get_offset + j < a.dst.dim_size

def ExactAll : List axis → List ℕ → List start_stop_t → Prop
  | [], [], [] => True
  | a :: as, p :: ps, s :: ss => Exact a p s ∧ ExactAll as ps ss
  | _, _, _ => False

/-- An axis of the source, and of the result that is made for it. -/
structure dim where
  dim_size : dim_size_t
  dst_stride : ℤ
  src_stride : ℤ

def dim.dst (d : dim) : size_stride_t := ⟨d.dim_size.val, d.dst_stride⟩

def dim.src0 (d : dim) : size_stride_t := ⟨d.dim_size.val, d.src_stride⟩

/-- The axes of a source, with a result of its shape. -/
def made (dims : List dim) (shape : List ℤ) (offset : Option (List ℤ)) : List axis :=
  axes (dims.map dim.dst) (dims.map dim.src0) shape offset

/-- The neighborhood operation, whatever it does, is called for every position of the result, with bounds that are exact. -/
def CalledRight {N : ℕ} (as : List axis) (ndim : ℕ) (cks : List (neighborhood_ck N)) : Prop :=
  ∃ bounds : List ℕ → List start_stop_t, (∀ p ∈ positions as, ExactAll as p (bounds p)) ∧
    ∀ {M E : Type} (op : ℤ → (Fin N → ℤ) → List start_stop_t → M → Except E M) (dst : ℤ) (src : Fin N → ℤ)
      (st : State M), State.memory <$> kernel op ndim cks dst src st =
        events (fun p => op (place as p (dst, src)).1 (place as p (dst, src)).2 (bounds p)) (positions as) st.memory

def Bounded (N : ℕ) (dst_tp src_tp : String) (dims : List dim) (shape : List ℤ) (offset : Option (List ℤ)) : Prop :=
  match instantiate N dst_tp src_tp (dims.map dim.dst) (dims.map dim.src0) shape offset with
  | .error _ => True
  | .ok cks => CalledRight (made dims shape offset) shape.length cks

/-- A neighborhood of at most the size of the axis that begins at most one element behind its first position, or one that
is an element longer and begins at or before it, or a single element of a single one. -/
def Fits (a : axis) : Prop :=
  a.dst.dim_size = 1 ∧ a.shape = 1 ∨
  0 ≤ a.shape ∧ a.shape ≤ a.dst.dim_size ∧ -a.shape ≤ a.get_offset ∧ a.get_offset ≤ 1 ∨
  a.shape = a.dst.dim_size + 1 ∧ -a.dst.dim_size ≤ a.get_offset ∧ a.get_offset ≤ 0

/-! ## The run over an axis -/

namespace axis
variable (a : axis)

/-- What the kernel passes at a position. -/
def bounds (p : ℕ) : start_stop_t where
  start := if p < a.count0 then a.count0 - p else 0
  stop := if p < a.count0 + a.count1 then a.shape else a.shape - (p - a.count0 - a.count1 + 1)

variable {a}

theorem count0_nonneg (ha : 0 ≤ a.dst.dim_size) : 0 ≤ a.count0 := by
  unfold count0
  dsimp only
  split_ifs <;> omega

theorem count0_le (ha : 0 ≤ a.dst.dim_size) : a.count0 ≤ a.dst.dim_size := by
  unfold count0
  dsimp only
  split_ifs <;> omega

theorem count2_nonneg (ha : 0 ≤ a.dst.dim_size) : 0 ≤ a.count2 := by
  have := count0_le ha
  unfold count2
  dsimp only
  split_ifs <;> omega

theorem count1_nonneg (ha : 0 ≤ a.dst.dim_size) : 0 ≤ a.count1 := by
  have := count0_le ha
  unfold count1 count2
  dsimp only
  split_ifs <;> omega

/-- The three segments are the axis. -/
theorem counts (ha : 0 ≤ a.dst.dim_size) :
    a.dst.dim_size.toNat = a.count0.toNat + a.count1.toNat + a.count2.toNat := by
  have h0 := count0_nonneg ha
  have h1 := count1_nonneg ha
  have h2 := count2_nonneg ha
  unfold count1 at h1 ⊢
  omega

theorem bounds_left {p : ℕ} (ha : 0 ≤ a.dst.dim_size) (hp : p < a.count0.toNat) : a.bounds p = ⟨a.count0 - p, a.shape⟩ := by
  have h1 := count1_nonneg ha
  unfold bounds
  rw [if_pos (by omega), if_pos (by omega)]

theorem bounds_middle {p : ℕ} (ha : 0 ≤ a.dst.dim_size) (hp : p < a.count1.toNat) :
    a.bounds (a.count0.toNat + p) = ⟨0, a.shape⟩ := by
  have h0 := count0_nonneg ha
  unfold bounds
  rw [if_neg (by omega), if_pos (by omega)]

theorem bounds_right {p : ℕ} (ha : 0 ≤ a.dst.dim_size) :
    a.bounds (a.count0.toNat + a.count1.toNat + p) = ⟨0, a.shape - (p + 1)⟩ := by
  have h0 := count0_nonneg ha
  have h1 := count1_nonneg ha
  unfold bounds
  rw [if_neg (by omega), if_neg (by omega)]
  congr 2
  push_cast
  omega

end axis

section
variable {N : ℕ} {M E : Type}

/-- A call of the neighborhood operation. -/
structure call (N : ℕ) where
  dst : ℤ
  src : Fin N → ℤ
  bounds : List start_stop_t

/-- The calls for the positions of some axes, when the bounds of the axes before are `before`. -/
def calls (as : List axis) (dst : ℤ) (src : Fin N → ℤ) (before : List start_stop_t) : List (call N) :=
  (positions as).map fun p => ⟨(place as p (dst, src)).1, (place as p (dst, src)).2, before ++ List.zipWith axis.bounds as p⟩

/-- The kernels of the axes from `k` on. -/
def makes (N : ℕ) : ℕ → List axis → List (neighborhood_ck N)
  | _, [] => []
  | k, a :: as => a.make N k :: makes N (k + 1) as

/-- The bounds of the first axes are these. -/
def Before (k : ℕ) (st : State M) (before : List start_stop_t) : Prop := (List.range k).map st.start_stop = before

theorem calls_cons (a : axis) (as : List axis) (dst : ℤ) (src : Fin N → ℤ) (before : List start_stop_t) :
    calls (a :: as) dst src before = (List.range a.dst.dim_size.toNat).flatMap fun p : ℕ =>
      calls as (dst + p * a.dst.stride) (fun i => src i + (a.get_offset + p) * a.src0_stride) (before ++ [a.bounds p]) := by
  unfold calls
  rw [positions, List.map_flatMap]
  congr 1
  funext p
  rw [List.map_map]
  apply List.map_congr_left
  intro ps _
  rw [Function.comp_apply, List.append_assoc]
  rfl

theorem State.set_self (st : State M) (k : ℕ) (v : start_stop_t) : (st.set k v).start_stop k = v := by
  simp [State.set]

theorem before_set {k : ℕ} {st : State M} {before : List start_stop_t} (h : Before k st before) (v : start_stop_t) :
    Before k (st.set k v) before := by
  rw [← h]
  apply List.map_congr_left
  intro j hj
  exact Function.update_of_ne (List.mem_range.mp hj).ne v st.start_stop

theorem before_succ {k : ℕ} {st : State M} {before : List start_stop_t} {v : start_stop_t} :
    Before (k + 1) st (before ++ [v]) ↔ Before k st before ∧ st.start_stop k = v := by
  unfold Before
  rw [List.range_succ, List.map_append, List.map_singleton]
  constructor
  · intro h
    obtain ⟨h1, h2⟩ := List.append_inj' h rfl
    exact ⟨h1, List.singleton_inj.mp h2⟩
  · rintro ⟨rfl, rfl⟩
    rfl

/-- A range in three segments. -/
theorem flatMap_segments {C : Type} (f : ℕ → List C) (a b c : ℕ) : (List.range (a + b + c)).flatMap f =
    (List.range a).flatMap f ++ ((List.range b).flatMap fun i => f (a + i)) ++ (List.range c).flatMap fun i => f (a + b + i) := by
  rw [List.range_add, List.range_add, List.flatMap_append, List.flatMap_append, List.flatMap_map, List.flatMap_map]

variable {op : ℤ → (Fin N → ℤ) → List start_stop_t → M → Except E M}

theorem place_step (a : axis) (k : ℕ) (dst : ℤ) (src : Fin N → ℤ) (i : ℕ) :
    (dst, src + (a.make N k).src_offset) + i • ((a.make N k).dst_stride, (a.make N k).src_stride) =
      (dst + i * a.dst.stride, fun n => src n + (a.get_offset + i) * a.src0_stride) := by
  rw [Prod.smul_mk, Prod.mk_add_mk]
  apply Prod.ext
  · change dst + i • a.dst.stride = _
    rw [nsmul_eq_mul]
  · funext n
    change src n + a.get_offset * a.src0_stride + i • a.src0_stride = _
    rw [nsmul_eq_mul]
    ring

/-- The calls that the kernels of the axes from `k` on make. By induction on the axes; over an axis,
`start` and `stop` are those of the position from one call to the next. -/
theorem kernel_does (op : ℤ → (Fin N → ℤ) → List start_stop_t → M → Except E M) (as : List axis)
    (has : ∀ a ∈ as, 0 ≤ a.dst.dim_size) (k ndim : ℕ) (hndim : ndim = k + as.length) (dst : ℤ) (src : Fin N → ℤ)
    (before : List start_stop_t) (st : State M) (hbefore : Before k st before) :
    Does State.memory (fun c : call N => op c.dst c.src c.bounds) (kernel op ndim (makes N k as) dst src st)
      (calls as dst src before) st.memory fun st' => Before k st' before := by
  induction as generalizing k dst src before st with
  | nil =>
    have hbounds : (List.range ndim).map st.start_stop = before := by
      rw [hndim, List.length_nil, Nat.add_zero]
      exact hbefore
    have hcalls : calls [] dst src before = [⟨dst, src, before⟩] := by
      unfold calls positions
      rw [List.map_singleton, List.zipWith_nil_left, List.append_nil]
      rfl
    rw [hcalls]
    refine does_event (fun m => { st with memory := m }) rfl ?_ (fun _ => rfl) fun _ => hbefore
    unfold makes kernel
    dsimp only
    rw [hbounds]
    cases op dst src before st.memory <;> rfl
  | cons a as ih =>
    have ha := has a List.mem_cons_self
    have hchild (i : ℕ) (st : State M) (h : Before k st before ∧ st.start_stop k = a.bounds i) :=
      ih (fun b hb => has b (List.mem_cons_of_mem _ hb)) (k + 1) (by rw [hndim, List.length_cons]; omega)
        (dst + i * a.dst.stride) (fun n => src n + (a.get_offset + i) * a.src0_stride) (before ++ [a.bounds i]) st (before_succ.mpr h)
    rw [calls_cons, axis.counts ha, flatMap_segments, List.append_assoc]
    unfold makes kernel neighborhood_ck.single
    dsimp only
    have hfirst : Before k (st.set k ⟨a.count0, a.shape⟩) before ∧
        (st.set k ⟨a.count0, a.shape⟩).start_stop k = ⟨a.count0 - (0 : ℕ), a.shape⟩ := by
      refine ⟨before_set hbefore _, ?_⟩
      rw [Nat.cast_zero, sub_zero]
      exact State.set_self st k _
    refine (Does.strided (fun i st => Before k st before ∧ st.start_stop k = ⟨a.count0 - (i : ℕ), a.shape⟩)
      (fun i hi st h => ?_) hfirst).bind fun st₁ h₁ => ?_
    · rw [place_step]
      refine (hchild i st ⟨h.1, h.2.trans (axis.bounds_left ha hi).symm⟩).then fun st' h' => ⟨rfl, ?_⟩
      obtain ⟨hbefore', hstart⟩ := before_succ.mp h'
      refine ⟨before_set hbefore' _, ?_⟩
      rw [neighborhood_ck.decrement_start]
      change (st'.set k ⟨(st'.start_stop k).start - 1, (st'.start_stop k).stop⟩).start_stop k = _
      rw [State.set_self, hstart, axis.bounds_left ha hi]
      congr 1
      push_cast
      ring
    · have hmiddle : Before k st₁ before ∧ st₁.start_stop k = ⟨0, a.shape⟩ := by
        refine ⟨h₁.1, ?_⟩
        have hnonneg := axis.count0_nonneg ha
        have hcount : (a.count0 - (a.count0.toNat : ℕ) : ℤ) = 0 := by omega
        rw [h₁.2]
        change (⟨a.count0 - (a.count0.toNat : ℕ), a.shape⟩ : start_stop_t) = _
        rw [hcount]
      refine (Does.strided (fun _ st => Before k st before ∧ st.start_stop k = ⟨0, a.shape⟩)
        (fun i hi st h => ?_) hmiddle).bind fun st₂ h₂ => ?_
      · rw [add_assoc, ← add_nsmul, place_step]
        have hbounds := axis.bounds_middle ha hi
        refine (hchild (a.count0.toNat + i) st ⟨h.1, h.2.trans hbounds.symm⟩).mono fun st' h' => ?_
        obtain ⟨hbefore', hstart⟩ := before_succ.mp h'
        exact ⟨hbefore', hstart.trans hbounds⟩
      · have hright : Before k st₂ before ∧ st₂.start_stop k = ⟨0, a.shape - (0 : ℕ)⟩ := by
          rw [Nat.cast_zero, sub_zero]
          exact h₂
        refine (Does.strided (fun i st => Before k st before ∧ st.start_stop k = ⟨0, a.shape - (i : ℕ)⟩)
          (fun i _ st h => ?_) hright).mono fun st₃ h₃ => h₃.1
        rw [add_assoc, ← add_nsmul, place_step]
        have hbounds := axis.bounds_right (p := i) ha
        have hstop : ((a.make N k).decrement_stop st).start_stop k =
            a.bounds (a.count0.toNat + a.count1.toNat + i) := by
          rw [neighborhood_ck.decrement_stop]
          change (st.set k ⟨(st.start_stop k).start, (st.start_stop k).stop - 1⟩).start_stop k = _
          rw [State.set_self, h.2, hbounds]
          congr 1
          ring
        refine (hchild (a.count0.toNat + a.count1.toNat + i) _ ⟨before_set h.1 _, hstop⟩).mono fun st' h' => ?_
        obtain ⟨hbefore', hstop'⟩ := before_succ.mp h'
        refine ⟨hbefore', hstop'.trans (hbounds.trans ?_)⟩
        push_cast
        rfl

theorem makes_eq (k : ℕ) (as : List axis) : makes N k as = as.mapIdx fun i a => a.make N (k + i) := by
  induction as generalizing k with
  | nil => rfl
  | cons a as ih =>
    rw [makes, List.mapIdx_cons, ih, Nat.add_zero]
    congr 2
    funext i b
    congr 1
    omega

/-- The neighborhood operation at every position, with the bounds that the segments give. -/
theorem kernel_result (op : ℤ → (Fin N → ℤ) → List start_stop_t → M → Except E M) {as : List axis}
    (has : ∀ a ∈ as, 0 ≤ a.dst.dim_size) (dst : ℤ) (src : Fin N → ℤ) (st : State M) :
    State.memory <$> kernel op as.length (as.mapIdx fun i a => a.make N i) dst src st =
      events (fun p => op (place as p (dst, src)).1 (place as p (dst, src)).2 (List.zipWith axis.bounds as p)) (positions as)
        st.memory := by
  have hmakes : as.mapIdx (fun i a => a.make N i) = makes N 0 as := by
    rw [makes_eq]
    simp only [Nat.zero_add]
  rw [hmakes, (kernel_does op as has 0 as.length (by rw [Nat.zero_add]) dst src [] st rfl).result, calls, events_map]
  rfl

end

/-! ## Exact bounds -/

section
variable {a : axis} {p : ℕ}

theorem axis.count0_cases (a : axis) : 0 < a.get_offset ∧ a.count0 = 0 ∨
    a.get_offset ≤ 0 ∧ -a.dst.dim_size ≤ a.get_offset ∧ a.count0 = -a.get_offset ∨
    a.get_offset ≤ 0 ∧ a.get_offset < -a.dst.dim_size ∧ a.count0 = a.dst.dim_size := by
  unfold count0
  dsimp only
  split_ifs <;> omega

theorem axis.count2_cases (a : axis) : a.shape + a.get_offset - 1 < 0 ∧ a.count2 = 0 ∨
    0 ≤ a.shape + a.get_offset - 1 ∧ a.shape + a.get_offset - 1 ≤ a.dst.dim_size - a.count0 ∧
      a.count2 = a.shape + a.get_offset - 1 ∨
    0 ≤ a.shape + a.get_offset - 1 ∧ a.dst.dim_size - a.count0 < a.shape + a.get_offset - 1 ∧
      a.count2 = a.dst.dim_size - a.count0 := by
  unfold count2
  dsimp only
  split_ifs <;> omega

theorem axis.start_eq : (a.bounds p).start = max 0 (a.count0 - p) := by
  unfold bounds
  dsimp only
  split_ifs <;> omega

theorem axis.stop_eq : (a.bounds p).stop = a.shape - max 0 (p + 1 + a.count2 - a.dst.dim_size) := by
  unfold bounds count1
  dsimp only
  split_ifs <;> omega

/-- The first and the last position that lie in the source are exact bounds. -/
theorem exact_of_ends {s : start_stop_t} (hstart : s.start = max 0 (-(p + a.get_offset)))
    (hstop : s.stop = min a.shape (a.dst.dim_size - (p + a.get_offset))) (hle : s.start ≤ s.stop) : Exact a p s := by
  refine ⟨?_, hle, ?_, fun j => ?_⟩
  · rw [hstart]
    exact le_max_left _ _
  · rw [hstop]
    exact min_le_left _ _
  · rw [hstart, hstop, max_le_iff, lt_min_iff, and_assoc, and_left_comm (a := -(p + a.get_offset) ≤ j), neg_le_iff_add_nonneg',
      lt_sub_iff_add_lt']

/-- No segment stops short of the axis, so the bounds are the ends. -/
theorem exact_of_counts (h0 : a.count0 = max 0 (-a.get_offset)) (h2 : a.count2 = max 0 (a.shape + a.get_offset - 1))
    (hp : p + 1 ≤ a.dst.dim_size) (hshape : 0 ≤ a.shape) (hbehind : -a.shape ≤ a.get_offset) (hbefore : a.get_offset ≤ 1) :
    Exact a p (a.bounds p) := by
  have hstart : (a.bounds p).start = max 0 (-(p + a.get_offset)) := by
    rw [axis.start_eq, h0]
    omega
  have hstop : (a.bounds p).stop = min a.shape (a.dst.dim_size - (p + a.get_offset)) := by
    rw [axis.stop_eq, h2]
    omega
  apply exact_of_ends hstart hstop
  rw [hstart, hstop]
  exact max_le (le_min hshape (by omega)) (le_min (by omega) (by omega))

/-- The bounds of a neighborhood that fits. -/
theorem exact_of_fits (hp : p + 1 ≤ a.dst.dim_size) (hfits : Fits a) : Exact a p (a.bounds p) := by
  rcases hfits with ⟨hsize, hshape⟩ | ⟨hshape, hle, hbehind, hbefore⟩ | ⟨hshape, hbehind, hbefore⟩
  · -- one position of a single element: it lies in the source where there is no offset
    have hp0 : p = 0 := by omega
    subst hp0
    have hstart := axis.start_eq (a := a) (p := 0)
    have hstop := axis.stop_eq (a := a) (p := 0)
    rcases lt_trichotomy a.get_offset 0 with hneg | hzero | hpos
    · have h0 : a.count0 = 1 := by
        rcases a.count0_cases with h | h | h <;> omega
      have h2 : a.count2 = 0 := by
        rcases a.count2_cases with h | h | h <;> omega
      rw [h0] at hstart
      rw [h2, hshape, hsize] at hstop
      refine ⟨?_, ?_, ?_, fun j => ?_⟩ <;> omega
    · have h0 : a.count0 = 0 := by
        rcases a.count0_cases with h | h | h <;> omega
      have h2 : a.count2 = 0 := by
        rcases a.count2_cases with h | h | h <;> omega
      rw [h0] at hstart
      rw [h2, hshape, hsize] at hstop
      refine ⟨?_, ?_, ?_, fun j => ?_⟩ <;> omega
    · have h0 : a.count0 = 0 := by
        rcases a.count0_cases with h | h | h <;> omega
      have h2 : a.count2 = 1 := by
        rcases a.count2_cases with h | h | h <;> omega
      rw [h0] at hstart
      rw [h2, hshape, hsize] at hstop
      refine ⟨?_, ?_, ?_, fun j => ?_⟩ <;> omega
  · have h0 : a.count0 = max 0 (-a.get_offset) := by
      rcases a.count0_cases with h | h | h <;> omega
    have h2 : a.count2 = max 0 (a.shape + a.get_offset - 1) := by
      rcases a.count2_cases with h | h | h <;> omega
    exact exact_of_counts h0 h2 hp hshape hbehind hbefore
  · have h0 : a.count0 = max 0 (-a.get_offset) := by
      rcases a.count0_cases with h | h | h <;> omega
    have h2 : a.count2 = max 0 (a.shape + a.get_offset - 1) := by
      rcases a.count2_cases with h | h | h <;> omega
    exact exact_of_counts h0 h2 hp (by omega) (by omega) (by omega)

/-- A neighborhood fits if the bounds are exact at the first and at the last position. -/
theorem fits_of_exact (ha : 0 < a.dst.dim_size) {last : ℕ} (hlast : last + 1 = a.dst.dim_size) (hfirst : Exact a 0 (a.bounds 0))
    (hexact : Exact a last (a.bounds last)) : Fits a := by
  have hstart : (a.bounds 0).start = a.count0 := by
    rw [axis.start_eq, Nat.cast_zero, sub_zero, max_eq_right (axis.count0_nonneg ha.le)]
  have hstop : (a.bounds last).stop = a.shape - a.count2 := by
    rw [axis.stop_eq, hlast, add_sub_cancel_left, max_eq_right (axis.count2_nonneg ha.le)]
  have hcount : a.count2 ≤ a.shape := by
    have h1 := hexact.start_nonneg
    have h2 := hexact.start_le_stop
    omega
  have hcount0 : a.count0 ≤ a.shape := by
    have h1 := hfirst.start_le_stop
    have h2 := hfirst.stop_le
    omega
  have hnonneg := axis.count2_nonneg ha.le
  rcases a.count0_cases with ⟨hoffset, h0⟩ | ⟨hoffset, hle, h0⟩ | ⟨hoffset, hle, h0⟩
  · -- it begins after the position, so nothing is left out before it
    rcases a.count2_cases with ⟨hend, h2⟩ | ⟨hend, hfit, h2⟩ | ⟨hend, hfit, h2⟩
    · exact Or.inr (Or.inl ⟨by omega, by omega, by omega, by omega⟩)
    · exact Or.inr (Or.inl ⟨by omega, by omega, by omega, by omega⟩)
    · have hstop₁ : (a.bounds 0).stop = a.shape - 1 := by
        rw [axis.stop_eq, h2, h0, Nat.cast_zero, zero_add, sub_zero, add_sub_cancel_right, max_eq_right zero_le_one]
      have hsize : a.shape = a.dst.dim_size := by
        by_contra hne
        have hinside := ((hfirst.bounds (a.dst.dim_size - 1)).mp ⟨by omega, by omega⟩).2.2.2
        omega
      have hone : a.dst.dim_size = 1 := by
        by_contra hne
        have hinside := ((hfirst.bounds (a.dst.dim_size - 2)).mp ⟨by omega, by omega⟩).2.2.2
        omega
      exact Or.inl ⟨hone, hsize.trans hone⟩
  · -- it begins in the array, or just before it
    rcases le_or_gt a.shape a.dst.dim_size with hshape | hshape
    · exact Or.inr (Or.inl ⟨by omega, hshape, by omega, by omega⟩)
    · refine Or.inr (Or.inr ⟨?_, hle, hoffset⟩)
      by_contra hne
      have h2 : a.count2 = a.dst.dim_size + a.get_offset := by
        rcases a.count2_cases with h | h | h <;> omega
      have hstart₂ : (a.bounds last).start ≤ 1 - a.get_offset := by
        rw [axis.start_eq, h0]
        exact max_le (by omega) (by omega)
      have hinside := ((hexact.bounds (1 - a.get_offset)).mp ⟨hstart₂, by omega⟩).2.2.2
      omega
  · -- it ends before the array
    have h2 : a.count2 = 0 := by
      rcases a.count2_cases with h | h | h <;> omega
    have hstop₁ : (a.bounds 0).stop = a.shape := by
      rw [axis.stop_eq, h2, max_eq_left (by omega), sub_zero]
    have hsize : a.shape = a.dst.dim_size := by
      by_contra hne
      have hinside := ((hfirst.bounds a.dst.dim_size).mp ⟨by omega, by omega⟩).2.2.1
      omega
    have hone : a.dst.dim_size = 1 := by
      by_contra hne
      have hstart₂ : (a.bounds last).start ≤ 1 := by
        rw [axis.start_eq, h0]
        exact max_le (by omega) (by omega)
      have hinside := ((hexact.bounds 1).mp ⟨hstart₂, by omega⟩).2.2.1
      omega
    exact Or.inl ⟨hone, hsize.trans hone⟩

/-- The bounds are exact along an axis. -/
theorem exact_bounds_iff (ha : 0 < a.dst.dim_size) : (∀ p < a.dst.dim_size.toNat, Exact a p (a.bounds p)) ↔ Fits a := by
  constructor
  · intro h
    exact @fits_of_exact _ ha (a.dst.dim_size.toNat - 1) (by omega) (h 0 (by omega)) (h _ (by omega))
  · intro hfits p hp
    exact exact_of_fits (by omega) hfits

end

/-! ## All axes -/

theorem positions_cons (a : axis) (as : List axis) {p : List ℕ} : p ∈ positions (a :: as) ↔
    ∃ x < a.dst.dim_size.toNat, ∃ ps ∈ positions as, x :: ps = p := by
  rw [positions, List.mem_flatMap]
  simp only [List.mem_range, List.mem_map]

theorem positions_ne_nil {as : List axis} (h : ∀ a ∈ as, 0 < a.dst.dim_size) : positions as ≠ [] := by
  induction as with
  | nil => exact List.cons_ne_nil _ _
  | cons a as ih =>
    obtain ⟨ps, hps⟩ := List.exists_mem_of_ne_nil _ (ih fun b hb => h b (List.mem_cons_of_mem _ hb))
    have ha := h a List.mem_cons_self
    exact List.ne_nil_of_mem ((positions_cons a as).mpr ⟨0, by omega, ps, hps, rfl⟩)

theorem positions_eq_nil {as : List axis} (h : ∃ a ∈ as, a.dst.dim_size = 0) : positions as = [] := by
  induction as with
  | nil =>
    obtain ⟨a, ha, -⟩ := h
    cases ha
  | cons a as ih =>
    obtain ⟨b, hb, hzero⟩ := h
    rw [positions]
    rcases List.mem_cons.mp hb with rfl | hb
    · rw [hzero]
      rfl
    · rw [ih ⟨b, hb, hzero⟩]
      simp

theorem exactAll_iff {as : List axis} (has : ∀ a ∈ as, 0 < a.dst.dim_size) :
    (∀ p ∈ positions as, ExactAll as p (List.zipWith axis.bounds as p)) ↔ ∀ a ∈ as, Fits a := by
  induction as with
  | nil =>
    constructor
    · intro _ a ha
      cases ha
    · intro _ p hp
      cases List.mem_singleton.mp hp
      trivial
  | cons a as ih =>
    have hrest := ih fun b hb => has b (List.mem_cons_of_mem _ hb)
    have ha := has a List.mem_cons_self
    rw [List.forall_mem_cons, ← hrest, ← exact_bounds_iff ha]
    constructor
    · intro h
      obtain ⟨ps, hps⟩ := List.exists_mem_of_ne_nil _ (positions_ne_nil fun b hb => has b (List.mem_cons_of_mem _ hb))
      constructor
      · intro x hx
        exact (h _ ((positions_cons a as).mpr ⟨x, hx, ps, hps, rfl⟩)).1
      · intro ps hps
        exact (h _ ((positions_cons a as).mpr ⟨0, by omega, ps, hps, rfl⟩)).2
    · rintro ⟨hfirst, hall⟩ p hp
      obtain ⟨x, hx, ps, hps, rfl⟩ := (positions_cons a as).mp hp
      exact ⟨hfirst x hx, hall ps hps⟩

/-- A neighborhood operation that notes the bounds it gets. -/
def noting {N : ℕ} (_ : ℤ) (_ : Fin N → ℤ) (bounds : List start_stop_t) (m : List (List start_stop_t)) :
    Except Unit (List (List start_stop_t)) := .ok (m ++ [bounds])

theorem events_noting {N : ℕ} (place : List ℕ → ℤ × (Fin N → ℤ)) (bounds : List ℕ → List start_stop_t)
    (ps : List (List ℕ)) (m : List (List start_stop_t)) :
    events (fun p => noting (place p).1 (place p).2 (bounds p)) ps m = .ok (m ++ ps.map bounds) := by
  induction ps generalizing m with
  | nil =>
    rw [List.map_nil, List.append_nil]
    rfl
  | cons p ps ih =>
    rw [List.map_cons, List.append_cons]
    exact ih _

theorem made_size {dims : List dim} {shape : List ℤ} {offset : Option (List ℤ)} {a : axis} (ha : a ∈ made dims shape offset) :
    0 ≤ a.dst.dim_size := by
  obtain ⟨i, -, rfl⟩ := List.mem_map.mp ha
  change 0 ≤ ((dims.map dim.dst).getD i ⟨0, 0⟩).dim_size
  rcases Nat.lt_or_ge i (dims.map dim.dst).length with hi | hi
  · rw [List.getD_eq_getElem _ _ hi, List.getElem_map]
    exact (dims.get ⟨i, by simpa using hi⟩).dim_size.property.1
  · rw [List.getD_eq_default _ _ hi]

theorem instantiate_eq {N : ℕ} {dst_tp src_tp : String} {dims : List dim} {shape : List ℤ} {offset : Option (List ℤ)}
    (h : ¬ dims.length < shape.length) : instantiate N dst_tp src_tp (dims.map dim.dst) (dims.map dim.src0) shape offset =
      .ok ((made dims shape offset).mapIdx fun i a => a.make N i) := by
  unfold instantiate
  rw [List.length_map, List.length_map, if_neg h, if_neg h]
  rfl

theorem calledRight_iff {N : ℕ} {as : List axis} (hsize : ∀ a ∈ as, 0 ≤ a.dst.dim_size) :
    CalledRight as as.length (as.mapIdx fun i a => a.make N i) ↔ (∃ a ∈ as, a.dst.dim_size = 0) ∨ ∀ a ∈ as, Fits a := by
  by_cases hzero : ∃ a ∈ as, a.dst.dim_size = 0
  · apply iff_of_true ?_ (Or.inl hzero)
    refine ⟨List.zipWith axis.bounds as, fun p hp => ?_, fun op dst src st => kernel_result op hsize dst src st⟩
    rw [positions_eq_nil hzero] at hp
    cases hp
  · have hpos : ∀ a ∈ as, 0 < a.dst.dim_size := by
      intro a ha
      have := hsize a ha
      have hne : a.dst.dim_size ≠ 0 := fun h => hzero ⟨a, ha, h⟩
      omega
    rw [or_iff_right hzero, ← exactAll_iff hpos]
    constructor
    · rintro ⟨bounds, hexact, hrun⟩ p hp
      have hnoted := hrun noting 0 (fun _ => 0) ⟨fun _ => ⟨0, 0⟩, []⟩
      rw [kernel_result noting hsize, events_noting (fun p => place as p _), events_noting (fun p => place as p _)] at hnoted
      have hmap : (positions as).map (List.zipWith axis.bounds as) = (positions as).map bounds := by
        simpa using hnoted
      rw [List.map_inj_left.mp hmap p hp]
      exact hexact p hp
    · intro hexact
      exact ⟨List.zipWith axis.bounds as, hexact, fun op dst src st => kernel_result op hsize dst src st⟩

/-- The bounds are exact where some axis has no element or every neighborhood fits its axis, and nowhere else. -/
theorem bounded_iff (N : ℕ) (dst_tp src_tp : String) (dims : List dim) (shape : List ℤ) (offset : Option (List ℤ)) :
    Bounded N dst_tp src_tp dims shape offset ↔ dims.length < shape.length ∨
      (∃ a ∈ made dims shape offset, a.dst.dim_size = 0) ∨ ∀ a ∈ made dims shape offset, Fits a := by
  unfold Bounded
  by_cases hlen : dims.length < shape.length
  · unfold instantiate
    rw [List.length_map, if_pos hlen]
    exact iff_of_true True.intro (Or.inl hlen)
  · have hlength : (made dims shape offset).length = shape.length := by
      unfold made axes
      rw [List.length_map, List.length_range]
    rw [instantiate_eq hlen, or_iff_right hlen, ← calledRight_iff (N := N) fun a ha => made_size ha, hlength]

/-! ## A neighborhood larger than the array -/

theorem one_dim_size : (0 : ℤ) ≤ 1 ∧ (1 : ℤ) < 2 ^ 63 := by decide

def one_element : dim := ⟨⟨1, one_dim_size⟩, 0, 8⟩

/-- Three positions for an array of one element: two of them are outside, and only the last is left out. -/
theorem larger_than_array : ¬ ∀ (N : ℕ) (dst_tp src_tp : String) (dims : List dim) (shape : List ℤ) (offset : Option (List ℤ)),
    Bounded N dst_tp src_tp dims shape offset := by
  intro h
  have hbounded := h 1 "1 * int32" "1 * int32" [one_element] [3] none
  have hcalled : CalledRight (made [one_element] [3] none) 1 ((made [one_element] [3] none).mapIdx fun i a => a.make 1 i) := hbounded
  rcases (calledRight_iff fun a ha => made_size ha).mp hcalled with ⟨a, ha, hzero⟩ | hfits
  · cases List.mem_singleton.mp ha
    exact absurd hzero (by decide)
  · rcases hfits _ (List.mem_singleton.mpr rfl) with ⟨-, hshape⟩ | ⟨-, hshape, -⟩ | ⟨hshape, -⟩
    · exact absurd hshape (by decide)
    · exact absurd hshape (by decide)
    · exact absurd hshape (by decide)

end Dynd.Neighborhood
