import Dynd.FixedDim
import Dynd.Lib.Strided
import Mathlib.Data.List.GetD
/-!
# Rolling windows

`nd::functional::rolling` makes an arrfunc that applies a window operation to
every run of `window_size` elements of a dimension. Nothing checks the window
size, an `intptr_t`; `rolls_iff` says for which the elements of the result are
what they should be. The result is a new array, so it does not overlap the
source.
-/
namespace Dynd.Rolling
open Lib LinearIndex
open FixedDim (dim_size_t size_stride_t)

/-! ## Arrays and window operations -/

inductive exception (E : Type) where
  | invalid_argument (what : String)
  | type_error (what : String)
  | thrown (e : E)

/-- Why a call does not return: it throws, or its behaviour is undefined. -/
inductive fault (E : Type) where
  | exception (e : exception E)
  | signed_overflow
  | outside

/-- The result of a signed operation. -/
def checked {E : Type} (z : ℤ) : Except (fault E) ℤ := if IntptrRange z then .ok z else .error .signed_overflow

/-- The value of a parameter of type `size_t`. -/
def size_t (z : ℤ) : ℕ := (z % 2 ^ 64).toNat

/-- What is asked of the types of elements. -/
structure element_types (T V E : Type) where
  print : T → String
  get_default_data_size : T → ℕ
  /-- The constant of `make_constant_value_assignment_ckernel`, a NaN cast to the type. -/
  nan : T → Except E V

/-- The types with a dimension in front. -/
inductive dim_type (T : Type) where
  | fixed_dim (dim_size : dim_size_t) (element_tp : T)
  | var_dim (element_tp : T)

namespace dim_type
variable {T V E : Type}

def element_tp : dim_type T → T
  | fixed_dim _ element_tp => element_tp
  | var_dim element_tp => element_tp

def print (el : element_types T V E) : dim_type T → String
  | fixed_dim dim_size element_tp => toString dim_size.val ++ " * " ++ el.print element_tp
  | var_dim element_tp => "var * " ++ el.print element_tp

/-- `stride` is the one of the arrmeta. -/
def get_as_strided (stride : ℤ) : dim_type T → Option (size_stride_t × T)
  | fixed_dim dim_size element_tp => some (⟨dim_size.val, stride⟩, element_tp)
  | var_dim _ => none

/-- The stride that `nd::empty` gives to the dimension. -/
def default_stride (el : element_types T V E) : dim_type T → ℤ
  | fixed_dim dim_size element_tp => if 1 < dim_size.val then el.get_default_data_size element_tp else 0
  | var_dim _ => 0

end dim_type

/-- An arrfunc that is made for windows. Its kernel reads the source and gives a value for the
destination, or throws. When the window's elements can be read, it computes `op` of them. -/
structure arrfunc (T S V E : Type) where
  print : String
  get_npos : ℕ
  pos_type_ndim : ℕ
  get_return_type : T
  resolve_dst_type : Option (ℤ → T → Except E T)
  instantiate : T → size_stride_t → T → Except E ((ℤ → Except (fault E) S) → ℤ → Except (fault E) V)
  op : T → T → List S → Except E V
  applies : ∀ {dst_tp md src_tp run}, instantiate dst_tp md src_tp = .ok run → ∀ {read src} {values : List S},
    md.dim_size = values.length → (∀ i (hi : i < values.length), read (src + i * md.stride) = .ok values[i]) →
      run read src = (op dst_tp src_tp values).mapError fun e => .exception (.thrown e)

/-! ## The kernel -/

structure strided_rolling_ck (S V E : Type) where
  m_window_size : ℤ
  m_dim_size : ℤ
  m_dst_stride : ℤ
  m_src_stride : ℤ
  /-- what the NA filler assigns -/
  nachild : V
  wopchild : (ℤ → Except (fault E) S) → ℤ → Except (fault E) V

namespace strided_rolling_ck
variable {S V E M : Type} (self : strided_rolling_ck S V E) (read : ℤ → Except (fault E) S)
  (store : ℤ → V → M → Except (fault E) M)

/-- One element of the strided call of the window operation, at its places in the destination and the source. -/
def window (p : ℤ × ℤ) (m : M) : Except (fault E) M := do
  let v ← self.wopchild read p.2
  store p.1 v m

def single (dst src : ℤ) (m : M) : Except (fault E) M := do
  let m ← if self.m_dim_size > 0 then do
      let last ← checked (self.m_window_size - 1)
      strided (fun dst => store dst self.nachild) dst self.m_dst_stride (size_t (min last self.m_dim_size)) m
    else pure m
  if self.m_dim_size ≥ self.m_window_size then do
    let first ← checked (self.m_window_size - 1)
    let rest ← checked (self.m_dim_size - self.m_window_size)
    let count ← checked (rest + 1)
    strided (self.window read store) (dst + self.m_dst_stride * first, src) (self.m_dst_stride, self.m_src_stride)
      (size_t count) m
  else pure m

end strided_rolling_ck

/-! ## The arrfunc -/

structure rolling_arrfunc_data (T S V E : Type) where
  window_size : intptr_t
  window_op : arrfunc T S V E

section
variable {T S V E : Type}

def rolling (window_op : Option (arrfunc T S V E)) (window_size : intptr_t) :
    Except (exception E) (rolling_arrfunc_data T S V E) :=
  match window_op with
  | none => .error (.invalid_argument "make_rolling_arrfunc() 'window_op' cannot be null")
  | some window_op =>
    if window_op.get_npos ≠ 1 then
      .error (.invalid_argument ("To make a rolling window arrfunc, an operation with one argument is required, got " ++ window_op.print))
    else if window_op.pos_type_ndim < 1 then
      .error (.invalid_argument ("To make a rolling window arrfunc, an operation with which accepts a dimension is required, got " ++
        window_op.print))
    else .ok ⟨window_size, window_op⟩

variable (el : element_types T V E) (data : rolling_arrfunc_data T S V E)

/-- The type of the child arrfunc, for a window of `window_size` elements. -/
def arrfunc.child_dst_tp (child_af : arrfunc T S V E) (window_size : ℤ) (src_el_tp : T) : Except E T :=
  match child_af.resolve_dst_type with
  | some resolve => resolve window_size src_el_tp
  | none => .ok child_af.get_return_type

def resolve_dst_type (src_tp : dim_type T) : Except (exception E) (dim_type T) := do
  let child_dst_tp ← (data.window_op.child_dst_tp data.window_size.val src_tp.element_tp).mapError .thrown
  match src_tp with
  | .var_dim _ => pure (.var_dim child_dst_tp)
  | .fixed_dim dim_size _ => pure (.fixed_dim dim_size child_dst_tp)

def instantiate (dst_tp : dim_type T) (dst_stride : ℤ) (src_tp : dim_type T) (src_stride : ℤ) :
    Except (exception E) (strided_rolling_ck S V E) :=
  match dst_tp.get_as_strided dst_stride with
  | none => .error (.type_error ("rolling window ckernel: could not process type " ++ dst_tp.print el ++ " as a strided dimension"))
  | some (dst, dst_el_tp) =>
    match src_tp.get_as_strided src_stride with
    | none => .error (.type_error ("rolling window ckernel: could not process type " ++ src_tp.print el ++ " as a strided dimension"))
    | some (src, src_el_tp) =>
      if src.dim_size ≠ dst.dim_size then
        .error (.type_error ("rolling window ckernel: source dimension size " ++ toString src.dim_size ++ " for type " ++
          src_tp.print el ++ " does not match dest dimension size " ++ toString dst.dim_size ++ " for type " ++ dst_tp.print el))
      else do
        let nachild ← (el.nan dst_el_tp).mapError .thrown
        let wopchild ← (data.window_op.instantiate dst_el_tp ⟨data.window_size.val, src.stride⟩ src_el_tp).mapError .thrown
        return ⟨data.window_size.val, dst.dim_size, dst.stride, src.stride, nachild, wopchild⟩

end

/-! ## The call -/

/-- An address of an element of a dimension. -/
def IsElement (origin stride : ℤ) (n : ℕ) (a : ℤ) : Prop := ∃ i < n, origin + (i : ℤ) * stride = a

instance (origin stride : ℤ) (n : ℕ) (a : ℤ) : Decidable (IsElement origin stride n a) :=
  decidable_of_iff (∃ i ∈ List.range n, origin + (i : ℤ) * stride = a) (by simp only [List.mem_range, IsElement])

/-- An array of one dimension; `memory` is by the addresses of its elements. -/
structure array (T V : Type) where
  tp : dim_type T
  stride : ℤ
  origin : ℤ
  memory : ℤ → V

namespace array
variable {T V E : Type} (a : array T V)

def size : ℕ :=
  match a.tp with
  | .fixed_dim dim_size _ => dim_size.val.toNat
  | .var_dim _ => 0

/-- The address of an element, or of one that is not there. -/
def address (i : ℤ) : ℤ := a.origin + i * a.stride

def read (p : ℤ) : Except (fault E) V := if IsElement a.origin a.stride a.size p then .ok (a.memory p) else .error .outside

def store (p : ℤ) (v : V) (m : ℤ → V) : Except (fault E) (ℤ → V) :=
  if IsElement a.origin a.stride a.size p then .ok (Function.update m p v) else .error .outside

end array

/-- A call of the arrfunc; `origin` and `memory` are what the result is allocated with. -/
def call {T S V E : Type} (el : element_types T V E) (data : rolling_arrfunc_data T S V E) (origin : ℤ) (memory : ℤ → V)
    (src : array T S) : Except (fault E) (array T V) := do
  let dst_tp ← (resolve_dst_type data src.tp).mapError .exception
  let dst : array T V := ⟨dst_tp, dst_tp.default_stride el, origin, memory⟩
  let ck ← (instantiate el data dst_tp dst.stride src.tp src.stride).mapError .exception
  let m ← ck.single src.read dst.store dst.origin src.origin memory
  return { dst with memory := m }

/-! ## What is asked of it -/

section
variable {T S V E : Type}

/-- The elements of the result: fillers, and then the window operation on the elements `i - window_size + 1` to `i`. -/
structure Filled (nan : V) (run : (ℤ → Except (fault E) S) → ℤ → Except (fault E) V) (op : List S → Except E V)
    (window_size : ℤ) (src : array T S) (dst : array T V) : Prop where
  filler : ∀ i < dst.size, (i : ℤ) < window_size - 1 → dst.memory (dst.address i) = nan
  windows : ∀ i < dst.size, window_size - 1 ≤ i → run src.read (src.address (i - window_size + 1)) = .ok (dst.memory (dst.address i))
  applied : 0 ≤ window_size → ∀ i < dst.size, window_size - 1 ≤ i →
    op ((List.range window_size.toNat).map fun j : ℕ => src.memory (src.address (i - window_size + 1 + j))) =
      .ok (dst.memory (dst.address i))

/-- Elements of no bytes hold nothing. -/
def Rolled (el : element_types T V E) (window_op : arrfunc T S V E) (window_size : ℤ) (src : array T S) (dst : array T V) : Prop :=
  ∃ n src_el_tp dst_el_tp nan run, src.tp = .fixed_dim n src_el_tp ∧ dst.tp = .fixed_dim n dst_el_tp ∧
    el.nan dst_el_tp = .ok nan ∧ window_op.instantiate dst_el_tp ⟨window_size, src.stride⟩ src_el_tp = .ok run ∧
    (el.get_default_data_size dst_el_tp ≠ 0 → Filled nan run (window_op.op dst_el_tp src_el_tp) window_size src dst)

/-- Making the arrfunc or calling it throws, or the result is right. -/
def Rolls (el : element_types T V E) (window_op : Option (arrfunc T S V E)) (window_size : intptr_t) (origin : ℤ)
    (memory : ℤ → V) (src : array T S) : Prop :=
  match (do
      let data ← (rolling window_op window_size).mapError .exception
      call el data origin memory src : Except (fault E) (array T V)) with
  | .ok dst => ∃ child ∈ window_op, Rolled el child window_size.val src dst
  | .error (.exception _) => True
  | .error .signed_overflow => False
  | .error .outside => False

/-- What throws before the kernel runs. -/
inductive Refuses (el : element_types T V E) (window_size : ℤ) (src : array T S) : Option (arrfunc T S V E) → Prop where
  | null : Refuses el window_size src none
  | npos (child : arrfunc T S V E) : child.get_npos ≠ 1 → Refuses el window_size src (some child)
  | ndim (child : arrfunc T S V E) : child.pos_type_ndim < 1 → Refuses el window_size src (some child)
  | dst_type (child : arrfunc T S V E) (e : E) : child.child_dst_tp window_size src.tp.element_tp = .error e →
      Refuses el window_size src (some child)
  | var (child : arrfunc T S V E) (element_tp : T) : src.tp = .var_dim element_tp → Refuses el window_size src (some child)
  | nan (child : arrfunc T S V E) (dst_el_tp : T) (e : E) : child.child_dst_tp window_size src.tp.element_tp = .ok dst_el_tp →
      el.nan dst_el_tp = .error e → Refuses el window_size src (some child)
  | child (child : arrfunc T S V E) (dst_el_tp : T) (e : E) : child.child_dst_tp window_size src.tp.element_tp = .ok dst_el_tp →
      child.instantiate dst_el_tp ⟨window_size, src.stride⟩ src.tp.element_tp = .error e → Refuses el window_size src (some child)

/-- The window operation on `count` places from `src` on reads nothing outside, up to a place where it throws. -/
def Quiet (run : ℤ → Except (fault E) V) (stride : ℤ) : ℕ → ℤ → Prop
  | 0, _ => True
  | count + 1, src =>
    match run src with
    | .ok _ => Quiet run stride count (src + stride)
    | .error f => ∃ e, f = .exception e

/-- Where a window size that is not positive does no harm: for no elements when the window operation throws at once,
and otherwise when all elements of the result have one address. -/
def Harmless (el : element_types T V E) (window_op : Option (arrfunc T S V E)) (window_size : ℤ) (src : array T S) : Prop :=
  ∃ child ∈ window_op, ∃ n src_el_tp dst_el_tp run, src.tp = .fixed_dim n src_el_tp ∧
    child.child_dst_tp window_size src_el_tp = .ok dst_el_tp ∧
    child.instantiate dst_el_tp ⟨window_size, src.stride⟩ src_el_tp = .ok run ∧ n.val - window_size + 1 < 2 ^ 63 ∧
    if n.val = 0 then ∃ e, run src.read src.origin = .error (.exception e)
    else (n.val = 1 ∨ el.get_default_data_size dst_el_tp = 0) ∧
      Quiet (run src.read) src.stride (n.val - window_size + 1).toNat src.origin

/-! ## The loops -/

section
variable {src : array T S} {dst : array T V} {m m' : ℤ → V} {c : ℕ}

theorem isElement_address {a : array T V} {i : ℕ} (hi : i < a.size) : IsElement a.origin a.stride a.size (a.address i) :=
  ⟨i, hi, rfl⟩

theorem array.read_address {i : ℕ} (hi : i < src.size) :
    (src.read (src.address i) : Except (fault E) S) = .ok (src.memory (src.address i)) := if_pos (isElement_address hi)

theorem array.store_eq_ok {p : ℤ} {v : V} : (dst.store p v m : Except (fault E) (ℤ → V)) = .ok m' ↔
    IsElement dst.origin dst.stride dst.size p ∧ Function.update m p v = m' := by
  rw [array.store]
  split_ifs with h
  · simp [h]
  · simp [h]

theorem array.store_eq_error {p : ℤ} {v : V} {f : fault E} : dst.store p v m = .error f ↔
    ¬ IsElement dst.origin dst.stride dst.size p ∧ f = .outside := by
  rw [array.store]
  split_ifs with h
  · simp [h]
  · simp [h, eq_comm]

theorem fill_ok (dst : array T V) (h : ∀ i < c, IsElement dst.origin dst.stride dst.size (dst.address i)) (nan : V) (m : ℤ → V) :
    ∃ m', strided (fun p => dst.store (E := E) p nan) dst.origin dst.stride c m = .ok m' ∧ ∀ i < c, m' (dst.address i) = nan := by
  cases hfill : strided (fun p => dst.store (E := E) p nan) dst.origin dst.stride c m with
  | error f =>
    obtain ⟨i, hi, y, hstep⟩ := error_of_strided hfill
    rw [array.store_eq_error, nsmul_eq_mul] at hstep
    exact absurd (h i hi) hstep.1
  | ok m' =>
    refine ⟨m', rfl, fun i hi => ?_⟩
    have hall := strided_each (Q := fun p m => m p = nan) (fun q x y hstep => ?_) (fun q k x y _ _ hq hstep => ?_) hfill i hi
    · rwa [nsmul_eq_mul] at hall
    · obtain ⟨-, rfl⟩ := array.store_eq_ok.mp hstep
      exact Function.update_self q nan x
    · obtain ⟨-, rfl⟩ := array.store_eq_ok.mp hstep
      rw [Function.update_apply]
      split_ifs
      · rfl
      · exact hq

/-- A fill beyond the elements, whose addresses differ. -/
theorem fill_outside (hstride : dst.stride ≠ 0) (hc : dst.size < c) (nan : V) (m : ℤ → V) :
    strided (fun p => dst.store (E := E) p nan) dst.origin dst.stride c m = .error .outside := by
  apply strided_error
  · refine ⟨dst.size, hc, fun x => array.store_eq_error.mpr ⟨?_, rfl⟩⟩
    rintro ⟨i, hi, heq⟩
    rw [nsmul_eq_mul] at heq
    have := mul_right_cancel₀ hstride (add_left_cancel heq)
    omega
  · intro i _ x f hf
    exact (array.store_eq_error.mp hf).2

variable {ck : strided_rolling_ck S V E} {first : ℤ}

theorem window_eq_ok {p : ℤ × ℤ} : ck.window src.read dst.store p m = .ok m' ↔ ∃ v, ck.wopchild src.read p.2 = .ok v ∧
    IsElement dst.origin dst.stride dst.size p.1 ∧ Function.update m p.1 v = m' := by
  rw [strided_rolling_ck.window, bind_eq_ok]
  exact exists_congr fun v => and_congr_right fun _ => array.store_eq_ok

theorem place_eq (i : ℕ) : (dst.address first, src.origin) + i • (dst.stride, src.stride) =
    (dst.address (first + i), src.address i) := by
  rw [Prod.smul_mk, Prod.mk_add_mk, nsmul_eq_mul, nsmul_eq_mul, array.address, array.address, array.address]
  congr 1
  ring

/-- The windows fail as the window operation does. -/
theorem windows_error (h : ∀ i < c, IsElement dst.origin dst.stride dst.size (dst.address (first + i))) {f : fault E}
    (hrun : strided (ck.window src.read dst.store) (dst.address first, src.origin) (dst.stride, src.stride) c m = .error f) :
    ∃ i < c, ck.wopchild src.read (src.address i) = .error f := by
  obtain ⟨i, hi, y, hstep⟩ := error_of_strided hrun
  rw [place_eq] at hstep
  obtain hstep | ⟨v, -, hstep⟩ := bind_eq_error.mp hstep
  · exact ⟨i, hi, hstep⟩
  · exact absurd (h i hi) (array.store_eq_error.mp hstep).1

theorem windows_last (hrun : strided (ck.window src.read dst.store) (dst.address first, src.origin) (dst.stride, src.stride)
    (c + 1) m = .ok m') : ck.wopchild src.read (src.address c) = .ok (m' (dst.address (first + c))) := by
  rw [strided_succ] at hrun
  obtain ⟨z, -, hlast⟩ := bind_eq_ok.mp hrun
  rw [place_eq] at hlast
  obtain ⟨v, hv, -, rfl⟩ := window_eq_ok.mp hlast
  rw [Function.update_self]
  exact hv

theorem windows_each (hstride : dst.stride ≠ 0)
    (hrun : strided (ck.window src.read dst.store) (dst.address first, src.origin) (dst.stride, src.stride) c m = .ok m') :
    ∀ i < c, ck.wopchild src.read (src.address i) = .ok (m' (dst.address (first + i))) := by
  intro i hi
  have hall := strided_each (Q := fun p m => ck.wopchild src.read p.2 = .ok (m p.1)) (fun q x y hstep => ?_)
    (fun q k x y hpos _ hq hstep => ?_) hrun i hi
  · rwa [place_eq] at hall
  · obtain ⟨v, hv, -, rfl⟩ := window_eq_ok.mp hstep
    rw [Function.update_self]
    exact hv
  · obtain ⟨v, -, -, rfl⟩ := window_eq_ok.mp hstep
    rw [Function.update_of_ne]
    · exact hq
    · intro heq
      simp only [Prod.fst_add, Prod.smul_mk, nsmul_eq_mul] at heq
      have hmul : (k : ℤ) * dst.stride = 0 := by omega
      rcases mul_eq_zero.mp hmul with hzero | hzero
      · omega
      · exact hstride hzero

/-- The windows leave the other elements as they are. -/
theorem windows_frame {a : ℤ} (ha : ∀ i < c, a ≠ dst.address (first + i))
    (hrun : strided (ck.window src.read dst.store) (dst.address first, src.origin) (dst.stride, src.stride) c m = .ok m') :
    m' a = m a := by
  induction c generalizing m' with
  | zero =>
    cases hrun
    rfl
  | succ c ih =>
    rw [strided_succ] at hrun
    obtain ⟨z, hz, hlast⟩ := bind_eq_ok.mp hrun
    rw [place_eq] at hlast
    obtain ⟨v, -, -, rfl⟩ := window_eq_ok.mp hlast
    rw [Function.update_of_ne (ha c (by omega))]
    exact ih (fun i hi => ha i (by omega)) hz

end

/-! ## The kernel -/

section
variable {src : array T S} {dst : array T V} {m m' : ℤ → V} {w : ℤ} {nan : V}
  {run : (ℤ → Except (fault E) S) → ℤ → Except (fault E) V} {op : List S → Except E V}

/-- The kernel for two arrays. -/
abbrev kernel (w : ℤ) (nan : V) (run : (ℤ → Except (fault E) S) → ℤ → Except (fault E) V) (dst : array T V) (src : array T S) :
    strided_rolling_ck S V E := ⟨w, dst.size, dst.stride, src.stride, nan, run⟩

/-- What the kernel does from the elements that `dst` has before. -/
def ran (w : ℤ) (nan : V) (run : (ℤ → Except (fault E) S) → ℤ → Except (fault E) V) (dst : array T V) (src : array T S) :
    Except (fault E) (ℤ → V) := (kernel w nan run dst src).single src.read dst.store dst.origin src.origin dst.memory

theorem checked_ok {z : ℤ} (h : IntptrRange z) : (checked z : Except (fault E) ℤ) = .ok z := if_pos h

theorem checked_error {z : ℤ} (h : ¬ IntptrRange z) : (checked z : Except (fault E) ℤ) = .error .signed_overflow := if_neg h

theorem size_t_nonneg {z : ℤ} (h : 0 ≤ z) (hlt : z < 2 ^ 64) : size_t z = z.toNat := by
  rw [size_t, Int.emod_eq_of_lt h hlt]

/-- A negative count is one that no array has room for. -/
theorem size_t_neg {z : ℤ} (h : z < 0) (hmin : -2 ^ 63 ≤ z) : 2 ^ 63 ≤ size_t z := by
  rw [size_t]
  omega

/-- The window operation at one place and from there on. -/
theorem windows_start (w : ℤ) : dst.origin + dst.stride * (w - 1) = dst.address (w - 1) := by
  rw [array.address, mul_comm]

/-- The filler's part. -/
theorem ran_eq (hpos : 0 < dst.size) (hsize : (dst.size : ℤ) < 2 ^ 63) (hw : IntptrRange (w - 1))
    (hfill : strided (fun p => dst.store (E := E) p nan) dst.origin dst.stride (size_t (min (w - 1) dst.size)) dst.memory = .ok m) :
    ran w nan run dst src = if w ≤ dst.size then do
        let rest ← checked (dst.size - w)
        let count ← checked (rest + 1)
        strided ((kernel w nan run dst src).window src.read dst.store) (dst.address (w - 1), src.origin) (dst.stride, src.stride)
          (size_t count) m
      else .ok m := by
  have hn : (dst.size : ℤ) > 0 := by omega
  unfold ran strided_rolling_ck.single
  dsimp only
  rw [if_pos hn, checked_ok hw, ok_bind, hfill, ok_bind]
  split_ifs
  · rw [ok_bind, windows_start]
  · rfl

theorem ran_of_empty (hzero : dst.size = 0) : ran w nan run dst src = if w ≤ dst.size then do
      let first ← checked (w - 1)
      let rest ← checked (dst.size - w)
      let count ← checked (rest + 1)
      strided ((kernel w nan run dst src).window src.read dst.store) (dst.origin + dst.stride * first, src.origin)
        (dst.stride, src.stride) (size_t count) dst.memory
    else .ok dst.memory := by
  unfold ran strided_rolling_ck.single
  dsimp only
  rw [if_neg (by omega), pure_eq_ok, ok_bind]
  rfl

/-! ### Windows of positive size -/

/-- What `arrfunc.applies` says of the kernel that is made for windows of `w` elements. -/
def Applies (w stride : ℤ) (run : (ℤ → Except (fault E) S) → ℤ → Except (fault E) V) (op : List S → Except E V) : Prop :=
  ∀ read src (values : List S), w = values.length → (∀ i (hi : i < values.length), read (src + i * stride) = .ok values[i]) →
    run read src = (op values).mapError fun e => .exception (.thrown e)

/-- A window inside the source. -/
theorem Applies.window (happlies : Applies w src.stride run op) (hw : 0 ≤ w) {i : ℕ} (hi : i < src.size) (hfirst : w - 1 ≤ i) :
    run src.read (src.address (i - w + 1)) =
      (op ((List.range w.toNat).map fun j : ℕ => src.memory (src.address (i - w + 1 + j)))).mapError fun e =>
        .exception (.thrown e) := by
  apply happlies
  · rw [List.length_map, List.length_range, Int.toNat_of_nonneg hw]
  · intro j hj
    rw [List.length_map, List.length_range] at hj
    have hindex : (i : ℤ) - w + 1 + j = ((i + 1 + j - w : ℤ).toNat : ℕ) := by omega
    have haddress : src.address (i - w + 1) + j * src.stride = src.address (i - w + 1 + j) := by
      rw [array.address, array.address]
      ring
    rw [haddress, List.getElem_map, List.getElem_range, hindex]
    exact array.read_address (by omega)

/-- The elements of a dimension have addresses of their own. -/
theorem address_ne (hstride : dst.stride ≠ 0) {i j : ℤ} (hij : i ≠ j) : dst.address i ≠ dst.address j := by
  intro heq
  exact hij (mul_right_cancel₀ hstride (add_left_cancel heq))

theorem ran_of_pos (nan : V) (hw : 1 ≤ w) (hmax : w < 2 ^ 63) (hsize : (dst.size : ℤ) < 2 ^ 63) (hsrc : src.size = dst.size)
    (happlies : Applies w src.stride run op) : (∃ e, ran w nan run dst src = .error (.exception e)) ∨
      ∃ m, ran w nan run dst src = .ok m ∧
        (dst.stride ≠ 0 ∨ dst.size ≤ 1 → Filled nan run op w src { dst with memory := m }) := by
  rcases Nat.eq_zero_or_pos dst.size with hzero | hpos
  · right
    refine ⟨dst.memory, ?_, fun _ => ⟨fun i hi => ?_, fun i hi => ?_, fun _ i hi => ?_⟩⟩
    · rw [ran_of_empty hzero, if_neg (by omega)]
    all_goals
      change i < dst.size at hi
      omega
  · have hcount : size_t (min (w - 1) dst.size) = (min (w - 1) dst.size).toNat := size_t_nonneg (by omega) (by omega)
    obtain ⟨m₁, hfill, hnan⟩ := fill_ok (E := E) (c := (min (w - 1) dst.size).toNat) dst
      (fun i hi => isElement_address (by omega)) nan dst.memory
    rw [← hcount] at hfill
    rw [ran_eq hpos hsize ⟨by omega, by omega⟩ hfill]
    split_ifs with hle
    · rw [checked_ok ⟨by omega, by omega⟩, ok_bind, checked_ok ⟨by omega, by omega⟩, ok_bind,
        size_t_nonneg (by omega) (by omega)]
      have hinside : ∀ i < (dst.size - w + 1 : ℤ).toNat,
          IsElement dst.origin dst.stride dst.size (dst.address (w - 1 + i)) := by
        intro i hi
        rw [show w - 1 + (i : ℤ) = ((w - 1 + i : ℤ).toNat : ℕ) by omega]
        exact isElement_address (by omega)
      cases hwindows : strided ((kernel w nan run dst src).window src.read dst.store) (dst.address (w - 1), src.origin)
          (dst.stride, src.stride) (dst.size - w + 1 : ℤ).toNat m₁ with
      | error f =>
        left
        obtain ⟨k, hk, hrun⟩ := windows_error hinside hwindows
        change run src.read (src.address k) = .error f at hrun
        have hwindow := happlies.window (i := (k + w - 1 : ℤ).toNat) (by omega) (by omega) (by omega)
        rw [show (((k + w - 1 : ℤ).toNat : ℕ) : ℤ) - w + 1 = k by omega, hrun] at hwindow
        cases hop : op _ with
        | error e =>
          rw [hop] at hwindow
          cases hwindow
          exact ⟨_, rfl⟩
        | ok v =>
          rw [hop] at hwindow
          cases hwindow
      | ok m =>
        right
        refine ⟨m, rfl, fun hdistinct => ?_⟩
        have heach (i : ℕ) (hi : i < dst.size) (hfirst : w - 1 ≤ i) :
            run src.read (src.address (i - w + 1)) = .ok (m (dst.address i)) := by
          rcases hdistinct with hstride | hone
          · have hk := windows_each hstride hwindows (i - w + 1 : ℤ).toNat (by omega)
            rwa [Int.toNat_of_nonneg (by omega), show w - 1 + ((i : ℤ) - w + 1) = i by ring] at hk
          · rw [show (dst.size - w + 1 : ℤ).toNat = 0 + 1 by omega] at hwindows
            have hlast := windows_last hwindows
            rwa [show (i : ℤ) - w + 1 = ((0 : ℕ) : ℤ) by omega, show (i : ℤ) = w - 1 + ((0 : ℕ) : ℤ) by omega]
        refine ⟨fun i hi hlt => ?_, heach, fun hw0 i hi hfirst => ?_⟩
        · change m (dst.address i) = nan
          change i < dst.size at hi
          rw [windows_frame (fun k hk => ?_) hwindows]
          · exact hnan i (by omega)
          · rcases hdistinct with hstride | hone
            · exact address_ne hstride (by omega)
            · omega
        · have hwindow := heach i hi hfirst
          rw [happlies.window hw0 (by rw [hsrc]; exact hi) hfirst] at hwindow
          cases hop : op _ with
          | error e =>
            rw [hop] at hwindow
            cases hwindow
          | ok v =>
            rw [hop] at hwindow
            cases hwindow
            rfl
    · right
      refine ⟨m₁, rfl, fun _ => ⟨fun i hi hlt => ?_, fun i hi hfirst => ?_, fun _ i hi hfirst => ?_⟩⟩
      all_goals change i < dst.size at hi
      · exact hnan i (by omega)
      · omega
      · omega

/-! ### Other window sizes -/

/-- The only failures are exceptions. -/
def Defined {α : Type} (x : Except (fault E) α) : Prop := ∀ f, x = .error f → ∃ e, f = .exception e

theorem defined_error {α : Type} {f : fault E} : Defined (.error f : Except (fault E) α) ↔ ∃ e, f = .exception e := by
  constructor
  · intro h
    exact h f rfl
  · rintro h g ⟨⟩
    exact h

theorem not_defined_overflow {α : Type} : ¬ Defined (.error .signed_overflow : Except (fault E) α) := by
  rw [defined_error]
  exact nofun

theorem not_defined_outside {α : Type} : ¬ Defined (.error .outside : Except (fault E) α) := by
  rw [defined_error]
  exact nofun

/-- Windows whose results all go to one element. -/
theorem defined_windows {a : ℤ} (ha : IsElement dst.origin dst.stride dst.size a) (hstride : dst.stride = 0) (c : ℕ) (p : ℤ)
    (m : ℤ → V) : Defined (strided ((kernel w nan run dst src).window src.read dst.store) (a, p) (dst.stride, src.stride) c m) ↔
      Quiet (run src.read) src.stride c p := by
  induction c generalizing p m with
  | zero => exact ⟨fun _ => trivial, fun _ => nofun⟩
  | succ c ih =>
    rw [strided, Quiet, strided_rolling_ck.window]
    change Defined ((run src.read p >>= fun v => dst.store a v m) >>= _) ↔ _
    cases run src.read p with
    | error f => exact defined_error
    | ok v =>
      have hstore : dst.store (E := E) a v m = .ok (Function.update m a v) := if_pos ha
      rw [ok_bind, hstore, ok_bind, Prod.mk_add_mk, show a + dst.stride = a by rw [hstride, add_zero]]
      exact ih _ _

/-- The number of windows. -/
theorem counted {α : Type} {n : ℕ} (hw : w ≤ 0) (x : ℤ → Except (fault E) α) : (do
      let rest ← checked (n - w)
      let count ← checked (rest + 1)
      x count : Except (fault E) α) = if (n : ℤ) - w + 1 < 2 ^ 63 then x (n - w + 1) else .error .signed_overflow := by
  split_ifs with h
  · rw [checked_ok ⟨by omega, by omega⟩, ok_bind, checked_ok ⟨by omega, by omega⟩, ok_bind]
  · by_cases hrest : (n : ℤ) - w < 2 ^ 63
    · rw [checked_ok ⟨by omega, hrest⟩, ok_bind, checked_error fun hr => h hr.2]
      rfl
    · rw [checked_error fun hr => hrest hr.2]
      rfl

theorem ran_nonpos_empty (nan : V) (run : (ℤ → Except (fault E) S) → ℤ → Except (fault E) V) (src : array T S)
    (hw : w ≤ 0) (hmin : -2 ^ 63 ≤ w) (hzero : dst.size = 0) : (∀ m, ran w nan run dst src ≠ .ok m) ∧
    (Defined (ran w nan run dst src) ↔ (dst.size : ℤ) - w + 1 < 2 ^ 63 ∧ ∃ e, run src.read src.origin = .error (.exception e)) := by
  rw [ran_of_empty hzero, if_pos (by omega)]
  by_cases hmax : (dst.size : ℤ) - w + 1 < 2 ^ 63
  · rw [checked_ok ⟨by omega, by omega⟩, ok_bind, counted hw, if_pos hmax, size_t_nonneg (by omega) (by omega),
      show ((dst.size : ℤ) - w + 1).toNat = (-w).toNat + 1 by omega, strided, strided_rolling_ck.window]
    change (∀ m, ((run src.read src.origin >>= fun v => dst.store _ v dst.memory) >>= _) ≠ .ok m) ∧
      (Defined ((run src.read src.origin >>= fun v => dst.store _ v dst.memory) >>= _) ↔ _)
    cases run src.read src.origin with
    | error f =>
      refine ⟨nofun, defined_error.trans ⟨?_, ?_⟩⟩
      · rintro ⟨e, rfl⟩
        exact ⟨hmax, e, rfl⟩
      · rintro ⟨-, e, he⟩
        exact ⟨e, Except.error.inj he⟩
    | ok v =>
      have hstore (p : ℤ) : dst.store (E := E) p v dst.memory = .error .outside := by
        rw [array.store_eq_error]
        refine ⟨?_, rfl⟩
        rintro ⟨i, hi, -⟩
        omega
      rw [ok_bind, hstore]
      refine ⟨nofun, iff_of_false not_defined_outside ?_⟩
      rintro ⟨-, e, he⟩
      cases he
  · have hoverflow : (checked (w - 1) >>= fun _ => .error .signed_overflow : Except (fault E) (ℤ → V)) =
        .error .signed_overflow := by
      unfold checked
      split_ifs <;> rfl
    simp only [counted hw, if_neg hmax, hoverflow]
    exact ⟨nofun, iff_of_false not_defined_overflow fun h => hmax h.1⟩

/-- Elements at several addresses: the filler runs out of them. -/
theorem ran_nonpos_outside (hw : w ≤ 0) (hmin : -2 ^ 63 ≤ w) (hpos : 0 < dst.size) (hsize : (dst.size : ℤ) < 2 ^ 63)
    (hstride : dst.stride ≠ 0) : ¬ Defined (ran w nan run dst src) := by
  have hn : (dst.size : ℤ) > 0 := by omega
  unfold ran strided_rolling_ck.single
  dsimp only
  rw [if_pos hn]
  by_cases hlast : IntptrRange (w - 1)
  · have hcount := size_t_neg (z := min (w - 1) dst.size) (by omega) (by omega)
    rw [checked_ok hlast, ok_bind, fill_outside hstride (by omega)]
    exact not_defined_outside
  · rw [checked_error hlast]
    exact not_defined_overflow

/-- Elements at one address: the filler and the windows are written there. -/
theorem ran_nonpos_single (nan : V) (hw : w ≤ 0) (hmin : -2 ^ 63 ≤ w) (hpos : 0 < dst.size) (hsize : (dst.size : ℤ) < 2 ^ 63)
    (hstride : dst.stride = 0) (happlies : Applies w src.stride run op) :
    (Defined (ran w nan run dst src) ↔
        (dst.size : ℤ) - w + 1 < 2 ^ 63 ∧ Quiet (run src.read) src.stride (dst.size - w + 1 : ℤ).toNat src.origin) ∧
      ∀ m, ran w nan run dst src = .ok m → dst.size = 1 → Filled nan run op w src { dst with memory := m } := by
  have hplace (i : ℤ) : IsElement dst.origin dst.stride dst.size (dst.address i) :=
    ⟨0, hpos, by rw [array.address, hstride, mul_zero, mul_zero]⟩
  by_cases hlast : IntptrRange (w - 1)
  · obtain ⟨m₁, hfill, -⟩ := fill_ok (E := E) (c := size_t (min (w - 1) dst.size)) dst (fun i _ => hplace i) nan dst.memory
    rw [ran_eq hpos hsize hlast hfill, if_pos (by omega), counted hw]
    split_ifs with hmax
    · rw [size_t_nonneg (by omega) (by omega), defined_windows (hplace _) hstride]
      refine ⟨(and_iff_right hmax).symm, fun m hm hone => ?_⟩
      rw [show ((dst.size : ℤ) - w + 1).toNat = (1 - w).toNat + 1 by omega] at hm
      have hrun := windows_last hm
      have haddress (i j : ℤ) : dst.address i = dst.address j := by
        rw [array.address, array.address, hstride, mul_zero, mul_zero]
      change run src.read _ = _ at hrun
      have heach (i : ℕ) (hi : i < dst.size) : run src.read (src.address (i - w + 1)) = .ok (m (dst.address i)) := by
        rw [show (i : ℤ) - w + 1 = ((1 - w).toNat : ℕ) by omega, haddress i (w - 1 + ((1 - w).toNat : ℕ))]
        exact hrun
      refine ⟨fun i hi hlt => by omega, fun i hi _ => heach i hi, fun hw0 i hi _ => ?_⟩
      have hwindow := heach i hi
      rw [happlies src.read (src.address (i - w + 1)) [] (by simp only [List.length_nil]; omega)
        (fun j hj => absurd hj (Nat.not_lt_zero j))] at hwindow
      rw [show w.toNat = 0 by omega, List.range_zero, List.map_nil]
      cases hop : op [] with
      | error e =>
        rw [hop] at hwindow
        cases hwindow
      | ok v =>
        rw [hop] at hwindow
        cases hwindow
        rfl
    · exact ⟨iff_of_false not_defined_overflow fun h => hmax h.1, nofun⟩
  · have hn : (dst.size : ℤ) > 0 := by omega
    have hran : ran w nan run dst src = .error .signed_overflow := by
      unfold ran strided_rolling_ck.single
      dsimp only
      rw [if_pos hn, checked_error hlast]
      rfl
    rw [hran]
    exact ⟨iff_of_false not_defined_overflow fun h => hlast ⟨by omega, by omega⟩, nofun⟩

end

/-! ## Calls -/

section
variable {el : element_types T V E} {window_op : Option (arrfunc T S V E)} {child : arrfunc T S V E} {w : intptr_t}
  {data : rolling_arrfunc_data T S V E} {origin : ℤ} {memory : ℤ → V} {src : array T S}

theorem rolling_eq_ok (h : rolling (some child) w = .ok data) : data = ⟨w, child⟩ := by
  unfold rolling at h
  dsimp only at h
  split_ifs at h
  cases h
  rfl

theorem resolve_dst_type_eq {dst_el_tp : T} {n : dim_size_t} {src_el_tp : T}
    (h : child.child_dst_tp w.val src_el_tp = .ok dst_el_tp) :
    resolve_dst_type ⟨w, child⟩ (.fixed_dim n src_el_tp) = .ok (.fixed_dim n dst_el_tp) := by
  unfold resolve_dst_type
  dsimp only [dim_type.element_tp]
  rw [h]
  rfl

theorem call_var {src_el_tp : T} (hsrc : src.tp = .var_dim src_el_tp) :
    ∃ e, call el data origin memory src = .error (.exception e) := by
  unfold call resolve_dst_type
  rw [hsrc]
  cases data.window_op.child_dst_tp data.window_size.val (dim_type.var_dim src_el_tp).element_tp with
  | error e => exact ⟨_, rfl⟩
  | ok dst_el_tp => exact ⟨_, rfl⟩

/-- The array that `nd::empty` makes for the result. -/
abbrev empty (el : element_types T V E) (n : dim_size_t) (dst_el_tp : T) (origin : ℤ) (memory : ℤ → V) : array T V :=
  ⟨.fixed_dim n dst_el_tp, dim_type.default_stride el (.fixed_dim n dst_el_tp), origin, memory⟩

theorem size_empty (n : dim_size_t) (dst_el_tp : T) : ((empty el n dst_el_tp origin memory).size : ℤ) = n.val :=
  Int.toNat_of_nonneg n.property.1

theorem instantiate_fixed {n : dim_size_t} {src_el_tp dst_el_tp : T} :
    instantiate el ⟨w, child⟩ (.fixed_dim n dst_el_tp) (empty el n dst_el_tp origin memory).stride (.fixed_dim n src_el_tp)
      src.stride = (do
        let nan ← (el.nan dst_el_tp).mapError .thrown
        let run ← (child.instantiate dst_el_tp ⟨w.val, src.stride⟩ src_el_tp).mapError .thrown
        return kernel w.val nan run (empty el n dst_el_tp origin memory) src : Except (exception E) (strided_rolling_ck S V E)) := by
  unfold kernel
  rw [size_empty]
  exact if_neg (not_not.mpr rfl)

theorem call_fixed {n : dim_size_t} {src_el_tp dst_el_tp : T} (hsrc : src.tp = .fixed_dim n src_el_tp)
    (hdst : child.child_dst_tp w.val src_el_tp = .ok dst_el_tp) : call el ⟨w, child⟩ origin memory src = (do
      let nan ← (el.nan dst_el_tp).mapError fun e => .exception (.thrown e)
      let run ← (child.instantiate dst_el_tp ⟨w.val, src.stride⟩ src_el_tp).mapError fun e => .exception (.thrown e)
      let m ← ran w.val nan run (empty el n dst_el_tp origin memory) src
      return { empty el n dst_el_tp origin memory with memory := m } : Except (fault E) (array T V)) := by
  unfold call
  rw [hsrc, resolve_dst_type_eq hdst]
  change ((instantiate el ⟨w, child⟩ (.fixed_dim n dst_el_tp) (empty el n dst_el_tp origin memory).stride
    (.fixed_dim n src_el_tp) src.stride).mapError fault.exception >>= _) = _
  rw [instantiate_fixed]
  cases el.nan dst_el_tp with
  | error e => rfl
  | ok nan =>
    cases child.instantiate dst_el_tp ⟨w.val, src.stride⟩ src_el_tp with
    | error e => rfl
    | ok run => rfl

theorem call_refused (h : Refuses el w.val src (some child)) (hnpos : child.get_npos = 1) (hndim : ¬ child.pos_type_ndim < 1) :
    ∃ e, call el ⟨w, child⟩ origin memory src = .error (.exception e) := by
  cases hsrc : src.tp with
  | var_dim src_el_tp => exact call_var hsrc
  | fixed_dim n src_el_tp =>
    cases hdst : child.child_dst_tp w.val src_el_tp with
    | error e =>
      unfold call resolve_dst_type
      rw [hsrc]
      dsimp only [dim_type.element_tp]
      rw [hdst]
      exact ⟨_, rfl⟩
    | ok dst_el_tp =>
      rw [call_fixed hsrc hdst]
      cases hnan : el.nan dst_el_tp with
      | error e => exact ⟨_, rfl⟩
      | ok nan =>
        cases hrun : child.instantiate dst_el_tp ⟨w.val, src.stride⟩ src_el_tp with
        | error e => exact ⟨_, rfl⟩
        | ok run =>
          rw [show src_el_tp = src.tp.element_tp by rw [hsrc, dim_type.element_tp]] at hdst hrun
          cases h with
          | npos child h => exact absurd hnpos h
          | ndim child h => exact absurd h hndim
          | dst_type child e h => rw [hdst] at h; cases h
          | var child element_tp h => rw [hsrc] at h; cases h
          | nan child tp e htp h => rw [hdst] at htp; cases htp; rw [hnan] at h; cases h
          | child child tp e htp h => rw [hdst] at htp; cases htp; rw [hrun] at h; cases h

/-- Making the arrfunc and calling it. -/
def rolled (el : element_types T V E) (window_op : Option (arrfunc T S V E)) (w : intptr_t) (origin : ℤ) (memory : ℤ → V)
    (src : array T S) : Except (fault E) (array T V) := do
  let data ← (rolling window_op w).mapError .exception
  call el data origin memory src

theorem rolled_refused (origin : ℤ) (memory : ℤ → V) (h : Refuses el w.val src window_op) :
    ∃ e, rolled el window_op w origin memory src = .error (.exception e) := by
  cases hdata : rolling window_op w with
  | error e =>
    unfold rolled
    rw [hdata]
    exact ⟨e, rfl⟩
  | ok data =>
    cases window_op with
    | none => cases hdata
    | some child =>
      unfold rolled
      rw [hdata]
      obtain rfl := rolling_eq_ok hdata
      unfold rolling at hdata
      dsimp only at hdata
      split_ifs at hdata with hnpos hndim
      exact call_refused h (not_not.mp hnpos) hndim

/-- What is not refused comes to the kernel. -/
theorem rolled_called (origin : ℤ) (memory : ℤ → V) (h : ¬ Refuses el w.val src window_op) :
    ∃ child n src_el_tp dst_el_tp nan run, window_op = some child ∧
    src.tp = .fixed_dim n src_el_tp ∧ child.child_dst_tp w.val src_el_tp = .ok dst_el_tp ∧ el.nan dst_el_tp = .ok nan ∧
    child.instantiate dst_el_tp ⟨w.val, src.stride⟩ src_el_tp = .ok run ∧
    rolled el window_op w origin memory src = (fun m => { empty el n dst_el_tp origin memory with memory := m }) <$>
      ran w.val nan run (empty el n dst_el_tp origin memory) src := by
  cases window_op with
  | none => exact absurd .null h
  | some child =>
    have hnpos : child.get_npos = 1 := by
      by_contra hne
      exact h (.npos child hne)
    have hndim : ¬ child.pos_type_ndim < 1 := fun hlt => h (.ndim child hlt)
    cases hsrc : src.tp with
    | var_dim src_el_tp => exact absurd (.var child src_el_tp hsrc) h
    | fixed_dim n src_el_tp =>
      have hel : src.tp.element_tp = src_el_tp := by
        rw [hsrc, dim_type.element_tp]
      cases hdst : child.child_dst_tp w.val src_el_tp with
      | error e => exact absurd (.dst_type child e (by rw [hel, hdst])) h
      | ok dst_el_tp =>
        cases hnan : el.nan dst_el_tp with
        | error e => exact absurd (.nan child dst_el_tp e (by rw [hel, hdst]) hnan) h
        | ok nan =>
          cases hrun : child.instantiate dst_el_tp ⟨w.val, src.stride⟩ src_el_tp with
          | error e => exact absurd (.child child dst_el_tp e (by rw [hel, hdst]) (by rw [hel, hrun])) h
          | ok run =>
            refine ⟨child, n, src_el_tp, dst_el_tp, nan, run, rfl, rfl, hdst, hnan, hrun, ?_⟩
            have hdata : rolling (some child) w = .ok ⟨w, child⟩ := by
              unfold rolling
              dsimp only
              rw [if_neg (not_not.mpr hnpos), if_neg hndim]
            unfold rolled
            rw [hdata]
            change call el ⟨w, child⟩ origin memory src = _
            rw [call_fixed hsrc hdst, hnan, hrun]
            rfl

theorem rolls_def : Rolls el window_op w origin memory src ↔ Defined (rolled el window_op w origin memory src) ∧
    ∀ dst, rolled el window_op w origin memory src = .ok dst → ∃ child ∈ window_op, Rolled el child w.val src dst := by
  unfold Rolls
  change (match rolled el window_op w origin memory src with
    | .ok dst => ∃ child ∈ window_op, Rolled el child w.val src dst
    | .error (.exception _) => True
    | .error .signed_overflow => False
    | .error .outside => False) ↔ _
  cases rolled el window_op w origin memory src with
  | ok dst =>
    constructor
    · intro h
      refine ⟨nofun, ?_⟩
      rintro _ ⟨⟩
      exact h
    · intro h
      exact h.2 dst rfl
  | error f =>
    have hnone : ∀ dst, (Except.error f : Except (fault E) (array T V)) = .ok dst →
        ∃ child ∈ window_op, Rolled el child w.val src dst := by
      rintro _ ⟨⟩
    rw [defined_error, and_iff_left hnone]
    cases f with
    | exception e => exact iff_of_true True.intro ⟨e, rfl⟩
    | signed_overflow => exact iff_of_false id nofun
    | outside => exact iff_of_false id nofun

theorem defined_map {α β : Type} {f : α → β} {x : Except (fault E) α} : Defined (f <$> x) ↔ Defined x :=
  forall_congr' fun _ => imp_congr_left map_eq_error

variable {n : dim_size_t} {src_el_tp dst_el_tp : T} {nan : V} {run : (ℤ → Except (fault E) S) → ℤ → Except (fault E) V}

/-- The elements of the result have addresses of their own, or it has one, or they have no bytes. -/
theorem stride_empty : (empty el n dst_el_tp origin memory).stride = 0 ↔ n.val ≤ 1 ∨ el.get_default_data_size dst_el_tp = 0 := by
  change (if 1 < n.val then (el.get_default_data_size dst_el_tp : ℤ) else 0) = 0 ↔ _
  split_ifs with h
  · rw [Nat.cast_eq_zero, or_iff_right (by omega)]
  · exact iff_of_true rfl (Or.inl (by omega))

theorem rolls_called (hsrc : src.tp = .fixed_dim n src_el_tp) (hnan : el.nan dst_el_tp = .ok nan)
    (hinst : child.instantiate dst_el_tp ⟨w.val, src.stride⟩ src_el_tp = .ok run)
    (hrolled : rolled el (some child) w origin memory src = (fun m => { empty el n dst_el_tp origin memory with memory := m }) <$>
      ran w.val nan run (empty el n dst_el_tp origin memory) src)
    (hdefined : Defined (ran w.val nan run (empty el n dst_el_tp origin memory) src))
    (hfilled : ∀ m, ran w.val nan run (empty el n dst_el_tp origin memory) src = .ok m →
      el.get_default_data_size dst_el_tp ≠ 0 →
      Filled nan run (child.op dst_el_tp src_el_tp) w.val src { empty el n dst_el_tp origin memory with memory := m }) :
    Rolls el (some child) w origin memory src := by
  rw [rolls_def, hrolled, defined_map]
  refine ⟨hdefined, fun dst hdst => ⟨child, rfl, ?_⟩⟩
  obtain ⟨m, hm, rfl⟩ := map_eq_ok.mp hdst
  exact ⟨n, src_el_tp, dst_el_tp, nan, run, hsrc, rfl, hnan, hinst, hfilled m hm⟩

theorem harmless_called (hsrc : src.tp = .fixed_dim n src_el_tp) (hdst : child.child_dst_tp w.val src_el_tp = .ok dst_el_tp)
    (hinst : child.instantiate dst_el_tp ⟨w.val, src.stride⟩ src_el_tp = .ok run) :
    Harmless el (some child) w.val src ↔ n.val - w.val + 1 < 2 ^ 63 ∧
      if n.val = 0 then ∃ e, run src.read src.origin = .error (.exception e)
      else (n.val = 1 ∨ el.get_default_data_size dst_el_tp = 0) ∧
        Quiet (run src.read) src.stride (n.val - w.val + 1).toNat src.origin := by
  constructor
  · rintro ⟨child', hchild, n', src_el_tp', dst_el_tp', run', hsrc', hdst', hinst', hharmless⟩
    cases hchild
    rw [hsrc] at hsrc'
    cases hsrc'
    rw [hdst] at hdst'
    cases hdst'
    rw [hinst] at hinst'
    cases hinst'
    exact hharmless
  · intro hharmless
    exact ⟨child, rfl, n, src_el_tp, dst_el_tp, run, hsrc, hdst, hinst, hharmless⟩

/-- A window of no or a negative number of elements. -/
theorem rolls_nonpos (hw : ¬ 1 ≤ w.val) (hsrc : src.tp = .fixed_dim n src_el_tp)
    (hdst : child.child_dst_tp w.val src_el_tp = .ok dst_el_tp) (hnan : el.nan dst_el_tp = .ok nan)
    (hinst : child.instantiate dst_el_tp ⟨w.val, src.stride⟩ src_el_tp = .ok run)
    (hrolled : rolled el (some child) w origin memory src = (fun m => { empty el n dst_el_tp origin memory with memory := m }) <$>
      ran w.val nan run (empty el n dst_el_tp origin memory) src) :
    Rolls el (some child) w origin memory src ↔ Harmless el (some child) w.val src := by
  have hwn : w.val ≤ 0 := by omega
  have hmin := w.property.1
  have hsize : ((empty el n dst_el_tp origin memory).size : ℤ) = n.val := size_empty n dst_el_tp
  have hbound := n.property
  have hdefined : Rolls el (some child) w origin memory src → Defined (ran w.val nan run (empty el n dst_el_tp origin memory) src) := by
    intro h
    have hall := (rolls_def.mp h).1
    rwa [hrolled, defined_map] at hall
  rw [harmless_called hsrc hdst hinst]
  rcases eq_or_ne n.val 0 with hzero | hpos
  · obtain ⟨hno, hiff⟩ := ran_nonpos_empty nan run src hwn hmin
      (show (empty el n dst_el_tp origin memory).size = 0 by omega)
    rw [hsize] at hiff
    rw [if_pos hzero, ← hiff]
    exact ⟨hdefined, fun h => rolls_called hsrc hnan hinst hrolled h fun m hm _ => absurd hm (hno m)⟩
  · rw [if_neg hpos]
    have hnonempty : 0 < (empty el n dst_el_tp origin memory).size := by omega
    by_cases hstride : (empty el n dst_el_tp origin memory).stride = 0
    · obtain ⟨hiff, hfilled⟩ := ran_nonpos_single nan hwn hmin hnonempty (by omega) hstride
        (fun read src values hlen hread => child.applies hinst hlen hread)
      rw [hsize] at hiff
      have hone := stride_empty.mp hstride
      rw [and_iff_right (show n.val = 1 ∨ el.get_default_data_size dst_el_tp = 0 by omega), ← hiff]
      exact ⟨hdefined, fun h => rolls_called hsrc hnan hinst hrolled h fun m hm hbytes => hfilled m hm (by omega)⟩
    · apply iff_of_false
      · intro h
        exact ran_nonpos_outside hwn hmin hnonempty (by omega) hstride (hdefined h)
      · rintro ⟨-, hone, -⟩
        exact hstride (stride_empty.mpr (hone.imp_left (·.le)))

/-- Rolling windows are right for every positive size, also one beyond the dimension, and for no other that is not refused or harmless. -/
theorem rolls_iff (el : element_types T V E) (window_op : Option (arrfunc T S V E)) (w : intptr_t) (origin : ℤ) (memory : ℤ → V)
    (src : array T S) : Rolls el window_op w origin memory src ↔
      Refuses el w.val src window_op ∨ 1 ≤ w.val ∨ Harmless el window_op w.val src := by
  by_cases hrefuses : Refuses el w.val src window_op
  · apply iff_of_true ?_ (Or.inl hrefuses)
    obtain ⟨e, he⟩ := rolled_refused origin memory hrefuses
    rw [rolls_def, he, defined_error]
    refine ⟨⟨e, rfl⟩, ?_⟩
    rintro _ ⟨⟩
  · rw [or_iff_right hrefuses]
    obtain ⟨child, n, src_el_tp, dst_el_tp, nan, run, rfl, hsrc, hdst, hnan, hinst, hrolled⟩ :=
      rolled_called origin memory hrefuses
    by_cases hw : 1 ≤ w.val
    · apply iff_of_true ?_ (Or.inl hw)
      have hsize : ((empty el n dst_el_tp origin memory).size : ℤ) = n.val := size_empty n dst_el_tp
      have hbound := n.property
      have hsame : src.size = (empty el n dst_el_tp origin memory).size := by
        rw [array.size, hsrc]
        rfl
      rcases ran_of_pos nan hw w.property.2 (by omega) hsame
        (fun read src values hlen hread => child.applies hinst hlen hread) with ⟨e, he⟩ | ⟨m, hm, hfilled⟩
      · apply rolls_called hsrc hnan hinst hrolled
        · rw [he, defined_error]
          exact ⟨e, rfl⟩
        · intro m hm
          rw [he] at hm
          cases hm
      · apply rolls_called hsrc hnan hinst hrolled
        · rw [hm]
          exact nofun
        · intro m' hm' hbytes
          rw [hm] at hm'
          cases hm'
          apply hfilled
          by_cases hstride : (empty el n dst_el_tp origin memory).stride = 0
          · have hone := (stride_empty.mp hstride).resolve_right hbytes
            exact Or.inr (by omega)
          · exact Or.inl hstride
    · rw [or_iff_right hw]
      exact rolls_nonpos hw hsrc hdst hnan hinst hrolled

end
end

/-! ## A window of no elements -/

def float64 : element_types Unit ℤ Unit where
  print _ := "real"
  get_default_data_size _ := 8
  nan _ := .ok 0

/-- The kernel that sums a dimension. -/
def sum_window (md : size_stride_t) (read : ℤ → Except (fault Unit) ℤ) (src : ℤ) : Except (fault Unit) ℤ := do
  let values ← (List.range md.dim_size.toNat).mapM fun i : ℕ => read (src + i * md.stride)
  return values.sum

def sum_1d : arrfunc Unit ℤ ℤ Unit where
  print := "(Fixed * real) -> real"
  get_npos := 1
  pos_type_ndim := 1
  get_return_type := ()
  resolve_dst_type := none
  instantiate _ md _ := .ok (sum_window md)
  op _ _ values := .ok values.sum
  applies := by
    intro dst_tp md src_tp run hrun read src values hlen hread
    cases hrun
    have hvalues : (List.range values.length).map (fun i : ℕ => values.getD i 0) = values := by
      apply List.ext_getElem (by simp)
      intro i h1 h2
      simp [h2]
    have hmap : (List.range md.dim_size.toNat).mapM (fun i : ℕ => read (src + i * md.stride)) = .ok values := by
      rw [show md.dim_size.toNat = values.length by omega, mapM_eq_map (g := fun i : ℕ => values.getD i 0), hvalues]
      intro i hi
      rw [List.mem_range] at hi
      rw [hread i hi, List.getD_eq_getElem _ _ hi]
    rw [sum_window, hmap]
    rfl

theorem two_dim_size : (0 : ℤ) ≤ 2 ∧ (2 : ℤ) < 2 ^ 63 := by decide

def two_elements : array Unit ℤ := ⟨.fixed_dim ⟨2, two_dim_size⟩ (), 8, 0, fun z => z⟩

theorem zero_in_range : IntptrRange 0 := by decide

def no_elements : intptr_t := ⟨0, zero_in_range⟩

/-- A rolling sum with windows of no elements: 2 ^ 64 - 1 fillers for two elements. -/
theorem filler_runs_on : ¬ ∀ {T S V E : Type} (el : element_types T V E) (window_op : Option (arrfunc T S V E)) (w : intptr_t)
    (origin : ℤ) (memory : ℤ → V) (src : array T S), Rolls el window_op w origin memory src := by
  intro h
  have hrolls := (rolls_def.mp (h float64 (some sum_1d) no_elements 0 (fun _ => 0) two_elements)).1
  have hrolled : rolled float64 (some sum_1d) no_elements 0 (fun _ => 0) two_elements =
      (fun m => { empty float64 ⟨2, by decide⟩ () 0 (fun _ => 0) with memory := m }) <$>
        ran 0 0 (sum_window ⟨0, 8⟩) (empty float64 ⟨2, by decide⟩ () 0 fun _ => 0) two_elements := rfl
  rw [hrolled, defined_map] at hrolls
  exact ran_nonpos_outside le_rfl (by decide) (by decide) (by decide) (by decide) hrolls

end Dynd.Rolling
