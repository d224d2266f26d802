import Dynd.Lib.Strided
/-!
# Assignment of options

The strided entry points of `option_to_option_ck` and `option_to_value_ck`
against their single ones, called for one element after the other. The first
does not move on from the first chunk's elements; `strided_iff` says when that
is no difference. The destination and the source do not overlap.
-/
namespace Dynd

def DYND_BUFFER_CHUNK_SIZE : ℕ := 128

namespace OptionAssign

open Lib

/-- An exception, or a read that is not of the caller's memory. -/
inductive Fault where
  | raised
  | outside

/-- The child kernels, on elements `E` and a destination `D`. Where an
assignment gives nothing, it raises. -/
structure children (E D : Type) where
  is_avail : E → Bool
  value_assign : ℤ → E → D → Option D
  assign_na : ℤ → D → Option D

section
variable {E D : Type} (k : children E D) (source : ℤ → Option E)

def read (src : ℤ) : Except Fault E :=
  match source src with
  | some e => .ok e
  | none => .error .outside

def raising : Option D → Except Fault D
  | some d => .ok d
  | none => .error .raised

def src_is_avail (src : ℤ) : Except Fault Bool := k.is_avail <$> read source src

/-- The places are the destination's and the source's. -/
def value_assign (p : ℤ × ℤ) (d : D) : Except Fault D := do
  let e ← read source p.2
  raising (k.value_assign p.1 e d)

def dst_assign_na (dst : ℤ) (d : D) : Except Fault D := raising (k.assign_na dst d)

/-- What `src_is_avail_fn` writes to `avail`. -/
def src_is_avail_strided (src src_stride : ℤ) (count : ℕ) : Except Fault (List Bool) :=
  (List.range count).mapM fun i => src_is_avail k source (src + i • src_stride)

namespace option_to_option_ck

def single (p : ℤ × ℤ) (d : D) : Except Fault D := do
  let avail ← src_is_avail k source p.2
  if avail then value_assign k source p d else dst_assign_na k p.1 d

/-- What follows the available values begins with one that is not. -/
theorem segment_ne_nil (avail : List Bool) (h : avail.dropWhile (fun b => b) ≠ []) :
    (avail.dropWhile fun b => b).takeWhile (fun b => !b) ≠ [] := by
  have hhead := List.head_dropWhile_not (fun b => b) h
  cases hrest : avail.dropWhile (fun b => b) with
  | nil => exact absurd hrest h
  | cons b bs =>
    simp only [hrest, List.head_cons] at hhead
    rw [hhead, List.takeWhile_cons_of_pos (by rfl)]
    exact List.cons_ne_nil _ _

theorem runs_decreases {avail : List Bool} (h : avail.dropWhile (fun b => b) ≠ []) :
    ((avail.dropWhile fun b => b).dropWhile fun b => !b).length < avail.length := by
  have hpos := List.length_pos_iff.mpr (segment_ne_nil avail h)
  have hlen := congrArg List.length (List.takeWhile_append_dropWhile (p := fun b => b) (l := avail))
  have hlen' := congrArg List.length (List.takeWhile_append_dropWhile (p := fun b => !b) (l := avail.dropWhile fun b => b))
  rw [List.length_append] at hlen hlen'
  omega

section
variable (dst_stride src_stride : ℤ)

/-- The loop over one chunk, `avail` being what is left of it. The run of
available values at the end moves `src` in the place of `src_copy`. -/
def runs (avail : List Bool) (dst src src_copy : ℤ) (d : D) : Except Fault (ℤ × ℤ × D) :=
  let segment_size := (avail.takeWhile fun b => b).length
  if avail.dropWhile (fun b => b) = [] then do
    let d ← Lib.strided (value_assign k source) (dst, src_copy) (dst_stride, src_stride) segment_size d
    pure (dst + segment_size • dst_stride, src + segment_size • src_stride, d)
  else do
    let d ← Lib.strided (value_assign k source) (dst, src_copy) (dst_stride, src_stride) segment_size d
    let dst := dst + segment_size • dst_stride
    let src_copy := src_copy + segment_size • src_stride
    let segment_size := ((avail.dropWhile fun b => b).takeWhile fun b => !b).length
    let d ← Lib.strided (dst_assign_na k) dst dst_stride segment_size d
    let dst := dst + segment_size • dst_stride
    if (avail.dropWhile fun b => b).dropWhile (fun b => !b) = [] then pure (dst, src, d)
    else runs ((avail.dropWhile fun b => b).dropWhile fun b => !b) dst src (src_copy + segment_size • src_stride) d
termination_by avail.length
decreasing_by exact runs_decreases ‹_›

/-- `src[0]`, for a pointer `src` that has moved. -/
def first_pointer (src0 src : ℤ) : Except Fault ℤ := if src = 0 then .ok src0 else .error .outside

def chunks (src0 dst src : ℤ) (count : ℕ) (d : D) : Except Fault D :=
  if count = 0 then pure d
  else do
    let chunk_size := min count DYND_BUFFER_CHUNK_SIZE
    let src_copy ← first_pointer src0 src
    let avail ← src_is_avail_strided k source src_copy src_stride chunk_size
    let (dst, src, d) ← runs k source dst_stride src_stride avail dst src src_copy d
    chunks src0 dst src (count - chunk_size) d
termination_by count
decreasing_by
  unfold DYND_BUFFER_CHUNK_SIZE
  omega

end

def strided (dst dst_stride src src_stride : ℤ) (count : ℕ) (d : D) : Except Fault D :=
  chunks k source dst_stride src_stride src dst 0 count d

end option_to_option_ck

namespace option_to_value_ck

def single (p : ℤ × ℤ) (d : D) : Except Fault D := do
  let avail ← src_is_avail k source p.2
  if !avail then .error .raised else value_assign k source p d

def strided (dst dst_stride src_copy src_stride : ℤ) (count : ℕ) (d : D) : Except Fault D :=
  if count = 0 then pure d
  else do
    let chunk_size := min count DYND_BUFFER_CHUNK_SIZE
    let avail ← src_is_avail_strided k source src_copy src_stride chunk_size
    if false ∈ avail then .error .raised
    else do
      let d ← Lib.strided (value_assign k source) (dst, src_copy) (dst_stride, src_stride) chunk_size d
      strided (dst + chunk_size • dst_stride) dst_stride (src_copy + chunk_size • src_stride) src_stride
        (count - chunk_size) d
termination_by count
decreasing_by
  unfold DYND_BUFFER_CHUNK_SIZE
  omega

end option_to_value_ck

/-! ## The loops -/

section
variable {k source} {src_stride : ℤ}

/-- The elements from `src` on are the caller's and available as the list says. -/
def Pattern (k : children E D) (source : ℤ → Option E) (src src_stride : ℤ) (avail : List Bool) : Prop :=
  ∀ (i : ℕ) (b : Bool), avail[i]? = some b → src_is_avail k source (src + i • src_stride) = .ok b

theorem Pattern.append {src : ℤ} {as bs : List Bool} (h : Pattern k source src src_stride (as ++ bs)) :
    Pattern k source src src_stride as ∧ Pattern k source (src + as.length • src_stride) src_stride bs := by
  refine ⟨fun i b hi => h i b ?_, fun i b hi => ?_⟩
  · exact (List.getElem?_append_left (List.getElem?_eq_some_iff.mp hi).1).trans hi
  · rw [add_assoc, ← add_nsmul]
    refine h _ b ?_
    rw [List.getElem?_append_right (by omega), Nat.add_sub_cancel_left]
    exact hi

theorem src_is_avail_strided_eq {src : ℤ} {avail : List Bool} (h : Pattern k source src src_stride avail) :
    src_is_avail_strided k source src src_stride avail.length = .ok avail := by
  unfold src_is_avail_strided
  rw [mapM_eq_map (g := fun i => avail[i]?.getD false) fun i hi => ?_]
  · congr 1
    apply List.ext_getElem
    · simp
    · intro i _ hi
      simp [hi]
  · have hi : i < avail.length := List.mem_range.mp hi
    rw [h i avail[i] (List.getElem?_eq_getElem hi), List.getElem?_eq_getElem hi]
    rfl

theorem pattern_map {src : ℤ} {p : ℕ → Bool} {N n : ℕ} (h : ∀ i < N, src_is_avail k source (src + i • src_stride) = .ok (p i))
    (hn : n ≤ N) : Pattern k source src src_stride ((List.range n).map p) := by
  intro i b hi
  rw [List.getElem?_map, Option.map_eq_some_iff] at hi
  obtain ⟨j, hj, rfl⟩ := hi
  obtain ⟨hi, rfl⟩ := List.getElem?_eq_some_iff.mp hj
  rw [List.length_range] at hi
  rw [List.getElem_range]
  exact h i (by omega)

theorem place (dst src dst_stride src_stride : ℤ) (i : ℕ) :
    (dst, src) + i • (dst_stride, src_stride) = (dst + i • dst_stride, src + i • src_stride) := rfl

end

namespace option_to_option_ck

variable {k source} {dst_stride src_stride : ℤ}

theorem single_of_avail {p : ℤ × ℤ} (h : src_is_avail k source p.2 = .ok true) :
    single k source p = value_assign k source p := by
  funext d
  unfold single
  rw [h]
  rfl

theorem single_of_not_avail {p : ℤ × ℤ} (h : src_is_avail k source p.2 = .ok false) :
    single k source p = dst_assign_na k p.1 := by
  funext d
  unfold single
  rw [h]
  rfl

/-- A run of available elements. -/
theorem run_avail {dst src : ℤ} {avail : List Bool} (h : Pattern k source src src_stride avail)
    (hall : ∀ b ∈ avail, b = true) :
    Lib.strided (value_assign k source) (dst, src) (dst_stride, src_stride) avail.length =
      Lib.strided (single k source) (dst, src) (dst_stride, src_stride) avail.length := by
  refine (strided_congr fun i hi => single_of_avail ?_).symm
  rw [place, h i _ (List.getElem?_eq_getElem hi), hall _ (List.getElem_mem hi)]

theorem run_not_avail {dst src : ℤ} {avail : List Bool} (h : Pattern k source src src_stride avail)
    (hall : ∀ b ∈ avail, b = false) :
    Lib.strided (dst_assign_na k) dst dst_stride avail.length =
      Lib.strided (single k source) (dst, src) (dst_stride, src_stride) avail.length := by
  refine (strided_congr fun i hi => single_of_not_avail ?_).symm
  rw [place, h i _ (List.getElem?_eq_getElem hi), hall _ (List.getElem_mem hi)]

/-- The loop treats the chunk's elements one after the other, and moves `src`
if the last one is available. -/
theorem runs_spec (dst_stride : ℤ) (avail : List Bool) (src_copy : ℤ) (h : Pattern k source src_copy src_stride avail)
    (hne : avail ≠ []) :
    ∃ tail : ℕ, (tail = 0 ↔ avail.getLast hne = false) ∧ ∀ (dst src : ℤ) (d : D),
      runs k source dst_stride src_stride avail dst src src_copy d =
        (fun d => (dst + avail.length • dst_stride, src + tail • src_stride, d)) <$>
          Lib.strided (single k source) (dst, src_copy) (dst_stride, src_stride) avail.length d := by
  obtain ⟨n, hn⟩ : ∃ n, avail.length = n := ⟨_, rfl⟩
  induction n using Nat.strong_induction_on generalizing avail src_copy with
  | _ n ih =>
    have hrun := List.takeWhile_append_dropWhile (p := fun b => b) (l := avail)
    have hrun' := List.takeWhile_append_dropWhile (p := fun b => !b) (l := avail.dropWhile fun b => b)
    have has := List.all_takeWhile (p := fun b => b) (l := avail)
    have hbs := List.all_takeWhile (p := fun b => !b) (l := avail.dropWhile fun b => b)
    have hseg := segment_ne_nil avail
    have hruns := runs.eq_def k source dst_stride src_stride avail
    dsimp only at hruns
    -- the available values, those not available, and the rest
    revert hrun hrun' has hbs hseg hruns
    generalize avail.takeWhile (fun b => b) = as
    generalize avail.dropWhile (fun b => b) = rest
    generalize rest.takeWhile (fun b => !b) = bs
    generalize rest.dropWhile (fun b => !b) = cs
    intro hrun hrun' has hbs hseg hruns
    subst hrun
    obtain ⟨hpas, hprest⟩ := h.append
    have has : ∀ b ∈ as, b = true := by simpa using has
    have hbs : ∀ b ∈ bs, b = false := by simpa using hbs
    by_cases hrest : rest = []
    · subst hrest
      have hne' : as ≠ [] := by simpa using hne
      refine ⟨as.length, ?_, fun dst src d => ?_⟩
      · simp [hne', has _ (List.getLast_mem hne')]
      · rw [hruns, if_pos rfl, run_avail hpas has, List.append_nil, bind_pure_comp]
    · replace hseg := hseg hrest
      simp only [if_neg hrest] at hruns
      subst hrun'
      obtain ⟨hpbs, hpcs⟩ := hprest.append
      by_cases hcs : cs = []
      · subst hcs
        refine ⟨0, ?_, fun dst src d => ?_⟩
        · simp only [List.append_nil]
          rw [List.getLast_append_of_ne_nil _ hseg, hbs _ (List.getLast_mem hseg)]
          simp
        · rw [hruns, List.append_nil, List.length_append, strided_add, place, run_avail hpas has, map_bind]
          refine bind_congr fun d => ?_
          simp only [↓reduceIte]
          rw [run_not_avail hpbs hbs, bind_pure_comp, add_nsmul, add_assoc, zero_nsmul, add_zero]
      · have hpos := List.length_pos_iff.mpr hseg
        rw [List.length_append, List.length_append] at hn
        obtain ⟨tail, htail, hcsrun⟩ := ih cs.length (by omega) cs _ hpcs hcs rfl
        refine ⟨tail, ?_, fun dst src d => ?_⟩
        · rw [htail, List.getLast_append_of_ne_nil _ hrest, List.getLast_append_of_ne_nil _ hcs]
        · rw [hruns, List.length_append, List.length_append, strided_add, place, run_avail hpas has, map_bind]
          refine bind_congr fun d => ?_
          rw [strided_add, place, run_not_avail hpbs hbs, map_bind]
          refine bind_congr fun d => ?_
          rw [if_neg hcs, hcsrun, add_nsmul, add_nsmul, ← add_assoc, ← add_assoc]

/-- Every chunk starts with the first element again. -/
def restarted (k : children E D) (source : ℤ → Option E) (dst dst_stride src src_stride : ℤ) (i : ℕ) (d : D) :
    Except Fault D :=
  single k source (dst + i • dst_stride, src + (i % DYND_BUFFER_CHUNK_SIZE) • src_stride) d

/-- One chunk, whose flags are read from its start. -/
theorem chunk_spec (dst_stride : ℤ) {N chunk : ℕ} {p : ℕ → Bool} {src : ℤ}
    (hp : ∀ i < N, src_is_avail k source (src + i • src_stride) = .ok (p i)) (hchunk : chunk ≤ N) (hpos : 0 < chunk) :
    src_is_avail_strided k source src src_stride chunk = .ok ((List.range chunk).map p) ∧
      ∃ tail : ℕ, (tail = 0 ↔ p (chunk - 1) = false) ∧ ∀ (dst src' : ℤ) (d : D),
        runs k source dst_stride src_stride ((List.range chunk).map p) dst src' src d =
          (fun d => (dst + chunk • dst_stride, src' + tail • src_stride, d)) <$>
            Lib.strided (single k source) (dst, src) (dst_stride, src_stride) chunk d := by
  have hpat := pattern_map hp hchunk
  have hne : (List.range chunk).map p ≠ [] := by
    rw [← List.length_pos_iff, List.length_map, List.length_range]
    exact hpos
  have havail := src_is_avail_strided_eq hpat
  obtain ⟨tail, htail, hruns⟩ := runs_spec dst_stride _ src hpat hne
  rw [List.length_map, List.length_range] at havail hruns
  rw [List.getLast_map, List.getLast_range] at htail
  exact ⟨havail, tail, htail, hruns⟩

/-- In a chunk, to start again is to go on. -/
theorem strided_restarted (dst dst_stride src : ℤ) (q : ℕ) {chunk : ℕ} (hchunk : chunk ≤ DYND_BUFFER_CHUNK_SIZE) :
    Lib.strided (single k source) (dst + (DYND_BUFFER_CHUNK_SIZE * q) • dst_stride, src) (dst_stride, src_stride) chunk =
      Lib.strided (restarted k source dst dst_stride src src_stride) (DYND_BUFFER_CHUNK_SIZE * q) 1 chunk := by
  refine strided_congr fun i hi => ?_
  funext d
  unfold restarted
  rw [smul_eq_mul, mul_one, Nat.mul_add_mod, Nat.mod_eq_of_lt (by omega), add_nsmul, ← add_assoc]
  rfl

/-- As long as `src` stays where it is. -/
theorem chunks_spec (dst dst_stride : ℤ) {N : ℕ} {p : ℕ → Bool} {src : ℤ}
    (hp : ∀ i < N, src_is_avail k source (src + i • src_stride) = .ok (p i)) (q count : ℕ) (d : D) (hcount : count ≤ N)
    (h : count ≤ DYND_BUFFER_CHUNK_SIZE ∨ src_stride = 0 ∨ p (DYND_BUFFER_CHUNK_SIZE - 1) = false) :
    chunks k source dst_stride src_stride src (dst + (DYND_BUFFER_CHUNK_SIZE * q) • dst_stride) 0 count d =
      Lib.strided (restarted k source dst dst_stride src src_stride) (DYND_BUFFER_CHUNK_SIZE * q) 1 count d := by
  induction count using Nat.strong_induction_on generalizing q d with
  | _ count ih =>
    unfold chunks
    by_cases h0 : count = 0
    · rw [if_pos h0, h0]
      rfl
    · rw [if_neg h0]
      have hC : 0 < DYND_BUFFER_CHUNK_SIZE := by decide
      dsimp only
      obtain ⟨chunk, hchunk⟩ : ∃ chunk, min count DYND_BUFFER_CHUNK_SIZE = chunk := ⟨_, rfl⟩
      rw [hchunk]
      obtain ⟨havail, tail, htail, hruns⟩ := chunk_spec dst_stride hp (show chunk ≤ N by omega) (by omega)
      have hfirst : first_pointer src 0 = .ok src := if_pos rfl
      rw [hfirst, ok_bind, havail, ok_bind, hruns]
      have hcut : count = chunk + (count - chunk) := by omega
      conv_rhs => rw [hcut, strided_add]
      rw [strided_restarted dst dst_stride src q (show chunk ≤ DYND_BUFFER_CHUNK_SIZE by omega), bind_map_left]
      refine bind_congr fun d => ?_
      dsimp only
      by_cases hlast : count - chunk = 0
      · unfold chunks
        rw [hlast, if_pos rfl]
        rfl
      · -- the chunk is a full one, and `src` has not moved
        have hfull : chunk = DYND_BUFFER_CHUNK_SIZE := by omega
        have htail : tail • src_stride = 0 := by
          obtain hsmall | hzero | hna := h
          · omega
          · rw [hzero, smul_zero]
          · rw [htail.mpr (hfull ▸ hna), zero_nsmul]
        have hdst : dst + (DYND_BUFFER_CHUNK_SIZE * q) • dst_stride + chunk • dst_stride =
            dst + (DYND_BUFFER_CHUNK_SIZE * (q + 1)) • dst_stride := by
          rw [hfull, Nat.mul_succ, add_nsmul, add_assoc]
        have hnext : DYND_BUFFER_CHUNK_SIZE * q + chunk • 1 = DYND_BUFFER_CHUNK_SIZE * (q + 1) := by
          rw [hfull, Nat.mul_succ, smul_eq_mul, mul_one]
        rw [htail, add_zero, hdst, hnext]
        exact ih _ (by omega) (q + 1) d (by omega) (h.imp_left fun _ => by omega)

/-- With an available element at the first chunk's end `src` has moved. -/
theorem chunks_outside {p : ℕ → Bool} {dst src : ℤ} {count : ℕ} {d d' : D}
    (hp : ∀ i < count, src_is_avail k source (src + i • src_stride) = .ok (p i)) (hcount : DYND_BUFFER_CHUNK_SIZE < count)
    (hstride : src_stride ≠ 0) (hlast : p (DYND_BUFFER_CHUNK_SIZE - 1) = true)
    (hok : Lib.strided (single k source) (dst, src) (dst_stride, src_stride) DYND_BUFFER_CHUNK_SIZE d = .ok d') :
    strided k source dst dst_stride src src_stride count d = .error .outside := by
  have hC : 0 < DYND_BUFFER_CHUNK_SIZE := by decide
  obtain ⟨havail, tail, htail, hruns⟩ := chunk_spec dst_stride hp hcount.le hC
  have hmoved : tail • src_stride ≠ 0 := by
    refine smul_ne_zero (fun h0 => ?_) hstride
    rw [htail, hlast] at h0
    cases h0
  have hfirst : first_pointer src 0 = .ok src := if_pos rfl
  unfold strided chunks
  rw [if_neg (by omega)]
  dsimp only
  rw [hfirst, ok_bind, Nat.min_eq_right hcount.le, havail, ok_bind, hruns, hok, map_ok, ok_bind]
  unfold chunks first_pointer
  rw [if_neg (by omega), zero_add, if_neg hmoved]
  rfl

end option_to_option_ck

/-- On an element an assignment fails only if it raises. -/
theorem raised_of_value_assign {p : ℤ × ℤ} {d : D} {b : Bool} {e : Fault} (h : src_is_avail k source p.2 = .ok b)
    (he : value_assign k source p d = .error e) : e = .raised := by
  obtain ⟨x, hx, -⟩ := map_eq_ok.mp h
  unfold value_assign at he
  rw [hx, ok_bind] at he
  unfold raising at he
  split at he
  · cases he
  · exact (Except.error.inj he).symm

theorem raised_of_dst_assign_na {dst : ℤ} {d : D} {e : Fault} (he : dst_assign_na k dst d = .error e) : e = .raised := by
  unfold dst_assign_na raising at he
  split at he
  · cases he
  · exact (Except.error.inj he).symm

theorem option_to_option_ck.raised_of_single {p : ℤ × ℤ} {d : D} {b : Bool} {e : Fault}
    (h : src_is_avail k source p.2 = .ok b) (he : option_to_option_ck.single k source p d = .error e) : e = .raised := by
  cases b with
  | true =>
    rw [single_of_avail h] at he
    exact raised_of_value_assign k source h he
  | false =>
    rw [single_of_not_avail h] at he
    exact raised_of_dst_assign_na k he

namespace option_to_value_ck

variable {k source} {dst_stride src_stride : ℤ}

theorem single_of_avail {p : ℤ × ℤ} (h : src_is_avail k source p.2 = .ok true) :
    single k source p = value_assign k source p := by
  funext d
  unfold single
  rw [h]
  rfl

theorem single_of_not_avail {p : ℤ × ℤ} (h : src_is_avail k source p.2 = .ok false) (d : D) :
    single k source p d = .error .raised := by
  unfold single
  rw [h]
  rfl

theorem raised_of_single {p : ℤ × ℤ} {d : D} {b : Bool} {e : Fault}
    (h : src_is_avail k source p.2 = .ok b) (he : single k source p d = .error e) : e = .raised := by
  cases b with
  | true =>
    rw [single_of_avail h] at he
    exact raised_of_value_assign k source h he
  | false =>
    rw [single_of_not_avail h] at he
    exact (Except.error.inj he).symm

theorem strided_spec (dst dst_stride : ℤ) {p : ℕ → Bool} {src : ℤ} {count : ℕ} (d : D)
    (hp : ∀ i < count, src_is_avail k source (src + i • src_stride) = .ok (p i)) :
    strided k source dst dst_stride src src_stride count d =
      Lib.strided (single k source) (dst, src) (dst_stride, src_stride) count d := by
  induction count using Nat.strong_induction_on generalizing dst src p d with
  | _ count ih =>
    unfold strided
    by_cases h0 : count = 0
    · rw [if_pos h0, h0]
      rfl
    · rw [if_neg h0]
      have hC : 0 < DYND_BUFFER_CHUNK_SIZE := by decide
      dsimp only
      obtain ⟨chunk, hchunk⟩ : ∃ chunk, min count DYND_BUFFER_CHUNK_SIZE = chunk := ⟨_, rfl⟩
      rw [hchunk]
      have hpat := pattern_map hp (show chunk ≤ count by omega)
      have havail := src_is_avail_strided_eq hpat
      rw [List.length_map, List.length_range] at havail
      have hcut : count = chunk + (count - chunk) := by omega
      conv_rhs => rw [hcut, strided_add, place]
      rw [havail, ok_bind]
      by_cases hna : false ∈ (List.range chunk).map p
      · rw [if_pos hna]
        obtain ⟨i, hi, hpi⟩ := List.mem_map.mp hna
        have hi := List.mem_range.mp hi
        rw [strided_error ⟨i, hi, fun x => single_of_not_avail ?_ x⟩ fun j hj x e => raised_of_single (hp j (by omega))]
        · rfl
        · rw [place, hp i (by omega), hpi]
      · rw [if_neg hna, strided_congr (g := single k source) (q := (dst, src)) (t := (dst_stride, src_stride)) fun i hi => ?_]
        · refine bind_congr fun d => ?_
          refine ih _ (by omega) _ (p := fun i => p (chunk + i)) _ fun i hi => ?_
          rw [add_assoc, ← add_nsmul]
          exact hp _ (by omega)
        · refine (single_of_avail ?_).symm
          rw [place, hp i (by omega)]
          congr 1
          by_contra hpi
          exact hna (List.mem_map.mpr ⟨i, List.mem_range.mpr hi, by simpa using hpi⟩)

end option_to_value_ck
end

/-! ## Strided and single -/

/-- For every children and elements of the given pattern the strided entry
points come to what the single ones come to on one element after the other,
and read nothing else. -/
def StridedIsIterated (count : ℕ) (dst_stride src_stride : ℤ) (pattern : ℕ → Bool) : Prop :=
  ∀ (E D : Type) (k : children E D) (source : ℤ → Option E) (dst src : ℤ) (d : D),
    (∀ i < count, src_is_avail k source (src + i • src_stride) = .ok (pattern i)) →
      (option_to_option_ck.strided k source dst dst_stride src src_stride count d =
          Lib.strided (option_to_option_ck.single k source) (dst, src) (dst_stride, src_stride) count d ∧
        option_to_option_ck.strided k source dst dst_stride src src_stride count d ≠ .error .outside) ∧
      option_to_value_ck.strided k source dst dst_stride src src_stride count d =
          Lib.strided (option_to_value_ck.single k source) (dst, src) (dst_stride, src_stride) count d ∧
        option_to_value_ck.strided k source dst dst_stride src src_stride count d ≠ .error .outside

/-- One chunk at most, one element only, or no available element where a later
chunk reads, in its own elements and at the end of the first chunk. -/
def StaysRight (count : ℕ) (src_stride : ℤ) (pattern : ℕ → Bool) : Prop :=
  count ≤ DYND_BUFFER_CHUNK_SIZE ∨ src_stride = 0 ∨
    pattern (DYND_BUFFER_CHUNK_SIZE - 1) = false ∧
      ∀ i < count, DYND_BUFFER_CHUNK_SIZE ≤ i → pattern i = false ∧ pattern (i % DYND_BUFFER_CHUNK_SIZE) = false

/-- The numbers of the elements that are assigned, and `none` for an NA. -/
def noting (pattern : ℕ → Bool) : children ℕ (List (Option ℕ)) where
  is_avail := pattern
  value_assign _ e d := some (d ++ [some e])
  assign_na _ d := some (d ++ [none])

section
variable {pattern : ℕ → Bool} {src_stride : ℤ}

/-- What is noted for an element. -/
def note (pattern : ℕ → Bool) (e : ℕ) : Option ℕ := if pattern e then some e else none

theorem noting_single (h : src_stride ≠ 0) (dst : ℤ) (i : ℕ) (d : List (Option ℕ)) :
    option_to_option_ck.single (noting pattern) (fun a => some (a / src_stride).toNat) (dst, 0 + i • src_stride) d =
      .ok (d ++ [note pattern i]) := by
  have hi : ((0 + i • src_stride) / src_stride).toNat = i := by
    rw [zero_add, nsmul_eq_mul, Int.mul_ediv_cancel _ h]
    rfl
  have havail : src_is_avail (noting pattern) (fun a => some (a / src_stride).toNat) (0 + i • src_stride) =
      .ok (pattern i) := by
    unfold src_is_avail read
    dsimp only
    rw [hi]
    rfl
  unfold note
  cases hp : pattern i with
  | true =>
    rw [hp] at havail
    rw [option_to_option_ck.single_of_avail havail]
    unfold value_assign read
    dsimp only
    rw [hi]
    rfl
  | false =>
    rw [hp] at havail
    rw [option_to_option_ck.single_of_not_avail havail]
    rfl

theorem stays_right_of_iterated {count : ℕ} {dst_stride : ℤ} (h : StridedIsIterated count dst_stride src_stride pattern) :
    StaysRight count src_stride pattern := by
  unfold StaysRight
  by_cases hcount : count ≤ DYND_BUFFER_CHUNK_SIZE
  · exact .inl hcount
  by_cases hstride : src_stride = 0
  · exact .inr (.inl hstride)
  have hsource : ∀ i < count, src_is_avail (noting pattern) (fun a => some (a / src_stride).toNat) (0 + i • src_stride) =
      .ok (pattern i) := by
    intro i _
    unfold src_is_avail read
    dsimp only
    rw [zero_add, nsmul_eq_mul, Int.mul_ediv_cancel _ hstride]
    rfl
  have hnotes : ∀ n, Lib.strided (option_to_option_ck.single (noting pattern) fun a => some (a / src_stride).toNat) (0, 0)
      (dst_stride, src_stride) n [] = .ok ((List.range n).map (note pattern)) := by
    intro n
    have hindex : Lib.strided (option_to_option_ck.single (noting pattern) fun a => some (a / src_stride).toNat) (0, 0)
        (dst_stride, src_stride) n = Lib.strided (fun i d => .ok (d ++ [note pattern i])) 0 1 n := by
      refine strided_congr fun i _ => ?_
      funext d
      rw [place, noting_single hstride, smul_eq_mul, mul_one, zero_add]
    rw [hindex, strided_log (g := note pattern) (fun i _ x => rfl)]
    simp
  obtain ⟨⟨hrun, hinside⟩, -⟩ := h _ _ (noting pattern) _ 0 0 [] hsource
  cases hlast : pattern (DYND_BUFFER_CHUNK_SIZE - 1) with
  | true => exact absurd (option_to_option_ck.chunks_outside hsource (by omega) hstride hlast (hnotes _)) hinside
  | false =>
    refine .inr (.inr ⟨rfl, fun i hi hC => ?_⟩)
    have hchunks := option_to_option_ck.chunks_spec 0 dst_stride hsource 0 count [] le_rfl
      (.inr (.inr hlast))
    have hindex : Lib.strided (option_to_option_ck.restarted (noting pattern) (fun a => some (a / src_stride).toNat) 0
        dst_stride 0 src_stride) 0 1 count =
        Lib.strided (fun i d => .ok (d ++ [note pattern (i % DYND_BUFFER_CHUNK_SIZE)])) 0 1 count := by
      refine strided_congr fun i _ => ?_
      funext d
      unfold option_to_option_ck.restarted
      rw [noting_single hstride]
    rw [hnotes] at hrun
    rw [mul_zero, zero_nsmul, add_zero, hindex,
      strided_log (g := fun i => note pattern (i % DYND_BUFFER_CHUNK_SIZE)) (fun i _ x => rfl)] at hchunks
    have hlists := hchunks.symm.trans hrun
    simp only [List.nil_append, Except.ok.injEq, zero_add, smul_eq_mul, mul_one, List.map_inj_left, List.mem_range]
      at hlists
    have hne : i % DYND_BUFFER_CHUNK_SIZE ≠ i := by
      have := Nat.mod_lt i (show 0 < DYND_BUFFER_CHUNK_SIZE by decide)
      omega
    have hnote := hlists i hi
    unfold note at hnote
    cases hp : pattern i <;> cases hp' : pattern (i % DYND_BUFFER_CHUNK_SIZE) <;> simp_all

theorem iterated_of_stays_right {count : ℕ} {dst_stride : ℤ} (h : StaysRight count src_stride pattern) :
    StridedIsIterated count dst_stride src_stride pattern := by
  intro E D k source dst src d hp
  have hoption : option_to_option_ck.strided k source dst dst_stride src src_stride count d =
      Lib.strided (option_to_option_ck.single k source) (dst, src) (dst_stride, src_stride) count d := by
    have hchunks := option_to_option_ck.chunks_spec dst dst_stride hp 0 count d le_rfl
      (h.imp_right fun h => h.imp_right And.left)
    rw [mul_zero, zero_nsmul, add_zero] at hchunks
    unfold option_to_option_ck.strided
    rw [hchunks]
    refine congrFun (strided_congr fun i hi => ?_) d
    funext d
    unfold option_to_option_ck.restarted
    rw [place, smul_eq_mul, mul_one, zero_add]
    by_cases hi' : i < DYND_BUFFER_CHUNK_SIZE
    · rw [Nat.mod_eq_of_lt hi']
    · obtain hsmall | hzero | ⟨-, hna⟩ := h
      · omega
      · rw [hzero, smul_zero, smul_zero]
      · -- neither element is available
        obtain ⟨hnow, hthen⟩ := hna i hi (by omega)
        have hlt := Nat.mod_lt i (show 0 < DYND_BUFFER_CHUNK_SIZE by decide)
        rw [option_to_option_ck.single_of_not_avail (p := (_, src + i • src_stride)) (by rw [hp i hi, hnow]),
          option_to_option_ck.single_of_not_avail (by rw [hp _ (by omega), hthen])]
  have hvalue := option_to_value_ck.strided_spec dst dst_stride d hp
  refine ⟨⟨hoption, fun he => ?_⟩, hvalue, fun he => ?_⟩
  · rw [hoption] at he
    obtain ⟨i, hi, x, he⟩ := error_of_strided he
    cases option_to_option_ck.raised_of_single k source (hp i hi) he
  · rw [hvalue] at he
    obtain ⟨i, hi, x, he⟩ := error_of_strided he
    cases option_to_value_ck.raised_of_single (hp i hi) he

/-- The strided entry points do what the single ones do on one element after
the other if and only if `option_to_option_ck` does not notice that it starts
every chunk with the first elements. -/
theorem strided_iff (count : ℕ) (dst_stride src_stride : ℤ) (pattern : ℕ → Bool) :
    StridedIsIterated count dst_stride src_stride pattern ↔ StaysRight count src_stride pattern :=
  ⟨stays_right_of_iterated, iterated_of_stays_right⟩

/-- 129 available elements. -/
theorem too_many_elements : ¬ ∀ count dst_stride src_stride pattern,
    StridedIsIterated count dst_stride src_stride pattern := by
  intro h
  obtain hsmall | hzero | ⟨hlast, -⟩ := stays_right_of_iterated (h 129 1 1 fun _ => true)
  · exact absurd hsmall (by decide)
  · cases hzero
  · cases hlast

end
end OptionAssign
end Dynd
