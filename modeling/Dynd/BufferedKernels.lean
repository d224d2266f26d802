import Dynd.OptionAssign
/-!
# Kernels with buffers

The strided entry points of `buffered_ck` and `buffered_kernel_extra` against
their single ones, called for one element after the other. From chunk to chunk
`buffered_ck` moves only its sources without a buffer; `buffered_strided_iff` says when
that is no difference. The destination, the sources and the buffers do not
overlap.
-/
namespace Dynd.Buffered

open Lib

/-- What is left of a run that raises. -/
inductive Raised where
  | raised

/-- The child kernels of `buffered_ck` on values `V` and a destination `D`: the
assignments to the buffers, and the kernel for the destination. -/
structure children (V D : Type) where
  assign : ℕ → V → Except Raised V
  child : ℤ → List V → D → Except Raised D

/-- The addresses of a buffer count its slots. -/
structure State (V D : Type) where
  bufs : ℕ → ℤ → V
  dst : D

section
variable {V D : Type}

/-- The single entry point of an assignment to a buffer; the places are the
buffer's and the source's. -/
def convert (assign : V → Except Raised V) (memory : ℤ → V) (p : ℤ × ℤ) (buffer : ℤ → V) : Except Raised (ℤ → V) := do
  let v ← assign (memory p.2)
  pure (Function.update buffer p.1 v)

namespace buffered_ck

def get_storage : ℤ := 0

def get_stride : ℤ := 1

variable (m_nsrc : ℕ) (buffered : ℕ → Bool) (k : children V D) (memory : ℕ → ℤ → V)

/-- The assignment of source `i` to its buffer. -/
def ck_single (i : ℕ) (p : ℤ × ℤ) (bufs : ℕ → ℤ → V) : Except Raised (ℕ → ℤ → V) := do
  let buffer ← convert (k.assign i) (memory i) p (bufs i)
  pure (Function.update bufs i buffer)

/-- What the child kernel reads. -/
def operand (bufs : ℕ → ℤ → V) (i : ℕ) (buf_src : ℤ) : V :=
  if buffered i then bufs i buf_src else memory i buf_src

def child_single (bufs : ℕ → ℤ → V) (p : ℤ × (ℕ → ℤ)) (d : D) : Except Raised D :=
  k.child p.1 ((List.range m_nsrc).map fun i => operand buffered memory bufs i (p.2 i)) d

def buf_src (src : ℕ → ℤ) (i : ℕ) : ℤ := if buffered i then get_storage else src i

def buf_stride (src_stride : ℕ → ℤ) (i : ℕ) : ℤ := if buffered i then get_stride else src_stride i

def single (p : ℤ × (ℕ → ℤ)) (st : State V D) : Except Raised (State V D) := do
  let bufs ← (List.range m_nsrc).foldlM (fun bufs i =>
    if buffered i then ck_single k memory i (get_storage, p.2 i) bufs else pure bufs) st.bufs
  let d ← child_single m_nsrc buffered k memory bufs (p.1, buf_src buffered p.2) st.dst
  pure ⟨bufs, d⟩

section
variable (dst dst_stride : ℤ) (src src_stride : ℕ → ℤ)

def fill (chunk_size : ℕ) (bufs : ℕ → ℤ → V) : Except Raised (ℕ → ℤ → V) :=
  (List.range m_nsrc).foldlM (fun bufs i =>
    if buffered i then
      Lib.strided (ck_single k memory i) (get_storage, src i) (get_stride, src_stride i) chunk_size bufs
    else pure bufs) bufs

/-- The buffers are filled before and after the child's run, from `src` as it
was in the beginning. -/
def chunks (buf_src : ℕ → ℤ) (count : ℕ) (st : State V D) : Except Raised (State V D) :=
  if count = 0 then pure st
  else do
    let chunk_size := min count DYND_BUFFER_CHUNK_SIZE
    let bufs ← fill m_nsrc buffered k memory src src_stride chunk_size st.bufs
    let d ← Lib.strided (child_single m_nsrc buffered k memory bufs) (dst, buf_src)
      (dst_stride, buf_stride buffered src_stride) chunk_size st.dst
    let bufs ← fill m_nsrc buffered k memory src src_stride chunk_size bufs
    chunks (fun i => if buffered i then buf_src i else buf_src i + chunk_size • buf_stride buffered src_stride i)
      (count - chunk_size) ⟨bufs, d⟩
termination_by count
decreasing_by
  unfold DYND_BUFFER_CHUNK_SIZE
  omega

def strided (count : ℕ) (st : State V D) : Except Raised (State V D) :=
  chunks m_nsrc buffered k memory dst dst_stride src src_stride (buf_src buffered src) count st

end
end buffered_ck

/-- The child kernels of `buffered_kernel_extra`, and what its buffer is set to
if its type needs that. -/
structure extra_children (V D : Type) where
  zeroinit : Option V
  first : V → Except Raised V
  second : ℤ → V → D → Except Raised D

namespace buffered_kernel_extra

structure State (V D : Type) where
  buffer_data : ℤ → V
  dst : D

variable (e : extra_children V D) (memory : ℤ → V)

/-- The first slots, if the type needs that. -/
def memset (count : ℕ) (buffer_data : ℤ → V) : ℤ → V :=
  match e.zeroinit with
  | some zero => fun slot => if 0 ≤ slot ∧ slot < count then zero else buffer_data slot
  | none => buffer_data

def opchild_first : ℤ × ℤ → (ℤ → V) → Except Raised (ℤ → V) := convert e.first memory

def opchild_second (buffer_data : ℤ → V) (p : ℤ × ℤ) (d : D) : Except Raised D := e.second p.1 (buffer_data p.2) d

def single (p : ℤ × ℤ) (st : State V D) : Except Raised (State V D) := do
  let buffer_data ← opchild_first e memory (0, p.2) (memset e 1 st.buffer_data)
  let d ← opchild_second e buffer_data (p.1, 0) st.dst
  pure ⟨buffer_data, d⟩

def strided (dst dst_stride src0 src0_stride : ℤ) (count : ℕ) (st : State V D) : Except Raised (State V D) :=
  if count = 0 then pure st
  else do
    let chunk_size := min count DYND_BUFFER_CHUNK_SIZE
    let buffer_data ← Lib.strided (opchild_first e memory) (0, src0) (1, src0_stride) chunk_size
      (memset e chunk_size st.buffer_data)
    let d ← Lib.strided (opchild_second e buffer_data) (dst, 0) (dst_stride, 1) chunk_size st.dst
    strided (dst + chunk_size • dst_stride) dst_stride (src0 + chunk_size • src0_stride) src0_stride
      (count - chunk_size) ⟨buffer_data, d⟩
termination_by count
decreasing_by
  unfold DYND_BUFFER_CHUNK_SIZE
  omega

end buffered_kernel_extra

/-! ## The buffers -/

section
variable {assign : V → Except Raised V} {memory : ℤ → V} {src src_stride : ℤ} {n : ℕ} {buffer buffer' : ℤ → V}

/-- The slots hold the converted values. -/
theorem convert_ok (h : Lib.strided (convert assign memory) (0, src) (1, src_stride) n buffer = .ok buffer') :
    ∀ j < n, assign (memory (src + j • src_stride)) = .ok (buffer' j) := by
  induction n generalizing buffer' with
  | zero => exact fun j hj => absurd hj (by omega)
  | succ n ih =>
    rw [strided_add] at h
    obtain ⟨buffer₁, h₁, h⟩ := bind_eq_ok.mp h
    rw [strided_one] at h
    obtain ⟨v, hv, h⟩ := bind_eq_ok.mp h
    cases h
    intro j hj
    by_cases hlast : j = n
    · subst hlast
      simpa using hv
    · have hne : (j : ℤ) ≠ n := by exact_mod_cast hlast
      simpa [hne] using ih h₁ j (by omega)

theorem convert_error {e : Raised}
    (h : Lib.strided (convert assign memory) (0, src) (1, src_stride) n buffer = .error e) :
    ∃ j < n, assign (memory (src + j • src_stride)) = .error e := by
  obtain ⟨j, hj, x, h⟩ := error_of_strided h
  refine ⟨j, hj, ?_⟩
  obtain h | ⟨v, -, h⟩ := bind_eq_error.mp h
  · exact h
  · cases h

end

namespace buffered_ck

variable {m_nsrc : ℕ} {buffered : ℕ → Bool} {k : children V D} {memory : ℕ → ℤ → V}

/-- Nothing but the one buffer changes. -/
theorem ck_strided_eq (i : ℕ) (p s : ℤ × ℤ) (n : ℕ) (bufs : ℕ → ℤ → V) :
    Lib.strided (ck_single k memory i) p s n bufs =
      Function.update bufs i <$> Lib.strided (convert (k.assign i) (memory i)) p s n (bufs i) := by
  rw [strided_map (g := ck_single k memory i) fun p buffer => ?_, Function.update_eq_self]
  unfold ck_single
  rw [Function.update_self, ← bind_pure_comp]
  simp

section
variable {src src_stride : ℕ → ℤ} {n : ℕ} {bufs bufs' : ℕ → ℤ → V}

theorem fill_succ (m : ℕ) : fill (m + 1) buffered k memory src src_stride n bufs =
    fill m buffered k memory src src_stride n bufs >>= fun bufs =>
      if buffered m then Lib.strided (ck_single k memory m) (0, src m) (1, src_stride m) n bufs else pure bufs := by
  unfold fill
  rw [List.range_succ, List.foldlM_append]
  refine bind_congr fun bufs => ?_
  rw [List.foldlM_cons]
  exact bind_pure _

theorem fill_ok (h : fill m_nsrc buffered k memory src src_stride n bufs = .ok bufs') :
    ∀ i < m_nsrc, buffered i = true → ∀ j < n, k.assign i (memory i (src i + j • src_stride i)) = .ok (bufs' i j) := by
  induction m_nsrc generalizing bufs' with
  | zero => exact fun i hi => absurd hi (by omega)
  | succ m ih =>
    rw [fill_succ] at h
    obtain ⟨bufs₁, h₁, h⟩ := bind_eq_ok.mp h
    intro i hi hb j hj
    by_cases hlast : i = m
    · subst hlast
      rw [if_pos hb] at h
      rw [ck_strided_eq] at h
      obtain ⟨buffer, hbuffer, rfl⟩ := map_eq_ok.mp h
      rw [Function.update_self]
      exact convert_ok hbuffer j hj
    · have hsame : bufs' i = bufs₁ i := by
        split_ifs at h
        · rw [ck_strided_eq] at h
          obtain ⟨buffer, -, rfl⟩ := map_eq_ok.mp h
          rw [Function.update_of_ne hlast]
        · cases h
          rfl
      rw [hsame]
      exact ih h₁ i (by omega) hb j hj

theorem fill_error {e : Raised} (h : fill m_nsrc buffered k memory src src_stride n bufs = .error e) :
    ∃ i < m_nsrc, buffered i = true ∧ ∃ j < n, k.assign i (memory i (src i + j • src_stride i)) = .error e := by
  induction m_nsrc with
  | zero => cases h
  | succ m ih =>
    rw [fill_succ] at h
    obtain h | ⟨bufs₁, -, h⟩ := bind_eq_error.mp h
    · obtain ⟨i, hi, hrest⟩ := ih h
      exact ⟨i, by omega, hrest⟩
    · split_ifs at h with hb
      · rw [ck_strided_eq] at h
        exact ⟨m, by omega, hb, convert_error (map_eq_error.mp h)⟩
      · cases h

/-- Whether the buffers can be filled does not depend on what they hold. -/
theorem fill_again (h : fill m_nsrc buffered k memory src src_stride n bufs = .ok bufs') (bufs₂ : ℕ → ℤ → V) :
    ∃ bufs₃, fill m_nsrc buffered k memory src src_stride n bufs₂ = .ok bufs₃ := by
  cases h₂ : fill m_nsrc buffered k memory src src_stride n bufs₂ with
  | ok bufs₃ => exact ⟨bufs₃, rfl⟩
  | error e =>
    obtain ⟨i, hi, hb, j, hj, he⟩ := fill_error h₂
    rw [fill_ok h i hi hb j hj] at he
    cases he

end

/-! ## One element -/

/-- The value of source `i` for the child kernel. -/
def value (buffered : ℕ → Bool) (k : children V D) (memory : ℕ → ℤ → V) (i : ℕ) (a : ℤ) : Except Raised V :=
  if buffered i then k.assign i (memory i a) else .ok (memory i a)

/-- What the single entry point does to the destination. -/
def element (m_nsrc : ℕ) (buffered : ℕ → Bool) (k : children V D) (memory : ℕ → ℤ → V) (p : ℤ × (ℕ → ℤ)) (d : D) :
    Except Raised D := do
  let values ← (List.range m_nsrc).mapM fun i => value buffered k memory i (p.2 i)
  k.child p.1 values d

/-- Only the sources' places count. -/
theorem element_congr {dst : ℤ} {p q : ℕ → ℤ} (h : ∀ i < m_nsrc, p i = q i) :
    element m_nsrc buffered k memory (dst, p) = element m_nsrc buffered k memory (dst, q) := by
  have hvalues : (List.range m_nsrc).map (fun i => value buffered k memory i (p i)) =
      (List.range m_nsrc).map fun i => value buffered k memory i (q i) := by
    refine List.map_congr_left fun i hi => ?_
    rw [h i (List.mem_range.mp hi)]
  funext d
  unfold element
  simpa [List.mapM_map] using congrArg (fun values => values.mapM id >>= fun values => k.child dst values d) hvalues

theorem element_error {p : ℤ × (ℕ → ℤ)} {i : ℕ} (hi : i < m_nsrc) (hb : buffered i = true) {e : Raised}
    (h : k.assign i (memory i (p.2 i)) = .error e) (d : D) :
    element m_nsrc buffered k memory p d = .error .raised := by
  unfold element
  cases hvalues : (List.range m_nsrc).mapM fun i => value buffered k memory i (p.2 i) with
  | error e' => rfl
  | ok values =>
    obtain ⟨v, hv⟩ := ok_of_mapM hvalues i (List.mem_range.mpr hi)
    unfold value at hv
    rw [if_pos hb, h] at hv
    cases hv

/-- The child kernel finds the element's values in the buffers. -/
theorem child_eq_element {bufs : ℕ → ℤ → V} {dst : ℤ} {buf_src a : ℕ → ℤ}
    (h : ∀ i < m_nsrc, value buffered k memory i (a i) = .ok (operand buffered memory bufs i (buf_src i))) :
    child_single m_nsrc buffered k memory bufs (dst, buf_src) = element m_nsrc buffered k memory (dst, a) := by
  funext d
  unfold element child_single
  rw [mapM_eq_map fun i hi => h i (List.mem_range.mp hi)]
  rfl

theorem single_eq (p : ℤ × (ℕ → ℤ)) (st : State V D) : single m_nsrc buffered k memory p st = (do
    let bufs ← fill m_nsrc buffered k memory p.2 (fun _ => 0) 1 st.bufs
    let d ← child_single m_nsrc buffered k memory bufs (p.1, buf_src buffered p.2) st.dst
    pure ⟨bufs, d⟩) := by
  unfold single fill
  simp only [strided_one]

theorem single_spec (p : ℤ × (ℕ → ℤ)) (st : State V D) :
    State.dst <$> single m_nsrc buffered k memory p st = element m_nsrc buffered k memory p st.dst := by
  rw [single_eq]
  cases hfill : fill m_nsrc buffered k memory p.2 (fun _ => 0) 1 st.bufs with
  | error e =>
    obtain ⟨i, hi, hb, j, -, he⟩ := fill_error hfill
    rw [smul_zero, add_zero] at he
    rw [element_error hi hb he]
    rfl
  | ok bufs =>
    have hvalues : ∀ i < m_nsrc, value buffered k memory i (p.2 i) =
        .ok (operand buffered memory bufs i (buf_src buffered p.2 i)) := by
      intro i hi
      unfold value operand buf_src
      split_ifs with hb
      · have hslot := fill_ok hfill i hi hb 0 (by omega)
        rw [smul_zero, add_zero] at hslot
        exact hslot
      · rfl
    rw [ok_bind, child_eq_element hvalues, map_bind]
    exact bind_pure _

/-! ## The loop -/

/-- What the loop does in the place of step `j`: the destination and the
sources with buffers start again in every chunk. -/
def restarted (m_nsrc : ℕ) (buffered : ℕ → Bool) (k : children V D) (memory : ℕ → ℤ → V) (dst dst_stride : ℤ)
    (src src_stride : ℕ → ℤ) (j : ℕ) : D → Except Raised D :=
  element m_nsrc buffered k memory (dst + (j % DYND_BUFFER_CHUNK_SIZE) • dst_stride, fun i =>
    src i + (if buffered i then j % DYND_BUFFER_CHUNK_SIZE else j) • src_stride i)

/-- The sources in front of a chunk. -/
def buf_src_at (buffered : ℕ → Bool) (src src_stride : ℕ → ℤ) (j : ℕ) (i : ℕ) : ℤ :=
  if buffered i then get_storage else src i + j • src_stride i

variable {dst dst_stride : ℤ} {src src_stride : ℕ → ℤ}

theorem place (j : ℕ) (p q : ℕ → ℤ) : (dst, p) + j • (dst_stride, q) = (dst + j • dst_stride, fun i => p i + j • q i) := rfl

theorem buf_src_next (j n : ℕ) : (fun i => if buffered i then buf_src_at buffered src src_stride j i
    else buf_src_at buffered src src_stride j i + n • buf_stride buffered src_stride i) =
      buf_src_at buffered src src_stride (j + n) := by
  funext i
  unfold buf_src_at buf_stride
  split_ifs
  · rfl
  · rw [add_nsmul, add_assoc]

/-- One chunk. -/
theorem chunk_spec {q chunk : ℕ} (hchunk : chunk ≤ DYND_BUFFER_CHUNK_SIZE) {bufs bufs' : ℕ → ℤ → V}
    (hfill : fill m_nsrc buffered k memory src src_stride chunk bufs = .ok bufs') :
    Lib.strided (child_single m_nsrc buffered k memory bufs')
        (dst, buf_src_at buffered src src_stride (DYND_BUFFER_CHUNK_SIZE * q))
        (dst_stride, buf_stride buffered src_stride) chunk =
      Lib.strided (restarted m_nsrc buffered k memory dst dst_stride src src_stride) (DYND_BUFFER_CHUNK_SIZE * q) 1
        chunk := by
  refine strided_congr fun j hj => ?_
  unfold restarted
  rw [place, smul_eq_mul, mul_one, Nat.mul_add_mod, Nat.mod_eq_of_lt (by omega)]
  refine child_eq_element fun i hi => ?_
  unfold value operand buf_src_at buf_stride
  cases hb : buffered i with
  | true =>
    simp only [↓reduceIte]
    rw [fill_ok hfill i hi hb j hj, get_storage, get_stride, nsmul_eq_mul, mul_one, zero_add]
  | false =>
    simp only [Bool.false_eq_true, ↓reduceIte]
    rw [add_nsmul, add_assoc]

/-- The element that cannot be converted raises in its turn, too. -/
theorem chunk_error {q chunk : ℕ} (hchunk : chunk ≤ DYND_BUFFER_CHUNK_SIZE) {bufs : ℕ → ℤ → V} {e : Raised}
    (hfill : fill m_nsrc buffered k memory src src_stride chunk bufs = .error e) (d : D) :
    Lib.strided (restarted m_nsrc buffered k memory dst dst_stride src src_stride) (DYND_BUFFER_CHUNK_SIZE * q) 1 chunk
      d = .error e := by
  obtain ⟨i, hi, hb, j, hj, he⟩ := fill_error hfill
  refine strided_error ⟨j, hj, fun x => ?_⟩ (fun _ _ _ _ _ => rfl) d
  unfold restarted
  rw [smul_eq_mul, mul_one, Nat.mul_add_mod, Nat.mod_eq_of_lt (by omega)]
  rw [← if_pos (c := buffered i = true) hb (t := j) (e := DYND_BUFFER_CHUNK_SIZE * q + j)] at he
  exact element_error hi hb he x

theorem chunks_spec (q count : ℕ) (st : State V D) :
    State.dst <$> chunks m_nsrc buffered k memory dst dst_stride src src_stride
        (buf_src_at buffered src src_stride (DYND_BUFFER_CHUNK_SIZE * q)) count st =
      Lib.strided (restarted m_nsrc buffered k memory dst dst_stride src src_stride) (DYND_BUFFER_CHUNK_SIZE * q) 1 count
        st.dst := by
  induction count using Nat.strong_induction_on generalizing q st with
  | _ count ih =>
    unfold chunks
    by_cases h0 : count = 0
    · rw [if_pos h0, h0]
      rfl
    · rw [if_neg h0]
      have hC : 0 < DYND_BUFFER_CHUNK_SIZE := by decide
      dsimp only
      obtain ⟨chunk, hchunk⟩ : ∃ chunk, min count DYND_BUFFER_CHUNK_SIZE = chunk := ⟨_, rfl⟩
      rw [hchunk]
      have hcut : count = chunk + (count - chunk) := by omega
      conv_rhs => rw [hcut, strided_add]
      cases hfill : fill m_nsrc buffered k memory src src_stride chunk st.bufs with
      | error e =>
        rw [chunk_error (by omega) hfill]
        rfl
      | ok bufs =>
        obtain ⟨bufs', hagain⟩ := fill_again hfill bufs
        rw [ok_bind, chunk_spec (by omega) hfill, map_bind]
        refine bind_congr fun d => ?_
        rw [hagain, ok_bind, buf_src_next]
        by_cases hlast : count - chunk = 0
        · unfold chunks
          rw [hlast, if_pos rfl]
          rfl
        · have hfull : chunk = DYND_BUFFER_CHUNK_SIZE := by omega
          have hnext : DYND_BUFFER_CHUNK_SIZE * q + chunk = DYND_BUFFER_CHUNK_SIZE * (q + 1) := by
            rw [hfull, Nat.mul_succ]
          rw [smul_eq_mul, mul_one, hnext]
          exact ih _ (by omega) (q + 1) ⟨bufs', d⟩

theorem strided_spec (count : ℕ) (st : State V D) :
    State.dst <$> strided m_nsrc buffered k memory dst dst_stride src src_stride count st =
      Lib.strided (restarted m_nsrc buffered k memory dst dst_stride src src_stride) 0 1 count st.dst := by
  have hstart : buf_src buffered src = buf_src_at buffered src src_stride 0 := by
    funext i
    unfold buf_src buf_src_at
    rw [zero_nsmul, add_zero]
  unfold strided
  rw [hstart]
  exact chunks_spec 0 count st

theorem iterated_spec (count : ℕ) (st : State V D) :
    State.dst <$> Lib.strided (single m_nsrc buffered k memory) (dst, src) (dst_stride, src_stride) count st =
      Lib.strided (element m_nsrc buffered k memory) (dst, src) (dst_stride, src_stride) count st.dst :=
  strided_map single_spec _ _ _ _

end buffered_ck

/-! ## The kernel with one buffer -/

namespace buffered_kernel_extra

variable {e : extra_children V D} {memory : ℤ → V} {dst dst_stride src0 src0_stride : ℤ}

/-- What the single entry point does to the destination. -/
def element (e : extra_children V D) (memory : ℤ → V) (p : ℤ × ℤ) (d : D) : Except Raised D := do
  let v ← e.first (memory p.2)
  e.second p.1 v d

theorem single_spec (p : ℤ × ℤ) (st : State V D) : State.dst <$> single e memory p st = element e memory p st.dst := by
  unfold single element opchild_first opchild_second convert
  cases e.first (memory p.2) with
  | error e' => rfl
  | ok v =>
    simp only [ok_bind, pure_eq_ok, map_bind, map_ok, Function.update_self]
    exact bind_pure _

theorem strided_spec (count : ℕ) (st : State V D) :
    State.dst <$> strided e memory dst dst_stride src0 src0_stride count st =
      Lib.strided (element e memory) (dst, src0) (dst_stride, src0_stride) count st.dst := by
  induction count using Nat.strong_induction_on generalizing dst src0 st with
  | _ count ih =>
    unfold strided
    by_cases h0 : count = 0
    · rw [if_pos h0, h0]
      rfl
    · rw [if_neg h0]
      have hC : 0 < DYND_BUFFER_CHUNK_SIZE := by decide
      dsimp only
      obtain ⟨chunk, hchunk⟩ : ∃ chunk, min count DYND_BUFFER_CHUNK_SIZE = chunk := ⟨_, rfl⟩
      rw [hchunk]
      have hcut : count = chunk + (count - chunk) := by omega
      conv_rhs => rw [hcut, strided_add]
      cases hfirst : Lib.strided (opchild_first e memory) (0, src0) (1, src0_stride) chunk
          (memset e chunk st.buffer_data) with
      | error e' =>
        obtain ⟨j, hj, he⟩ := convert_error hfirst
        have helement : ∀ d, element e memory ((dst, src0) + j • (dst_stride, src0_stride)) d = .error e' := by
          exact fun d => bind_eq_error.mpr (.inl he)
        rw [strided_error ⟨j, hj, helement⟩ fun _ _ _ _ _ => rfl]
        rfl
      | ok buffer_data =>
        have hchild : Lib.strided (opchild_second e buffer_data) (dst, 0) (dst_stride, 1) chunk =
            Lib.strided (element e memory) (dst, src0) (dst_stride, src0_stride) chunk := by
          refine strided_congr fun j hj => ?_
          funext d
          have hv := convert_ok hfirst j hj
          have hslot : ((dst, (0 : ℤ)) + j • (dst_stride, (1 : ℤ))).2 = j := by simp
          unfold element opchild_second
          rw [hslot]
          show _ = (e.first (memory (src0 + j • src0_stride)) >>= fun v => e.second _ v d)
          rw [hv]
          rfl
        rw [ok_bind, hchild, map_bind]
        exact bind_congr fun d => ih _ (by omega) ⟨buffer_data, d⟩

end buffered_kernel_extra
end

/-! ## Strided and single -/

/-- For every children, values and places the strided entry points do to the
destination what the single ones do on one element after the other. -/
def StridedIsIterated (count : ℕ) (m_nsrc : ℕ) (buffered : ℕ → Bool) (dst_stride : ℤ) (src_stride : ℕ → ℤ) : Prop :=
  ∀ (V D : Type),
    (∀ (k : children V D) (memory : ℕ → ℤ → V) (dst : ℤ) (src : ℕ → ℤ) (st : State V D),
      State.dst <$> buffered_ck.strided m_nsrc buffered k memory dst dst_stride src src_stride count st =
        State.dst <$> Lib.strided (buffered_ck.single m_nsrc buffered k memory) (dst, src) (dst_stride, src_stride)
          count st) ∧
    ∀ (e : extra_children V D) (memory : ℤ → V) (dst src : ℤ) (src0_stride : ℤ) (st : buffered_kernel_extra.State V D),
      buffered_kernel_extra.State.dst <$> buffered_kernel_extra.strided e memory dst dst_stride src src0_stride count st =
        buffered_kernel_extra.State.dst <$> Lib.strided (buffered_kernel_extra.single e memory) (dst, src)
          (dst_stride, src0_stride) count st

/-- One chunk at most, or neither the destination nor a source with a buffer moves. -/
def StaysRight (count : ℕ) (m_nsrc : ℕ) (buffered : ℕ → Bool) (dst_stride : ℤ) (src_stride : ℕ → ℤ) : Prop :=
  count ≤ DYND_BUFFER_CHUNK_SIZE ∨ dst_stride = 0 ∧ ∀ i < m_nsrc, buffered i = true → src_stride i = 0

/-- Every address holds itself, and the child notes what it is called with. -/
def noting : children ℤ (List (ℤ × List ℤ)) where
  assign _ v := .ok v
  child dst values d := .ok (d ++ [(dst, values)])

section
variable {count m_nsrc : ℕ} {buffered : ℕ → Bool} {dst_stride : ℤ} {src_stride : ℕ → ℤ}

theorem noting_element (p : ℤ × (ℕ → ℤ)) (d : List (ℤ × List ℤ)) :
    buffered_ck.element m_nsrc buffered noting (fun _ a => a) p d = .ok (d ++ [(p.1, (List.range m_nsrc).map p.2)]) := by
  have hvalue : ∀ i ∈ List.range m_nsrc, buffered_ck.value buffered noting (fun _ a => a) i (p.2 i) = .ok (p.2 i) := by
    intro i _
    unfold buffered_ck.value
    split_ifs <;> rfl
  unfold buffered_ck.element
  rw [mapM_eq_map hvalue]
  rfl

theorem stays_right_of_iterated (h : StridedIsIterated count m_nsrc buffered dst_stride src_stride) :
    StaysRight count m_nsrc buffered dst_stride src_stride := by
  unfold StaysRight
  by_cases hcount : count ≤ DYND_BUFFER_CHUNK_SIZE
  · exact .inl hcount
  · have hrun := (h _ _).1 noting (fun _ a => a) 0 (fun _ => 0) ⟨fun _ _ => 0, []⟩
    rw [buffered_ck.strided_spec, buffered_ck.iterated_spec,
      strided_log (g := fun j => (0 + (j % DYND_BUFFER_CHUNK_SIZE) • dst_stride, (List.range m_nsrc).map fun i =>
        0 + (if buffered i then j % DYND_BUFFER_CHUNK_SIZE else j) • src_stride i)) fun j _ d => noting_element _ d,
      strided_log (g := fun p => (p.1, (List.range m_nsrc).map p.2)) fun j _ d => noting_element _ d] at hrun
    -- the first element of the second chunk
    have hnotes := List.map_inj_left.mp (List.append_cancel_left (Except.ok.inj hrun)) DYND_BUFFER_CHUNK_SIZE
      (List.mem_range.mpr (by omega))
    simp only [zero_add, smul_eq_mul, mul_one, Nat.mod_self, zero_nsmul, Prod.mk.injEq, List.map_inj_left,
      List.mem_range] at hnotes
    have hC : DYND_BUFFER_CHUNK_SIZE ≠ 0 := by decide
    obtain ⟨hdst, hsrc⟩ := hnotes
    refine .inr ⟨?_, fun i hi hb => ?_⟩
    · exact (smul_eq_zero_iff_right hC).mp (by simpa using hdst.symm)
    · have hi := hsrc i hi
      rw [if_pos hb, zero_nsmul] at hi
      exact (smul_eq_zero_iff_right hC).mp (by simpa using hi.symm)

theorem iterated_of_stays_right (h : StaysRight count m_nsrc buffered dst_stride src_stride) :
    StridedIsIterated count m_nsrc buffered dst_stride src_stride := by
  refine fun V D => ⟨fun k memory dst src st => ?_, fun e memory dst src src0_stride st => ?_⟩
  · rw [buffered_ck.strided_spec, buffered_ck.iterated_spec]
    refine congrFun (strided_congr fun j hj => ?_) st.dst
    unfold buffered_ck.restarted
    rw [buffered_ck.place, smul_eq_mul, mul_one, zero_add]
    obtain hsmall | ⟨hdst, hsrc⟩ := h
    · rw [Nat.mod_eq_of_lt (by omega)]
      simp only [ite_self]
    · subst hdst
      rw [smul_zero, smul_zero]
      have hplaces : ∀ i < m_nsrc, src i + (if buffered i then j % DYND_BUFFER_CHUNK_SIZE else j) • src_stride i =
          src i + j • src_stride i := by
        intro i hi
        split_ifs with hb
        · rw [hsrc i hi hb, smul_zero, smul_zero]
        · rfl
      exact buffered_ck.element_congr hplaces
  · rw [buffered_kernel_extra.strided_spec]
    exact (strided_map buffered_kernel_extra.single_spec _ _ _ _).symm

/-- The strided entry points do what the single ones do on one element after
the other if and only if it is no difference that `buffered_ck` starts every
chunk at the first place of the destination and of the sources with buffers. -/
theorem buffered_strided_iff (count m_nsrc : ℕ) (buffered : ℕ → Bool) (dst_stride : ℤ) (src_stride : ℕ → ℤ) :
    StridedIsIterated count m_nsrc buffered dst_stride src_stride ↔
      StaysRight count m_nsrc buffered dst_stride src_stride :=
  ⟨stays_right_of_iterated, iterated_of_stays_right⟩

/-- 129 elements of one source without a buffer. -/
theorem too_many_buffered_elements : ¬ ∀ count m_nsrc buffered dst_stride src_stride,
    StridedIsIterated count m_nsrc buffered dst_stride src_stride := by
  intro h
  obtain hsmall | ⟨hdst, -⟩ := stays_right_of_iterated (h 129 1 (fun _ => false) 1 fun _ => 1)
  · exact absurd hsmall (by decide)
  · cases hdst

end
end Dynd.Buffered
