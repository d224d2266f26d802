import Dynd.Lib.ByteMemory
import Dynd.Lib.Strided
/-!
# Byte swapping

The kernels of `make_byteswap_assignment_function` and its pairwise sibling:
one for values that are aligned and of a machine size, one for the rest.
`laws_iff` says for which of them the laws of byte swapping hold.
-/
namespace Dynd.Byteswap

open Lib

/-! ## Values -/

inductive uint_type where
  | uint16 | uint32 | uint64
deriving DecidableEq

/-- `sizeof(T)` -/
def uint_type.size : uint_type → ℕ
  | uint16 => 2
  | uint32 => 4
  | uint64 => 8

def byteswap_uint16 (value : BitVec 16) : BitVec 16 := ((value &&& 0xff) <<< 8) ||| (value >>> 8)

def byteswap_uint32 (value : BitVec 32) : BitVec 32 :=
  ((value &&& 0xff) <<< 24) ||| ((value &&& 0xff00) <<< 8) ||| ((value &&& 0xff0000) >>> 8) ||| (value >>> 24)

def byteswap_uint64 (value : BitVec 64) : BitVec 64 :=
  ((value &&& 0xff) <<< 56) ||| ((value &&& 0xff00) <<< 40) ||| ((value &&& 0xff0000) <<< 24) |||
    ((value &&& 0xff000000) <<< 8) ||| ((value &&& 0xff00000000) >>> 8) ||| ((value &&& 0xff0000000000) >>> 24) |||
    ((value &&& 0xff000000000000) >>> 40) ||| (value >>> 56)

def byteswap_value (T : uint_type) (value : ℕ) : ℕ :=
  match T with
  | .uint16 => (byteswap_uint16 (.ofNat 16 value)).toNat
  | .uint32 => (byteswap_uint32 (.ofNat 32 value)).toNat
  | .uint64 => (byteswap_uint64 (.ofNat 64 value)).toNat

/-! ## Kernels -/

/-- The two entries of a kernel: the pointers `dst` and `src[0]`, and for the
strided one their strides and the count. -/
structure kernel where
  single : ℤ → ℤ → ByteMemory → ByteMemory
  strided : ℤ → ℤ → ℤ → ℤ → ℕ → ByteMemory → ByteMemory

/-- The loop of the strided entries, and all of `base_kernel`'s. -/
def strided (single : ℤ → ℤ → ByteMemory → ByteMemory) (dst dst_stride src0 src0_stride : ℤ) (count : ℕ)
    (m : ByteMemory) : ByteMemory :=
  Lib.strided (m := Id) (fun p => single p.1 p.2) (dst, src0) (dst_stride, src0_stride) count m

/-- `*reinterpret_cast<T *>(dst) = byteswap_value(*reinterpret_cast<T *>(src0))` -/
def assign_swapped (T : uint_type) (dst src0 : ℤ) (m : ByteMemory) : ByteMemory :=
  m.write dst (toBytes T.size (byteswap_value T (m.word src0 T.size)))

def aligned_fixed_size_byteswap (T : uint_type) : kernel where
  single := assign_swapped T
  strided := strided (assign_swapped T)

/-- The body of the pairwise kernel's loop: `src0` is followed once more than in `single`. -/
def assign_followed (T : uint_type) (dst src0 : ℤ) (m : ByteMemory) : ByteMemory :=
  let m := assign_swapped T dst (m.word src0 8) m
  assign_swapped T (dst + T.size) (m.word src0 8 + T.size) m

def aligned_fixed_size_pairwise_byteswap_kernel (T : uint_type) : kernel where
  single dst src0 m := assign_swapped T (dst + T.size) (src0 + T.size) (assign_swapped T dst src0 m)
  strided := strided (assign_followed T)

/-- `std::swap` of the bytes at two addresses -/
def swap (m : ByteMemory) (a b : ℤ) : ByteMemory := (m.write a [m b]).write b [m a]

def swap_loop (count : ℕ) (a b : ℕ → ℤ) (m : ByteMemory) : ByteMemory :=
  (List.range count).foldl (fun m j => swap m (a j) (b j)) m

def copy_loop (count : ℕ) (dest source : ℕ → ℤ) (m : ByteMemory) : ByteMemory :=
  (List.range count).foldl (fun m j => m.write (dest j) [m (source j)]) m

def byteswap_ck (data_size : ℕ) : kernel where
  single := single
  strided := strided single
where
  single (dst src0 : ℤ) (m : ByteMemory) : ByteMemory :=
    if src0 = dst then
      swap_loop (data_size / 2) (fun j => dst + j) (fun j => dst + (data_size - j - 1 : ℕ)) m
    else
      copy_loop data_size (fun j => dst + j) (fun j => src0 + (data_size - j - 1 : ℕ)) m

def pairwise_byteswap_ck (data_size : ℕ) : kernel where
  single := single
  strided := strided single
where
  single (dst src0 : ℤ) (m : ByteMemory) : ByteMemory :=
    if src0 = dst then
      swap_loop (data_size / 4) (fun j => dst + (data_size / 2 + j : ℕ)) (fun j => dst + (data_size - j - 1 : ℕ))
        (swap_loop (data_size / 4) (fun j => dst + j) (fun j => dst + (data_size / 2 - j - 1 : ℕ)) m)
    else
      copy_loop (data_size / 2) (fun j => dst + (data_size / 2 + j : ℕ)) (fun j => src0 + (data_size - j - 1 : ℕ))
        (copy_loop (data_size / 2) (fun j => dst + j) (fun j => src0 + (data_size / 2 - j - 1 : ℕ)) m)

def make_byteswap_assignment_function (data_size : ℕ) (data_alignment : ℤ) : kernel :=
  if data_size = data_alignment then
    match data_size with
    | 2 => aligned_fixed_size_byteswap .uint16
    | 4 => aligned_fixed_size_byteswap .uint32
    | 8 => aligned_fixed_size_byteswap .uint64
    | _ => byteswap_ck data_size
  else byteswap_ck data_size

def make_pairwise_byteswap_assignment_function (data_size : ℕ) (data_alignment : ℤ) : kernel :=
  if data_size = data_alignment then
    match data_size with
    | 4 => aligned_fixed_size_pairwise_byteswap_kernel .uint16
    | 8 => aligned_fixed_size_pairwise_byteswap_kernel .uint32
    | 16 => aligned_fixed_size_pairwise_byteswap_kernel .uint64
    | _ => pairwise_byteswap_ck data_size
  else pairwise_byteswap_ck data_size

/-! ## Reversing one run of bytes -/

theorem testBit_byteswap_uint16 (v : BitVec 16) {i : ℕ} (hi : i < 16) :
    (byteswap_uint16 v).getLsbD i = v.getLsbD (8 * (2 - 1 - i / 8) + i % 8) := by
  unfold byteswap_uint16
  interval_cases i <;> simp

theorem testBit_byteswap_uint32 (v : BitVec 32) {i : ℕ} (hi : i < 32) :
    (byteswap_uint32 v).getLsbD i = v.getLsbD (8 * (4 - 1 - i / 8) + i % 8) := by
  unfold byteswap_uint32
  interval_cases i <;> simp

theorem testBit_byteswap_uint64 (v : BitVec 64) {i : ℕ} (hi : i < 64) :
    (byteswap_uint64 v).getLsbD i = v.getLsbD (8 * (8 - 1 - i / 8) + i % 8) := by
  unfold byteswap_uint64
  interval_cases i <;> simp

theorem toBytes_byteswap_value (T : uint_type) (value : ℕ) :
    toBytes T.size (byteswap_value T value) = (toBytes T.size value).reverse := by
  apply toBytes_reverse
  intro i hi
  have hbit {w k : ℕ} (hk : k < w) : (BitVec.ofNat w value).getLsbD k = value.testBit k := by
    rw [BitVec.getLsbD_ofNat, decide_eq_true hk, Bool.true_and]
  cases T with
  | uint16 => exact (testBit_byteswap_uint16 _ hi).trans (hbit (by simp only [uint_type.size] at hi; omega))
  | uint32 => exact (testBit_byteswap_uint32 _ hi).trans (hbit (by simp only [uint_type.size] at hi; omega))
  | uint64 => exact (testBit_byteswap_uint64 _ hi).trans (hbit (by simp only [uint_type.size] at hi; omega))

theorem assign_swapped_eq (T : uint_type) (dst src0 : ℤ) (m : ByteMemory) :
    assign_swapped T dst src0 m = m.write dst (m.bytes src0 T.size).reverse := by
  have hbytes := toBytes_ofBytes (m.bytes src0 T.size)
  rw [ByteMemory.length_bytes] at hbytes
  rw [assign_swapped, toBytes_byteswap_value, ByteMemory.word, hbytes]

section
variable {m : ByteMemory} {dst src0 : ℤ} {n : ℕ}

/-- The bytes of a run from the other end. -/
theorem write_reverse_eq (m : ByteMemory) (dst src0 : ℤ) (n : ℕ) : m.write dst (m.bytes src0 n).reverse =
    fun x => if dst ≤ x ∧ x < dst + n then m (src0 + (n - 1 - (x - dst))) else m x := by
  funext x
  split_ifs with hx
  · obtain ⟨k, rfl⟩ : ∃ k : ℕ, x = dst + k := ⟨(x - dst).toNat, by omega⟩
    rw [ByteMemory.write_inside (by simp; omega), List.getElem_reverse, ByteMemory.getElem_bytes, ByteMemory.length_bytes]
    congr 1
    omega
  · exact ByteMemory.write_outside (by simp; omega)

/-- After `k` swaps, `k` bytes at each end are those of the other end. -/
theorem swap_loop_eq (m : ByteMemory) (dst : ℤ) (n : ℕ) {a b : ℕ → ℤ} (ha : ∀ j, a j = dst + j)
    (hb : ∀ j < n, b j = dst + (n - 1 - j)) :
    swap_loop (n / 2) a b m = m.write dst (m.bytes dst n).reverse := by
  have hrun (k : ℕ) (hk : k ≤ n / 2) : swap_loop k a b m =
      fun x => if dst ≤ x ∧ x < dst + k ∨ dst + n - k ≤ x ∧ x < dst + n then m (dst + (n - 1 - (x - dst))) else m x := by
    induction k with
    | zero =>
      funext x
      rw [if_neg (by omega)]
      rfl
    | succ k ih =>
      have hstep : swap_loop (k + 1) a b m = swap (swap_loop k a b m) (a k) (b k) := by
        rw [swap_loop, List.range_succ, List.foldl_append]
        rfl
      rw [hstep, ih (by omega), ha, hb k (by omega)]
      funext x
      rw [swap, ByteMemory.write_singleton, ByteMemory.write_singleton]
      grind
  rw [hrun _ le_rfl, write_reverse_eq]
  funext x
  by_cases hmiddle : x = dst + (n / 2 : ℕ) ∧ n % 2 = 1
  · rw [if_neg (by omega), if_pos (by omega)]
    congr 1
    omega
  · congr 1
    apply propext
    omega

/-- A copy to memory of its own reads what was there. -/
theorem copy_loop_eq (h : dst + n ≤ src0 ∨ src0 + n ≤ dst) {dest source : ℕ → ℤ} (hdest : ∀ j, dest j = dst + j)
    (hsource : ∀ j < n, source j = src0 + (n - 1 - j)) :
    copy_loop n dest source m = m.write dst (m.bytes src0 n).reverse := by
  have hrun (k : ℕ) (hk : k ≤ n) : copy_loop k dest source m =
      fun x => if dst ≤ x ∧ x < dst + k then m (src0 + (n - 1 - (x - dst))) else m x := by
    induction k with
    | zero =>
      funext x
      rw [if_neg (by omega)]
      rfl
    | succ k ih =>
      have hstep : copy_loop (k + 1) dest source m =
          (copy_loop k dest source m).write (dest k) [copy_loop k dest source m (source k)] := by
        rw [copy_loop, List.range_succ, List.foldl_append]
        rfl
      rw [hstep, ih (by omega), hdest, hsource k (by omega)]
      funext x
      rw [ByteMemory.write_singleton]
      grind
  rw [hrun n le_rfl, write_reverse_eq]

end

/-! ## Elements -/

/-- What is swapped: all of a value, or each of its halves. -/
inductive element where
  | whole (data_size : ℕ)
  | pairwise (half : ℕ)

namespace element

def data_size : element → ℕ
  | whole data_size => data_size
  | pairwise half => 2 * half

def swapped : element → List UInt8 → List UInt8
  | whole _, bs => bs.reverse
  | pairwise half, bs => (bs.take half).reverse ++ (bs.drop half).reverse

/-- The kernel that is made for the elements. -/
def make (e : element) (data_alignment : ℤ) : kernel :=
  match e with
  | whole data_size => make_byteswap_assignment_function data_size data_alignment
  | pairwise half => make_pairwise_byteswap_assignment_function (2 * half) data_alignment

/-- The byte loop. -/
def loop : element → kernel
  | whole data_size => byteswap_ck data_size
  | pairwise half => pairwise_byteswap_ck (2 * half)

theorem length_swapped {e : element} {bs : List UInt8} (h : bs.length = e.data_size) :
    (e.swapped bs).length = e.data_size := by
  cases e with
  | whole n => rw [swapped, List.length_reverse, h]
  | pairwise half =>
    rw [swapped, List.length_append, List.length_reverse, List.length_reverse, List.length_take, List.length_drop, h]
    simp only [data_size]
    omega

theorem swapped_swapped {e : element} {bs : List UInt8} (h : bs.length = e.data_size) : e.swapped (e.swapped bs) = bs := by
  cases e with
  | whole n => exact List.reverse_reverse bs
  | pairwise half =>
    have hlen : ((bs.take half).reverse).length = half := by
      rw [List.length_reverse, List.length_take, h]
      simp only [data_size]
      omega
    rw [swapped, swapped, List.take_left' hlen, List.drop_left' hlen, List.reverse_reverse, List.reverse_reverse,
      List.take_append_drop]

end element

/-- The `n` bytes from `a` and those from `b` have none in common. -/
def Apart (n : ℕ) (a b : ℤ) : Prop := a + n ≤ b ∨ b + n ≤ a

section
variable {m : ByteMemory} {dst src0 : ℤ} {half : ℕ} {T : uint_type} {data_alignment : ℤ} {e : element}

/-- The halves one after the other. -/
theorem write_halves (h : src0 = dst ∨ Apart (2 * half) dst src0) :
    (m.write dst (m.bytes src0 half).reverse).write (dst + half)
        ((m.write dst (m.bytes src0 half).reverse).bytes (src0 + half) half).reverse =
      m.write dst ((element.pairwise half).swapped (m.bytes src0 (2 * half))) := by
  unfold Apart at h
  push_cast at h
  rw [ByteMemory.bytes_write_apart (by rw [List.length_reverse, ByteMemory.length_bytes]; omega), two_mul,
    ByteMemory.bytes_add, element.swapped, List.take_left' (ByteMemory.length_bytes _ _ _),
    List.drop_left' (ByteMemory.length_bytes _ _ _), ← ByteMemory.write_append, List.length_reverse, ByteMemory.length_bytes]

theorem aligned_pairwise_eq (h : src0 = dst ∨ Apart (2 * T.size) dst src0) :
    (aligned_fixed_size_pairwise_byteswap_kernel T).single dst src0 m =
      m.write dst ((element.pairwise T.size).swapped (m.bytes src0 (2 * T.size))) := by
  rw [← write_halves h]
  simp only [aligned_fixed_size_pairwise_byteswap_kernel, assign_swapped_eq]

theorem loop_eq (e : element) (h : src0 = dst ∨ Apart e.data_size dst src0) :
    e.loop.single dst src0 m = m.write dst (e.swapped (m.bytes src0 e.data_size)) := by
  cases e with
  | whole n =>
    change byteswap_ck.single n dst src0 m = m.write dst (m.bytes src0 n).reverse
    unfold byteswap_ck.single
    split_ifs with hsame
    · rw [hsame]
      exact swap_loop_eq m dst n (fun j => rfl) fun j hj => by omega
    · exact copy_loop_eq (n := n) (h.resolve_left hsame) (fun j => rfl) fun j hj => by omega
  | pairwise half =>
    change pairwise_byteswap_ck.single (2 * half) dst src0 m = _
    simp only [element.data_size] at h ⊢
    rw [← write_halves h]
    unfold pairwise_byteswap_ck.single
    rw [show 2 * half / 4 = half / 2 by omega, show 2 * half / 2 = half by omega]
    split_ifs with hsame
    · rw [hsame, swap_loop_eq m dst half (fun j => rfl) fun j hj => by omega]
      exact swap_loop_eq _ (dst + half) half (fun j => by push_cast; ring) fun j hj => by omega
    · have hapart := h.resolve_left hsame
      unfold Apart at hapart
      push_cast at hapart
      have hfirst : dst + half ≤ src0 ∨ src0 + half ≤ dst := by omega
      have hsecond : dst + half + half ≤ src0 + half ∨ src0 + half + half ≤ dst + half := by omega
      rw [copy_loop_eq hfirst (fun j => rfl) fun j hj => by omega]
      exact copy_loop_eq hsecond (fun j => by push_cast; ring) fun j hj => by omega

/-- Every kernel does what the byte loop does. -/
theorem single_eq (e : element) (data_alignment : ℤ) (h : src0 = dst ∨ Apart e.data_size dst src0) :
    (e.make data_alignment).single dst src0 m = m.write dst (e.swapped (m.bytes src0 e.data_size)) := by
  cases e with
  | whole n =>
    have hloop := loop_eq (m := m) (.whole n) h
    simp only [element.make, make_byteswap_assignment_function]
    split_ifs with halign
    · split
      · exact assign_swapped_eq .uint16 dst src0 m
      · exact assign_swapped_eq .uint32 dst src0 m
      · exact assign_swapped_eq .uint64 dst src0 m
      · exact hloop
    · exact hloop
  | pairwise half =>
    have hloop := loop_eq (m := m) (.pairwise half) h
    simp only [element.make, make_pairwise_byteswap_assignment_function]
    split_ifs with halign
    · split
      · rename_i hsize
        obtain rfl : half = uint_type.uint16.size := by simp only [uint_type.size]; omega
        exact aligned_pairwise_eq h
      · rename_i hsize
        obtain rfl : half = uint_type.uint32.size := by simp only [uint_type.size]; omega
        exact aligned_pairwise_eq h
      · rename_i hsize
        obtain rfl : half = uint_type.uint64.size := by simp only [uint_type.size]; omega
        exact aligned_pairwise_eq h
      · exact hloop
    · exact hloop

/-- The kernels whose strided entry takes the bytes of the element for a pointer. -/
def Followed (e : element) (data_alignment : ℤ) : Prop :=
  match e with
  | .whole _ => False
  | .pairwise half => ((2 * half : ℕ) : ℤ) = data_alignment ∧ (half = 2 ∨ half = 4 ∨ half = 8)

instance (e : element) (data_alignment : ℤ) : Decidable (Followed e data_alignment) := by
  cases e <;> unfold Followed <;> infer_instance

theorem strided_eq (h : ¬ Followed e data_alignment) :
    (e.make data_alignment).strided = strided (e.make data_alignment).single := by
  cases e with
  | whole n =>
    simp only [element.make, make_byteswap_assignment_function]
    split_ifs
    · split <;> rfl
    · rfl
  | pairwise half =>
    simp only [element.make, make_pairwise_byteswap_assignment_function]
    split_ifs with halign
    · split
      · exact absurd ⟨halign, by omega⟩ h
      · exact absurd ⟨halign, by omega⟩ h
      · exact absurd ⟨halign, by omega⟩ h
      · rfl
    · rfl

end

/-! ## Arrays -/

/-- The elements of two arrays: each of `dst` is its element of `src`, or no element of `src` touches it. -/
def InPlaceOrApart (n count : ℕ) (dst dst_stride src0 src0_stride : ℤ) : Prop :=
  ∀ i < count, src0 + i • src0_stride = dst + i • dst_stride ∨
    ∀ j < count, Apart n (dst + i • dst_stride) (src0 + j • src0_stride)

/-- No other element of `dst` touches element `i` of either array. -/
def Own (n count : ℕ) (dst dst_stride src0 src0_stride : ℤ) (i : ℕ) : Prop :=
  ∀ j < count, j ≠ i → Apart n (dst + j • dst_stride) (dst + i • dst_stride) ∧
    Apart n (dst + j • dst_stride) (src0 + i • src0_stride)

/-- The laws of byte swapping, for the entries of a kernel. -/
structure Laws (e : element) (k : kernel) (count : ℕ) : Prop where
  single : ∀ dst src0 m, src0 = dst ∨ Apart e.data_size dst src0 →
    k.single dst src0 m = m.write dst (e.swapped (m.bytes src0 e.data_size))
  loop : ∀ dst src0 m, src0 = dst ∨ Apart e.data_size dst src0 → k.single dst src0 m = e.loop.single dst src0 m
  strided : ∀ dst dst_stride src0 src0_stride m, InPlaceOrApart e.data_size count dst dst_stride src0 src0_stride →
    k.strided dst dst_stride src0 src0_stride count m = strided k.single dst dst_stride src0 src0_stride count m
  reversed : ∀ dst dst_stride src0 src0_stride m, InPlaceOrApart e.data_size count dst dst_stride src0 src0_stride →
    ∀ i < count, Own e.data_size count dst dst_stride src0 src0_stride i →
      (k.strided dst dst_stride src0 src0_stride count m).bytes (dst + i • dst_stride) e.data_size =
        e.swapped (m.bytes (src0 + i • src0_stride) e.data_size)
  twice : ∀ dst dst_stride mid mid_stride src0 src0_stride m,
    InPlaceOrApart e.data_size count mid mid_stride src0 src0_stride →
    InPlaceOrApart e.data_size count dst dst_stride mid mid_stride →
    ∀ i < count, Own e.data_size count mid mid_stride src0 src0_stride i →
      Own e.data_size count dst dst_stride mid mid_stride i →
      (k.strided dst dst_stride mid mid_stride count (k.strided mid mid_stride src0 src0_stride count m)).bytes
        (dst + i • dst_stride) e.data_size = m.bytes (src0 + i • src0_stride) e.data_size

section
variable {e : element} {k : kernel} {count n : ℕ} {dst dst_stride src0 src0_stride : ℤ} {m : ByteMemory}

theorem strided_succ (single : ℤ → ℤ → ByteMemory → ByteMemory) (dst dst_stride src0 src0_stride : ℤ) (count : ℕ)
    (m : ByteMemory) : strided single dst dst_stride src0 src0_stride (count + 1) m =
      single (dst + count • dst_stride) (src0 + count • src0_stride) (strided single dst dst_stride src0 src0_stride count m) := by
  unfold strided
  rw [Lib.strided_succ]
  rfl

theorem Apart.of_same_or_apart {n count i : ℕ} (h : InPlaceOrApart n count dst dst_stride src0 src0_stride) (hi : i < count) :
    src0 + i • src0_stride = dst + i • dst_stride ∨ Apart n (dst + i • dst_stride) (src0 + i • src0_stride) :=
  (h i hi).imp_right fun hall => hall i hi

theorem bytes_write_apart {bs : List UInt8} {p q : ℤ} (hlen : bs.length = n) (h : Apart n p q) :
    (m.write p bs).bytes q n = m.bytes q n := by
  unfold Apart at h
  exact ByteMemory.bytes_write_apart (by omega)

/-- The first `n` elements are swapped, the rest of the source is as it was. -/
theorem strided_run (hsingle : ∀ dst src0 m, src0 = dst ∨ Apart e.data_size dst src0 →
      k.single dst src0 m = m.write dst (e.swapped (m.bytes src0 e.data_size)))
    (h : InPlaceOrApart e.data_size count dst dst_stride src0 src0_stride) (hn : n ≤ count) :
    (∀ i < n, Own e.data_size count dst dst_stride src0 src0_stride i →
      (strided k.single dst dst_stride src0 src0_stride n m).bytes (dst + i • dst_stride) e.data_size =
        e.swapped (m.bytes (src0 + i • src0_stride) e.data_size)) ∧
    ∀ i < count, n ≤ i → Own e.data_size count dst dst_stride src0 src0_stride i →
      (strided k.single dst dst_stride src0 src0_stride n m).bytes (src0 + i • src0_stride) e.data_size =
        m.bytes (src0 + i • src0_stride) e.data_size := by
  induction n with
  | zero =>
    refine ⟨fun i hi => absurd hi (Nat.not_lt_zero i), fun i _ _ _ => ?_⟩
    rfl
  | succ n ih =>
    obtain ⟨hdone, hrest⟩ := ih (by omega)
    have hlen := e.length_swapped (ByteMemory.length_bytes
      (strided k.single dst dst_stride src0 src0_stride n m) (src0 + n • src0_stride) e.data_size)
    rw [strided_succ, hsingle _ _ _ (Apart.of_same_or_apart h (by omega))]
    constructor
    · intro i hi hown
      rcases Nat.lt_succ_iff_lt_or_eq.mp hi with hi | rfl
      · rw [bytes_write_apart hlen (hown n (by omega) (by omega)).1]
        exact hdone i hi hown
      · have hbytes := ByteMemory.bytes_write (strided k.single dst dst_stride src0 src0_stride i m) (dst + i • dst_stride)
          (e.swapped ((strided k.single dst dst_stride src0 src0_stride i m).bytes (src0 + i • src0_stride) e.data_size))
        rw [hlen] at hbytes
        rw [hbytes, hrest i (by omega) le_rfl hown]
    · intro i hi hni hown
      rw [bytes_write_apart hlen (hown n (by omega) (by omega)).2]
      exact hrest i hi (by omega) hown

/-- The laws follow from those of the single entry. -/
theorem laws_of_strided (data_alignment : ℤ)
    (h : ∀ dst dst_stride src0 src0_stride m, (e.make data_alignment).strided dst dst_stride src0 src0_stride count m =
      strided (e.make data_alignment).single dst dst_stride src0 src0_stride count m) :
    Laws e (e.make data_alignment) count := by
  have hsingle (dst src0 : ℤ) (m : ByteMemory) (hbeside : src0 = dst ∨ Apart e.data_size dst src0) :=
    single_eq (m := m) e data_alignment hbeside
  have hreversed (dst dst_stride src0 src0_stride : ℤ) (m : ByteMemory)
      (harrays : InPlaceOrApart e.data_size count dst dst_stride src0 src0_stride) (i : ℕ) (hi : i < count)
      (hown : Own e.data_size count dst dst_stride src0 src0_stride i) := (strided_run (m := m) hsingle harrays le_rfl).1 i hi hown
  refine ⟨hsingle, fun dst src0 m hbeside => ?_, fun dst dst_stride src0 src0_stride m _ => h _ _ _ _ _,
    fun dst dst_stride src0 src0_stride m harrays i hi hown => ?_,
    fun dst dst_stride mid mid_stride src0 src0_stride m hfirst hsecond i hi hmid hdst => ?_⟩
  · rw [hsingle dst src0 m hbeside, loop_eq e hbeside]
  · rw [h]
    exact hreversed _ _ _ _ m harrays i hi hown
  · rw [h, h, hreversed _ _ _ _ _ hsecond i hi hdst, hreversed _ _ _ _ m hfirst i hi hmid,
      element.swapped_swapped (ByteMemory.length_bytes _ _ _)]

end

/-! ## The pairwise kernels of the machine sizes -/

/-- Ones where the element and the bytes behind it stand, twos elsewhere: the
ones are no pointer to themselves. -/
def ones : ByteMemory := fun a => if 0 ≤ a ∧ a < 8 then 1 else 2

theorem assign_swapped_twos (T : uint_type) {dst src0 : ℤ} (hdst : 8 ≤ dst) (hsrc : 8 ≤ src0) :
    assign_swapped T dst src0 ones = ones := by
  have htwo {a : ℤ} (ha : 8 ≤ a) : ones a = 2 := if_neg (by omega)
  rw [assign_swapped_eq, write_reverse_eq]
  funext x
  split_ifs with hx
  · rw [htwo (by omega), htwo (by omega)]
  · rfl

theorem followed_unchanged (T : uint_type) {dst : ℤ} (hdst : 8 ≤ dst) (count : ℕ) :
    strided (assign_followed T) dst 16 0 0 count ones = ones := by
  have hpointer : (8 : ℤ) ≤ ones.word 0 8 := by decide
  induction count with
  | zero => rfl
  | succ count ih =>
    have hplace : 8 ≤ dst + count • (16 : ℤ) := by
      rw [nsmul_eq_mul]
      omega
    rw [strided_succ, ih, smul_zero, add_zero]
    simp only [assign_followed]
    rw [assign_swapped_twos T hplace hpointer, assign_swapped_twos T (by omega) (by omega)]

theorem followed_kernel {e : element} {data_alignment : ℤ} (h : Followed e data_alignment) :
    ∃ T : uint_type, e = .pairwise T.size ∧ e.make data_alignment = aligned_fixed_size_pairwise_byteswap_kernel T := by
  cases e with
  | whole n => exact h.elim
  | pairwise half =>
    obtain ⟨halign, hhalf⟩ := h
    simp only [element.make, make_pairwise_byteswap_assignment_function, if_pos halign]
    rcases hhalf with rfl | rfl | rfl
    · exact ⟨.uint16, rfl, rfl⟩
    · exact ⟨.uint32, rfl, rfl⟩
    · exact ⟨.uint64, rfl, rfl⟩

/-- They leave the ones where they are. -/
theorem not_laws_of_followed (T : uint_type) {count : ℕ} (hcount : 0 < count) :
    ¬ Laws (.pairwise T.size) (aligned_fixed_size_pairwise_byteswap_kernel T) count := by
  intro h
  have hsize : 2 * T.size ≤ 16 := by
    cases T <;> decide
  have hplace (i : ℕ) : (16 : ℤ) + i • (16 : ℤ) = 16 + 16 * i := by rw [nsmul_eq_mul, mul_comm]
  have hstart (i : ℕ) : (0 : ℤ) + i • (0 : ℤ) = 0 := by rw [smul_zero, add_zero]
  have harrays : InPlaceOrApart (2 * T.size) count 16 16 0 0 := by
    intro i _
    right
    intro j _
    rw [hplace, hstart, Apart]
    omega
  have hown : Own (2 * T.size) count 16 16 0 0 0 := by
    intro j _ hj
    rw [hplace, hplace, hstart, Apart, Apart]
    omega
  have hbytes := h.reversed 16 16 0 0 ones harrays 0 hcount hown
  simp only [aligned_fixed_size_pairwise_byteswap_kernel] at hbytes
  rw [followed_unchanged T (by decide)] at hbytes
  cases T <;> exact absurd hbytes (by decide)

/-- The kernels obey the laws, but for the strided entry of the pairwise ones
that are made for aligned values of 4, 8 and 16 bytes, as soon as it is given
an element. -/
theorem laws_iff (e : element) (data_alignment : ℤ) (count : ℕ) :
    Laws e (e.make data_alignment) count ↔ ¬ Followed e data_alignment ∨ count = 0 := by
  constructor
  · intro h
    rw [or_iff_not_imp_right]
    intro hcount hfollowed
    obtain ⟨T, rfl, hk⟩ := followed_kernel hfollowed
    rw [hk] at h
    exact not_laws_of_followed T (Nat.pos_of_ne_zero hcount) h
  · intro h
    apply laws_of_strided
    intro dst dst_stride src0 src0_stride m
    by_cases hfollowed : Followed e data_alignment
    · obtain rfl := h.resolve_left (not_not.mpr hfollowed)
      obtain ⟨T, rfl, hk⟩ := followed_kernel hfollowed
      rw [hk]
      rfl
    · rw [strided_eq hfollowed]

theorem aligned_halves_followed : ¬ ∀ (e : element) (data_alignment : ℤ) (count : ℕ),
    Laws e (e.make data_alignment) count := by
  intro h
  exact not_laws_of_followed .uint16 Nat.one_pos (h (.pairwise 2) 4 1)

end Dynd.Byteswap
