import Dynd.Lib.ByteMemory
import Dynd.Lib.Strided
/-!
# Availability

What marks a missing value, for each value type: the test of
`option_type::is_avail`, the two of the kernel `is_avail_kernel`, and the
writers of `option_type::assign_na` and `assign_na_kernel`.
-/
namespace Dynd.Availability

open Lib

/-- The value types that have these kernels. -/
inductive value_type where
  | bool
  | int8 | int16 | int32 | int64 | int128
  | float32 | float64
  | complex_float32 | complex_float64
  | void | string | date | time | datetime
deriving DecidableEq

/-- The bytes of a `string_type_data` are two pointers. -/
def value_type.data_size : value_type → ℕ
  | bool | int8 => 1
  | int16 => 2
  | int32 | float32 | date => 4
  | int64 | float64 | time | datetime | complex_float32 => 8
  | int128 | complex_float64 | string => 16
  | void => 0

/-- `std::numeric_limits<T>::min()` for a signed `T` of `n` bytes, as bits. -/
def int_min (n : ℕ) : ℕ := 2 ^ (8 * n - 1)

def DYND_FLOAT32_NA_AS_UINT : ℕ := 0x7f8007a2

def DYND_FLOAT64_NA_AS_UINT : ℕ := 0x7ff00000000007a2

def DYND_DATE_NA : ℕ := int_min 4

def DYND_TIME_NA : ℕ := int_min 8

def DYND_DATETIME_NA : ℕ := int_min 8

/-- `isnan`, for the bits of a `float`. -/
def isnan_float (w : ℕ) : Bool := w / 2 ^ 23 % 2 ^ 8 = 0xff && w % 2 ^ 23 != 0

/-- `isnan`, for the bits of a `double`. -/
def isnan_double (w : ℕ) : Bool := w / 2 ^ 52 % 2 ^ 11 = 0x7ff && w % 2 ^ 52 != 0

/-! ## Tests -/

namespace is_avail_kernel

def single (m : ByteMemory) (src0 : ℤ) : value_type → Bool
  | .bool => m.word src0 1 ≤ 1
  | .int8 => m.word src0 1 ≠ int_min 1
  | .int16 => m.word src0 2 ≠ int_min 2
  | .int32 => m.word src0 4 ≠ int_min 4
  | .int64 => m.word src0 8 ≠ int_min 8
  | .int128 => m.word src0 16 ≠ int_min 16
  | .float32 => isnan_float (m.word src0 4) = false
  | .float64 => isnan_double (m.word src0 8) = false
  | .complex_float32 => m.word src0 4 ≠ DYND_FLOAT32_NA_AS_UINT && m.word (src0 + 4) 4 ≠ DYND_FLOAT32_NA_AS_UINT
  | .complex_float64 => m.word src0 8 ≠ DYND_FLOAT64_NA_AS_UINT && m.word (src0 + 8) 8 ≠ DYND_FLOAT64_NA_AS_UINT
  | .void => false
  | .string => m.word src0 8 ≠ 0
  | .date => m.word src0 4 ≠ DYND_DATE_NA
  | .time => m.word src0 8 ≠ DYND_TIME_NA
  | .datetime => m.word src0 8 ≠ DYND_DATETIME_NA

/-- The answers of a strided loop, each with the place in the destination it is written to. -/
def loop (test : ℤ → Bool) (dst dst_stride src0 src0_stride : ℤ) : (count : ℕ) → List (ℤ × Bool)
  | 0 => []
  | count + 1 => (dst, test src0) :: loop test (dst + dst_stride) dst_stride (src0 + src0_stride) src0_stride count

/-- `*reinterpret_cast<const int32_t *>(src)`, where `src` leads to the pointer `src0`. -/
def low_half (src0 : ℤ) : ℕ := (src0 % 2 ^ 32).toNat

def strided (m : ByteMemory) (dst dst_stride src0 src0_stride : ℤ) (count : ℕ) : value_type → List (ℤ × Bool)
  | .void => loop (fun _ => false) dst dst_stride src0 src0_stride count
  -- the loop moves a pointer that it does not read
  | .date => loop (fun _ => low_half src0 ≠ DYND_DATE_NA) dst dst_stride src0 src0_stride count
  -- the loop reads the first element again
  | .datetime => loop (fun _ => single m src0 .datetime) dst dst_stride src0 src0_stride count
  | tp => loop (fun src0 => single m src0 tp) dst dst_stride src0 src0_stride count

end is_avail_kernel

/-- `option_type::is_avail`, for the option of a value type. -/
def is_avail (m : ByteMemory) (data : ℤ) : value_type → Bool
  | .bool => m.word data 1 ≤ 1
  | .int8 => m.word data 1 ≠ int_min 1
  | .int16 => m.word data 2 ≠ int_min 2
  | .int32 => m.word data 4 ≠ int_min 4
  | .int64 => m.word data 8 ≠ int_min 8
  | .int128 => m.word data 16 ≠ int_min 16
  | .float32 => !isnan_float (m.word data 4)
  | .float64 => !isnan_double (m.word data 8)
  | .complex_float32 => m.word data 4 ≠ DYND_FLOAT32_NA_AS_UINT || m.word (data + 4) 4 ≠ DYND_FLOAT32_NA_AS_UINT
  | .complex_float64 => m.word data 8 ≠ DYND_FLOAT64_NA_AS_UINT || m.word (data + 8) 8 ≠ DYND_FLOAT64_NA_AS_UINT
  | .void => false
  | tp => is_avail_kernel.single m data tp

/-! ## Writers -/

/-- `std::invalid_argument`, with its text -/
structure invalid_argument where
  what : String
deriving DecidableEq

/-- `*reinterpret_cast<T *>(dst) = value`, for a `T` of `n` bytes -/
def store (m : ByteMemory) (dst : ℤ) (n value : ℕ) : ByteMemory := m.write dst (toBytes n value)

namespace assign_na_kernel

def single (dst : ℤ) (m : ByteMemory) : value_type → Except invalid_argument ByteMemory
  | .bool => .ok (store m dst 1 2)
  | .int8 => .ok (store m dst 1 (int_min 1))
  | .int16 => .ok (store m dst 2 (int_min 2))
  | .int32 => .ok (store m dst 4 (int_min 4))
  | .int64 => .ok (store m dst 8 (int_min 8))
  | .int128 => .ok (store m dst 16 (int_min 16))
  | .float32 => .ok (store m dst 4 DYND_FLOAT32_NA_AS_UINT)
  | .float64 => .ok (store m dst 8 DYND_FLOAT64_NA_AS_UINT)
  | .complex_float32 =>
    .ok (store (store m dst 4 DYND_FLOAT32_NA_AS_UINT) (dst + 4) 4 DYND_FLOAT32_NA_AS_UINT)
  | .complex_float64 =>
    .ok (store (store m dst 8 DYND_FLOAT64_NA_AS_UINT) (dst + 8) 8 DYND_FLOAT64_NA_AS_UINT)
  | .void => .ok m
  | .string =>
    if m.word dst 8 ≠ 0 then .error ⟨"Cannot assign an NA to a dynd string after it has been allocated"⟩
    else .ok m
  | .date => .ok (store m dst 4 DYND_DATE_NA)
  | .time => .ok (store m dst 8 DYND_TIME_NA)
  | .datetime => .ok (store m dst 8 DYND_DATETIME_NA)

def strided (dst dst_stride : ℤ) (count : ℕ) (m : ByteMemory) : value_type → Except invalid_argument ByteMemory
  | .bool =>
    -- `memset`
    if dst_stride = 1 then .ok (m.write dst (List.replicate count 2))
    else Lib.strided (fun dst m => single dst m .bool) dst dst_stride count m
  | .void => .ok m
  | tp => Lib.strided (fun dst m => single dst m tp) dst dst_stride count m

end assign_na_kernel

/-- `option_type::assign_na`, for the option of a value type. -/
def assign_na (data : ℤ) (m : ByteMemory) : value_type → Except invalid_argument ByteMemory
  | .bool => .ok (store m data 1 2)
  | .int8 => .ok (store m data 1 (int_min 1))
  | .int16 => .ok (store m data 2 (int_min 2))
  | .int32 => .ok (store m data 4 (int_min 4))
  | .int64 => .ok (store m data 8 (int_min 8))
  | .int128 => .ok (store m data 16 (int_min 16))
  | .float32 => .ok (store m data 4 DYND_FLOAT32_NA_AS_UINT)
  | .float64 => .ok (store m data 8 DYND_FLOAT64_NA_AS_UINT)
  | .complex_float32 =>
    .ok (store (store m data 4 DYND_FLOAT32_NA_AS_UINT) (data + 4) 4 DYND_FLOAT32_NA_AS_UINT)
  | .complex_float64 =>
    .ok (store (store m data 8 DYND_FLOAT64_NA_AS_UINT) (data + 8) 8 DYND_FLOAT64_NA_AS_UINT)
  | .void => .ok m
  | tp => assign_na_kernel.single data m tp

/-! ## The tests -/

section
variable {tp : value_type} {m m' : ByteMemory} {p q stride : ℤ} {count : ℕ}

theorem is_avail_kernel.loop_eq (test : ℤ → Bool) (dst dst_stride src0 src0_stride : ℤ) (count : ℕ) :
    is_avail_kernel.loop test dst dst_stride src0 src0_stride count =
      (List.range count).map fun i : ℕ => (dst + i • dst_stride, test (src0 + i • src0_stride)) := by
  induction count generalizing dst src0 with
  | zero => rfl
  | succ count ih =>
    rw [loop, ih, List.range_succ_eq_map, List.map_cons, List.map_map, zero_nsmul, zero_nsmul, add_zero, add_zero]
    congr 1
    apply List.map_congr_left
    intro i _
    rw [Function.comp_apply, Lib.next_place, Lib.next_place]

/-- The test looks at the element's own bytes. -/
theorem is_avail_congr (h : ∀ i < tp.data_size, m (p + (i : ℕ)) = m' (q + i)) : is_avail m p tp = is_avail m' q tp := by
  have hword {n : ℕ} (k : ℕ) (hn : k + n ≤ tp.data_size) : m.word (p + k) n = m'.word (q + k) n := by
    apply ByteMemory.word_congr
    intro i hi
    have hbyte := h (k + i) (by omega)
    rwa [Nat.cast_add, ← add_assoc, ← add_assoc] at hbyte
  have hfirst {n : ℕ} (hn : n ≤ tp.data_size) : m.word p n = m'.word q n := by
    have hword := hword (n := n) 0 (by omega)
    rwa [Nat.cast_zero, add_zero, add_zero] at hword
  cases tp with
  | void => rfl
  | complex_float32 =>
    have hsecond := hword (n := 4) 4 le_rfl
    rw [Nat.cast_ofNat] at hsecond
    simp only [is_avail, hfirst (n := 4) (by decide), hsecond]
  | complex_float64 =>
    have hsecond := hword (n := 8) 8 le_rfl
    rw [Nat.cast_ofNat] at hsecond
    simp only [is_avail, hfirst (n := 8) (by decide), hsecond]
  | string => simp only [is_avail, is_avail_kernel.single, hfirst (n := 8) (by decide)]
  | _ =>
    have hwhole := hfirst le_rfl
    simp only [value_type.data_size] at hwhole
    simp only [is_avail, is_avail_kernel.single, hwhole]

/-- The kernel misses a complex number that has one component of the pattern. -/
theorem is_avail_kernel.single_eq_iff : is_avail_kernel.single m p tp = is_avail m p tp ↔
    (tp = .complex_float32 → (m.word p 4 = DYND_FLOAT32_NA_AS_UINT ↔ m.word (p + 4) 4 = DYND_FLOAT32_NA_AS_UINT)) ∧
    (tp = .complex_float64 → (m.word p 8 = DYND_FLOAT64_NA_AS_UINT ↔ m.word (p + 8) 8 = DYND_FLOAT64_NA_AS_UINT)) := by
  have hand {P Q : Prop} [Decidable P] [Decidable Q] :
      ((decide (¬P) && decide (¬Q)) = (decide (¬P) || decide (¬Q))) ↔ (P ↔ Q) := by
    by_cases hP : P <;> by_cases hQ : Q <;> simp [hP, hQ]
  cases tp with
  | complex_float32 =>
    simp only [is_avail_kernel.single, is_avail, forall_const, reduceCtorEq, false_implies, and_true]
    exact hand
  | complex_float64 =>
    simp only [is_avail_kernel.single, is_avail, forall_const, reduceCtorEq, false_implies, true_and]
    exact hand
  | _ => simp [is_avail_kernel.single, is_avail]

theorem is_avail_kernel.single_of_missing (h : is_avail m p tp = false) : is_avail_kernel.single m p tp = false := by
  cases tp with
  | complex_float32 | complex_float64 =>
    simp only [is_avail, Bool.or_eq_false_iff] at h
    rw [is_avail_kernel.single, h.1]
    rfl
  | _ => simp_all [is_avail_kernel.single, is_avail]

end

/-! ## The patterns -/

/-- The bytes that stand for a missing value. Those of a string are the zeros it begins with. -/
def na_pattern : value_type → List UInt8
  | .bool => toBytes 1 2
  | .int8 => toBytes 1 (int_min 1)
  | .int16 => toBytes 2 (int_min 2)
  | .int32 => toBytes 4 (int_min 4)
  | .int64 => toBytes 8 (int_min 8)
  | .int128 => toBytes 16 (int_min 16)
  | .float32 => toBytes 4 DYND_FLOAT32_NA_AS_UINT
  | .float64 => toBytes 8 DYND_FLOAT64_NA_AS_UINT
  | .complex_float32 => toBytes 4 DYND_FLOAT32_NA_AS_UINT ++ toBytes 4 DYND_FLOAT32_NA_AS_UINT
  | .complex_float64 => toBytes 8 DYND_FLOAT64_NA_AS_UINT ++ toBytes 8 DYND_FLOAT64_NA_AS_UINT
  | .void => []
  | .string => []
  | .date => toBytes 4 DYND_DATE_NA
  | .time => toBytes 8 DYND_TIME_NA
  | .datetime => toBytes 8 DYND_DATETIME_NA

section
variable {tp : value_type} {m m' : ByteMemory} {p q stride : ℤ} {count : ℕ}

theorem length_na_pattern (h : tp ≠ .string) : (na_pattern tp).length = tp.data_size := by
  cases tp with
  | string => exact absurd rfl h
  | _ => rfl

theorem assign_na_kernel.single_eq (h : tp ≠ .string) (p : ℤ) (m : ByteMemory) :
    assign_na_kernel.single p m tp = .ok (m.write p (na_pattern tp)) := by
  cases tp with
  | string => exact absurd rfl h
  | void => rw [na_pattern, ByteMemory.write_nil, assign_na_kernel.single]
  | complex_float32 | complex_float64 =>
    rw [assign_na_kernel.single, store, store, na_pattern, ← ByteMemory.write_append, length_toBytes, Nat.cast_ofNat]
  | _ => rfl

theorem assign_na_kernel.single_string (h : assign_na_kernel.single p m .string = .ok m') : m' = m ∧ m.word p 8 = 0 := by
  unfold assign_na_kernel.single at h
  split_ifs at h with hbegin
  cases h
  exact ⟨rfl, not_not.mp hbegin⟩

theorem assign_na_eq (p : ℤ) (m : ByteMemory) (tp : value_type) : assign_na p m tp = assign_na_kernel.single p m tp := by
  cases tp <;> rfl

/-- `memset` writes what the loop writes. -/
theorem assign_na_kernel.strided_eq (p stride : ℤ) (count : ℕ) (m : ByteMemory) (tp : value_type) :
    assign_na_kernel.strided p stride count m tp =
      Lib.strided (fun dst m => assign_na_kernel.single dst m tp) p stride count m := by
  cases tp with
  | bool =>
    unfold assign_na_kernel.strided
    split_ifs with hstride
    · subst hstride
      induction count with
      | zero =>
        rw [List.replicate_zero, ByteMemory.write_nil]
        rfl
      | succ count ih =>
        rw [Lib.strided_succ, ← ih, Lib.ok_bind, List.replicate_succ', ← ByteMemory.write_append,
          List.length_replicate, nsmul_one]
        rfl
    · rfl
  | void =>
    rw [assign_na_kernel.strided]
    induction count with
    | zero => rfl
    | succ count ih =>
      rw [Lib.strided_succ, ← ih, Lib.ok_bind]
      rfl
  | _ => rfl

/-- A memory that begins with the bytes. -/
def holding (bs : List UInt8) : ByteMemory := fun a => bs.getD a.toNat 0

theorem is_avail_of_bytes {bs : List UInt8} (hlen : bs.length = tp.data_size) (h : m.bytes p tp.data_size = bs) :
    is_avail m p tp = is_avail (holding bs) 0 tp := by
  apply is_avail_congr
  intro i hi
  rw [(ByteMemory.bytes_eq_iff hlen).mp h i (by omega), zero_add, holding, Int.toNat_natCast,
    List.getD_eq_getElem _ _ (by omega)]

theorem pattern_missing (h : tp ≠ .string) : is_avail (holding (na_pattern tp)) 0 tp = false := by
  cases tp with
  | string => exact absurd rfl h
  | _ => rfl

end

/-! ## Elements that overlap -/

/-- Strides, shorter than the value and not zero, under which the patterns of
the later elements leave the earlier ones missing: any NaN is missing, and
half a complex number repeats. -/
def Spared (stride : ℤ) : value_type → Prop
  | .float32 | .float64 => stride ≤ -2
  | .complex_float32 => stride.natAbs = 4
  | .complex_float64 => stride.natAbs = 8
  | .void | .string => True
  | _ => False

instance (stride : ℤ) (tp : value_type) : Decidable (Spared stride tp) := by
  cases tp <;> unfold Spared <;> infer_instance

/-- What a write `stride` further on leaves of the pattern. -/
def overlapped (tp : value_type) (stride : ℤ) : List UInt8 :=
  ((ByteMemory.write (fun _ => 0) 0 (na_pattern tp)).write stride (na_pattern tp)).bytes 0 tp.data_size

def overlap_checked (tp : value_type) : Bool :=
  (List.range (2 * tp.data_size)).all fun k : ℕ =>
    let stride : ℤ := k - tp.data_size
    stride = 0 || tp.data_size ≤ stride.natAbs || is_avail (holding (overlapped tp stride)) 0 tp || Spared stride tp

theorem overlap_checked_all (tp : value_type) : overlap_checked tp = true := by
  cases tp <;> decide +kernel

section
variable {tp : value_type} {m m' : ByteMemory} {p q stride : ℤ} {count : ℕ}

theorem spared_of_overlap (hzero : stride ≠ 0) (hshort : stride.natAbs < tp.data_size)
    (h : is_avail (holding (overlapped tp stride)) 0 tp = false) : Spared stride tp := by
  have hchecked := List.all_eq_true.mp (overlap_checked_all tp) (stride + tp.data_size).toNat
    (List.mem_range.mpr (by omega))
  rw [show (((stride + tp.data_size).toNat : ℕ) : ℤ) - tp.data_size = stride by omega] at hchecked
  simpa [hzero, hshort.not_ge, h] using hchecked

theorem bytes_overlapped (h : tp ≠ .string) (m : ByteMemory) (p stride : ℤ) :
    ((m.write p (na_pattern tp)).write (p + stride) (na_pattern tp)).bytes p tp.data_size = overlapped tp stride := by
  have hlen := length_na_pattern h
  apply ByteMemory.bytes_congr
  intro i hi
  by_cases hin : stride ≤ i ∧ i < stride + tp.data_size
  · obtain ⟨k, hk⟩ : ∃ k : ℕ, (i : ℤ) = stride + k := ⟨(i - stride).toNat, by omega⟩
    rw [zero_add, hk, ← add_assoc, ByteMemory.write_inside (by omega), ByteMemory.write_inside (by omega)]
  · rw [ByteMemory.write_outside (p := p + stride) (by omega), ByteMemory.write_outside (p := stride) (by omega),
      ByteMemory.write_inside (by omega), ByteMemory.write_inside (by omega)]

/-- The elements stay missing while the others are written. -/
def Keeps (tp : value_type) (stride : ℤ) (count : ℕ) : Prop :=
  count ≤ 1 ∨ stride = 0 ∨ tp.data_size ≤ stride.natAbs ∨ Spared stride tp

instance (tp : value_type) (stride : ℤ) (count : ℕ) : Decidable (Keeps tp stride count) := by
  unfold Keeps
  infer_instance

/-- The last element but one shows it. -/
theorem keeps_of_missing (h : assign_na_kernel.strided p stride count m tp = .ok m')
    (hmissing : ∀ i < count, is_avail m' (p + i • stride) tp = false) : Keeps tp stride count := by
  by_contra hkeeps
  obtain ⟨hcount, hzero, hshort, hspared⟩ : 1 < count ∧ stride ≠ 0 ∧ stride.natAbs < tp.data_size ∧ ¬ Spared stride tp := by
    unfold Keeps at hkeeps
    push Not at hkeeps
    exact hkeeps
  have htp : tp ≠ .string := by
    rintro rfl
    exact hspared trivial
  obtain ⟨n, rfl⟩ : ∃ n, count = n + 2 := ⟨count - 2, by omega⟩
  rw [assign_na_kernel.strided_eq, Lib.strided_succ, Lib.strided_succ] at h
  obtain ⟨y, hy, hlast⟩ := Lib.bind_eq_ok.mp h
  obtain ⟨x, -, hbefore⟩ := Lib.bind_eq_ok.mp hy
  rw [assign_na_kernel.single_eq htp] at hlast hbefore
  cases hbefore
  cases hlast
  apply hspared
  apply spared_of_overlap hzero hshort
  have hlen : (overlapped tp stride).length = tp.data_size := ByteMemory.length_bytes _ _ _
  rw [← hmissing n (by omega), ← Lib.next_place, add_right_comm]
  exact (is_avail_of_bytes hlen (bytes_overlapped htp x _ stride)).symm

theorem missing_of_pattern (htp : tp ≠ .string) (h : m.bytes p tp.data_size = na_pattern tp) : is_avail m p tp = false := by
  rw [is_avail_of_bytes (length_na_pattern htp) h]
  exact pattern_missing htp

theorem missing_of_write (htp : tp ≠ .string) : is_avail (m.write p (na_pattern tp)) p tp = false := by
  apply missing_of_pattern htp
  rw [← length_na_pattern htp]
  exact ByteMemory.bytes_write m p _

/-- A block that lies on the grid of the block written. -/
theorem bytes_write_grid {block : List UInt8} (h : m.bytes q block.length = block) (k : ℤ) :
    (m.write (q + k * block.length) block).bytes q block.length = block := by
  rcases eq_or_ne k 0 with rfl | hk
  · rw [zero_mul, add_zero]
    exact ByteMemory.bytes_write m q block
  · rw [ByteMemory.bytes_write_apart, h]
    rcases lt_or_gt_of_ne hk with hk | hk
    · right
      nlinarith
    · left
      nlinarith

/-- Two equal halves stay while the same two are written half a number further on. -/
theorem halves_kept {half : List UInt8} (h : m.bytes q (half.length + half.length) = half ++ half)
    (hstride : stride.natAbs = half.length) (k : ℕ) :
    (m.write (q + k • stride) (half ++ half)).bytes q (half.length + half.length) = half ++ half := by
  rw [ByteMemory.bytes_add] at h ⊢
  obtain ⟨hfirst, hsecond⟩ := List.append_inj h (ByteMemory.length_bytes _ _ _)
  obtain ⟨z, hz⟩ : ∃ z : ℤ, k • stride = z * half.length := by
    rcases Int.natAbs_eq stride with hs | hs
    · exact ⟨k, by rw [hs, hstride, nsmul_eq_mul]⟩
    · exact ⟨-k, by rw [hs, hstride, nsmul_eq_mul]; ring⟩
  rw [← ByteMemory.write_append, hz]
  congr 1
  · have hshift := bytes_write_grid (bytes_write_grid hfirst z) (z + 1)
    rwa [add_one_mul, ← add_assoc] at hshift
  · have hshift := bytes_write_grid (bytes_write_grid hsecond (z - 1)) z
    rwa [show q + (half.length : ℤ) + (z - 1) * half.length = q + z * half.length by ring,
      add_right_comm] at hshift

theorem float_missing (hhigh : m.word (q + (2 : ℕ)) 2 = 0x7f80) (hlow : m.word q 2 ≠ 0) :
    is_avail m q .float32 = false := by
  have hlt := ByteMemory.word_lt m q 2
  have hword : m.word q 4 = m.word q 2 + 256 ^ 2 * 0x7f80 := by rw [← hhigh, ← ByteMemory.word_add]
  have hnan : isnan_float (m.word q 4) = true := by
    rw [isnan_float, hword, Bool.and_eq_true, decide_eq_true_iff, bne_iff_ne]
    omega
  rw [is_avail, hnan]
  rfl

theorem double_missing (hhigh : m.word (q + (6 : ℕ)) 2 = 0x7ff0) (hlow : m.word q 6 ≠ 0) :
    is_avail m q .float64 = false := by
  have hlt := ByteMemory.word_lt m q 6
  have hword : m.word q 8 = m.word q 6 + 256 ^ 6 * 0x7ff0 := by rw [← hhigh, ← ByteMemory.word_add]
  have hnan : isnan_double (m.word q 8) = true := by
    rw [isnan_double, hword, Bool.and_eq_true, decide_eq_true_iff, bne_iff_ne]
    omega
  rw [is_avail, hnan]
  rfl

/-- The two bytes at the end of a number say that it is no finite one. They are
not written again when the elements go down by two bytes or more, and the last
byte of the next element stands in the fraction. -/
theorem nan_kept {low high : ℕ} (htp : tp ≠ .string) (hsize : tp.data_size = low + 2)
    (hpattern : ofBytes (na_pattern tp) / 256 ^ low = high) (hhigh : 256 ≤ high)
    (hnan : ∀ m q, ByteMemory.word m (q + low) 2 = high → m.word q low ≠ 0 → is_avail m q tp = false)
    (hdown : stride ≤ -2) (hshort : stride.natAbs < tp.data_size)
    (h : assign_na_kernel.strided p stride count m tp = .ok m') :
    ∀ i < count, is_avail m' (p + i • stride) tp = false := by
  rw [assign_na_kernel.strided_eq] at h
  have hlen := length_na_pattern htp
  have hend := Lib.strided_each (Q := fun q y => ByteMemory.word y (q + low) 2 = high)
    (fun q x y hy => by
      rw [assign_na_kernel.single_eq htp] at hy
      cases hy
      have hbytes := ByteMemory.bytes_write x q (na_pattern tp)
      have hword := ByteMemory.word_add (x.write q (na_pattern tp)) q low 2
      rw [ByteMemory.word, ← hsize, ← hlen, hbytes] at hword
      rw [← hpattern, hword, Nat.add_mul_div_left _ _ (by positivity), Nat.div_eq_of_lt (ByteMemory.word_lt _ _ _), zero_add])
    (fun q k x y hpos _ hx hy => by
      rw [assign_na_kernel.single_eq htp] at hy
      cases hy
      rw [← hx]
      apply ByteMemory.word_congr
      intro i hi
      apply ByteMemory.write_outside
      right
      rw [nsmul_eq_mul]
      nlinarith) h
  intro i hi
  rcases Nat.lt_or_ge (i + 1) count with hnext | hlast
  · apply hnan _ _ (hend i hi)
    have hbyte := hend (i + 1) hnext
    rw [show 2 = 1 + 1 from rfl, ByteMemory.word_add, ByteMemory.word_one, ByteMemory.word_one] at hbyte
    have hfraction := (m' (p + i • stride)).toNat_lt
    have hlow := (m' (p + (i + 1) • stride + low)).toNat_lt
    obtain ⟨k, hk⟩ : ∃ k : ℕ, (k : ℤ) = low + 1 + stride := ⟨(low + 1 + stride).toNat, by omega⟩
    refine ByteMemory.word_ne_zero (i := k) (by omega) fun hzero => ?_
    rw [show p + (i + 1) • stride + (low : ℤ) + (1 : ℕ) = p + i • stride + k by rw [hk, succ_nsmul]; push_cast; ring,
      hzero] at hbyte
    have hz : (0 : UInt8).toNat = 0 := rfl
    omega
  · obtain ⟨n, rfl⟩ : ∃ n, count = n + 1 := ⟨count - 1, by omega⟩
    rw [Lib.strided_succ] at h
    obtain ⟨x, -, hx⟩ := Lib.bind_eq_ok.mp h
    rw [assign_na_kernel.single_eq htp] at hx
    cases hx
    rw [show i = n by omega]
    exact missing_of_write htp

/-- Where nothing else holds, the later element is written elsewhere or over the whole of the earlier one. -/
theorem missing_of_keeps (hkeeps : Keeps tp stride count) (h : assign_na_kernel.strided p stride count m tp = .ok m') :
    ∀ i < count, is_avail m' (p + i • stride) tp = false := by
  rcases eq_or_ne tp .string with rfl | htp
  · rw [assign_na_kernel.strided_eq] at h
    have hzero := Lib.strided_each (Q := fun q y => ByteMemory.word y q 8 = 0)
      (fun q x y hy => by
        obtain ⟨rfl, hx⟩ := assign_na_kernel.single_string hy
        exact hx)
      (fun q k x y _ _ hx hy => by
        obtain ⟨rfl, -⟩ := assign_na_kernel.single_string hy
        exact hx) h
    intro i hi
    simp only [is_avail, is_avail_kernel.single, hzero i hi, ne_eq, not_true_eq_false, decide_false]
  have hlen := length_na_pattern htp
  by_cases hsimple : count ≤ 1 ∨ stride = 0 ∨ tp.data_size ≤ stride.natAbs
  · rw [assign_na_kernel.strided_eq] at h
    refine Lib.strided_each (Q := fun q y => is_avail y q tp = false) (fun q x y hy => ?_)
      (fun q k x y hpos hk hx hy => ?_) h
    · rw [assign_na_kernel.single_eq htp] at hy
      cases hy
      exact missing_of_write htp
    · rw [assign_na_kernel.single_eq htp] at hy
      cases hy
      rcases hsimple with hcount | rfl | hfar
      · omega
      · rw [smul_zero, add_zero]
        exact missing_of_write htp
      · rw [← hx]
        apply is_avail_congr
        intro i hi
        apply ByteMemory.write_outside
        rw [nsmul_eq_mul]
        have hpush : (tp.data_size : ℤ) ≤ k * stride.natAbs :=
          le_trans (by exact_mod_cast hfar) (le_mul_of_one_le_left (by positivity) (by exact_mod_cast hpos))
        rcases Int.natAbs_eq stride with hs | hs
        · have hstep := congrArg (fun z : ℤ => k * z) hs
          left
          linarith
        · have hstep := congrArg (fun z : ℤ => k * z) hs
          right
          linarith
  push Not at hsimple
  obtain ⟨hcount, hzero, hshort⟩ := hsimple
  have hspared : Spared stride tp := by
    rcases hkeeps with hkeeps | hkeeps | hkeeps | hkeeps
    · omega
    · exact absurd hkeeps hzero
    · omega
    · exact hkeeps
  have hhalves {half : List UInt8} (hpattern : na_pattern tp = half ++ half) (hsize : tp.data_size = half.length + half.length)
      (hstride : stride.natAbs = half.length) : ∀ i < count, is_avail m' (p + i • stride) tp = false := by
    rw [assign_na_kernel.strided_eq] at h
    have hbytes := Lib.strided_each (Q := fun q y => ByteMemory.bytes y q tp.data_size = na_pattern tp)
      (fun q x y hy => by
        rw [assign_na_kernel.single_eq htp] at hy
        cases hy
        rw [← hlen]
        exact ByteMemory.bytes_write x q _)
      (fun q k x y _ _ hx hy => by
        rw [assign_na_kernel.single_eq htp] at hy
        cases hy
        rw [hpattern, hsize] at hx ⊢
        exact halves_kept hx hstride k) h
    exact fun i hi => missing_of_pattern htp (hbytes i hi)
  cases tp with
  | float32 => exact nan_kept htp rfl (by decide) (by decide) (fun m q => float_missing) hspared hshort h
  | float64 => exact nan_kept htp rfl (by decide) (by decide) (fun m q => double_missing) hspared hshort h
  | complex_float32 => exact hhalves rfl rfl hspared
  | complex_float64 => exact hhalves rfl rfl hspared
  | void => exact absurd hshort (Nat.not_lt_zero _)
  | string => exact absurd rfl htp
  | _ => exact absurd hspared id

end

/-! ## Agreement -/

section
variable (tp : value_type) (m : ByteMemory) (src0 stride : ℤ) (count : ℕ)

/-- The three tests say the same of every element. -/
structure SameAnswer : Prop where
  single : ∀ i < count, is_avail_kernel.single m (src0 + i • stride) tp = is_avail m (src0 + i • stride) tp
  strided : ∀ dst dst_stride, is_avail_kernel.strided m dst dst_stride src0 stride count tp =
    (List.range count).map fun i : ℕ => (dst + i • dst_stride, is_avail m (src0 + i • stride) tp)

/-- The three tests find every element missing. -/
structure Unavailable : Prop where
  single : ∀ i < count, is_avail_kernel.single m (src0 + i • stride) tp = false
  strided : ∀ dst dst_stride, ∀ answer ∈ is_avail_kernel.strided m dst dst_stride src0 stride count tp, answer.2 = false
  option_type : ∀ i < count, is_avail m (src0 + i • stride) tp = false

/-- The tests agree, and they see what the writers wrote. -/
structure Agreement : Prop where
  same : SameAnswer tp m src0 stride count
  after_option_type : ∀ m', assign_na src0 m tp = .ok m' → Unavailable tp m' src0 stride 1
  after_single : ∀ m', assign_na_kernel.single src0 m tp = .ok m' → Unavailable tp m' src0 stride 1
  after_strided : ∀ m', assign_na_kernel.strided src0 stride count m tp = .ok m' → Unavailable tp m' src0 stride count

/-- The elements on which the tests say the same. -/
def Answers : Prop :=
  match tp with
  | .complex_float32 => ∀ i < count, m.word (src0 + i • stride) 4 = DYND_FLOAT32_NA_AS_UINT ↔
      m.word (src0 + i • stride + 4) 4 = DYND_FLOAT32_NA_AS_UINT
  | .complex_float64 => ∀ i < count, m.word (src0 + i • stride) 8 = DYND_FLOAT64_NA_AS_UINT ↔
      m.word (src0 + i • stride + 8) 8 = DYND_FLOAT64_NA_AS_UINT
  | .date => is_avail_kernel.low_half src0 = DYND_DATE_NA ∧ ∀ i < count, m.word (src0 + i • stride) 4 = DYND_DATE_NA
  | .datetime => ∀ i < count, m.word src0 8 = DYND_DATETIME_NA ↔ m.word (src0 + i • stride) 8 = DYND_DATETIME_NA
  | _ => True

end

section
variable {tp : value_type} {m m' : ByteMemory} {src0 stride : ℤ} {count : ℕ}

/-- The loops that look at each element. -/
theorem is_avail_kernel.strided_eq (hdate : tp ≠ .date) (hdatetime : tp ≠ .datetime) (dst dst_stride : ℤ) :
    is_avail_kernel.strided m dst dst_stride src0 stride count tp =
      (List.range count).map fun i : ℕ => (dst + i • dst_stride, is_avail_kernel.single m (src0 + i • stride) tp) := by
  cases tp with
  | date => exact absurd rfl hdate
  | datetime => exact absurd rfl hdatetime
  | _ => exact is_avail_kernel.loop_eq _ _ _ _ _ _

theorem assign_na_kernel.strided_ok (htp : tp ≠ .string) (src0 stride : ℤ) (count : ℕ) (m : ByteMemory) :
    ∃ m', assign_na_kernel.strided src0 stride count m tp = .ok m' := by
  rw [assign_na_kernel.strided_eq]
  induction count with
  | zero => exact ⟨m, rfl⟩
  | succ count ih =>
    obtain ⟨x, hx⟩ := ih
    rw [Lib.strided_succ, hx, Lib.ok_bind, assign_na_kernel.single_eq htp]
    exact ⟨_, rfl⟩

theorem unavailable_of_missing (hdate : tp = .date → is_avail_kernel.low_half src0 = DYND_DATE_NA)
    (h : ∀ i < count, is_avail m (src0 + i • stride) tp = false) : Unavailable tp m src0 stride count := by
  have hsingle : ∀ i < count, is_avail_kernel.single m (src0 + i • stride) tp = false :=
    fun i hi => is_avail_kernel.single_of_missing (h i hi)
  refine ⟨hsingle, fun dst dst_stride answer hanswer => ?_, h⟩
  by_cases hloop : tp ≠ .date ∧ tp ≠ .datetime
  · rw [is_avail_kernel.strided_eq hloop.1 hloop.2] at hanswer
    obtain ⟨i, hi, rfl⟩ := List.mem_map.mp hanswer
    exact hsingle i (List.mem_range.mp hi)
  obtain rfl | rfl : tp = .date ∨ tp = .datetime := by tauto
  · rw [is_avail_kernel.strided, is_avail_kernel.loop_eq] at hanswer
    obtain ⟨i, -, rfl⟩ := List.mem_map.mp hanswer
    simp only [hdate rfl, ne_eq, not_true_eq_false, decide_false]
  · rw [is_avail_kernel.strided, is_avail_kernel.loop_eq] at hanswer
    obtain ⟨i, hi, rfl⟩ := List.mem_map.mp hanswer
    have hfirst := hsingle 0 (by have := List.mem_range.mp hi; omega)
    rw [zero_nsmul, add_zero] at hfirst
    simp only [hfirst]

theorem is_avail_date (p : ℤ) : is_avail m p .date = decide (m.word p 4 ≠ DYND_DATE_NA) := rfl

theorem is_avail_datetime (p : ℤ) : is_avail m p .datetime = decide (m.word p 8 ≠ DYND_DATETIME_NA) := rfl

theorem single_datetime (p : ℤ) : is_avail_kernel.single m p .datetime = decide (m.word p 8 ≠ DYND_DATETIME_NA) := rfl

theorem same_answer_of_answers (h : Answers tp m src0 stride count) : SameAnswer tp m src0 stride count := by
  have hsingle : ∀ i < count, is_avail_kernel.single m (src0 + i • stride) tp = is_avail m (src0 + i • stride) tp := by
    intro i hi
    rw [is_avail_kernel.single_eq_iff]
    constructor
    · rintro rfl
      exact h i hi
    · rintro rfl
      exact h i hi
  refine ⟨hsingle, fun dst dst_stride => ?_⟩
  by_cases hloop : tp ≠ .date ∧ tp ≠ .datetime
  · rw [is_avail_kernel.strided_eq hloop.1 hloop.2]
    apply List.map_congr_left
    intro i hi
    rw [hsingle i (List.mem_range.mp hi)]
  obtain rfl | rfl : tp = .date ∨ tp = .datetime := by tauto
  · rw [is_avail_kernel.strided, is_avail_kernel.loop_eq]
    apply List.map_congr_left
    intro i hi
    rw [is_avail_date, h.1, h.2 i (List.mem_range.mp hi)]
  · rw [is_avail_kernel.strided, is_avail_kernel.loop_eq]
    apply List.map_congr_left
    intro i hi
    rw [is_avail_datetime, single_datetime, decide_eq_decide.mpr (not_congr (h i (List.mem_range.mp hi)))]

theorem answers_of_agreement (h : Agreement tp m src0 stride count) : Answers tp m src0 stride count := by
  have hsingle (i : ℕ) (hi : i < count) := is_avail_kernel.single_eq_iff.mp (h.same.single i hi)
  have hstrided := h.same.strided 0 0
  cases tp with
  | complex_float32 => exact fun i hi => (hsingle i hi).1 rfl
  | complex_float64 => exact fun i hi => (hsingle i hi).2 rfl
  | date =>
    have hlow : is_avail_kernel.low_half src0 = DYND_DATE_NA := by
      have hanswer := (h.after_option_type _ rfl).strided 0 0 _ (List.mem_singleton.mpr rfl)
      exact not_not.mp (of_decide_eq_false hanswer)
    refine ⟨hlow, fun i hi => ?_⟩
    rw [is_avail_kernel.strided, is_avail_kernel.loop_eq, List.map_inj_left] at hstrided
    have hanswer := (Prod.mk.inj (hstrided i (List.mem_range.mpr hi))).2
    rw [is_avail_date, hlow, decide_eq_decide] at hanswer
    by_contra hne
    exact hanswer.mpr hne rfl
  | datetime =>
    intro i hi
    rw [is_avail_kernel.strided, is_avail_kernel.loop_eq, List.map_inj_left] at hstrided
    have hanswer := (Prod.mk.inj (hstrided i (List.mem_range.mpr hi))).2
    rw [is_avail_datetime, single_datetime, decide_eq_decide] at hanswer
    exact not_iff_not.mp hanswer
  | _ => exact trivial

/-- The tests agree on a complex number whose components are both of the
pattern or neither, not on the others; the strided test of dates looks at the
pointer, that of datetimes at the first element. What is written is seen as
long as the elements do not spoil one another. -/
theorem agreement_iff (tp : value_type) (m : ByteMemory) (src0 stride : ℤ) (count : ℕ) :
    Agreement tp m src0 stride count ↔ Answers tp m src0 stride count ∧ Keeps tp stride count := by
  constructor
  · intro h
    refine ⟨answers_of_agreement h, ?_⟩
    rcases eq_or_ne tp .string with rfl | htp
    · exact .inr (.inr (.inr trivial))
    · obtain ⟨m', hm'⟩ := assign_na_kernel.strided_ok htp src0 stride count m
      exact keeps_of_missing hm' (h.after_strided m' hm').option_type
  · rintro ⟨hanswers, hkeeps⟩
    have hdate : tp = .date → is_avail_kernel.low_half src0 = DYND_DATE_NA := by
      rintro rfl
      exact hanswers.1
    have hone (m' : ByteMemory) (hm' : assign_na_kernel.single src0 m tp = .ok m') : Unavailable tp m' src0 stride 1 := by
      apply unavailable_of_missing hdate
      apply missing_of_keeps (.inl le_rfl) (m := m)
      rw [assign_na_kernel.strided_eq, Lib.strided_one]
      exact hm'
    refine ⟨same_answer_of_answers hanswers, fun m' hm' => ?_, hone, fun m' hm' => ?_⟩
    · rw [assign_na_eq] at hm'
      exact hone m' hm'
    · exact unavailable_of_missing hdate (missing_of_keeps hkeeps hm')

end

/-- The second datetime is there, the first is not. -/
theorem second_datetime_hidden : ¬ ∀ (tp : value_type) (m : ByteMemory) (src0 stride : ℤ) (count : ℕ),
    Agreement tp m src0 stride count := by
  intro h
  have hanswer := (h .datetime (holding (toBytes 8 DYND_DATETIME_NA)) 0 8 2).same.strided 0 1
  exact absurd hanswer (by decide)

end Dynd.Availability
