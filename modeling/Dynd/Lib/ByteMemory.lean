import Mathlib.Data.List.GetD
import Mathlib.Tactic
/-!
# A memory of bytes

Every address holds a byte. Runs of bytes are read and written whole, and a
run stands for a number, its least significant byte first.
-/
namespace Dynd.Lib

abbrev ByteMemory := ℤ → UInt8

def ofBytes : List UInt8 → ℕ
  | [] => 0
  | b :: bs => b.toNat + 256 * ofBytes bs

/-- The `n` least significant bytes of a number. -/
def toBytes : ℕ → ℕ → List UInt8
  | 0, _ => []
  | n + 1, w => UInt8.ofNat w :: toBytes n (w / 256)

@[simp] theorem length_toBytes (n w : ℕ) : (toBytes n w).length = n := by
  induction n generalizing w with
  | zero => rfl
  | succ n ih => rw [toBytes, List.length_cons, ih]

theorem ofBytes_lt (bs : List UInt8) : ofBytes bs < 256 ^ bs.length := by
  induction bs with
  | nil => exact Nat.one_pos
  | cons b bs ih =>
    have hb : b.toNat < 256 := b.toNat_lt
    rw [ofBytes, List.length_cons, pow_succ]
    omega

theorem ofBytes_toBytes {n w : ℕ} (h : w < 256 ^ n) : ofBytes (toBytes n w) = w := by
  induction n generalizing w with
  | zero =>
    rw [pow_zero] at h
    exact (Nat.lt_one_iff.mp h).symm
  | succ n ih =>
    rw [pow_succ] at h
    rw [toBytes, ofBytes, ih (by omega), UInt8.toNat_ofNat']
    omega

theorem toBytes_ofBytes (bs : List UInt8) : toBytes bs.length (ofBytes bs) = bs := by
  induction bs with
  | nil => rfl
  | cons b bs ih =>
    have hb : b.toNat < 256 := b.toNat_lt
    rw [List.length_cons, ofBytes, toBytes, show (b.toNat + 256 * ofBytes bs) / 256 = ofBytes bs by omega, ih]
    congr 1
    apply UInt8.toNat_inj.mp
    rw [UInt8.toNat_ofNat']
    omega

theorem ofBytes_append (as bs : List UInt8) : ofBytes (as ++ bs) = ofBytes as + 256 ^ as.length * ofBytes bs := by
  induction as with
  | nil => rw [List.nil_append, ofBytes, List.length_nil, pow_zero, one_mul, zero_add]
  | cons a as ih =>
    rw [List.cons_append, ofBytes, ofBytes, ih, List.length_cons, pow_succ]
    ring

/-- Runs of one length are known by their numbers. -/
theorem ofBytes_inj {as bs : List UInt8} (hlen : as.length = bs.length) (h : ofBytes as = ofBytes bs) : as = bs := by
  rw [← toBytes_ofBytes as, ← toBytes_ofBytes bs, hlen, h]

theorem getElem_toBytes {n w k : ℕ} (h : k < (toBytes n w).length) : (toBytes n w)[k] = UInt8.ofNat (w / 256 ^ k) := by
  induction n generalizing w k with
  | zero => exact absurd h (Nat.not_lt_zero k)
  | succ n ih =>
    cases k with
    | zero => rw [pow_zero, Nat.div_one]; rfl
    | succ k =>
      simp only [toBytes, List.getElem_cons_succ]
      rw [ih, Nat.div_div_eq_div_mul, ← pow_succ']

/-- A number whose bits come byte by byte from the other end. -/
theorem toBytes_reverse {n w w' : ℕ} (h : ∀ i < 8 * n, w'.testBit i = w.testBit (8 * (n - 1 - i / 8) + i % 8)) :
    toBytes n w' = (toBytes n w).reverse := by
  refine List.ext_getElem (by rw [List.length_reverse, length_toBytes, length_toBytes]) fun k hk hk' => ?_
  rw [length_toBytes] at hk
  rw [List.getElem_reverse, getElem_toBytes, getElem_toBytes]
  apply UInt8.toBitVec_inj.mp
  apply BitVec.eq_of_getLsbD_eq
  intro j hj
  have hbit (x i : ℕ) : (UInt8.ofNat (x / 256 ^ i)).toBitVec.getLsbD j = x.testBit (8 * i + j) := by
    rw [UInt8.toBitVec_ofNat', BitVec.getLsbD_ofNat, show (256 : ℕ) = 2 ^ 8 from rfl, ← pow_mul, Nat.testBit_div_two_pow,
      decide_eq_true hj, Bool.true_and, add_comm]
  rw [hbit, hbit, h _ (by omega), length_toBytes]
  congr 1
  omega

namespace ByteMemory

def bytes (m : ByteMemory) (p : ℤ) (n : ℕ) : List UInt8 := (List.range n).map fun i : ℕ => m (p + i)

def word (m : ByteMemory) (p : ℤ) (n : ℕ) : ℕ := ofBytes (m.bytes p n)

def write (m : ByteMemory) (p : ℤ) (bs : List UInt8) : ByteMemory :=
  fun a => if p ≤ a ∧ a < p + bs.length then bs.getD (a - p).toNat 0 else m a

variable {m m' : ByteMemory} {p q : ℤ} {bs : List UInt8} {n : ℕ}

@[simp] theorem length_bytes (m : ByteMemory) (p : ℤ) (n : ℕ) : (m.bytes p n).length = n := by
  rw [bytes, List.length_map, List.length_range]

theorem getElem_bytes {i : ℕ} (h : i < (m.bytes p n).length) : (m.bytes p n)[i] = m (p + i) := by
  simp only [bytes, List.getElem_map, List.getElem_range]

theorem bytes_congr (h : ∀ i < n, m (p + (i : ℕ)) = m' (q + i)) : m.bytes p n = m'.bytes q n :=
  List.map_congr_left fun i hi => h i (List.mem_range.mp hi)

theorem bytes_eq_iff (hn : bs.length = n) : m.bytes p n = bs ↔ ∀ i (h : i < bs.length), m (p + (i : ℕ)) = bs[i] := by
  constructor
  · rintro rfl i h
    exact (getElem_bytes h).symm
  · intro h
    refine List.ext_getElem (by rw [length_bytes, hn]) fun i hi hi' => ?_
    rw [getElem_bytes hi, h i hi']

theorem write_inside {i : ℕ} (h : i < bs.length) : m.write p bs (p + i) = bs[i] := by
  rw [write, if_pos (by omega), show (p + i - p).toNat = i by omega, List.getD_eq_getElem _ _ h]

theorem write_outside {a : ℤ} (h : a < p ∨ p + bs.length ≤ a) : m.write p bs a = m a := if_neg (by omega)

theorem bytes_write (m : ByteMemory) (p : ℤ) (bs : List UInt8) : (m.write p bs).bytes p bs.length = bs :=
  (bytes_eq_iff rfl).mpr fun _ h => write_inside h

theorem bytes_write_apart (h : q + n ≤ p ∨ p + bs.length ≤ q) : (m.write p bs).bytes q n = m.bytes q n :=
  bytes_congr fun _ hi => write_outside (by omega)

theorem write_singleton (m : ByteMemory) (p : ℤ) (v : UInt8) : m.write p [v] = fun a => if a = p then v else m a := by
  funext a
  split_ifs with ha
  · rw [show a = p + (0 : ℕ) by omega, write_inside (by simp)]
    rfl
  · exact write_outside (by simp; omega)

@[simp] theorem write_nil (m : ByteMemory) (p : ℤ) : m.write p [] = m := by
  funext a
  apply write_outside
  rw [List.length_nil]
  omega

/-- Two runs, the second right behind the first, are one. -/
theorem write_append (m : ByteMemory) (p : ℤ) (as bs : List UInt8) :
    (m.write p as).write (p + as.length) bs = m.write p (as ++ bs) := by
  funext a
  rcases lt_or_ge a p with ha | ha
  · rw [write_outside (.inl (by omega)), write_outside (.inl ha), write_outside (.inl ha)]
  · obtain ⟨k, rfl⟩ : ∃ k : ℕ, a = p + k := ⟨(a - p).toNat, by omega⟩
    rcases lt_or_ge k as.length with hk | hk
    · rw [write_outside (.inl (by omega)), write_inside hk,
        write_inside (by rw [List.length_append]; omega), List.getElem_append_left hk]
    · rcases lt_or_ge k (as.length + bs.length) with hk' | hk'
      · rw [write_inside (by rw [List.length_append]; exact hk'), List.getElem_append_right hk,
          show (p + k : ℤ) = p + as.length + ((k - as.length : ℕ) : ℤ) by omega, write_inside (by omega)]
      · rw [write_outside (.inr (by omega)), write_outside (.inr (by omega)),
          write_outside (.inr (by rw [List.length_append]; omega))]

theorem bytes_add (m : ByteMemory) (p : ℤ) (a b : ℕ) : m.bytes p (a + b) = m.bytes p a ++ m.bytes (p + a) b := by
  rw [bytes, bytes, bytes, List.range_add, List.map_append, List.map_map]
  congr 1
  apply List.map_congr_left
  intro i _
  rw [Function.comp_apply, Nat.cast_add, add_assoc]

/-- A number of two halves. -/
theorem word_add (m : ByteMemory) (p : ℤ) (a b : ℕ) : m.word p (a + b) = m.word p a + 256 ^ a * m.word (p + a) b := by
  rw [word, bytes_add, ofBytes_append, length_bytes, word, word]

theorem word_one (m : ByteMemory) (p : ℤ) : m.word p 1 = (m p).toNat := by
  simp [word, bytes, ofBytes]

theorem word_lt (m : ByteMemory) (p : ℤ) (n : ℕ) : m.word p n < 256 ^ n := by
  have hlt := ofBytes_lt (m.bytes p n)
  rwa [length_bytes] at hlt

theorem word_ne_zero {i : ℕ} (hi : i < n) (h : m (p + i) ≠ 0) : m.word p n ≠ 0 := by
  have hbyte : (m (p + i)).toNat ≠ 0 := fun hzero => h (UInt8.toNat_inj.mp hzero)
  have hpos : 0 < 256 ^ i := by positivity
  obtain ⟨k, rfl⟩ : ∃ k, n = i + (1 + k) := ⟨n - i - 1, by omega⟩
  rw [word_add, word_add, word_one]
  have hprod : 0 < 256 ^ i * ((m (p + i)).toNat + 256 ^ 1 * m.word (p + i + (1 : ℕ)) k) := by
    apply Nat.mul_pos hpos
    omega
  omega

/-- A number is known by the bytes at its place. -/
theorem word_congr (h : ∀ i < n, m (p + (i : ℕ)) = m' (q + i)) : m.word p n = m'.word q n := by
  rw [word, word, bytes_congr h]

theorem word_write {w : ℕ} (h : w < 256 ^ n) : (m.write p (toBytes n w)).word p n = w := by
  have hbytes := bytes_write m p (toBytes n w)
  rw [length_toBytes] at hbytes
  rw [word, hbytes, ofBytes_toBytes h]

end ByteMemory

end Dynd.Lib
