import Dynd.Lib.FieldLayout
import Mathlib.Data.Nat.Bitwise
import Mathlib.Data.UInt
/-!
# The default layout of structs and tuples

`fill_default_data_offsets` and `get_default_data_size` go over the fields
separately, and the constructor takes the alignment of the struct from them.
Sizes are of type `size_t`, and a size that does not fit is cut off.

`default_layout_iff`: for every tree of structs the offsets are a layout in
the size just when the size that is not cut off fits 64 bits.
-/
namespace Dynd.StructLayout
open Lib

/-- An alignment: a power of two in a `uint8_t`. -/
def data_alignment : Type := {a : UInt8 // ∃ k, k < 8 ∧ a.toNat = 2 ^ k}

/-- A struct or tuple, or any other type by its default data size and its
alignment. -/
inductive type where
  | other (default_data_size : UInt64) (alignment : data_alignment)
  | base_tuple (field_types : List type)

def inc_to_alignment (offset alignment : UInt64) : UInt64 := (offset + alignment - 1) &&& -alignment

mutual

def get_data_alignment : type → UInt64
  | .other _ alignment => alignment.val.toUInt64
  | .base_tuple field_types => (alignmentLoop 1 field_types).toUInt64

/-- Accumulate the biggest field alignment as the type alignment. -/
def alignmentLoop (data_alignment : UInt8) : List type → UInt8
  | [] => data_alignment
  | ft :: field_types =>
    let field_alignment := get_data_alignment ft
    alignmentLoop (if field_alignment > data_alignment.toUInt64 then field_alignment.toUInt8 else data_alignment) field_types

end

mutual

def get_default_data_size : type → UInt64
  | .other default_data_size _ => default_data_size
  | .base_tuple field_types =>
    inc_to_alignment (sizeLoop 0 field_types) (get_data_alignment (.base_tuple field_types))

def sizeLoop (s : UInt64) : List type → UInt64
  | [] => s
  | ft :: field_types => sizeLoop (inc_to_alignment s (get_data_alignment ft) + get_default_data_size ft) field_types

end

/-- The offsets after a field `prev` that is at `offs`. -/
def offsetsLoop (prev : type) (offs : UInt64) : List type → List UInt64
  | [] => []
  | ft :: field_tps =>
    let offs := inc_to_alignment (offs + get_default_data_size prev) (get_data_alignment ft)
    offs :: offsetsLoop ft offs field_tps

def fill_default_data_offsets : List type → List UInt64
  | [] => []
  | ft :: field_tps => 0 :: offsetsLoop ft 0 field_tps

/-! ## Without the cut -/

/-- A field as it is laid out. -/
def field (ft : type) : Field := ⟨(get_default_data_size ft).toNat, (get_data_alignment ft).toNat⟩

/-- The size of the struct when nothing is cut off. -/
def exact_size (field_types : List type) : ℕ :=
  alignUp (placed 0 (field_types.map field)) (get_data_alignment (.base_tuple field_types)).toNat

theorem and_neg_two_pow {x k : ℕ} (hx : x < 2 ^ 64) (hk : k < 64) : x &&& (2 ^ 64 - 2 ^ k) = x / 2 ^ k * 2 ^ k := by
  have hsplit : 2 ^ 64 - 2 ^ k = (2 ^ (64 - k) - 1) * 2 ^ k := by
    rw [Nat.sub_mul, ← Nat.pow_add, Nat.sub_add_cancel hk.le, Nat.one_mul]
  apply Nat.eq_of_testBit_eq
  intro i
  rw [hsplit, Nat.testBit_and, Nat.testBit_mul_two_pow, Nat.testBit_mul_two_pow, Nat.testBit_two_pow_sub_one,
    Nat.testBit_div_two_pow]
  by_cases hik : k ≤ i
  · by_cases hi : i < 64
    · simp [hik, show i - k < 64 - k by omega]
    · have hlow : x.testBit i = false := Nat.testBit_lt_two_pow (hx.trans_le (Nat.pow_le_pow_right (by decide) (by omega)))
      simp [hik, hlow]
  · simp [hik]

theorem inc_to_alignment_toNat (offset : UInt64) {alignment : UInt64} {k : ℕ} (hk : k < 64) (ha : alignment.toNat = 2 ^ k) :
    (inc_to_alignment offset alignment).toNat = alignUp offset.toNat alignment.toNat % 2 ^ 64 := by
  have hpos : 0 < 2 ^ k := Nat.two_pow_pos k
  have hlt : 2 ^ k < 2 ^ 64 := Nat.pow_lt_pow_right (by decide) hk
  have hneg : (-alignment).toNat = 2 ^ 64 - 2 ^ k := by
    rw [UInt64.toNat_neg, ha]
    exact Nat.mod_eq_of_lt (Nat.sub_lt (by decide) hpos)
  have hsum : (offset + alignment - 1).toNat = (offset.toNat + 2 ^ k - 1) % 2 ^ 64 := by
    rw [UInt64.toNat_sub, UInt64.toNat_add, ha]
    change (2 ^ 64 - 1 + (offset.toNat + 2 ^ k) % 2 ^ 64) % 2 ^ 64 = _
    omega
  have hM : 2 ^ 64 = 2 ^ k * 2 ^ (64 - k) := by rw [← Nat.pow_add, Nat.add_sub_cancel' hk.le]
  unfold inc_to_alignment alignUp
  rw [UInt64.toNat_and, hsum, hneg, and_neg_two_pow (Nat.mod_lt _ (by decide)) hk, ha, hM, Nat.mod_mul_right_div_self,
    Nat.mul_comm (2 ^ k) (2 ^ (64 - k)), Nat.mul_mod_mul_right]

/-! ## The alignment of a struct -/

/-- A power of two that fits a `uint8_t`. -/
def SmallPower (a : ℕ) : Prop := ∃ k, k < 8 ∧ a = 2 ^ k

theorem SmallPower.dvd {a b : ℕ} (ha : SmallPower a) (hb : SmallPower b) (h : a ≤ b) : a ∣ b := by
  obtain ⟨k, -, rfl⟩ := ha
  obtain ⟨l, -, rfl⟩ := hb
  exact Nat.pow_dvd_pow 2 ((Nat.pow_le_pow_iff_right (by decide)).mp h)

theorem SmallPower.lt {a : ℕ} (ha : SmallPower a) : a < 256 := by
  obtain ⟨k, hk, rfl⟩ := ha
  exact Nat.pow_lt_pow_right (by decide) hk

theorem SmallPower.pos {a : ℕ} (ha : SmallPower a) : 0 < a := by
  obtain ⟨k, -, rfl⟩ := ha
  exact Nat.two_pow_pos k

theorem SmallPower.dvd_size {a : ℕ} (ha : SmallPower a) : a ∣ 2 ^ 64 := by
  obtain ⟨k, hk, rfl⟩ := ha
  exact Nat.pow_dvd_pow 2 (by omega)

theorem alignmentLoop_cons (m : UInt8) (ft : type) (field_types : List type) : alignmentLoop m (ft :: field_types) =
    alignmentLoop (if get_data_alignment ft > m.toUInt64 then (get_data_alignment ft).toUInt8 else m) field_types := rfl

/-- One field: the bigger of the two. -/
theorem bigger_alignment {m : UInt8} {a : UInt64} (ha : SmallPower a.toNat) :
    (if a > m.toUInt64 then a.toUInt8 else m).toNat = max m.toNat a.toNat := by
  have hlt := ha.lt
  split_ifs with h
  · have h' : m.toNat < a.toNat := h
    rw [UInt64.toNat_toUInt8, Nat.mod_eq_of_lt hlt, max_eq_right h'.le]
  · have h' : ¬ m.toNat < a.toNat := h
    rw [max_eq_left (not_lt.mp h')]

mutual

theorem smallPower_alignment : ∀ ft : type, SmallPower (get_data_alignment ft).toNat
  | .other _ alignment => alignment.property
  | .base_tuple field_types => smallPower_loop field_types 1 ⟨0, by decide, rfl⟩

theorem smallPower_loop : ∀ (field_types : List type) (m : UInt8), SmallPower m.toNat →
    SmallPower (alignmentLoop m field_types).toNat
  | [], _, hm => hm
  | ft :: field_types, m, hm => by
    have hft := smallPower_alignment ft
    rw [alignmentLoop_cons]
    apply smallPower_loop field_types
    rw [bigger_alignment hft]
    rcases max_choice m.toNat (get_data_alignment ft).toNat with h | h
    · rw [h]
      exact hm
    · rw [h]
      exact hft

end

theorem alignmentLoop_ge : ∀ (field_types : List type) (m : UInt8), m.toNat ≤ (alignmentLoop m field_types).toNat ∧
    ∀ ft ∈ field_types, (get_data_alignment ft).toNat ≤ (alignmentLoop m field_types).toNat
  | [], _ => ⟨le_rfl, fun _ h => absurd h List.not_mem_nil⟩
  | ft :: field_types, m => by
    obtain ⟨hm, hrest⟩ := alignmentLoop_ge field_types
      (if get_data_alignment ft > m.toUInt64 then (get_data_alignment ft).toUInt8 else m)
    rw [bigger_alignment (smallPower_alignment ft)] at hm
    rw [alignmentLoop_cons]
    refine ⟨(le_max_left _ _).trans hm, fun g hg => ?_⟩
    rcases List.mem_cons.mp hg with rfl | hg
    · exact (le_max_right _ _).trans hm
    · exact hrest g hg

/-- The alignment of every field divides that of the struct. -/
theorem alignment_dvd {field_types : List type} {ft : type} (h : ft ∈ field_types) :
    (get_data_alignment ft).toNat ∣ (get_data_alignment (.base_tuple field_types)).toNat :=
  (smallPower_alignment ft).dvd (smallPower_alignment _) ((alignmentLoop_ge field_types 1).2 ft h)

/-! ## The two loops -/

theorem inc_field_toNat {s : UInt64} {n : ℕ} (hs : s.toNat = n % 2 ^ 64) (ft : type) :
    (inc_to_alignment s (get_data_alignment ft)).toNat = alignUp n (get_data_alignment ft).toNat % 2 ^ 64 := by
  have hft := smallPower_alignment ft
  obtain ⟨k, hk, ha⟩ := smallPower_alignment ft
  rw [inc_to_alignment_toNat s (by omega) ha, hs, alignUp_mod hft.pos hft.dvd_size]

theorem sizeLoop_cons (s : UInt64) (ft : type) (field_types : List type) : sizeLoop s (ft :: field_types) =
    sizeLoop (inc_to_alignment s (get_data_alignment ft) + get_default_data_size ft) field_types := rfl

theorem sizeLoop_toNat : ∀ (field_types : List type) {s : UInt64} {n : ℕ}, s.toNat = n % 2 ^ 64 →
    (sizeLoop s field_types).toNat = placed n (field_types.map field) % 2 ^ 64
  | [], _, _, hs => hs
  | ft :: field_types, s, n, hs => by
    rw [sizeLoop_cons]
    apply sizeLoop_toNat field_types
    rw [UInt64.toNat_add, inc_field_toNat hs, Nat.mod_add_mod]
    rfl

theorem get_default_data_size_toNat (field_types : List type) :
    (get_default_data_size (.base_tuple field_types)).toNat = exact_size field_types % 2 ^ 64 :=
  inc_field_toNat (sizeLoop_toNat field_types rfl) (.base_tuple field_types)

theorem offsetsLoop_toNat : ∀ (field_tps : List type) (prev : type) {offs : UInt64} {n : ℕ}, offs.toNat = n % 2 ^ 64 →
    (offsetsLoop prev offs field_tps).map UInt64.toNat =
      (place (n + (field prev).size) (field_tps.map field)).map (· % 2 ^ 64)
  | [], _, _, _, _ => rfl
  | ft :: field_tps, prev, offs, n, hs => by
    have hoffs : (inc_to_alignment (offs + get_default_data_size prev) (get_data_alignment ft)).toNat =
        alignUp (n + (field prev).size) (field ft).alignment % 2 ^ 64 := by
      apply inc_field_toNat
      rw [UInt64.toNat_add, hs, Nat.mod_add_mod]
      rfl
    exact List.cons_eq_cons.mpr ⟨hoffs, offsetsLoop_toNat field_tps ft hoffs⟩

theorem fill_default_data_offsets_toNat (field_types : List type) :
    (fill_default_data_offsets field_types).map UInt64.toNat = (place 0 (field_types.map field)).map (· % 2 ^ 64) := by
  cases field_types with
  | nil => rfl
  | cons ft field_tps =>
    have hzero : alignUp 0 (field ft).alignment = 0 := alignUp_zero (smallPower_alignment ft).pos
    have hrest := offsetsLoop_toNat field_tps ft (rfl : (0 : UInt64).toNat = 0 % 2 ^ 64)
    change 0 :: (offsetsLoop ft 0 field_tps).map UInt64.toNat = alignUp 0 (field ft).alignment % 2 ^ 64 ::
      (place (alignUp 0 (field ft).alignment + (field ft).size) (field_tps.map field)).map (· % 2 ^ 64)
    rw [hrest, hzero, Nat.zero_mod]

/-- The default layout of a struct. -/
def DefaultLayout (field_types : List type) : Prop :=
  Layout (field_types.map field) ((fill_default_data_offsets field_types).map UInt64.toNat)
    (get_default_data_size (.base_tuple field_types)).toNat (get_data_alignment (.base_tuple field_types)).toNat

/-- Structs one after another in an array, the origin of which is aligned. -/
def Consecutive (field_types : List type) : Prop :=
  ∀ (k i j : ℕ) (hi : i < field_types.length) (ho : i < (fill_default_data_offsets field_types).length)
    (hj : j < (fill_default_data_offsets field_types).length),
    (get_data_alignment field_types[i]).toNat ∣
      k * (get_default_data_size (.base_tuple field_types)).toNat + (fill_default_data_offsets field_types)[i].toNat ∧
    k * (get_default_data_size (.base_tuple field_types)).toNat + (fill_default_data_offsets field_types)[i].toNat +
        (get_default_data_size field_types[i]).toNat ≤
      (k + 1) * (get_default_data_size (.base_tuple field_types)).toNat + (fill_default_data_offsets field_types)[j].toNat

theorem DefaultLayout.consecutive {field_types : List type} (h : DefaultLayout field_types) : Consecutive field_types := by
  intro k i j hi ho hj
  have hfields : ∀ f ∈ field_types.map field, f.alignment ∣ (get_data_alignment (.base_tuple field_types)).toNat := by
    intro f hf
    obtain ⟨ft, hft, rfl⟩ := List.mem_map.mp hf
    exact alignment_dvd hft
  have hi' : i < (field_types.map field).length := by rwa [List.length_map]
  have ho' : i < ((fill_default_data_offsets field_types).map UInt64.toNat).length := by rwa [List.length_map]
  have hj' : j < ((fill_default_data_offsets field_types).map UInt64.toNat).length := by rwa [List.length_map]
  have hspec := Layout.consecutive h hfields k hi' ho' hj'
  simpa only [List.getElem_map, field] using hspec

/-- The offsets of every struct, whatever its fields, are a layout in its
default size just when that size is not cut off. -/
theorem default_layout_iff (field_types : List type) : (DefaultLayout field_types ↔ exact_size field_types < 2 ^ 64) ∧
    (exact_size field_types < 2 ^ 64 → Consecutive field_types) := by
  have hiff : DefaultLayout field_types ↔ exact_size field_types < 2 ^ 64 := by
    unfold DefaultLayout
    rw [fill_default_data_offsets_toNat, get_default_data_size_toNat]
    refine layout_mod_iff (by decide) (smallPower_alignment _).pos (smallPower_alignment _).dvd_size fun f hf => ?_
    obtain ⟨ft, -, rfl⟩ := List.mem_map.mp hf
    exact ⟨(smallPower_alignment ft).pos, (smallPower_alignment ft).dvd_size⟩
  exact ⟨hiff, fun h => (hiff.mpr h).consecutive⟩

/-- Bytes, as many as there are. -/
def bytes (default_data_size : UInt64) : type := .other default_data_size ⟨1, 0, by decide, rfl⟩

/-- The third field is put at 0 again, where the first one is. -/
theorem offsets_cut_off : ¬ ∀ field_types : List type, DefaultLayout field_types := by
  intro h
  have hlayout := h [bytes 9223372036854775808, bytes 9223372036854775808, bytes 1]
  have hfields : [bytes 9223372036854775808, bytes 9223372036854775808, bytes 1].map field =
      [⟨9223372036854775808, 1⟩, ⟨9223372036854775808, 1⟩, ⟨1, 1⟩] := rfl
  have hoffsets : (fill_default_data_offsets [bytes 9223372036854775808, bytes 9223372036854775808, bytes 1]).map UInt64.toNat =
      [0, 9223372036854775808, 0] := rfl
  unfold DefaultLayout at hlayout
  rw [hfields, hoffsets] at hlayout
  have hordered : 0 + 9223372036854775808 ≤ 0 := hlayout.ordered 0 2 (by decide) (by decide) (by decide) (by decide)
  exact absurd hordered (by decide)

end Dynd.StructLayout
