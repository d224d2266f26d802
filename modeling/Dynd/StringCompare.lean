import Dynd.CompareKernels
import Dynd.FixedString
import Dynd.Lib.WordOrder
import Mathlib.Data.Char
/-!
# Comparison of strings

Two strings of one type are compared unit by unit as they are stored, two of
different types are converted to UTF-8 first. Both give the order of the code
points, but for UTF-16: `comparison_by_text_iff` says where.
-/
namespace Dynd.StringCompare
open Lib StringEncodings Transcode Compare
open Parse (assign_error_mode)

/-! ## The loops -/

/-- The types a kernel table has a row for. -/
inductive unit_type where
  | uint8
  | uint16
  | uint32
deriving DecidableEq, Repr

def units16 : List UInt8 → List ℕ
  | a :: b :: rest => (uint16At [a, b]).toNat :: units16 rest
  | _ => []

def units32 : List UInt8 → List ℕ
  | a :: b :: c :: d :: rest => (uint32At [a, b, c, d]).toNat :: units32 rest
  | _ => []

/-- `reinterpret_cast<const T *>`: the memory as units. -/
def units : unit_type → List UInt8 → List ℕ
  | .uint8, mem => mem.map UInt8.toNat
  | .uint16, mem => units16 mem
  | .uint32, mem => units32 mem

/-- `std::lexicographical_compare` -/
def lexicographical_compare : List ℕ → List ℕ → Bool
  | _, [] => false
  | [], _ :: _ => true
  | a :: as, b :: bs => if a < b then true else if b < a then false else lexicographical_compare as bs

/-- The sign of `memcmp(a, b, n)`. -/
def memcmp : ℕ → List UInt8 → List UInt8 → Ordering
  | n + 1, a :: as, b :: bs => if a < b then .lt else if b < a then .gt else memcmp n as bs
  | _, _, _ => .eq

/-- The sign of `strncmp(a, b, n)`. -/
def strncmp : ℕ → List UInt8 → List UInt8 → Ordering
  | n + 1, a :: as, b :: bs =>
    if a < b then .lt else if b < a then .gt else if a = 0 then .eq else strncmp n as bs
  | _, _, _ => .eq

/-- `for (i = 0; i != string_size; ++i, ++lhs, ++rhs)`: no two units differ. -/
def units_equal : List ℕ → List ℕ → Bool
  | a :: as, b :: bs => if a ≠ b then false else units_equal as bs
  | _, _ => true

/-! ## The kernels -/

/-- The kernels of one row that compare with `lexicographical_compare`. -/
def lexicographical_kernel (src0 src1 : List ℕ) (equal : Bool) : comparison → Bool
  | .less => lexicographical_compare src0 src1
  | .less_equal => !lexicographical_compare src1 src0
  | .equal => equal
  | .not_equal => !equal
  | .greater_equal => !lexicographical_compare src0 src1
  | .greater => lexicographical_compare src1 src0

def ascii_utf8_fixed_string_compare_kernel (stringsize : ℕ) (src0 src1 : List UInt8) : comparison → Bool
  | .less => (strncmp stringsize src0 src1).isLT
  | .less_equal => (strncmp stringsize src0 src1).isLE
  | .equal => (strncmp stringsize src0 src1).isEq
  | .not_equal => (strncmp stringsize src0 src1).isNe
  | .greater_equal => (strncmp stringsize src0 src1).isGE
  | .greater => (strncmp stringsize src0 src1).isGT

/-- The two tables of wider units are alike. -/
def wide_fixed_string_compare_kernel (T : unit_type) (stringsize : ℕ) (src0 src1 : List UInt8) : comparison → Bool :=
  let lhs := (units T src0).take stringsize
  let rhs := (units T src1).take stringsize
  lexicographical_kernel lhs rhs (units_equal lhs rhs)

def utf16_fixed_string_compare_kernel := wide_fixed_string_compare_kernel .uint16
def utf32_fixed_string_compare_kernel := wide_fixed_string_compare_kernel .uint32

/-- `da->end - da->begin == db->end - db->begin && memcmp(...) == 0` -/
def string_compare_kernel (T : unit_type) (da db : List UInt8) : comparison → Bool :=
  lexicographical_kernel (units T da) (units T db)
    (decide (da.length = db.length) && (memcmp da.length da db).isEq)

def lookup : string_encoding_t → Option unit_type
  | .ascii => some .uint8
  | .ucs_2 => some .uint16
  | .utf_8 => some .uint8
  | .utf_16 => some .uint16
  | .utf_32 => some .uint32
  | .latin1 | .invalid => none

/-- `operator<<` -/
def encoding_text : string_encoding_t → String
  | .ascii => "ascii"
  | .ucs_2 => "ucs2"
  | .utf_8 => "utf8"
  | .utf_16 => "utf16"
  | .utf_32 => "utf32"
  | .latin1 => "latin1"
  | .invalid => "unknown string encoding"

def comptype_text : comparison_type_t → String
  | .sorting_less => "0"
  | .less => "1"
  | .less_equal => "2"
  | .equal => "3"
  | .not_equal => "4"
  | .greater_equal => "5"
  | .greater => "6"

def unexpected (function : String) (encoding : string_encoding_t) (comptype : comparison_type_t) : TranscodeError :=
  .runtime_error (function ++ ": Unexpected encoding (" ++ encoding_text encoding ++ ") or comparison type (" ++
    comptype_text comptype ++ ")")

/-- The tables have `less` for `sorting_less`. -/
def make_fixed_string_comparison_kernel (string_size : ℕ) (encoding : string_encoding_t) (comptype : comparison_type_t) :
    Except TranscodeError (List UInt8 → List UInt8 → Bool) :=
  match lookup encoding with
  | some .uint8 => .ok fun src0 src1 => ascii_utf8_fixed_string_compare_kernel string_size src0 src1 comptype.operator
  | some .uint16 => .ok fun src0 src1 => utf16_fixed_string_compare_kernel string_size src0 src1 comptype.operator
  | some .uint32 => .ok fun src0 src1 => utf32_fixed_string_compare_kernel string_size src0 src1 comptype.operator
  | none => .error (unexpected "make_fixed_string_comparison_kernel" encoding comptype)

def make_string_comparison_kernel (encoding : string_encoding_t) (comptype : comparison_type_t) :
    Except TranscodeError (List UInt8 → List UInt8 → Bool) :=
  match lookup encoding with
  | some T => .ok fun da db => string_compare_kernel T da db comptype.operator
  | none => .error (unexpected "make_string_comparison_kernel" encoding comptype)

/-! ## The operands -/

/-- The constructor throws for the other encodings. -/
structure string_type where
  encoding : string_encoding_t
  known : recognized encoding = true

/-- A value of one of the types: the range of the `string_type_data`, `none` where `begin` is `NULL`, or
the memory at the address of the buffer. -/
inductive Operand where
  | string (tp : string_type) (data : Option CharRange)
  | fixed_string (tp : fixed_string_type) (mem : List UInt8)

/-- Why there is no result. -/
inductive CompareFailure where
  | threw (e : TranscodeError)
  | overrun
  | out_of_fuel
deriving DecidableEq, Repr

/-- The bytes of a converted string. -/
def converted_bytes : Option Assigned → Except CompareFailure (List UInt8)
  | some (.done dst) => .ok (dst.getD [])
  | some (.threw e) => .error (.threw e)
  | some .overrun => .error .overrun
  | none => .error .out_of_fuel

def string_bytes (data : Option CharRange) : List UInt8 := (data.map CharRange.bytes).getD []

/-- `ndt::make_convert(ndt::make_string(), src_dt)` and the kernel that fills its buffer, a string that
has a memory block of its own. A `string` in UTF-8 is used as it is. -/
def convert_to_string (errmode : assign_error_mode) (fuel : ℕ) : Operand → Except CompareFailure (List UInt8)
  | .string tp data =>
    if tp.encoding = .utf_8 then .ok (string_bytes data)
    else match make_blockref_string_assignment_kernel .utf_8 tp.encoding false errmode with
      | .error e => .error (.threw e)
      | .ok ck => converted_bytes (ck.single none data fuel)
  | .fixed_string tp mem =>
    match make_fixed_string_to_blockref_string_assignment_kernel .utf_8 tp.data_size tp.encoding errmode with
    | .error e => .error (.threw e)
    | .ok ck => converted_bytes (ck.single none mem fuel)

def make_general_string_comparison_kernel (errmode : assign_error_mode) (fuel : ℕ) (src0 src1 : Operand)
    (comptype : comparison_type_t) : Except CompareFailure Bool := do
  let da ← convert_to_string errmode fuel src0
  let db ← convert_to_string errmode fuel src1
  match make_string_comparison_kernel .utf_8 comptype with
  | .error e => .error (.threw e)
  | .ok kernel => .ok (kernel da db)

/-- `make_comparison_kernel` of the two types, and the call of the kernel. -/
def compare (errmode : assign_error_mode) (fuel : ℕ) (comptype : comparison_type_t) (src0 src1 : Operand) :
    Except CompareFailure Bool :=
  let general := make_general_string_comparison_kernel errmode fuel src0 src1 comptype
  match src0, src1 with
  | .string tp0 da, .string tp1 db =>
    if tp0.encoding = tp1.encoding then
      match make_string_comparison_kernel tp0.encoding comptype with
      | .error e => .error (.threw e)
      | .ok kernel => .ok (kernel (string_bytes da) (string_bytes db))
    else general
  | .fixed_string tp0 mem0, .fixed_string tp1 mem1 =>
    if tp0.encoding = tp1.encoding ∧ tp0.stringsize = tp1.stringsize then
      match make_fixed_string_comparison_kernel tp0.stringsize tp0.encoding comptype with
      | .error e => .error (.threw e)
      | .ok kernel => .ok (kernel mem0 mem1)
    else general
  | _, _ => general

/-! ## What the loops compute -/

theorem lexicographical_compare_eq (a b : List ℕ) : lexicographical_compare a b = decide (a < b) := by
  induction a generalizing b with
  | nil => cases b <;> simp [lexicographical_compare]
  | cons x a ih =>
    cases b with
    | nil => simp [lexicographical_compare]
    | cons y b =>
      rw [lexicographical_compare, ih]
      rcases lt_trichotomy x y with h | rfl | h
      · simp [List.cons_lt_cons_iff, h]
      · simp
      · simp [List.cons_lt_cons_iff, h, lt_asymm h, h.ne']

theorem units_equal_eq {a b : List ℕ} (h : a.length = b.length) : units_equal a b = decide (a = b) := by
  induction a generalizing b with
  | nil =>
    rw [List.length_nil] at h
    rw [List.eq_nil_of_length_eq_zero h.symm]
    simp [units_equal]
  | cons x a ih =>
    cases b with
    | nil => simp at h
    | cons y b =>
      rw [units_equal, ih (Nat.succ.inj h)]
      by_cases hxy : x = y <;> simp [hxy]

theorem memcmp_isEq (a b : List UInt8) (h : a.length = b.length) : (memcmp a.length a b).isEq = decide (a = b) := by
  induction a generalizing b with
  | nil =>
    rw [List.length_nil] at h
    rw [List.eq_nil_of_length_eq_zero h.symm]
    rfl
  | cons x a ih =>
    cases b with
    | nil => simp at h
    | cons y b =>
      rw [List.length_cons, memcmp]
      simp only [UInt8.lt_iff_toNat_lt]
      rcases lt_trichotomy x.toNat y.toNat with hxy | hxy | hxy
      · simp [hxy, ← UInt8.toNat_inj, hxy.ne]
      · simp [ih b (Nat.succ.inj h), UInt8.toNat_inj.mp hxy]
      · simp [hxy, lt_asymm hxy, ← UInt8.toNat_inj, hxy.ne']

/-- What a comparison says in a linear order. -/
def order_holds {γ : Type*} [LinearOrder γ] : comparison → γ → γ → Bool
  | .less, x, y => decide (x < y)
  | .less_equal, x, y => decide (x ≤ y)
  | .equal, x, y => decide (x = y)
  | .not_equal, x, y => decide (x ≠ y)
  | .greater_equal, x, y => decide (y ≤ x)
  | .greater, x, y => decide (y < x)

section
variable {γ δ : Type*} [LinearOrder γ] [LinearOrder δ]

/-- Only the order of the two values matters. -/
theorem order_holds_congr {x y : γ} {s t : δ} (hlt : s < t → x < y) (hgt : t < s → y < x) (heq : s = t → x = y)
    (c : comparison) : order_holds c x y = order_holds c s t := by
  rcases lt_trichotomy s t with h | h | h
  · have hxy := hlt h
    cases c <;> simp [order_holds, h, hxy, h.le, hxy.le, h.ne, hxy.ne, h.not_ge, hxy.not_ge, lt_asymm]
  · have hxy := heq h
    cases c <;> simp [order_holds, h, hxy]
  · have hxy := hgt h
    cases c <;> simp [order_holds, h, hxy, h.le, hxy.le, h.ne', hxy.ne', h.not_ge, hxy.not_ge, lt_asymm]

theorem order_holds_equality {x y : γ} {s t : δ} (h : x = y ↔ s = t) :
    order_holds .equal x y = order_holds .equal s t ∧ order_holds .not_equal x y = order_holds .not_equal s t := by
  simp [order_holds, h]

/-- The comparisons that are no equality tell the order. -/
theorem order_holds_swap {x y : γ} (h : x ≠ y) {c : comparison} (heq : c ≠ .equal) (hne : c ≠ .not_equal) :
    order_holds c x y ≠ order_holds c y x := by
  rcases lt_or_gt_of_ne h with hlt | hlt <;> cases c <;> simp_all [order_holds, le_of_lt, lt_asymm]

end

theorem lexicographical_kernel_eq (x y : List ℕ) (c : comparison) :
    lexicographical_kernel x y (decide (x = y)) c = order_holds c x y := by
  have hnot : ∀ a b : List ℕ, (!decide (a < b)) = decide (b ≤ a) := by
    intro a b
    rw [← decide_not, decide_eq_decide]
    exact not_lt
  cases c <;> simp [lexicographical_kernel, order_holds, lexicographical_compare_eq, hnot]

/-! ## Texts as units -/

/-- The units of a character. -/
def code_units : string_encoding_t → Char → List ℕ
  | .utf_8, c => (String.utf8EncodeChar c).map UInt8.toNat
  | .utf_16, c => if c.toNat < 0x10000 then [c.toNat] else [leadSurrogate c.toNat, trailSurrogate c.toNat]
  | _, c => [c.toNat]

section
variable {encoding : string_encoding_t}

theorem code_units_ne_nil (encoding : string_encoding_t) (c : Char) : code_units encoding c ≠ [] := by
  cases encoding with
  | utf_8 =>
    rw [code_units, ne_eq, List.map_eq_nil_iff]
    exact encode_char_ne_nil (show recognized .utf_8 = true from rfl) c
  | utf_16 =>
    rw [code_units]
    split_ifs <;> exact List.cons_ne_nil _ _
  | _ => exact List.cons_ne_nil _ _

theorem length_encode_char (h : recognized encoding = true) (c : Char) :
    (encode_char encoding c).length = char_size encoding * (code_units encoding c).length := by
  cases encoding with
  | utf_8 => simp [encode_char, code_units, char_size]
  | utf_16 =>
    rw [encode_char, code_units, length_utf16Char]
    split_ifs <;> rfl
  | ascii => rfl
  | ucs_2 => rfl
  | utf_32 => rfl
  | latin1 => cases h
  | invalid => cases h

theorem length_encode (h : recognized encoding = true) (s : List Char) :
    (encode encoding s).length = char_size encoding * (s.flatMap (code_units encoding)).length := by
  induction s with
  | nil => rfl
  | cons c s ih =>
    rw [encode_cons, List.flatMap_cons, List.length_append, List.length_append, ih, length_encode_char h, Nat.mul_add]

theorem units16_unit {n : ℕ} (h : n < 65536) (rest : List UInt8) : units16 (le16 n ++ rest) = n :: units16 rest :=
  congrArg (· :: units16 rest) (uint16At_two h)

theorem units_char {T : unit_type} (hT : lookup encoding = some T) {c : Char} (hc : representable encoding c)
    (rest : List UInt8) :
    units T (encode_char encoding c ++ rest) = code_units encoding c ++ units T rest := by
  have hhi := (scalar_bounds c).1
  cases encoding <;> cases hT
  case ascii =>
    have hlow : c.toNat < 0x80 := hc
    simp [units, encode_char, code_units]
    omega
  case ucs_2 => exact units16_unit hc rest
  case utf_8 => exact List.map_append
  case utf_16 =>
    show units16 (utf16Char c ++ rest) = (if _ then _ else _) ++ units16 rest
    unfold utf16Char
    split_ifs with hlow
    · exact units16_unit hlow rest
    · have hlead := leadSurrogate_range (Nat.le_of_not_lt hlow) hhi
      have htrail := trailSurrogate_range c.toNat
      rw [List.append_assoc, units16_unit (by omega), units16_unit (by omega)]
      rfl
  case utf_32 =>
    have h32 := uint32At_le32 (show c.toNat < 2 ^ 32 by omega) []
    rw [List.append_nil] at h32
    exact congrArg (· :: units32 rest) h32

theorem units_encode {T : unit_type} (hT : lookup encoding = some T) {s : List Char} (hs : ∀ c ∈ s, representable encoding c)
    (rest : List UInt8) :
    units T (encode encoding s ++ rest) = s.flatMap (code_units encoding) ++ units T rest := by
  induction s with
  | nil => rfl
  | cons c s ih =>
    rw [List.forall_mem_cons] at hs
    rw [encode_cons, List.append_assoc, units_char hT hs.1, ih hs.2, List.flatMap_cons, List.append_assoc]

/-! ## The order of the units -/

/-- The lead surrogate of `b` is below the unit of `a`, which is the smaller character. -/
def SurrogateBelow (a b : Char) : Prop := 0xe000 ≤ a.toNat ∧ a.toNat < 0x10000 ∧ 0x10000 ≤ b.toNat

theorem SurrogateBelow.lt {a b : Char} (h : SurrogateBelow a b) : a < b := by
  show a.toNat < b.toNat
  have h1 := h.2.1
  have h2 := h.2.2
  omega

theorem utf8_before {a b : Char} (hab : a.toNat < b.toNat) : CodeBefore (code_units .utf_8) a b := by
  intro u v
  have hb := (scalar_bounds b).1
  have ha' : a.val.toNat = a.toNat := rfl
  have hb' : b.val.toNat = b.toNat := rfl
  -- the bytes are the digits in base 64
  have h12 : ∀ n : ℕ, n / 4096 = n / 64 / 64 := fun n => (Nat.div_div_eq_div_mul n 64 64).symm
  have h18 : ∀ n : ℕ, n / 262144 = n / 64 / 64 / 64 := fun n => by rw [Nat.div_div_eq_div_mul, Nat.div_div_eq_div_mul]
  simp only [code_units, String.utf8EncodeChar, ha', hb', h12, h18]
  split_ifs <;>
    simp only [List.map_cons, List.map_nil, List.cons_append, List.nil_append, UInt8.toNat_ofNat', List.cons_lt_cons_iff] <;>
    omega

/-- But for surrogates, the units of the smaller character come first. -/
theorem code_units_before {a b : Char} (hab : a < b) (h : encoding = .utf_16 → ¬ SurrogateBelow a b) :
    CodeBefore (code_units encoding) a b := by
  have hlt : a.toNat < b.toNat := hab
  cases encoding with
  | utf_8 => exact utf8_before hlt
  | utf_16 =>
    intro u v
    have hb := (scalar_bounds b).1
    have ha := scalar_bounds a
    have hbelow : ¬ (0xe000 ≤ a.toNat ∧ a.toNat < 0x10000 ∧ 0x10000 ≤ b.toNat) := h rfl
    simp only [code_units, leadSurrogate, trailSurrogate]
    split_ifs <;> simp only [List.cons_append, List.nil_append, List.cons_lt_cons_iff] <;> omega
  | _ => exact fun u v => List.cons_lt_cons_iff.mpr (.inl hlt)

theorem surrogate_before {a b : Char} (h : SurrogateBelow a b) : CodeBefore (code_units .utf_16) b a := by
  intro u v
  obtain ⟨hlo, hhi, hb⟩ := h
  have hlead := leadSurrogate_range hb (scalar_bounds b).1
  simp only [code_units, if_pos hhi, Nat.not_lt.mpr hb, if_false, List.cons_append, List.nil_append, List.cons_lt_cons_iff]
  omega

theorem code_units_total {a b : Char} (h : a ≠ b) :
    CodeBefore (code_units encoding) a b ∨ CodeBefore (code_units encoding) b a := by
  have hcases : ∀ {a b : Char}, a < b → CodeBefore (code_units encoding) a b ∨ CodeBefore (code_units encoding) b a := by
    intro a b hab
    by_cases hbelow : encoding = .utf_16 ∧ SurrogateBelow a b
    · obtain ⟨rfl, hbelow⟩ := hbelow
      exact .inr (surrogate_before hbelow)
    · exact .inl (code_units_before hab fun he hb => hbelow ⟨he, hb⟩)
  rcases lt_or_gt_of_ne h with hab | hba
  · exact hcases hab
  · exact (hcases hba).symm

/-- Where the texts differ first, no character is above U+FFFF while the other is from U+E000 to U+FFFF. -/
def SurrogatesInOrder (s t : List Char) : Prop := ∀ a b, DifferAt s t a b → ¬ SurrogateBelow a b ∧ ¬ SurrogateBelow b a

theorem SurrogatesInOrder.symm {s t : List Char} (h : SurrogatesInOrder s t) : SurrogatesInOrder t s :=
  fun a b hdiffer => (h b a hdiffer.symm).symm

section
variable {s t : List Char}

/-- The units of texts are in the order of the texts. -/
theorem units_lt (horder : encoding = .utf_16 → SurrogatesInOrder s t) (h : s < t) :
    s.flatMap (code_units encoding) < t.flatMap (code_units encoding) :=
  flatMap_lt (fun c _ => code_units_ne_nil encoding c)
    (fun a b hdiffer hab => code_units_before hab fun he => (horder he a b hdiffer).1) h

/-- They still are when null characters fill them up to one length. -/
theorem padded_units_lt (hnull : '\x00' ∉ t) {k m : ℕ}
    (hsize : ((s ++ List.replicate k '\x00').flatMap (code_units encoding)).length =
      ((t ++ List.replicate m '\x00').flatMap (code_units encoding)).length)
    (horder : encoding = .utf_16 → SurrogatesInOrder s t) (h : s < t) :
    (s ++ List.replicate k '\x00').flatMap (code_units encoding) <
      (t ++ List.replicate m '\x00').flatMap (code_units encoding) := by
  rcases words_cases s t with rfl | ⟨c, u, rfl⟩ | ⟨c, u, rfl⟩ | ⟨a, b, hdiffer⟩
  · exact absurd h (lt_irrefl _)
  · have hc : c ≠ '\x00' := by
      rintro rfl
      exact hnull (by simp)
    cases k with
    | zero =>
      have hpos := List.length_pos_of_ne_nil (code_units_ne_nil encoding c)
      simp only [List.replicate_zero, List.append_nil, List.flatMap_append, List.flatMap_cons, List.length_append] at hsize
      omega
    | succ k =>
      have hlt : '\x00' < c := Nat.pos_of_ne_zero fun h0 => hc (Char.toNat_inj.mp h0)
      have hdiffer : DifferAt (s ++ List.replicate (k + 1) '\x00') (s ++ c :: u ++ List.replicate m '\x00') '\x00' c :=
        ⟨hc.symm, s, List.replicate k '\x00', u ++ List.replicate m '\x00', rfl, by simp⟩
      exact hdiffer.flatMap_lt (code_units_before hlt fun _ hbelow => absurd hbelow.1 (by decide))
  · exact absurd h (lt_asymm (lt_append_cons t c u))
  · have hab : a < b := hdiffer.lt_iff.mp h
    exact (hdiffer.append _ _).flatMap_lt (code_units_before hab fun he => (horder he a b hdiffer).1)

theorem units_inj : s.flatMap (code_units encoding) = t.flatMap (code_units encoding) ↔ s = t := by
  constructor
  · intro h
    by_contra hne
    exact flatMap_ne (code_units_ne_nil encoding) (fun _ _ => code_units_total) hne h
  · rintro rfl
    rfl

/-- Texts without null characters are told apart by what they are before them. -/
theorem padded_inj (hs : '\x00' ∉ s) (ht : '\x00' ∉ t) {k m : ℕ}
    (h : s ++ List.replicate k '\x00' = t ++ List.replicate m '\x00') : s = t := by
  have hfilter : ∀ {s : List Char}, '\x00' ∉ s → ∀ k : ℕ, (s ++ List.replicate k '\x00').filter (· ≠ '\x00') = s := by
    intro s hs k
    rw [List.filter_append, List.filter_eq_self.mpr fun c hc => decide_eq_true (ne_of_mem_of_not_mem hc hs)]
    simp
  rw [← hfilter hs k, h, hfilter ht]

end

/-! ## The kernels on texts -/

/-- The comparison does not depend on the order of the surrogates. -/
def Faithful (encoding : string_encoding_t) (c : comparison) (s t : List Char) : Prop :=
  c = .equal ∨ c = .not_equal ∨ (encoding = .utf_16 → SurrogatesInOrder s t)

theorem order_of_units {s t : List Char} {c : comparison} (hfaithful : Faithful encoding c s t) {x y : List ℕ}
    (hlt : (encoding = .utf_16 → SurrogatesInOrder s t) → s < t → x < y)
    (hgt : (encoding = .utf_16 → SurrogatesInOrder t s) → t < s → y < x) (heq : x = y ↔ s = t) :
    order_holds c x y = order_holds c s t := by
  rcases hfaithful with rfl | rfl | horder
  · exact (order_holds_equality heq).1
  · exact (order_holds_equality heq).2
  · exact order_holds_congr (hlt horder) (hgt fun he => (horder he).symm) heq.mpr c

theorem units_text {T : unit_type} (hT : lookup encoding = some T) {s : List Char} (hs : ∀ c ∈ s, representable encoding c) :
    units T (encode encoding s) = s.flatMap (code_units encoding) := by
  have hu := units_encode hT hs []
  have hnil : units T [] = [] := by cases T <;> rfl
  rwa [List.append_nil, hnil, List.append_nil] at hu

/-- The strings' kernels compare the units. -/
theorem string_compare_kernel_units {T : unit_type} (hT : lookup encoding = some T) {s t : List Char}
    (hs : ∀ c ∈ s, representable encoding c) (ht : ∀ c ∈ t, representable encoding c) (c : comparison) :
    string_compare_kernel T (encode encoding s) (encode encoding t) c =
      order_holds c (s.flatMap (code_units encoding)) (t.flatMap (code_units encoding)) := by
  have hx := units_text hT hs
  have hy := units_text hT ht
  have hequal : (decide ((encode encoding s).length = (encode encoding t).length) &&
      (memcmp (encode encoding s).length (encode encoding s) (encode encoding t)).isEq) =
        decide (units T (encode encoding s) = units T (encode encoding t)) := by
    have hbytes : units T (encode encoding s) = units T (encode encoding t) ↔ encode encoding s = encode encoding t := by
      constructor
      · intro h
        rw [hx, hy] at h
        rw [units_inj.mp h]
      · exact congrArg _
    rw [decide_eq_decide.mpr hbytes]
    by_cases hlen : (encode encoding s).length = (encode encoding t).length
    · rw [memcmp_isEq _ _ hlen, decide_eq_true hlen, Bool.true_and]
    · rw [decide_eq_false hlen, Bool.false_and, decide_eq_false fun h => hlen (congrArg _ h)]
  rw [string_compare_kernel, hequal, lexicographical_kernel_eq, hx, hy]

/-! ### Fixed strings -/

/-- The sign of a comparison of two values. -/
def SignOf (o : Ordering) (x y : List ℕ) : Prop := (x < y → o = .lt) ∧ (y < x → o = .gt) ∧ (x = y → o = .eq)

/-- On bytes that end with zeros, `strncmp` compares what is before them. -/
theorem strncmp_sign {x y : List UInt8} (hx : ∀ b ∈ x, b ≠ 0) (hy : ∀ b ∈ y, b ≠ 0) {k m n : ℕ} (hk : x.length + k = n)
    (hm : y.length + m = n) (p q : List UInt8) :
    SignOf (strncmp n (x ++ List.replicate k 0 ++ p) (y ++ List.replicate m 0 ++ q)) (units .uint8 x) (units .uint8 y) := by
  have hpos : ∀ b : UInt8, b ≠ 0 → (0 : UInt8) < b := by
    intro b hb
    rw [UInt8.lt_iff_toNat_lt]
    exact Nat.pos_of_ne_zero fun h => hb (UInt8.toNat_inj.mp h)
  induction x generalizing y n with
  | nil =>
    cases y with
    | nil =>
      cases k with
      | zero =>
        obtain rfl : n = 0 := by simpa using hk.symm
        simp [strncmp, SignOf]
      | succ k =>
        obtain ⟨n, rfl⟩ : ∃ n', n = n' + 1 := ⟨k, by simpa using hk.symm⟩
        obtain ⟨m, rfl⟩ : ∃ m', m = m' + 1 := ⟨n, by simpa using hm⟩
        simp [strncmp, List.replicate_succ, SignOf]
    | cons b y =>
      rw [List.forall_mem_cons] at hy
      obtain ⟨n, rfl⟩ : ∃ n', n = n' + 1 := ⟨y.length + m, by simp at hm; omega⟩
      obtain ⟨k, rfl⟩ : ∃ k', k = k' + 1 := ⟨n, by simpa using hk⟩
      simp [strncmp, List.replicate_succ, hpos b hy.1, units, SignOf]
  | cons a x ih =>
    rw [List.forall_mem_cons] at hx
    obtain ⟨n, rfl⟩ : ∃ n', n = n' + 1 := ⟨x.length + k, by simp at hk; omega⟩
    cases y with
    | nil =>
      obtain ⟨m, rfl⟩ : ∃ m', m = m' + 1 := ⟨n, by simpa using hm⟩
      simp [strncmp, List.replicate_succ, hpos a hx.1, units, SignOf]
    | cons b y =>
      rw [List.forall_mem_cons] at hy
      simp only [List.length_cons] at hk hm
      have hrest := ih hx.2 hy.2 (show x.length + k = n by omega) (show y.length + m = n by omega)
      simp only [List.cons_append, strncmp, UInt8.lt_iff_toNat_lt]
      rcases lt_trichotomy a.toNat b.toNat with hab | hab | hab
      · simp [hab, lt_asymm hab, hab.ne, hab.ne', units, SignOf, List.cons_lt_cons_iff]
      · obtain rfl := UInt8.toNat_inj.mp hab
        simpa [hx.1, units, SignOf, List.cons_lt_cons_iff] using hrest
      · simp [hab, lt_asymm hab, hab.ne, hab.ne', units, SignOf, List.cons_lt_cons_iff]

theorem ascii_utf8_fixed_string_compare_kernel_eq (stringsize : ℕ) (src0 src1 : List UInt8) {x y : List ℕ}
    (h : SignOf (strncmp stringsize src0 src1) x y) (c : comparison) :
    ascii_utf8_fixed_string_compare_kernel stringsize src0 src1 c = order_holds c x y := by
  rcases lt_trichotomy x y with hxy | hxy | hxy
  · have hsign := h.1 hxy
    cases c <;>
      simp [ascii_utf8_fixed_string_compare_kernel, hsign, order_holds, hxy, hxy.le, hxy.ne, hxy.not_ge, lt_asymm hxy]
  · have hsign := h.2.2 hxy
    cases c <;> simp [ascii_utf8_fixed_string_compare_kernel, hsign, order_holds, hxy]
  · have hsign := h.2.1 hxy
    cases c <;>
      simp [ascii_utf8_fixed_string_compare_kernel, hsign, order_holds, hxy, hxy.le, hxy.ne', hxy.not_ge, lt_asymm hxy]

section
variable {tp : fixed_string_type} {s t : List Char} {data0 data1 : List UInt8} (h0 : tp.Holds data0 s)
  (h1 : tp.Holds data1 t) (past0 past1 : List UInt8) {c : comparison} (hfaithful : Faithful tp.encoding c s t)
include h0 h1 hfaithful

theorem wide_fixed_string_compare_kernel_text {T : unit_type} (hT : lookup tp.encoding = some T) :
    wide_fixed_string_compare_kernel T tp.stringsize (data0 ++ past0) (data1 ++ past1) c = order_holds c s t := by
  have hnull_rep := representable_null tp.known
  have hunits : ∀ {s : List Char} {data : List UInt8}, tp.Holds data s → ∃ k, ∀ past,
      (units T (data ++ past)).take tp.stringsize = (s ++ List.replicate k '\x00').flatMap (code_units tp.encoding) ∧
      ((s ++ List.replicate k '\x00').flatMap (code_units tp.encoding)).length = tp.stringsize := by
    intro s data h
    obtain ⟨k, hdata⟩ := h.nulls
    have hrep : ∀ c ∈ s ++ List.replicate k '\x00', representable tp.encoding c := by
      intro c hc
      rcases List.mem_append.mp hc with hc | hc
      · exact h.representable c hc
      · rw [List.eq_of_mem_replicate hc]
        exact hnull_rep
    have hlen : ((s ++ List.replicate k '\x00').flatMap (code_units tp.encoding)).length = tp.stringsize := by
      have hsize := h.size
      rw [hdata, length_encode tp.known, fixed_string_type.data_size, Nat.mul_comm] at hsize
      exact Nat.eq_of_mul_eq_mul_right (char_size_pos tp.known) hsize
    refine ⟨k, fun past => ⟨?_, hlen⟩⟩
    rw [hdata, units_encode hT hrep, List.take_left' hlen]
  obtain ⟨k, hk⟩ := hunits h0
  obtain ⟨m, hm⟩ := hunits h1
  have hsize := (hk past0).2.trans (hm past1).2.symm
  show lexicographical_kernel _ _ (units_equal _ _) c = _
  rw [(hk past0).1, (hm past1).1, units_equal_eq hsize, lexicographical_kernel_eq]
  refine order_of_units hfaithful (padded_units_lt h1.no_null hsize) (padded_units_lt h0.no_null hsize.symm) ?_
  constructor
  · exact fun h => padded_inj h0.no_null h1.no_null (units_inj.mp h)
  · rintro rfl
    have hkm : k = m := by
      have hlen : ∀ k : ℕ, ((List.replicate k '\x00').flatMap (code_units tp.encoding)).length =
          k * (code_units tp.encoding '\x00').length := by
        intro k
        simp [List.length_flatMap]
      rw [List.flatMap_append, List.flatMap_append, List.length_append, List.length_append, hlen, hlen] at hsize
      exact Nat.eq_of_mul_eq_mul_right (List.length_pos_of_ne_nil (code_units_ne_nil _ _)) (Nat.add_left_cancel hsize)
    rw [hkm]

theorem ascii_utf8_fixed_string_compare_kernel_text (hT : lookup tp.encoding = some .uint8) :
    ascii_utf8_fixed_string_compare_kernel tp.stringsize (data0 ++ past0) (data1 ++ past1) c = order_holds c s t := by
  have hsize : char_size tp.encoding = 1 := by
    generalize tp.encoding = encoding at hT
    cases encoding <;> first | rfl | cases hT
  have hbuffer : ∀ {s : List Char} {data : List UInt8}, tp.Holds data s →
      (∀ b ∈ encode tp.encoding s, b ≠ 0) ∧ units .uint8 (encode tp.encoding s) = s.flatMap (code_units tp.encoding) ∧
        ∃ k, data = encode tp.encoding s ++ List.replicate k 0 ∧ (encode tp.encoding s).length + k = tp.stringsize := by
    intro s data h
    refine ⟨?_, ?_, ?_⟩
    · intro b hb
      obtain ⟨c, hc, hbc⟩ := List.mem_flatMap.mp hb
      have hne : c ≠ '\x00' := ne_of_mem_of_not_mem hc h.no_null
      exact fixed_string_type.encode_char_ne_zero tp.known hsize (h.representable c hc) hne b hbc
    · exact units_text hT h.representable
    · obtain ⟨k, hdata⟩ := h.bytes
      have hlen := h.size
      rw [hdata, List.length_append, List.length_replicate, fixed_string_type.data_size, hsize, Nat.mul_one] at hlen
      exact ⟨k, hdata, hlen⟩
  obtain ⟨hx, hxu, k, rfl, hk⟩ := hbuffer h0
  obtain ⟨hy, hyu, m, rfl, hm⟩ := hbuffer h1
  have hsign := strncmp_sign hx hy hk hm past0 past1
  rw [hxu, hyu] at hsign
  rw [ascii_utf8_fixed_string_compare_kernel_eq _ _ _ hsign]
  exact order_of_units hfaithful units_lt units_lt units_inj

end

end

/-! ## Values that hold a text -/

/-- A string is the encoding of the text, a fixed string is that up to the zeros at its end. -/
def Operand.Holds : Operand → List Char → Prop
  | .string tp data, s => (∀ c ∈ s, representable tp.encoding c) ∧ string_bytes data = encode tp.encoding s
  | .fixed_string tp mem, s => ∃ data past, mem = data ++ past ∧ tp.Holds data s

section
variable {s t : List Char}

/-- The conversion to a string gives the text in UTF-8, from whatever it was stored in. -/
theorem convert_to_string_text {a : Operand} (ha : a.Holds s) (errmode : assign_error_mode) {fuel : ℕ}
    (hfuel : s.length < fuel) : convert_to_string errmode fuel a = .ok (encode .utf_8 s) := by
  have hrep : ∀ c ∈ s, representable .utf_8 c := fun _ _ => trivial
  cases a with
  | fixed_string tp mem =>
    obtain ⟨data, past, rfl, hdata⟩ := ha
    obtain ⟨ck, hck, hrun⟩ := fixed_string_to_blockref_string_assigns tp (show recognized .utf_8 = true from rfl) errmode
      hdata.reads hrep past hfuel
    simp only [convert_to_string, hck, hrun, converted_bytes, Option.getD_some]
  | string tp data =>
    obtain ⟨hsrc, hbytes⟩ := ha
    obtain ⟨encoding, known⟩ := tp
    simp only at hsrc hbytes
    rw [convert_to_string]
    split_ifs with hutf8
    · simp only at hutf8
      rw [hbytes, hutf8]
    · obtain ⟨next_fn, hnext⟩ := recognized_next known errmode
      obtain ⟨append_fn, happend⟩ := recognized_append (show recognized .utf_8 = true from rfl) errmode
      have hmake : make_blockref_string_assignment_kernel .utf_8 encoding false errmode =
          .ok ⟨.utf_8, encoding, next_fn, append_fn, false⟩ := by
        rw [make_blockref_string_assignment_kernel, hnext, happend]
        rfl
      simp only [hmake]
      cases data with
      | none =>
        have hnil : s = [] := by
          have hlen := length_le_encode known s
          rw [← hbytes] at hlen
          exact List.eq_nil_of_length_eq_zero (Nat.le_zero.mp hlen)
        rw [hnil]
        rfl
      | some r =>
        obtain ⟨bytes, past⟩ := r
        obtain rfl : bytes = encode encoding s := hbytes
        have hok := initial_ok ⟨.utf_8, encoding, next_fn, append_fn, false⟩ rfl ⟨encode encoding s, past⟩
        obtain ⟨b, hloop, hwritten⟩ := assign_loop_encode happend hnext known rfl s hsrc (fun c hc => .inr (hrep c hc)) past
          _ hok fuel hfuel
        rw [List.nil_append, transcoded_of_representable hrep] at hwritten
        simp only [blockref_string_assign_ck.single, Bool.not_false, if_true, hloop, OutBuffer.resize, hwritten,
          List.take_length, converted_bytes, Option.getD_some]

/-- Two values of different types are compared by their texts. -/
theorem general_comparison_text {a b : Operand} (ha : a.Holds s) (hb : b.Holds t) (errmode : assign_error_mode) {fuel : ℕ}
    (hs : s.length < fuel) (ht : t.length < fuel) (comptype : comparison_type_t) :
    make_general_string_comparison_kernel errmode fuel a b comptype = .ok (order_holds comptype.operator s t) := by
  have hfaithful : Faithful .utf_8 comptype.operator s t := .inr (.inr fun h => by cases h)
  have hrep : ∀ s : List Char, ∀ c ∈ s, representable .utf_8 c := fun _ _ _ => trivial
  have hkernel := string_compare_kernel_units rfl (hrep s) (hrep t) comptype.operator
  rw [order_of_units hfaithful units_lt units_lt units_inj] at hkernel
  rw [make_general_string_comparison_kernel, convert_to_string_text ha errmode hs, convert_to_string_text hb errmode ht]
  simp only [bind, Except.bind, make_string_comparison_kernel, lookup, hkernel]

theorem lookup_of_recognized {encoding : string_encoding_t} (h : recognized encoding = true) :
    ∃ T, lookup encoding = some T := by
  cases encoding <;> first | exact ⟨_, rfl⟩ | cases h

/-- Two values are compared by their texts, but for two of one type in UTF-16. -/
theorem compare_text {a b : Operand} (ha : a.Holds s) (hb : b.Holds t) (errmode : assign_error_mode) {fuel : ℕ}
    (hs : s.length < fuel) (ht : t.length < fuel) {comptype : comparison_type_t}
    (hfaithful : Faithful .utf_16 comptype.operator s t) :
    compare errmode fuel comptype a b = .ok (order_holds comptype.operator s t) := by
  have hgeneral := general_comparison_text ha hb errmode hs ht comptype
  have hany : ∀ encoding, Faithful encoding comptype.operator s t :=
    fun encoding => hfaithful.imp_right (Or.imp_right fun h _ => h rfl)
  cases a with
  | string tp0 da =>
    cases b with
    | fixed_string tp1 mem => exact hgeneral
    | string tp1 db =>
      rw [compare]
      split_ifs with hsame
      · obtain ⟨T, hT⟩ := lookup_of_recognized tp0.known
        have hb' := hb.1
        rw [← hsame] at hb'
        simp only [make_string_comparison_kernel, hT, ha.2, hb.2, ← hsame]
        rw [string_compare_kernel_units hT ha.1 hb', order_of_units (hany _) units_lt units_lt units_inj]
      · exact hgeneral
  | fixed_string tp0 mem0 =>
    cases b with
    | string tp1 db => exact hgeneral
    | fixed_string tp1 mem1 =>
      rw [compare]
      split_ifs with hsame
      · obtain ⟨data0, past0, rfl, h0⟩ := ha
        obtain ⟨data1, past1, rfl, h1⟩ := hb
        obtain rfl : tp1 = tp0 := by
          obtain ⟨size0, encoding0, known0⟩ := tp0
          obtain ⟨size1, encoding1, known1⟩ := tp1
          obtain ⟨rfl, rfl⟩ := hsame
          rfl
        obtain ⟨T, hT⟩ := lookup_of_recognized tp1.known
        have hwide := wide_fixed_string_compare_kernel_text h0 h1 past0 past1 (hany _) hT
        cases T with
        | uint8 =>
          simp only [make_fixed_string_comparison_kernel, hT,
            ascii_utf8_fixed_string_compare_kernel_text h0 h1 past0 past1 (hany _) hT]
        | uint16 =>
          simp only [make_fixed_string_comparison_kernel, hT, utf16_fixed_string_compare_kernel, hwide]
        | uint32 =>
          simp only [make_fixed_string_comparison_kernel, hT, utf32_fixed_string_compare_kernel, hwide]
      · exact hgeneral

end

/-! ## What the text decides -/

/-- All values that hold the two texts compare with one result. -/
def Compares (comptype : comparison_type_t) (s t : List Char) (result : Bool) : Prop :=
  ∀ errmode fuel a b, Operand.Holds a s → Operand.Holds b t → s.length < fuel → t.length < fuel →
    compare errmode fuel comptype a b = .ok result

/-- The text as a string. -/
def stored_in (encoding : string_encoding_t) (known : recognized encoding = true) (s : List Char) : Operand :=
  .string ⟨encoding, known⟩ (some ⟨encode encoding s, []⟩)

section
variable {comptype : comparison_type_t} {s t : List Char}

theorem stored_in_holds {encoding : string_encoding_t} (known : recognized encoding = true)
    (hs : ∀ c ∈ s, representable encoding c) : (stored_in encoding known s).Holds s := ⟨hs, rfl⟩

/-- If there is one result it is that of the texts: a string in UTF-8 and one in UTF-16 are compared by them. -/
theorem Compares.eq_order {result : Bool} (h : Compares comptype s t result) :
    result = order_holds comptype.operator s t := by
  have hs := stored_in_holds (s := s) (show recognized .utf_8 = true from rfl) fun _ _ => trivial
  have ht := stored_in_holds (s := t) (show recognized .utf_16 = true from rfl) fun _ _ => trivial
  have hresult := h .fractional (s.length + t.length + 1) _ _ hs ht (by omega) (by omega)
  have hgeneral := general_comparison_text hs ht .fractional (show s.length < s.length + t.length + 1 by omega) (by omega)
    comptype
  exact Except.ok.inj (hresult.symm.trans hgeneral)

/-- Two strings in UTF-16 compare the other way round when the surrogates are not in order. -/
theorem utf16_reversed (h : ¬ SurrogatesInOrder s t) (errmode : assign_error_mode) (fuel : ℕ) :
    compare errmode fuel comptype (stored_in .utf_16 rfl s) (stored_in .utf_16 rfl t) =
      .ok (order_holds comptype.operator t s) := by
  have hrep : ∀ s : List Char, ∀ c ∈ s, representable .utf_16 c := fun _ _ _ => trivial
  have hunits := string_compare_kernel_units rfl (hrep s) (hrep t) comptype.operator
  have hreversed : order_holds comptype.operator (s.flatMap (code_units .utf_16)) (t.flatMap (code_units .utf_16)) =
      order_holds comptype.operator t s := by
    unfold SurrogatesInOrder at h
    push Not at h
    obtain ⟨a, b, hdiffer, h⟩ := h
    by_cases hab : SurrogateBelow a b
    · have hlt : s < t := hdiffer.lt_iff.mpr hab.lt
      have hunits := hdiffer.symm.flatMap_lt (surrogate_before hab)
      exact order_holds_congr (fun h' => absurd h' (lt_asymm hlt)) (fun _ => hunits) (fun h' => absurd h' hlt.ne') _
    · have hba := h hab
      have hlt : t < s := hdiffer.symm.lt_iff.mpr hba.lt
      have hunits := hdiffer.flatMap_lt (surrogate_before hba)
      exact order_holds_congr (fun _ => hunits) (fun h' => absurd h' (lt_asymm hlt)) (fun h' => absurd h' hlt.ne) _
  simp only [compare, stored_in, if_true, make_string_comparison_kernel, lookup, string_bytes, Option.map_some,
    Option.getD_some]
  rw [hunits, hreversed]

/-- The result depends on the texts only, for whatever types they are stored in, when the comparison is
an equality or the surrogates are in order; two strings in UTF-16 tell the difference otherwise. The
result is that of the linear order of the texts by code points. -/
theorem comparison_by_text_iff (comptype : comparison_type_t) (s t : List Char) :
    ((∃ result, Compares comptype s t result) ↔
      comptype = .equal ∨ comptype = .not_equal ∨ SurrogatesInOrder s t) ∧
    ∀ result, Compares comptype s t result → result = order_holds comptype.operator s t := by
  refine ⟨⟨?_, ?_⟩, fun _ => Compares.eq_order⟩
  · rintro ⟨result, h⟩
    by_contra hno
    push Not at hno
    obtain ⟨hequal, hnot_equal, horder⟩ := hno
    have hrep : ∀ s : List Char, ∀ c ∈ s, representable .utf_16 c := fun _ _ _ => trivial
    have hresult := h .fractional (s.length + t.length + 1) _ _ (stored_in_holds rfl (hrep s)) (stored_in_holds rfl (hrep t))
      (by omega) (by omega)
    rw [utf16_reversed horder] at hresult
    have hst : s ≠ t := by
      rintro rfl
      exact horder fun a b hdiffer => absurd rfl hdiffer.ne
    have hsame := (Except.ok.inj hresult).trans h.eq_order
    exact order_holds_swap hst.symm (by cases comptype <;> simp_all [comparison_type_t.operator])
      (by cases comptype <;> simp_all [comparison_type_t.operator]) hsame
  · intro h
    refine ⟨order_holds comptype.operator s t, fun errmode fuel a b ha hb hs ht => compare_text ha hb errmode hs ht ?_⟩
    rcases h with rfl | rfl | horder
    · exact .inl rfl
    · exact .inr (.inl rfl)
    · exact .inr (.inr fun _ => horder)

end

/-- U+FFFD is before U+10000 where one of them is a string in UTF-8, and after it where both are in UTF-16. -/
theorem utf16_order_differs :
    ¬ ∀ comptype s t, ∃ result, Compares comptype s t result := by
  intro h
  obtain ⟨result, h⟩ := h .less ['\ufffd'] ['𐀀']
  have h8 := h .fractional 2 _ _ (stored_in_holds (show recognized .utf_8 = true from rfl) fun _ _ => trivial)
    (stored_in_holds (show recognized .utf_8 = true from rfl) fun _ _ => trivial) (by decide) (by decide)
  have h16 := h .fractional 2 _ _ (stored_in_holds (show recognized .utf_16 = true from rfl) fun _ _ => trivial)
    (stored_in_holds (show recognized .utf_16 = true from rfl) fun _ _ => trivial) (by decide) (by decide)
  have hless : compare .fractional 2 .less (stored_in .utf_8 rfl ['\ufffd']) (stored_in .utf_8 rfl ['𐀀']) = .ok true := rfl
  have hgreater : compare .fractional 2 .less (stored_in .utf_16 rfl ['\ufffd']) (stored_in .utf_16 rfl ['𐀀']) =
      .ok false := rfl
  cases (hless.symm.trans h8).trans (h16.symm.trans hgreater)

end Dynd.StringCompare
