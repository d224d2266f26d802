import Dynd.DateUtil
import Dynd.Lib.Strided
/-!
# Replacing fields of a date

The `replace` kernel takes a date apart, puts the given year, month and day in,
and makes days of it again. A negative month or day counts from the end.

`replace_iff` says when the result is the date with exactly the fields asked
for, and when a strided run does what the single kernel does for each element.
-/
namespace Dynd.DateReplace
open Lib Gregorian date_ymd

/-! ## The source -/

inductive Error where
  /-- Undefined behaviour. -/
  | signed_overflow
  | runtime_error (message : String)
deriving DecidableEq

/-- `numeric_limits<int32_t>::max()`, in the place of a field that is kept. -/
def ABSENT : Int32 := Int32.maxValue

def get_month_length (year month : ℤ) : ℤ :=
  if 1 ≤ month ∧ month ≤ 12 then (month_lengths (is_leap_year year)).getD (month - 1).toNat 0 else 0

structure date_replace_kernel_extra where
  year : Int32
  month : Int32
  day : Int32

namespace date_replace_kernel_extra

section
variable (e : date_replace_kernel_extra)

def replace_year (ymd : date_ymd) : date_ymd :=
  if e.year ≠ ABSENT then { ymd with year := e.year.toInt16 } else ymd

/-- Negative months count from the end. -/
def place_month (ymd : date_ymd) : Except Error date_ymd :=
  if -12 ≤ e.month.toInt ∧ e.month.toInt ≤ -1 then .ok { ymd with month := Int8.ofInt (e.month.toInt + 13) }
  else if 1 ≤ e.month.toInt ∧ e.month.toInt ≤ 12 then .ok { ymd with month := e.month.toInt8 }
  else .error (.runtime_error s!"invalid month value {e.month}")

def replace_month (ymd : date_ymd) : Except Error date_ymd :=
  if e.month ≠ ABSENT then do
    let ymd ← e.place_month ymd
    -- If the day isn't also being replaced, make sure the resulting date is valid
    if e.day = ABSENT ∧ ymd.isValid = false then
      .error (.runtime_error s!"invalid replace resulting year/month/day {e.year}/{e.month}/{e.day}")
    else .ok ymd
  else .ok ymd

def replace_day (ymd : date_ymd) : Except Error date_ymd :=
  if e.day ≠ ABSENT then
    let month_size := get_month_length ymd.year.toInt ymd.month.toInt
    if 1 ≤ e.day.toInt ∧ e.day.toInt ≤ month_size then .ok { ymd with day := e.day.toInt8 }
    else if -month_size ≤ e.day.toInt ∧ e.day.toInt ≤ -1 then .ok { ymd with day := Int8.ofInt (e.day.toInt + month_size + 1) }
    else .error (.runtime_error s!"invalid day value {e.day} for year/month {e.year}/{e.month}")
  else .ok ymd

/-- What `single_unary` stores for a date. -/
def replace (date : Int32) : Except Error Int32 :=
  -- `set_from_days` makes the days relative to year 0 in 32 bits
  if 2 ^ 31 ≤ date.toInt + 719528 then .error .signed_overflow
  else do
    let ymd ← e.replace_month (e.replace_year (set_from_days date))
    let ymd ← e.replace_day ymd
    return ymd.toDays

/-- The dates that were stored, and where. -/
abbrev Stores := List (ℤ × Int32)

def single_unary (load : ℤ → Int32) (dst src : ℤ) (stores : Stores) : Except Error Stores :=
  (fun days => stores ++ [(dst, days)]) <$> e.replace (load src)

/-- `src0` moves along, but it is `src` that each step is given. -/
def strided_unary (load : ℤ → Int32) (dst dst_stride src src_stride : ℤ) (count : ℕ) : Stores → Except Error Stores :=
  strided (fun p : ℤ × ℤ => e.single_unary load p.1 src) (dst, src) (dst_stride, src_stride) count

end

/-! ## The purpose -/

/-- The date of a value, in the calendar of all years. -/
structure IsDate (date : Int32) (y m d : ℤ) : Prop where
  not_na : date ≠ DATE_NA
  valid : Valid y m d
  number : dayNumber 1970 y m d = date.toInt

/-- A negative place counts from the end. -/
def fromEnd (size i : ℤ) : ℤ := if i < 0 then i + size + 1 else i

section
variable (e : date_replace_kernel_extra)

/-- A date with the fields that are given, and the others of a source. -/
structure Replaced (date : Int32) (y m d : ℤ) : Prop where
  year : if e.year = ABSENT then ∃ m₀ d₀, IsDate date y m₀ d₀ else y = e.year.toInt
  month : if e.month = ABSENT then ∃ y₀ d₀, IsDate date y₀ m d₀ else m = fromEnd 12 e.month.toInt
  day : if e.day = ABSENT then ∃ y₀ m₀, IsDate date y₀ m₀ d else d = fromEnd (monthLength y m) e.day.toInt

/-- The kernel throws, or stores the date it is asked for. -/
def Replaces (date : Int32) : Prop :=
  match e.replace date with
  | .ok days => ∃ y m d, IsDate days y m d ∧ e.Replaced date y m d
  | .error err => err ≠ .signed_overflow

/-- What a strided run is for: the single kernel on each element in turn. -/
def each_unary (load : ℤ → Int32) (dst dst_stride src src_stride : ℤ) (count : ℕ) : Stores → Except Error Stores :=
  strided (fun p : ℤ × ℤ => e.single_unary load p.1 p.2) (dst, src) (dst_stride, src_stride) count

/-! ## The condition -/

/-- A place from the start or from the end. -/
def Within (size i : ℤ) : Prop := 1 ≤ i ∧ i ≤ size ∨ -size ≤ i ∧ i ≤ -1

instance (size i : ℤ) : Decidable (Within size i) := inferInstanceAs (Decidable (_ ∨ _))

def newYear (x : date_ymd) : Int16 := if e.year = ABSENT then x.year else e.year.toInt16

def newMonth (x : date_ymd) : Int8 := if e.month = ABSENT then x.month else Int8.ofInt (fromEnd 12 e.month.toInt)

def monthSize (x : date_ymd) : ℤ := get_month_length (e.newYear x).toInt (e.newMonth x).toInt

def newDay (x : date_ymd) : Int8 := if e.day = ABSENT then x.day else Int8.ofInt (fromEnd (e.monthSize x) e.day.toInt)

def RefusesMonth (x : date_ymd) : Prop :=
  e.month ≠ ABSENT ∧ (¬ Within 12 e.month.toInt ∨
    e.day = ABSENT ∧ is_valid (e.newYear x).toInt (e.newMonth x).toInt x.day.toInt = false)

def RefusesDay (x : date_ymd) : Prop := e.day ≠ ABSENT ∧ ¬ Within (e.monthSize x) e.day.toInt

/-- The given fields are no date, by themselves or with those that are kept. -/
def Refuses (x : date_ymd) : Prop := e.RefusesMonth x ∨ e.RefusesDay x

/-- The year fits 16 bits. -/
def YearFits (date : Int32) : Prop :=
  if e.year = ABSENT then -12687794 ≤ date.toInt ∧ date.toInt ≤ 11248737 else YearRange e.year.toInt

/-- Nothing checks the date when a new year is all that is given. -/
def Meets (date : Int32) : Prop :=
  date.toInt + 719528 < 2 ^ 31 ∧ (e.Refuses (set_from_days date) ∨ e.YearFits date ∧
    (e.month = ABSENT → e.day = ABSENT → is_valid (e.newYear (set_from_days date)).toInt
      (set_from_days date).month.toInt (set_from_days date).day.toInt = true))

/-- Both dates become the same one, or both become NA. -/
def Alike (x y : date_ymd) : Prop :=
  ((e.year = ABSENT → x.year = y.year) ∧ (e.month = ABSENT → x.month = y.month) ∧ (e.day = ABSENT → x.day = y.day)) ∨
  (e.month = ABSENT ∧ e.day = ABSENT ∧ is_valid (e.newYear x).toInt x.month.toInt x.day.toInt = false ∧
    is_valid (e.newYear y).toInt y.month.toInt y.day.toInt = false)

/-- The first element stops the run, or the others become what it becomes. -/
def StridedMeets (load : ℤ → Int32) (src src_stride : ℤ) (count : ℕ) : Prop :=
  2 ^ 31 ≤ (load src).toInt + 719528 ∨ e.Refuses (set_from_days (load src)) ∨
    ∀ i < count, (load (src + i * src_stride)).toInt + 719528 < 2 ^ 31 ∧
      e.Alike (set_from_days (load src)) (set_from_days (load (src + i * src_stride)))

end

/-! ## What is stored -/

theorem get_month_length_eq (year : ℤ) {month : ℤ} (h : 1 ≤ month ∧ month ≤ 12) :
    get_month_length year month = monthLength year month := by
  rw [get_month_length, if_pos h, month_lengths_eq year h]

section
variable {e : date_replace_kernel_extra} {x y : date_ymd}

theorem replace_year_eq (x : date_ymd) : e.replace_year x = { x with year := e.newYear x } := by
  unfold replace_year newYear
  by_cases h : e.year = ABSENT
  · rw [if_neg (not_not.2 h), if_pos h]
  · rw [if_pos h, if_neg h]

theorem place_month_ok (h : Within 12 e.month.toInt) (ymd : date_ymd) :
    e.place_month ymd = .ok { ymd with month := Int8.ofInt (fromEnd 12 e.month.toInt) } := by
  unfold place_month
  rcases h with h | h
  · rw [if_neg (by omega), if_pos h, fromEnd, if_neg (by omega), Int8.ofInt_int32ToInt]
  · rw [if_pos h, fromEnd, if_pos (by omega), add_assoc]
    rfl

theorem replace_month_ok (h : ¬ e.RefusesMonth x) :
    e.replace_month { x with year := e.newYear x } = .ok ⟨e.newYear x, e.newMonth x, x.day⟩ := by
  unfold replace_month newMonth
  by_cases hm : e.month = ABSENT
  · rw [if_neg (not_not.2 hm), if_pos hm]
  · have hwithin : Within 12 e.month.toInt := by
      by_contra hout
      exact h ⟨hm, .inl hout⟩
    have hmonth : e.newMonth x = Int8.ofInt (fromEnd 12 e.month.toInt) := if_neg hm
    rw [if_pos hm, if_neg hm, place_month_ok hwithin, ok_bind, if_neg]
    rintro ⟨hd, hinvalid⟩
    apply h
    refine ⟨hm, .inr ⟨hd, ?_⟩⟩
    rw [hmonth]
    exact hinvalid

theorem replace_month_error (h : e.RefusesMonth x) :
    ∃ message, e.replace_month { x with year := e.newYear x } = .error (.runtime_error message) := by
  obtain ⟨hm, hbad⟩ := h
  unfold replace_month
  rw [if_pos hm]
  by_cases hwithin : Within 12 e.month.toInt
  · obtain ⟨hd, hinvalid⟩ := hbad.resolve_left (not_not.2 hwithin)
    have hmonth : e.newMonth x = Int8.ofInt (fromEnd 12 e.month.toInt) := if_neg hm
    rw [hmonth] at hinvalid
    rw [place_month_ok hwithin, ok_bind, if_pos ⟨hd, hinvalid⟩]
    exact ⟨_, rfl⟩
  · rw [Within, not_or] at hwithin
    unfold place_month
    rw [if_neg hwithin.2, if_neg hwithin.1]
    exact ⟨_, rfl⟩

theorem replace_day_ok (h : ¬ e.RefusesDay x) :
    e.replace_day ⟨e.newYear x, e.newMonth x, x.day⟩ = .ok ⟨e.newYear x, e.newMonth x, e.newDay x⟩ := by
  unfold replace_day newDay
  by_cases hd : e.day = ABSENT
  · rw [if_neg (not_not.2 hd), if_pos hd]
  · have hwithin : Within (e.monthSize x) e.day.toInt := by
      by_contra hout
      exact h ⟨hd, hout⟩
    rw [if_pos hd, if_neg hd]
    dsimp only
    change (if 1 ≤ e.day.toInt ∧ e.day.toInt ≤ e.monthSize x then _
      else if -e.monthSize x ≤ e.day.toInt ∧ e.day.toInt ≤ -1 then _ else _) = _
    rcases hwithin with hin | hin
    · rw [if_pos hin, fromEnd, if_neg (by omega), Int8.ofInt_int32ToInt]
    · rw [if_neg (by omega), if_pos hin, fromEnd, if_pos (by omega)]
      rfl

theorem replace_day_error (h : e.RefusesDay x) :
    ∃ message, e.replace_day ⟨e.newYear x, e.newMonth x, x.day⟩ = .error (.runtime_error message) := by
  obtain ⟨hd, hout⟩ := h
  rw [Within, not_or] at hout
  unfold replace_day
  rw [if_pos hd]
  dsimp only
  change ∃ message, (if 1 ≤ e.day.toInt ∧ e.day.toInt ≤ e.monthSize x then _
    else if -e.monthSize x ≤ e.day.toInt ∧ e.day.toInt ≤ -1 then _ else _) = _
  rw [if_neg hout.1, if_neg hout.2]
  exact ⟨_, rfl⟩

section
variable {date : Int32}

theorem replace_overflow (h : 2 ^ 31 ≤ date.toInt + 719528) : e.replace date = .error .signed_overflow := if_pos h

/-- What is refused is thrown, whatever the year. -/
theorem replace_error (hfit : date.toInt + 719528 < 2 ^ 31) (h : e.Refuses (set_from_days date)) :
    ∃ message, e.replace date = .error (.runtime_error message) := by
  unfold replace
  rw [if_neg (not_le.2 hfit), replace_year_eq]
  by_cases hm : e.RefusesMonth (set_from_days date)
  · obtain ⟨message, hmessage⟩ := replace_month_error hm
    rw [hmessage, error_bind]
    exact ⟨message, rfl⟩
  · obtain ⟨message, hmessage⟩ := replace_day_error (h.resolve_left hm)
    rw [replace_month_ok hm, ok_bind, hmessage, error_bind]
    exact ⟨message, rfl⟩

/-- The new fields. -/
def newDate (e : date_replace_kernel_extra) (x : date_ymd) : date_ymd := ⟨e.newYear x, e.newMonth x, e.newDay x⟩

theorem replace_ok (hfit : date.toInt + 719528 < 2 ^ 31) (h : ¬ e.Refuses (set_from_days date)) :
    e.replace date = .ok (e.newDate (set_from_days date)).toDays := by
  rw [Refuses, not_or] at h
  unfold replace
  rw [if_neg (not_le.2 hfit), replace_year_eq, replace_month_ok h.1, ok_bind, replace_day_ok h.2]
  rfl

end

/-! ## The date that is stored -/

theorem month_of_length {year month : ℤ} (h : 1 ≤ get_month_length year month) :
    (1 ≤ month ∧ month ≤ 12) ∧ get_month_length year month = monthLength year month := by
  have hmonth : 1 ≤ month ∧ month ≤ 12 := by
    by_contra hout
    rw [get_month_length, if_neg hout] at h
    omega
  exact ⟨hmonth, get_month_length_eq year hmonth⟩

theorem fromEnd_bounds {size i : ℤ} (h : Within size i) : 1 ≤ fromEnd size i ∧ fromEnd size i ≤ size := by
  rw [Within] at h
  rw [fromEnd]
  split_ifs <;> omega

theorem newMonth_toInt (hm : e.month ≠ ABSENT) (h : ¬ e.RefusesMonth x) :
    (e.newMonth x).toInt = fromEnd 12 e.month.toInt := by
  have hwithin : Within 12 e.month.toInt := by
    by_contra hout
    exact h ⟨hm, .inl hout⟩
  obtain ⟨hlow, hhigh⟩ := fromEnd_bounds hwithin
  rw [newMonth, if_neg hm]
  exact Int8.toInt_ofInt_of_le (by omega) (by omega)

/-- A day that is given is put in a month that it is in. -/
theorem newDay_toInt (hd : e.day ≠ ABSENT) (h : ¬ e.RefusesDay x) :
    (e.newDay x).toInt = fromEnd (monthLength (e.newYear x).toInt (e.newMonth x).toInt) e.day.toInt ∧
      Valid (e.newYear x).toInt (e.newMonth x).toInt (e.newDay x).toInt := by
  have hwithin : Within (e.monthSize x) e.day.toInt := by
    by_contra hout
    exact h ⟨hd, hout⟩
  obtain ⟨hlow, hhigh⟩ := fromEnd_bounds hwithin
  obtain ⟨hmonth, hsize⟩ := @month_of_length (e.newYear x).toInt (e.newMonth x).toInt (hlow.trans hhigh)
  have hlong := monthLength_le (e.newYear x).toInt (e.newMonth x).toInt
  have hday : (e.newDay x).toInt = fromEnd (e.monthSize x) e.day.toInt := by
    rw [newDay, if_neg hd]
    rw [monthSize] at hlow hhigh ⊢
    exact Int8.toInt_ofInt_of_le (by omega) (by omega)
  rw [hday]
  rw [monthSize, hsize] at hlow hhigh ⊢
  exact ⟨rfl, hmonth, hlow, hhigh⟩

/-- The date is checked, unless neither its month nor its day is given. -/
theorem newDate_valid (h : ¬ e.Refuses x) : (e.newDate x).isValid = true ↔
    (e.month = ABSENT → e.day = ABSENT → is_valid (e.newYear x).toInt x.month.toInt x.day.toInt = true) := by
  rw [Refuses, not_or] at h
  obtain ⟨hmonth, hday⟩ := h
  by_cases hd : e.day = ABSENT
  · have hnew : e.newDay x = x.day := if_pos hd
    by_cases hm : e.month = ABSENT
    · have hnew' : e.newMonth x = x.month := if_pos hm
      rw [newDate, isValid, hnew, hnew']
      exact ⟨fun h _ _ => h, fun h => h hm hd⟩
    · refine iff_of_true ?_ (fun hm' => absurd hm' hm)
      rw [newDate, isValid, hnew]
      by_contra hinvalid
      exact hmonth ⟨hm, .inr ⟨hd, Bool.eq_false_iff.2 hinvalid⟩⟩
  · exact iff_of_true ((isValid_iff _).2 (newDay_toInt hd hday).2) (fun _ hd' => absurd hd' hd)

theorem toDays_na {z : date_ymd} (h : z.isValid = false) : z.toDays = DATE_NA := by
  unfold toDays to_days
  rw [isValid] at h
  rw [h]
  rfl

theorem isDate_of_valid {z : date_ymd} (h : z.isValid = true) : IsDate z.toDays z.year.toInt z.month.toInt z.day.toInt := by
  have hdays := toDays_eq h
  have hb := number_bounds h
  refine ⟨?_, (isValid_iff z).1 h, hdays.symm⟩
  intro hna
  rw [hna] at hdays
  have hmin : DATE_NA.toInt = -2 ^ 31 := rfl
  omega

theorem toDays_eq_na {z : date_ymd} : z.toDays = DATE_NA ↔ z.isValid = false := by
  refine ⟨fun h => ?_, toDays_na⟩
  by_contra hvalid
  exact (isDate_of_valid (eq_true_of_ne_false hvalid)).not_na h

/-- One date only is stored. -/
theorem isDate_toDays {z : date_ymd} {y m d : ℤ} (h : IsDate z.toDays y m d) :
    z.isValid = true ∧ y = z.year.toInt ∧ m = z.month.toInt ∧ d = z.day.toInt := by
  have hvalid : z.isValid = true := by
    by_contra hinvalid
    exact h.not_na (toDays_na (Bool.eq_false_iff.2 hinvalid))
  have hz := isDate_of_valid hvalid
  exact ⟨hvalid, dayNumber_inj 1970 h.valid hz.valid (h.number.trans hz.number.symm)⟩

section
variable {date : Int32}

/-- NA has no fields to keep. -/
theorem not_na_of_kept (h : ¬ e.Refuses (set_from_days date)) (hvalid : (e.newDate (set_from_days date)).isValid = true)
    (hkept : e.month = ABSENT ∨ e.day = ABSENT) : date ≠ DATE_NA := by
  rintro rfl
  have hna : set_from_days DATE_NA = ⟨0, -128, 0⟩ := rfl
  rw [hna] at h hvalid
  have hv := (isValid_iff _).1 hvalid
  rcases hkept with hm | hd
  · have hmonth : 1 ≤ (e.newMonth ⟨0, -128, 0⟩).toInt := hv.month.1
    rw [newMonth, if_pos hm] at hmonth
    exact absurd hmonth (by decide)
  · have hday : 1 ≤ (e.newDay ⟨0, -128, 0⟩).toInt := hv.day.1
    rw [newDay, if_pos hd] at hday
    exact absurd hday (by decide)

/-- The month and the day of a date are those it is split into, the year as far as it fits. -/
theorem isDate_fields (hna : date ≠ DATE_NA) (hfit : date.toInt + 719528 < 2 ^ 31) :
    ∃ y, IsDate date y (set_from_days date).month.toInt (set_from_days date).day.toInt ∧
      (set_from_days date).year = Int16.ofInt y := by
  obtain ⟨year, month, day, hvalid, hnumber, hset⟩ := set_from_days_fields hna hfit
  rw [hset, month_toInt hvalid, day_toInt hvalid]
  exact ⟨year, ⟨hna, hvalid, hnumber⟩, rfl⟩

theorem newDate_replaced (hfit : date.toInt + 719528 < 2 ^ 31) (h : ¬ e.Refuses (set_from_days date)) (hyear : e.YearFits date)
    (hvalid : (e.newDate (set_from_days date)).isValid = true) :
    e.Replaced date (e.newYear (set_from_days date)).toInt (e.newMonth (set_from_days date)).toInt
      (e.newDay (set_from_days date)).toInt := by
  have hkept := not_na_of_kept h hvalid
  rw [Refuses, not_or] at h
  obtain ⟨hrm, hrd⟩ := h
  constructor
  · rw [YearFits] at hyear
    rw [newYear]
    split_ifs at hyear ⊢ with hy
    · have hna : date ≠ DATE_NA := by
        rintro rfl
        exact absurd hyear.1 (by decide)
      obtain ⟨year, hdate, hset⟩ := isDate_fields hna hfit
      obtain ⟨hlow, hhigh⟩ := (yearRange_iff hdate.valid).2 (by rwa [hdate.number])
      have hyear' : (set_from_days date).year.toInt = year := by
        rw [hset]
        exact Int16.toInt_ofInt_of_le hlow hhigh
      rw [hyear']
      exact ⟨_, _, hdate⟩
    · exact Int16.toInt_ofInt_of_le hyear.1 hyear.2
  · split_ifs with hm
    · obtain ⟨year, hdate, -⟩ := isDate_fields (hkept (.inl hm)) hfit
      rw [newMonth, if_pos hm]
      exact ⟨_, _, hdate⟩
    · exact newMonth_toInt hm hrm
  · split_ifs with hd
    · obtain ⟨year, hdate, -⟩ := isDate_fields (hkept (.inr hd)) hfit
      rw [newDay, if_pos hd]
      exact ⟨_, _, hdate⟩
    · exact (newDay_toInt hd hrd).1

/-- The year that is asked for is the year that is stored when it fits. -/
theorem yearFits_of_replaced {x : date_ymd} {m d : ℤ} (h : e.Replaced date (e.newYear x).toInt m d) : e.YearFits date := by
  have hyear := h.year
  have hrange : YearRange (e.newYear x).toInt := ⟨(e.newYear x).le_toInt, (e.newYear x).toInt_lt⟩
  rw [YearFits]
  split_ifs at hyear ⊢
  · obtain ⟨m₀, d₀, hdate⟩ := hyear
    rw [← hdate.number]
    exact (yearRange_iff hdate.valid).1 hrange
  · rwa [hyear] at hrange

theorem replaces_iff : e.Replaces date ↔ e.Meets date := by
  unfold Replaces Meets
  by_cases hfit : date.toInt + 719528 < 2 ^ 31
  · rw [and_iff_right hfit]
    by_cases href : e.Refuses (set_from_days date)
    · obtain ⟨message, hmessage⟩ := replace_error hfit href
      rw [hmessage]
      exact iff_of_true (by simp) (.inl href)
    · rw [or_iff_right href, ← newDate_valid href, replace_ok hfit href]
      constructor
      · rintro ⟨y, m, d, hdate, hrep⟩
        obtain ⟨hvalid, rfl, rfl, rfl⟩ := isDate_toDays hdate
        exact ⟨yearFits_of_replaced hrep, hvalid⟩
      · rintro ⟨hyear, hvalid⟩
        exact ⟨_, _, _, isDate_of_valid hvalid, newDate_replaced hfit href hyear hvalid⟩
  · rw [replace_overflow (not_lt.1 hfit)]
    exact iff_of_false (fun h => h rfl) (fun h => hfit h.1)

end

/-! ## Strided runs -/

/-- The kept fields decide what is stored. -/
theorem newDate_eq_iff : e.newDate x = e.newDate y ↔
    (e.year = ABSENT → x.year = y.year) ∧ (e.month = ABSENT → x.month = y.month) ∧ (e.day = ABSENT → x.day = y.day) := by
  have hyear : e.newYear x = e.newYear y ↔ (e.year = ABSENT → x.year = y.year) := by
    unfold newYear
    split_ifs with h <;> simp [h]
  have hmonth : e.newMonth x = e.newMonth y ↔ (e.month = ABSENT → x.month = y.month) := by
    unfold newMonth
    split_ifs with h <;> simp [h]
  rw [newDate, newDate, date_ymd.mk.injEq, hyear, hmonth]
  constructor
  · rintro ⟨hy, hm, hd⟩
    refine ⟨hy, hm, fun h => ?_⟩
    rwa [newDay, newDay, if_pos h, if_pos h] at hd
  · rintro ⟨hy, hm, hd⟩
    refine ⟨hy, hm, ?_⟩
    rw [newDay, newDay, monthSize, monthSize, hyear.2 hy, hmonth.2 hm]
    split_ifs with h
    · exact hd h
    · rfl

theorem refuses_congr (h : e.newDate x = e.newDate y) : e.Refuses x ↔ e.Refuses y := by
  have hfields := newDate_eq_iff.1 h
  rw [newDate, newDate, date_ymd.mk.injEq] at h
  rw [Refuses, Refuses, RefusesMonth, RefusesMonth, RefusesDay, RefusesDay, monthSize, monthSize, h.1, h.2.1]
  by_cases hd : e.day = ABSENT
  · rw [hfields.2.2 hd]
  · simp only [hd, false_and]

theorem toDays_eq_iff {z w : date_ymd} : z.toDays = w.toDays ↔ z = w ∨ z.isValid = false ∧ w.isValid = false := by
  constructor
  · intro h
    by_cases hz : z.isValid = true
    · left
      have hdate := isDate_of_valid hz
      rw [h] at hdate
      obtain ⟨-, hy, hm, hd⟩ := isDate_toDays hdate
      exact date_ymd.ext (Int16.toInt_inj.1 hy) (Int8.toInt_inj.1 hm) (Int8.toInt_inj.1 hd)
    · have hz' := Bool.eq_false_iff.2 hz
      exact .inr ⟨hz', toDays_eq_na.1 (h.symm.trans (toDays_na hz'))⟩
  · rintro (rfl | ⟨hz, hw⟩)
    · rfl
    · rw [toDays_na hz, toDays_na hw]

/-- When another date becomes what a date becomes. -/
theorem replace_alike {date other : Int32} (h : ¬ e.Refuses (set_from_days date)) :
    e.replace other = .ok (e.newDate (set_from_days date)).toDays ↔
      other.toInt + 719528 < 2 ^ 31 ∧ e.Alike (set_from_days date) (set_from_days other) := by
  by_cases hfit' : other.toInt + 719528 < 2 ^ 31
  swap
  · rw [replace_overflow (not_lt.1 hfit')]
    exact iff_of_false (fun h => nomatch h) fun h => hfit' h.1
  rw [and_iff_right hfit', Alike, ← newDate_eq_iff]
  constructor
  · intro hok
    have h' : ¬ e.Refuses (set_from_days other) := by
      intro href
      obtain ⟨message, hmessage⟩ := replace_error hfit' href
      rw [hmessage] at hok
      cases hok
    rw [replace_ok hfit' h', Except.ok.injEq, toDays_eq_iff] at hok
    refine hok.imp Eq.symm ?_
    rintro ⟨hother, hdate⟩
    have hnot := mt (newDate_valid h).2 (Bool.eq_false_iff.1 hdate)
    have hnot' := mt (newDate_valid h').2 (Bool.eq_false_iff.1 hother)
    push Not at hnot hnot'
    exact ⟨hnot.1, hnot.2.1, Bool.eq_false_iff.2 hnot.2.2, Bool.eq_false_iff.2 hnot'.2.2⟩
  · rintro (heq | ⟨hm, hd, hdate, hother⟩)
    · rw [replace_ok hfit' (mt (refuses_congr heq).2 h), heq]
    · have h' : ¬ e.Refuses (set_from_days other) := by
        rintro (href | href)
        · exact href.1 hm
        · exact href.1 hd
      have hinvalid := mt (newDate_valid h).1 fun hv => Bool.eq_false_iff.1 hdate (hv hm hd)
      have hinvalid' := mt (newDate_valid h').1 fun hv => Bool.eq_false_iff.1 hother (hv hm hd)
      rw [replace_ok hfit' h', toDays_na (Bool.eq_false_iff.2 hinvalid), toDays_na (Bool.eq_false_iff.2 hinvalid')]

/-- The dates that a run stores, from the sources that its steps are given. -/
theorem strided_stores (e : date_replace_kernel_extra) (load : ℤ → Int32) (source : ℤ × ℤ → ℤ) (p s : ℤ × ℤ) (count : ℕ)
    (stores : Stores) : strided (fun q => e.single_unary load q.1 (source q)) p s count stores =
      (fun bs => stores ++ bs) <$> (List.range count).mapM fun i : ℕ =>
        (fun days => ((p + i • s).1, days)) <$> e.replace (load (source (p + i • s))) := by
  have hsingle : (fun q => e.single_unary load q.1 (source q)) =
      fun q stores => (fun b => stores ++ [b]) <$> ((fun days => (q.1, days)) <$> e.replace (load (source q))) := by
    funext q stores
    unfold single_unary
    cases e.replace (load (source q)) <;> rfl
  rw [hsingle, strided_log_mapM]

/-- A run stops at its first element in both ways. -/
theorem strided_unary_stops (e : date_replace_kernel_extra) (load : ℤ → Int32) (dst dst_stride src src_stride : ℤ) (count : ℕ)
    (stores : Stores) {err : Error} (h : e.replace (load src) = .error err) :
    e.strided_unary load dst dst_stride src src_stride count stores =
      e.each_unary load dst dst_stride src src_stride count stores := by
  unfold strided_unary each_unary
  rw [strided_stores e load (fun _ => src), strided_stores e load Prod.snd]
  cases count with
  | zero => rw [List.range_zero, List.mapM_nil, List.mapM_nil]
  | succ n =>
    rw [List.range_succ_eq_map, List.mapM_cons, List.mapM_cons, zero_nsmul, add_zero, h, map_error, error_bind, error_bind]

/-- It goes on with what the first element becomes. -/
theorem strided_unary_goes (e : date_replace_kernel_extra) (load : ℤ → Int32) (dst dst_stride src src_stride : ℤ) (count : ℕ)
    (stores : Stores) {days : Int32} (h : e.replace (load src) = .ok days) :
    e.strided_unary load dst dst_stride src src_stride count stores =
      e.each_unary load dst dst_stride src src_stride count stores ↔
        ∀ i : ℕ, i < count → e.replace (load (src + i * src_stride)) = .ok days := by
  unfold strided_unary each_unary
  rw [strided_stores e load (fun _ => src), strided_stores e load Prod.snd, mapM_eq_map fun i _ => by rw [h, map_ok],
    map_ok, eq_comm, map_eq_ok]
  have hplace : ∀ i : ℕ, ((dst, src) + i • (dst_stride, src_stride)).2 = src + i * src_stride := by simp
  constructor
  · rintro ⟨bs, hbs, happ⟩ i hi
    rw [List.append_cancel_left happ, mapM_eq_ok_map] at hbs
    obtain ⟨days', hdays, hpair⟩ := map_eq_ok.1 (hbs i (List.mem_range.2 hi))
    rw [Prod.mk.injEq] at hpair
    rw [← hplace, hdays, hpair.2]
  · intro hall
    refine ⟨_, ?_, rfl⟩
    rw [mapM_eq_ok_map]
    intro i hi
    rw [hplace, hall i (List.mem_range.1 hi), map_ok]

theorem strided_unary_iff (e : date_replace_kernel_extra) (load : ℤ → Int32) (dst dst_stride src src_stride : ℤ) (count : ℕ)
    (stores : Stores) : e.strided_unary load dst dst_stride src src_stride count stores =
      e.each_unary load dst dst_stride src src_stride count stores ↔ e.StridedMeets load src src_stride count := by
  unfold StridedMeets
  by_cases hfit : (load src).toInt + 719528 < 2 ^ 31
  · rw [or_iff_right (not_le.2 hfit)]
    by_cases href : e.Refuses (set_from_days (load src))
    · obtain ⟨message, hmessage⟩ := replace_error hfit href
      exact iff_of_true (strided_unary_stops e load dst dst_stride src src_stride count stores hmessage) (.inl href)
    · rw [or_iff_right href, strided_unary_goes e load dst dst_stride src src_stride count stores (replace_ok hfit href)]
      apply forall₂_congr
      intro i _
      exact replace_alike href
  · have hover := replace_overflow (e := e) (not_lt.1 hfit)
    exact iff_of_true (strided_unary_stops e load dst dst_stride src src_stride count stores hover) (.inl (not_lt.1 hfit))

end

/-- The single kernel and the strided one, for every date and every
combination of fields. -/
theorem replace_iff (e : date_replace_kernel_extra) :
    (∀ date, e.Replaces date ↔ e.Meets date) ∧
    ∀ load dst dst_stride src src_stride count stores, e.strided_unary load dst dst_stride src src_stride count stores =
      e.each_unary load dst dst_stride src src_stride count stores ↔ e.StridedMeets load src src_stride count :=
  ⟨fun _ => replaces_iff, strided_unary_iff e⟩

/-- February 29, 2012 in the year 2013 becomes NA, and so does every element after it. -/
theorem leap_day_to_na :
    replace ⟨2013, ABSENT, ABSENT⟩ 15399 = .ok DATE_NA ∧ ¬ Replaces ⟨2013, ABSENT, ABSENT⟩ 15399 ∧
      strided_unary ⟨2013, ABSENT, ABSENT⟩ (fun src => if src = 0 then 15399 else 15400) 0 4 0 4 2 [] ≠
        each_unary ⟨2013, ABSENT, ABSENT⟩ (fun src => if src = 0 then 15399 else 15400) 0 4 0 4 2 [] := by
  have hna : replace ⟨2013, ABSENT, ABSENT⟩ 15399 = .ok DATE_NA := by decide
  refine ⟨hna, ?_, ?_⟩
  · unfold Replaces
    rw [hna]
    rintro ⟨y, m, d, hdate, -⟩
    exact hdate.not_na rfl
  · rw [Ne, @strided_unary_goes _ _ _ _ _ _ _ _ DATE_NA (by decide +kernel)]
    intro h
    exact absurd (h 1 (by omega)) (by decide +kernel)

end date_replace_kernel_extra
end Dynd.DateReplace
