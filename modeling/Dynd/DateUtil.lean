import Mathlib.Data.List.GetD
import Dynd.Lib.Gregorian
/-!
# Dates

`date_ymd` holds a year in 16 bits, and a month and a day in 8 bits each. Its
conversions to and from a count of days since January 1, 1970 are closed
forms in `int` arithmetic, where division truncates toward zero. They are the
proleptic Gregorian calendar (`Lib.Gregorian`) for every year that fits.
-/
namespace Dynd
open Lib Gregorian

/-! ## The source -/

/-- `struct date_ymd`. -/
@[ext] structure date_ymd where
  year : Int16
  month : Int8
  day : Int8
deriving DecidableEq, Repr

/-- `DYND_DATE_NA`. -/
def DATE_NA : Int32 := Int32.minValue

namespace date_ymd

def month_lengths (leap : Bool) : List ℤ :=
  if leap then [31, 29, 31, 30, 31, 30, 31, 31, 30, 31, 30, 31]
  else [31, 28, 31, 30, 31, 30, 31, 31, 30, 31, 30, 31]

def month_starts (leap : Bool) : List ℤ :=
  if leap then [0, 31, 60, 91, 121, 152, 182, 213, 244, 274, 305, 335, 366]
  else [0, 31, 59, 90, 120, 151, 181, 212, 243, 273, 304, 334, 365]

def is_leap_year (year : ℤ) : Bool := year.tmod 4 = 0 && (year.tmod 100 ≠ 0 || year.tmod 400 = 0)

/-- `is_valid(int year, int month, int day)`. -/
def is_valid (year month day : ℤ) : Bool :=
  if month < 1 || month > 12 then false
  else if day < 1 || day > (month_lengths (is_leap_year year)).getD (month - 1).toNat 0 then false
  else true

/-- `is_valid()`. -/
def isValid (x : date_ymd) : Bool := is_valid x.year.toInt x.month.toInt x.day.toInt

/-- `is_na()`. -/
def isNA (x : date_ymd) : Bool := x.month = -128

/-- `to_days(int year, int month, int day)`. -/
def to_days (year month day : ℤ) : Int32 :=
  if is_valid year month day then
    -- Start with 365 days a year
    let result := (year - 1970) * 365
    -- Use the inclusion-exclusion principle to count leap years
    let result :=
      if 0 ≤ result then
        result + ((year - (1968 + 1)).tdiv 4 - (year - (1900 + 1)).tdiv 100 + (year - (1600 + 1)).tdiv 400)
      else
        result + ((year - 1972).tdiv 4 - (year - 2000).tdiv 100 + (year - 2000).tdiv 400)
    let result := result + (month_starts (is_leap_year year)).getD (month - 1).toNat 0
    Int32.ofInt (result + (day - 1))
  else DATE_NA

/-- `to_days()`. -/
def toDays (x : date_ymd) : Int32 := to_days x.year.toInt x.month.toInt x.day.toInt

/-- `get_weekday()`: 0 is Monday. -/
def get_weekday (x : date_ymd) : ℤ :=
  -- January 5, 1970 is Monday
  let weekday := (x.toDays.toInt - 4).tmod 7
  if weekday < 0 then weekday + 7 else weekday

/-- `400 * 365 + 100 - 4 + 1`, `100 * 365 + 25 - 1` and `4 * 365 + 1`. -/
def DAYS_400 : ℤ := 400 * 365 + 100 - 4 + 1
def DAYS_100 : ℤ := 100 * 365 + 25 - 1
def DAYS_4 : ℤ := 4 * 365 + 1

/-- The year in a 400 year cycle, and the day in the year. -/
def splitCycle (days : ℤ) : ℤ × ℤ :=
  if 366 ≤ days then
    -- To a 100 year cycle
    let yearcalc := 100 * (days - 1).tdiv DAYS_100
    let days := (days - 1).tmod DAYS_100
    if 365 ≤ days then
      -- To a 4 year cycle
      let yearcalc := yearcalc + 4 * (days + 1).tdiv DAYS_4
      let days := (days + 1).tmod DAYS_4
      if 366 ≤ days then
        -- To a 1 year cycle
        (yearcalc + (days - 1).tdiv 365, (days - 1).tmod 365)
      else (yearcalc, days)
    else (yearcalc, days)
  else (0, days)

/-- The 400 year cycle, and the day in it. -/
def splitDays (days : ℤ) : ℤ × ℤ :=
  if 0 ≤ days then (days.tdiv DAYS_400, days.tmod DAYS_400)
  else
    let cycle := (days - (400 * 365 + 100 - 4)).tdiv DAYS_400
    let days := days.tmod DAYS_400
    (cycle, if days < 0 then days + DAYS_400 else days)

/-- `std::upper_bound(monthstart + 1, monthstart + 13, days) - monthstart`. -/
def findMonth (monthstart : List ℤ) (days : ℤ) : ℕ := 1 + monthstart.tail.findIdx (fun start => days < start)

/-- `set_to_na()`. -/
def set_to_na (x : date_ymd) : date_ymd := { x with month := -128 }

/-- `set_from_days`: `days` is made relative to year 0 in 32 bits. -/
def set_from_days (days : Int32) : date_ymd :=
  if days ≠ DATE_NA then
    let (cycle, days) := splitDays (days + 719528).toInt
    let (yearcalc, days) := splitCycle days
    let yearcalc := 400 * cycle + yearcalc
    -- Search for the month
    let monthstart := month_starts (is_leap_year yearcalc)
    let month := findMonth monthstart days
    ⟨Int16.ofInt yearcalc, Int8.ofInt month, Int8.ofInt (days - monthstart.getD (month - 1) 0 + 1)⟩
  else ⟨0, -128, 0⟩

end date_ymd

/-! ## Truncating division -/

theorem tmod_eq_zero_iff (a b : ℤ) : a.tmod b = 0 ↔ a % b = 0 := by
  rw [← Int.dvd_iff_tmod_eq_zero, Int.dvd_iff_emod_eq_zero]

theorem tdiv_of_nonpos {a : ℤ} (h : a ≤ 0) (b : ℤ) : a.tdiv b = -(-a / b) := by
  rw [← Int.tdiv_eq_ediv_of_nonneg (by omega : 0 ≤ -a), Int.neg_tdiv, neg_neg]

theorem tmod_of_nonpos {a : ℤ} (h : a ≤ 0) (b : ℤ) : a.tmod b = -(-a % b) := by
  rw [← Int.tmod_eq_emod_of_nonneg (by omega : 0 ≤ -a), Int.neg_tmod, neg_neg]

namespace date_ymd

/-! ## The tables and the calendar -/

theorem is_leap_year_iff (year : ℤ) : is_leap_year year = true ↔ IsLeap year := by
  simp only [is_leap_year, IsLeap, Bool.and_eq_true, Bool.or_eq_true, decide_eq_true_eq, tmod_eq_zero_iff, ne_eq]

theorem month_lengths_eq (year : ℤ) {month : ℤ} (h : 1 ≤ month ∧ month ≤ 12) :
    (month_lengths (is_leap_year year)).getD (month - 1).toNat 0 = monthLength year month := by
  obtain ⟨h1, h2⟩ := h
  by_cases hl : IsLeap year
  · have hb := (is_leap_year_iff year).2 hl
    interval_cases month <;> simp [month_lengths, monthLength, hb, hl]
  · have hb : is_leap_year year = false := Bool.eq_false_iff.2 (mt (is_leap_year_iff year).1 hl)
    interval_cases month <;> simp [month_lengths, monthLength, hb, hl]

theorem month_starts_succ (leap : Bool) (n : Fin 12) : (month_starts leap).getD (n + 1) 0 =
    (month_starts leap).getD n 0 + (month_lengths leap).getD n 0 := by
  revert leap n
  decide

theorem month_starts_eq (year : ℤ) {n : ℕ} (h : n ≤ 12) :
    (month_starts (is_leap_year year)).getD n 0 = daysBeforeMonth year (n + 1) := by
  induction n with
  | zero =>
    rw [daysBeforeMonth, Nat.cast_zero, zero_add, Finset.Ico_self, Finset.sum_empty]
    cases is_leap_year year <;> rfl
  | succ n ih =>
    have hlen := @month_lengths_eq year (n + 1) (by omega)
    rw [add_sub_cancel_right, Int.toNat_natCast] at hlen
    rw [month_starts_succ (is_leap_year year) ⟨n, by omega⟩]
    push_cast
    rw [daysBeforeMonth_succ year (by omega : (1 : ℤ) ≤ n + 1), ih (by omega), hlen]

theorem is_valid_iff (year month day : ℤ) : is_valid year month day = true ↔ Valid year month day := by
  rw [is_valid]
  constructor
  · intro h
    split_ifs at h with h1 h2
    simp only [Bool.or_eq_true, decide_eq_true_eq, not_or, not_lt, gt_iff_lt] at h1 h2
    rw [month_lengths_eq year h1] at h2
    exact ⟨h1, h2⟩
  · intro h
    have h1 := h.month
    have h2 := h.day
    rw [month_lengths_eq year h1]
    simp only [Bool.or_eq_true, decide_eq_true_eq, gt_iff_lt]
    rw [if_neg (by omega), if_neg (by omega)]

/-! ## Counting days -/

/-- Both ways of counting leap years are the same count. -/
theorem leap_count (year : ℤ) :
    (if 0 ≤ (year - 1970) * 365 then
      (year - 1970) * 365 + ((year - (1968 + 1)).tdiv 4 - (year - (1900 + 1)).tdiv 100 + (year - (1600 + 1)).tdiv 400)
    else (year - 1970) * 365 + ((year - 1972).tdiv 4 - (year - 2000).tdiv 100 + (year - 2000).tdiv 400)) =
      yearStart year - yearStart 1970 := by
  simp only [yearStart]
  split_ifs with h
  · rw [Int.tdiv_eq_ediv_of_nonneg (by omega), Int.tdiv_eq_ediv_of_nonneg (by omega), Int.tdiv_eq_ediv_of_nonneg (by omega)]
    omega
  · rw [tdiv_of_nonpos (by omega), tdiv_of_nonpos (by omega), tdiv_of_nonpos (by omega)]
    omega

/-- A day count that fits 32 bits is the number of the day. -/
theorem to_days_eq {year month day : ℤ} (h : Valid year month day)
    (hfit : -2 ^ 31 ≤ dayNumber 1970 year month day ∧ dayNumber 1970 year month day < 2 ^ 31) :
    (to_days year month day).toInt = dayNumber 1970 year month day := by
  have hm := h.month
  have hstart := month_starts_eq year (n := (month - 1).toNat) (by omega)
  rw [Int.toNat_of_nonneg (by omega), sub_add_cancel] at hstart
  have hsum : dayNumber 1970 year month day = yearStart year - yearStart 1970 + daysBeforeMonth year month + (day - 1) := by
    rw [dayNumber, daysBetween_eq]
  rw [hsum] at hfit ⊢
  rw [to_days, if_pos ((is_valid_iff year month day).2 h)]
  simp only [leap_count, hstart]
  have hsize : Int32.size = 2 ^ 32 := rfl
  rw [Int32.toInt_ofInt, hsize]
  exact Int.bmod_eq_of_le (by omega) (by omega)

/-- The years that fit 16 bits. -/
def YearRange (year : ℤ) : Prop := -2 ^ 15 ≤ year ∧ year < 2 ^ 15

/-- The days of years that fit 16 bits fit 24 bits. -/
theorem dayNumber_bounds {year month day : ℤ} (h : Valid year month day) (hy : YearRange year) :
    dayNumber 1970 (-2 ^ 15) 1 1 ≤ dayNumber 1970 year month day ∧
      dayNumber 1970 year month day ≤ dayNumber 1970 (2 ^ 15 - 1) 12 31 := by
  have hfirst : Valid (-2 ^ 15) 1 1 := ⟨by omega, by decide⟩
  have hlast : Valid (2 ^ 15 - 1) 12 31 := ⟨by omega, by decide⟩
  have hm := h.month
  have hd := h.day
  have hlong : monthLength year month ≤ 31 := by
    rw [monthLength]
    split_ifs <;> omega
  obtain ⟨hy1, hy2⟩ := hy
  constructor
  · by_cases heq : Before (-2 ^ 15) 1 1 year month day
    · exact (dayNumber_lt 1970 hfirst h heq).le
    · simp only [Before] at heq
      obtain ⟨rfl, rfl, rfl⟩ : -2 ^ 15 = year ∧ 1 = month ∧ 1 = day := by omega
      exact le_rfl
  · by_cases heq : Before year month day (2 ^ 15 - 1) 12 31
    · exact (dayNumber_lt 1970 h hlast heq).le
    · simp only [Before] at heq
      obtain ⟨rfl, rfl, rfl⟩ : 2 ^ 15 - 1 = year ∧ 12 = month ∧ 31 = day := by omega
      exact le_rfl

theorem firstDay_eq : dayNumber 1970 (-2 ^ 15) 1 1 = -12687794 := by
  rw [dayNumber, daysBetween_eq, daysBeforeMonth, Finset.Ico_self, Finset.sum_empty]
  decide

theorem lastDay_eq : dayNumber 1970 (2 ^ 15 - 1) 12 31 = 11248737 := by
  have hmonths := daysBeforeMonth_succ (2 ^ 15 - 1) (m := 12) (by omega)
  have hyear := daysBeforeMonth_year (2 ^ 15 - 1)
  rw [show (13 : ℤ) = 12 + 1 by rfl, hmonths] at hyear
  have hlen : monthLength (2 ^ 15 - 1) 12 = 31 := by decide
  have hyl : yearLength (2 ^ 15 - 1) = 365 := by decide
  have hstart : yearStart (2 ^ 15 - 1) - yearStart 1970 = 11248373 := by decide
  rw [dayNumber, daysBetween_eq]
  omega

/-! ## Splitting days -/

/-- Both branches divide by the length of the cycle and round down. -/
theorem splitDays_eq (days : ℤ) : splitDays days = (days / 146097, days % 146097) := by
  have hcycle : DAYS_400 = 146097 := rfl
  rw [splitDays, hcycle]
  split_ifs with h
  · rw [Int.tdiv_eq_ediv_of_nonneg h, Int.tmod_eq_emod_of_nonneg h]
  · rw [tdiv_of_nonpos (by omega), tmod_of_nonpos (by omega)]
    refine Prod.ext ?_ ?_
    · dsimp only
      omega
    · dsimp only
      split_ifs <;> omega

/-- The day of a 400 year cycle, as a year and a day of that year. -/
theorem splitCycle_spec {days : ℤ} (h0 : 0 ≤ days) (h : days < 146097) :
    0 ≤ (splitCycle days).1 ∧ (splitCycle days).1 < 400 ∧ 0 ≤ (splitCycle days).2 ∧
      (splitCycle days).2 < yearLength (splitCycle days).1 ∧
      yearStart (splitCycle days).1 - yearStart 0 + (splitCycle days).2 = days := by
  have h100 : DAYS_100 = 36524 := rfl
  have h4 : DAYS_4 = 1461 := rfl
  have hzero : yearStart 0 = -366 := rfl
  rw [splitCycle, h100, h4, hzero]
  by_cases h1 : 366 ≤ days
  · -- `d` is the day of the century, which has 365 days in its first year but for the first century
    obtain ⟨a, d, hd, ha, hd0, hd1, ha1⟩ : ∃ a d, (days - 1) / 36524 = a ∧ (days - 1) % 36524 = d ∧
        0 ≤ d ∧ d < 36524 ∧ days - 1 = 36524 * a + d := ⟨_, _, rfl, rfl, by omega, by omega, by omega⟩
    rw [if_pos h1, Int.tdiv_eq_ediv_of_nonneg (by omega), Int.tmod_eq_emod_of_nonneg (by omega), hd, ha]
    dsimp only
    by_cases h2 : 365 ≤ d
    · obtain ⟨b, e, hb, he, he0, he1, hb1⟩ : ∃ b e, (d + 1) / 1461 = b ∧ (d + 1) % 1461 = e ∧
          0 ≤ e ∧ e < 1461 ∧ d + 1 = 1461 * b + e := ⟨_, _, rfl, rfl, by omega, by omega, by omega⟩
      rw [if_pos h2, Int.tdiv_eq_ediv_of_nonneg (by omega), Int.tmod_eq_emod_of_nonneg (by omega), hb, he]
      by_cases h3 : 366 ≤ e
      · obtain ⟨c, f, hc, hf, hf0, hf1, hc1⟩ : ∃ c f, (e - 1) / 365 = c ∧ (e - 1) % 365 = f ∧
            0 ≤ f ∧ f < 365 ∧ e - 1 = 365 * c + f := ⟨_, _, rfl, rfl, by omega, by omega, by omega⟩
        have hac : a ≤ 3 ∧ 0 ≤ a ∧ b ≤ 24 ∧ 0 ≤ b ∧ 1 ≤ c ∧ c ≤ 3 := by omega
        have q4 : (100 * a + 4 * b + c - 1) / 4 = 25 * a + b := by omega
        have q100 : (100 * a + 4 * b + c - 1) / 100 = a := by omega
        have q400 : (100 * a + 4 * b + c - 1) / 400 = 0 := by omega
        rw [if_pos h3, Int.tdiv_eq_ediv_of_nonneg (by omega), Int.tmod_eq_emod_of_nonneg (by omega), hc, hf]
        simp only [yearStart, yearLength, q4, q100, q400]
        refine ⟨by omega, by omega, hf0, ?_, by omega⟩
        split_ifs <;> omega
      · have hab : a ≤ 3 ∧ 0 ≤ a ∧ b ≤ 24 ∧ 1 ≤ b := by omega
        have q4 : (100 * a + 4 * b - 1) / 4 = 25 * a + b - 1 := by omega
        have q100 : (100 * a + 4 * b - 1) / 100 = a := by omega
        have q400 : (100 * a + 4 * b - 1) / 400 = 0 := by omega
        have hleap : IsLeap (100 * a + 4 * b) := by
          rw [IsLeap]
          omega
        rw [if_neg h3]
        simp only [yearStart, yearLength, if_pos hleap, q4, q100, q400]
        exact ⟨by omega, by omega, he0, by omega, by omega⟩
    · rw [if_neg h2]
      simp only [yearStart, yearLength]
      refine ⟨by omega, by omega, hd0, ?_, by omega⟩
      split_ifs <;> omega
  · rw [if_neg h1]
    simp only [yearStart, yearLength]
    refine ⟨by omega, by omega, h0, ?_, by omega⟩
    rw [if_pos (by decide)]
    omega

theorem yearStart_cycle (c y : ℤ) : yearStart (400 * c + y) = 146097 * c + yearStart y := by
  simp only [yearStart]
  omega

theorem yearLength_cycle (c y : ℤ) : yearLength (400 * c + y) = yearLength y := by
  have h : IsLeap (400 * c + y) ↔ IsLeap y := by
    simp only [IsLeap]
    omega
  simp only [yearLength, h]

/-- The month whose days the day of the year is one of. -/
theorem findMonth_spec (leap : Bool) {days : ℤ} (h0 : 0 ≤ days) (h : days < (month_starts leap).getD 12 0) :
    1 ≤ findMonth (month_starts leap) days ∧ findMonth (month_starts leap) days ≤ 12 ∧
      (month_starts leap).getD (findMonth (month_starts leap) days - 1) 0 ≤ days ∧
      days < (month_starts leap).getD (findMonth (month_starts leap) days) 0 := by
  have htail : month_starts leap = 0 :: (month_starts leap).tail := by cases leap <;> rfl
  have hlen : (month_starts leap).tail.length = 12 := by cases leap <;> rfl
  rw [findMonth]
  generalize (month_starts leap).tail = starts at htail hlen
  rw [htail] at h ⊢
  have hsucc : ∀ n, (0 :: starts).getD (1 + n) 0 = starts.getD n 0 := by
    intro n
    rw [Nat.add_comm]
    rfl
  have hlast : days < starts.getD 11 0 := h
  have hlt : starts.findIdx (fun start => days < start) < starts.length := by
    apply List.findIdx_lt_length_of_exists
    refine ⟨starts[11], List.getElem_mem _, ?_⟩
    rw [List.getD_eq_getElem _ _ (by omega)] at hlast
    exact decide_eq_true hlast
  have hat : days < starts[starts.findIdx fun start => days < start] := of_decide_eq_true (List.findIdx_getElem (w := hlt))
  rw [Nat.add_sub_cancel_left, hsucc, List.getD_eq_getElem _ _ hlt]
  refine ⟨by omega, by omega, ?_, hat⟩
  cases hidx : starts.findIdx (fun start => days < start) with
  | zero => exact h0
  | succ n =>
    have hbelow := @List.not_of_lt_findIdx _ (fun start => decide (days < start)) starts n (by omega)
    rw [Nat.add_comm, hsucc, List.getD_eq_getElem _ _ (by omega)]
    simpa using hbelow

/-- A day of a year is a date of that year. -/
theorem monthDay_valid (year : ℤ) {days : ℤ} (h0 : 0 ≤ days) (h : days < yearLength year) :
    Valid year (findMonth (month_starts (is_leap_year year)) days)
        (days - (month_starts (is_leap_year year)).getD (findMonth (month_starts (is_leap_year year)) days - 1) 0 + 1) ∧
      daysBeforeMonth year (findMonth (month_starts (is_leap_year year)) days) =
        (month_starts (is_leap_year year)).getD (findMonth (month_starts (is_leap_year year)) days - 1) 0 := by
  have hyear := month_starts_eq year (n := 12) le_rfl
  rw [show ((12 : ℕ) : ℤ) + 1 = 13 by rfl, daysBeforeMonth_year] at hyear
  obtain ⟨h1, h12, hlo, hhi⟩ := findMonth_spec (is_leap_year year) h0 (by rw [hyear]; exact h)
  generalize findMonth (month_starts (is_leap_year year)) days = month at *
  have hstart := month_starts_eq year (n := month - 1) (by omega)
  rw [show ((month - 1 : ℕ) : ℤ) + 1 = month by omega] at hstart
  have hnext := month_starts_eq year h12
  rw [daysBeforeMonth_succ year (by omega), ← hstart] at hnext
  exact ⟨⟨by omega, by omega, by omega⟩, hstart.symm⟩

/-! ## The bijection -/

/-- The number of a date in the calendar. -/
noncomputable def number (x : date_ymd) : ℤ := dayNumber 1970 x.year.toInt x.month.toInt x.day.toInt

theorem isValid_iff (x : date_ymd) : x.isValid = true ↔ Valid x.year.toInt x.month.toInt x.day.toInt :=
  is_valid_iff _ _ _

theorem yearRange (x : date_ymd) : YearRange x.year.toInt := ⟨x.year.le_toInt, x.year.toInt_lt⟩

theorem number_bounds {x : date_ymd} (h : x.isValid = true) : -12687794 ≤ x.number ∧ x.number ≤ 11248737 := by
  have hb := dayNumber_bounds ((isValid_iff x).1 h) x.yearRange
  rwa [firstDay_eq, lastDay_eq] at hb

theorem toDays_eq {x : date_ymd} (h : x.isValid = true) : x.toDays.toInt = x.number := by
  have hb := number_bounds h
  rw [number] at hb ⊢
  exact to_days_eq ((isValid_iff x).1 h) (by omega)

/-- The dates of the years that fit 16 bits are those whose day is in between. -/
theorem yearRange_iff {year month day : ℤ} (h : Valid year month day) :
    YearRange year ↔ -12687794 ≤ dayNumber 1970 year month day ∧ dayNumber 1970 year month day ≤ 11248737 := by
  constructor
  · intro hy
    have hb := dayNumber_bounds h hy
    rwa [firstDay_eq, lastDay_eq] at hb
  · rintro ⟨hlow, hhigh⟩
    constructor
    · by_contra hlt
      have hfirst : Valid (-2 ^ 15) 1 1 := ⟨by omega, by decide⟩
      have hbefore := dayNumber_lt 1970 h hfirst (.inl (not_le.1 hlt))
      rw [firstDay_eq] at hbefore
      omega
    · by_contra hge
      have hlast : Valid (2 ^ 15 - 1) 12 31 := ⟨by omega, by decide⟩
      have hafter := dayNumber_lt 1970 hlast h (.inl (by omega))
      rw [lastDay_eq] at hafter
      omega

/-- Each day that can be made relative to year 0 is split into its date, up to
the width of the fields. -/
theorem set_from_days_fields {days : Int32} (hna : days ≠ DATE_NA) (hfit : days.toInt + 719528 < 2 ^ 31) :
    ∃ year month day, Valid year month day ∧ dayNumber 1970 year month day = days.toInt ∧
      set_from_days days = ⟨Int16.ofInt year, Int8.ofInt month, Int8.ofInt day⟩ := by
  have hmin := days.le_toInt
  have hadd : (days + 719528).toInt = days.toInt + 719528 := by
    have hconst : (719528 : Int32).toInt = 719528 := by decide
    rw [Int32.toInt_add, hconst]
    exact Int.bmod_eq_of_le (by omega) (by omega)
  obtain ⟨hy0, hy400, hd0, hdy, hsum⟩ := @splitCycle_spec ((days.toInt + 719528) % 146097) (by omega) (by omega)
  rw [set_from_days, if_pos hna, hadd, splitDays_eq]
  dsimp only
  generalize splitCycle ((days.toInt + 719528) % 146097) = split at *
  obtain ⟨y, d⟩ := split
  dsimp only at *
  obtain ⟨year, hyear⟩ : ∃ year, year = 400 * ((days.toInt + 719528) / 146097) + y := ⟨_, rfl⟩
  have hstart : yearStart year - yearStart 1970 + d = days.toInt := by
    have hepoch : yearStart 1970 - yearStart 0 = 719528 := by decide
    rw [hyear, yearStart_cycle]
    omega
  rw [← hyear]
  rw [← yearLength_cycle ((days.toInt + 719528) / 146097), ← hyear] at hdy
  obtain ⟨hvalid, hmonth⟩ := monthDay_valid year hd0 hdy
  refine ⟨_, _, _, hvalid, ?_, rfl⟩
  rw [dayNumber, daysBetween_eq, hmonth]
  omega

theorem month_toInt {year month day : ℤ} (h : Valid year month day) : (Int8.ofInt month).toInt = month := by
  have hm := h.month
  exact Int8.toInt_ofInt_of_le (by omega) (by omega)

theorem day_toInt {year month day : ℤ} (h : Valid year month day) : (Int8.ofInt day).toInt = day := by
  have hd := h.day
  have hlong := monthLength_le year month
  exact Int8.toInt_ofInt_of_le (by omega) (by omega)

/-- Each day in the range of 16-bit years is split into its date. -/
theorem set_from_days_spec {days : Int32} (h0 : -12687794 ≤ days.toInt) (h1 : days.toInt ≤ 11248737) :
    (set_from_days days).isValid = true ∧ (set_from_days days).number = days.toInt := by
  have hna : days ≠ DATE_NA := by
    rintro rfl
    exact absurd h0 (by decide)
  obtain ⟨year, month, day, hvalid, hnumber, hset⟩ := set_from_days_fields hna (by omega)
  have hyear : (Int16.ofInt year).toInt = year := by
    obtain ⟨hlow, hhigh⟩ := (yearRange_iff hvalid).2 (by omega)
    exact Int16.toInt_ofInt_of_le hlow hhigh
  rw [hset, isValid_iff, number, hyear, month_toInt hvalid, day_toInt hvalid]
  exact ⟨hvalid, hnumber⟩

/-- Two valid dates with one number are one date. -/
theorem number_inj {x y : date_ymd} (hx : x.isValid = true) (hy : y.isValid = true) (h : x.number = y.number) : x = y := by
  obtain ⟨h1, h2, h3⟩ := dayNumber_inj 1970 ((isValid_iff x).1 hx) ((isValid_iff y).1 hy) h
  exact date_ymd.ext (Int16.toInt_inj.1 h1) (Int8.toInt_inj.1 h2) (Int8.toInt_inj.1 h3)

theorem set_from_days_toDays {x : date_ymd} (h : x.isValid = true) : set_from_days x.toDays = x := by
  have hdays := toDays_eq h
  have hb := number_bounds h
  obtain ⟨hvalid, hnumber⟩ := @set_from_days_spec x.toDays (by omega) (by omega)
  exact number_inj hvalid h (hnumber.trans hdays)

/-- `to_days` and `set_from_days` are inverse to each other on the valid dates
and the days from the first of them to the last, and `to_days` is the number of
the date in the calendar, in the order of dates. -/
theorem calendar_bijection :
    (∀ x : date_ymd, x.isValid = true → set_from_days x.toDays = x) ∧
    (∀ days : Int32, to_days (-32768) 1 1 ≤ days → days ≤ to_days 32767 12 31 →
      (set_from_days days).isValid = true ∧ (set_from_days days).toDays = days) ∧
    (∀ x y : date_ymd, x.isValid = true → y.isValid = true →
      Before x.year.toInt x.month.toInt x.day.toInt y.year.toInt y.month.toInt y.day.toInt → x.toDays < y.toDays) ∧
    ∀ x : date_ymd, x.isValid = true → x.toDays.toInt = dayNumber 1970 x.year.toInt x.month.toInt x.day.toInt := by
  have hfirst : (to_days (-32768) 1 1).toInt = -12687794 := by decide
  have hlast : (to_days 32767 12 31).toInt = 11248737 := by decide
  refine ⟨fun x hx => set_from_days_toDays hx, fun days h0 h1 => ?_, fun x y hx hy hlt => ?_, fun x hx => toDays_eq hx⟩
  · rw [Int32.le_iff_toInt_le, hfirst] at h0
    rw [Int32.le_iff_toInt_le, hlast] at h1
    obtain ⟨hvalid, hnumber⟩ := set_from_days_spec h0 h1
    exact ⟨hvalid, Int32.toInt_inj.1 ((toDays_eq hvalid).trans hnumber)⟩
  · rw [Int32.lt_iff_toInt_lt, toDays_eq hx, toDays_eq hy]
    exact dayNumber_lt 1970 ((isValid_iff x).1 hx) ((isValid_iff y).1 hy) hlt

theorem calendar_bijection_leap_day : set_from_days (toDays ⟨2000, 2, 29⟩) = ⟨2000, 2, 29⟩ :=
  calendar_bijection.1 ⟨2000, 2, 29⟩ (by decide)

end date_ymd

end Dynd
