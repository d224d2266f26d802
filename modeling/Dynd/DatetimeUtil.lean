import Dynd.DateUtil
/-!
# Times and datetimes

A datetime is a date and a time of day. In 64 bits it is a count of ticks of
100 nanoseconds since 1970. A signed operation of 64 bits that overflows has
no result here (`none`). `ticks_exact_iff` says which counts and which
datetimes are converted exactly.
-/
namespace Dynd
open Lib Gregorian

def TICKS_PER_SECOND : ℤ := 10000000
def TICKS_PER_MINUTE : ℤ := 60 * 10000000
def TICKS_PER_HOUR : ℤ := 60 * 60 * 10000000
def TICKS_PER_DAY : ℤ := 24 * 60 * 60 * 10000000

/-- `DYND_TIME_NA` and `DYND_DATETIME_NA`. -/
def DATETIME_NA : ℤ := -2 ^ 63

/-! ## Times -/

/-- `struct time_hmst`. -/
@[ext] structure time_hmst where
  hour : Int8
  minute : Int8
  second : Int8
  tick : Int32
deriving DecidableEq, Repr

namespace time_hmst

/-- `is_valid(int hour, int minute, int second, int tick)`: a leap second can be 60. -/
def is_valid (hour minute second tick : ℤ) : Bool :=
  0 ≤ hour && hour < 24 && 0 ≤ minute && minute < 60 && 0 ≤ second && second ≤ 60 && 0 ≤ tick && tick < TICKS_PER_SECOND

/-- `is_valid()`. -/
def isValid (x : time_hmst) : Bool := is_valid x.hour.toInt x.minute.toInt x.second.toInt x.tick.toInt

/-- `to_ticks(int hour, int minute, int second, int tick)`. -/
def to_ticks (hour minute second tick : ℤ) : ℤ :=
  if is_valid hour minute second tick then
    tick + second * TICKS_PER_SECOND + minute * TICKS_PER_MINUTE + hour * TICKS_PER_HOUR
  else DATETIME_NA

/-- `to_ticks()`. -/
def toTicks (x : time_hmst) : ℤ := to_ticks x.hour.toInt x.minute.toInt x.second.toInt x.tick.toInt

def set_to_na (x : time_hmst) : time_hmst := { x with hour := -128 }

/-- `set_from_ticks(int64_t ticks)`. -/
def set_from_ticks (x : time_hmst) (ticks : ℤ) : time_hmst :=
  if 0 ≤ ticks ∧ ticks < TICKS_PER_DAY then
    let tick := Int32.ofInt (ticks.tmod TICKS_PER_SECOND)
    let ticks := ticks.tdiv TICKS_PER_SECOND
    let second := Int8.ofInt (ticks.tmod 60)
    let ticks := ticks.tdiv 60
    ⟨Int8.ofInt (ticks.tdiv 60), Int8.ofInt (ticks.tmod 60), second, tick⟩
  else x.set_to_na

theorem is_valid_iff (hour minute second tick : ℤ) : is_valid hour minute second tick = true ↔
    (0 ≤ hour ∧ hour < 24) ∧ (0 ≤ minute ∧ minute < 60) ∧ (0 ≤ second ∧ second ≤ 60) ∧ 0 ≤ tick ∧ tick < 10000000 := by
  have hsec : TICKS_PER_SECOND = 10000000 := rfl
  simp only [is_valid, Bool.and_eq_true, decide_eq_true_eq]
  omega

/-- The ticks since midnight. -/
theorem toTicks_eq {x : time_hmst} (h : x.isValid = true) :
    x.toTicks = x.tick.toInt + 10000000 * (x.second.toInt + 60 * (x.minute.toInt + 60 * x.hour.toInt)) := by
  have hv : is_valid x.hour.toInt x.minute.toInt x.second.toInt x.tick.toInt = true := h
  rw [toTicks, to_ticks, if_pos hv]
  simp only [TICKS_PER_SECOND, TICKS_PER_MINUTE, TICKS_PER_HOUR]
  ring

/-- A leap second is a second past the end of the day. -/
theorem toTicks_bounds {x : time_hmst} (h : x.isValid = true) : 0 ≤ x.toTicks ∧ x.toTicks < 864010000000 := by
  rw [toTicks_eq h]
  have hv := (is_valid_iff _ _ _ _).1 h
  omega

/-- A count of ticks in a day is split into a valid time with that count. -/
theorem set_from_ticks_spec (x : time_hmst) {ticks : ℤ} (h0 : 0 ≤ ticks) (h : ticks < 864000000000) :
    (x.set_from_ticks ticks).isValid = true ∧ (x.set_from_ticks ticks).toTicks = ticks := by
  have hday : TICKS_PER_DAY = 864000000000 := rfl
  have hsec : TICKS_PER_SECOND = 10000000 := rfl
  rw [set_from_ticks, if_pos ⟨h0, by omega⟩, hsec]
  dsimp only
  have hseconds : 0 ≤ ticks / 10000000 := by omega
  have hminutes : 0 ≤ ticks / 10000000 / 60 := by omega
  rw [Int.tdiv_eq_ediv_of_nonneg h0, Int.tmod_eq_emod_of_nonneg h0, Int.tdiv_eq_ediv_of_nonneg hseconds,
    Int.tmod_eq_emod_of_nonneg hseconds, Int.tdiv_eq_ediv_of_nonneg hminutes, Int.tmod_eq_emod_of_nonneg hminutes]
  have etick := Int32.toInt_ofInt_of_le (n := ticks % 10000000) (by omega) (by omega)
  have esecond := Int8.toInt_ofInt_of_le (n := ticks / 10000000 % 60) (by omega) (by omega)
  have eminute := Int8.toInt_ofInt_of_le (n := ticks / 10000000 / 60 % 60) (by omega) (by omega)
  have ehour := Int8.toInt_ofInt_of_le (n := ticks / 10000000 / 60 / 60) (by omega) (by omega)
  have hvalid : isValid ⟨Int8.ofInt (ticks / 10000000 / 60 / 60), Int8.ofInt (ticks / 10000000 / 60 % 60),
      Int8.ofInt (ticks / 10000000 % 60), Int32.ofInt (ticks % 10000000)⟩ = true := by
    rw [isValid, is_valid_iff, etick, esecond, eminute, ehour]
    omega
  refine ⟨hvalid, ?_⟩
  rw [toTicks_eq hvalid, etick, esecond, eminute, ehour]
  omega

end time_hmst

/-! ## Datetimes -/

/-- `struct datetime_struct`. -/
@[ext] structure datetime_struct where
  ymd : date_ymd
  hmst : time_hmst
deriving DecidableEq, Repr

namespace datetime_struct

/-- The result of a signed operation of 64 bits. -/
def checked (z : ℤ) : Option ℤ := if -2 ^ 63 ≤ z ∧ z < 2 ^ 63 then some z else none

/-- `is_valid()`. -/
def isValid (x : datetime_struct) : Bool := x.ymd.isValid && x.hmst.isValid

/-- `to_ticks()`. -/
def to_ticks (x : datetime_struct) : Option ℤ :=
  if x.isValid then do
    let days ← checked (x.ymd.toDays.toInt * TICKS_PER_DAY)
    checked (days + x.hmst.toTicks)
  else some DATETIME_NA

def set_to_na (x : datetime_struct) : datetime_struct := { x with ymd := x.ymd.set_to_na }

/-- The days, and the ticks of the day. -/
def splitTicks (ticks : ℤ) : Option (ℤ × ℤ) :=
  if 0 ≤ ticks then some (ticks.tdiv TICKS_PER_DAY, ticks.tmod TICKS_PER_DAY)
  else do
    let days := (← checked (ticks - (TICKS_PER_DAY - 1))).tdiv TICKS_PER_DAY
    let ticks := ticks.tmod TICKS_PER_DAY
    return (days, if ticks < 0 then ticks + TICKS_PER_DAY else ticks)

/-- `set_from_ticks(int64_t ticks)`. -/
def set_from_ticks (x : datetime_struct) (ticks : Int64) : Option datetime_struct :=
  if ticks.toInt ≠ DATETIME_NA then do
    let (days, ticks) ← splitTicks ticks.toInt
    return ⟨date_ymd.set_from_days (Int32.ofInt days), x.hmst.set_from_ticks ticks⟩
  else some x.set_to_na

theorem checked_eq_some {z w : ℤ} : checked z = some w ↔ z = w ∧ -2 ^ 63 ≤ z ∧ z < 2 ^ 63 := by
  rw [checked]
  split_ifs with h
  · exact ⟨fun he => ⟨Option.some.inj he, h⟩, fun he => congrArg some he.1⟩
  · exact ⟨fun he => he.elim, fun he => absurd he.2 h⟩

/-- The ticks are split when the count is not within a day of the smallest one. -/
theorem splitTicks_eq (ticks : Int64) : splitTicks ticks.toInt =
    if -2 ^ 63 + 863999999999 ≤ ticks.toInt then some (ticks.toInt / 864000000000, ticks.toInt % 864000000000) else none := by
  have hday : TICKS_PER_DAY = 864000000000 := rfl
  have hlt := ticks.toInt_lt
  rw [splitTicks, hday]
  by_cases h : 0 ≤ ticks.toInt
  · rw [if_pos h, if_pos (by omega), Int.tdiv_eq_ediv_of_nonneg h, Int.tmod_eq_emod_of_nonneg h]
  · rw [if_neg h, tmod_of_nonpos (by omega)]
    by_cases hlow : -2 ^ 63 + 863999999999 ≤ ticks.toInt
    · rw [if_pos hlow, checked_eq_some.2 ⟨rfl, by omega, by omega⟩, Option.bind_eq_bind, Option.bind_some,
        tdiv_of_nonpos (by omega)]
      refine congrArg some (Prod.ext ?_ ?_)
      · dsimp only
        omega
      · dsimp only
        split_ifs <;> omega
    · rw [if_neg hlow, checked, if_neg (by omega)]
      rfl

/-- The exact number of ticks since 1970. -/
noncomputable def exactTicks (x : datetime_struct) : ℤ := x.ymd.number * 864000000000 + x.hmst.toTicks

theorem to_ticks_eq {x : datetime_struct} (h : x.isValid = true) : x.to_ticks =
    if -10675199 ≤ x.ymd.number ∧ x.exactTicks < 2 ^ 63 then some x.exactTicks else none := by
  obtain ⟨hymd, hhmst⟩ := Bool.and_eq_true_iff.1 h
  have hday : TICKS_PER_DAY = 864000000000 := rfl
  have hb := time_hmst.toTicks_bounds hhmst
  rw [to_ticks, if_pos h, hday, date_ymd.toDays_eq hymd, exactTicks]
  by_cases hfit : -10675199 ≤ x.ymd.number ∧ x.ymd.number * 864000000000 + x.hmst.toTicks < 2 ^ 63
  · rw [if_pos hfit, checked_eq_some.2 ⟨rfl, by omega, by omega⟩, Option.bind_eq_bind, Option.bind_some,
      checked_eq_some.2 ⟨rfl, by omega, by omega⟩]
  · rw [if_neg hfit]
    by_cases hprod : -2 ^ 63 ≤ x.ymd.number * 864000000000 ∧ x.ymd.number * 864000000000 < 2 ^ 63
    · rw [checked, if_pos hprod, Option.bind_eq_bind, Option.bind_some, checked, if_neg (by omega)]
    · rw [checked, if_neg hprod]
      rfl

/-- A count that is split becomes a valid datetime with that count. -/
theorem set_from_ticks_exact_iff (x : datetime_struct) {ticks : Int64} (h : ticks.toInt ≠ DATETIME_NA) :
    (∃ y, x.set_from_ticks ticks = some y ∧ y.isValid = true ∧ y.to_ticks = some ticks.toInt) ↔
      -2 ^ 63 + 863999999999 ≤ ticks.toInt := by
  have hhigh := ticks.toInt_lt
  rw [set_from_ticks, if_pos h, splitTicks_eq]
  constructor
  · rintro ⟨y, hy, -⟩
    by_contra hlow
    rw [if_neg hlow] at hy
    cases hy
  · intro hlow
    have hfit : (Int32.ofInt (ticks.toInt / 864000000000)).toInt = ticks.toInt / 864000000000 :=
      Int32.toInt_ofInt_of_le (by omega) (by omega)
    obtain ⟨hymd, hnumber⟩ := @date_ymd.set_from_days_spec (Int32.ofInt (ticks.toInt / 864000000000))
      (by omega) (by omega)
    obtain ⟨hhmst, hticks⟩ := @time_hmst.set_from_ticks_spec x.hmst (ticks.toInt % 864000000000) (by omega) (by omega)
    have hvalid : isValid ⟨date_ymd.set_from_days (Int32.ofInt (ticks.toInt / 864000000000)),
        x.hmst.set_from_ticks (ticks.toInt % 864000000000)⟩ = true := Bool.and_eq_true_iff.2 ⟨hymd, hhmst⟩
    have hexact : exactTicks ⟨date_ymd.set_from_days (Int32.ofInt (ticks.toInt / 864000000000)),
        x.hmst.set_from_ticks (ticks.toInt % 864000000000)⟩ = ticks.toInt := by
      rw [exactTicks, hnumber, hfit, hticks]
      omega
    rw [if_pos hlow]
    refine ⟨_, rfl, hvalid, ?_⟩
    rw [to_ticks_eq hvalid, hexact, if_pos ⟨by rw [hnumber, hfit]; omega, hhigh⟩]

/-- The count of a datetime is exact from April 20 of the year -27258 to
02:48:05.4775807 on September 14, 31197. -/
theorem to_ticks_exact_iff {x : datetime_struct} (h : x.isValid = true) :
    (x.to_ticks = some x.exactTicks ∧ x.exactTicks ≠ DATETIME_NA) ↔ -10675199 ≤ x.ymd.number ∧
      (x.ymd.number < 10675199 ∨ x.ymd.number = 10675199 ∧ x.hmst.toTicks ≤ 100854775807) := by
  have hb := time_hmst.toTicks_bounds (Bool.and_eq_true_iff.1 h).2
  have hna : DATETIME_NA = -2 ^ 63 := rfl
  have hexact : x.exactTicks = x.ymd.number * 864000000000 + x.hmst.toTicks := rfl
  rw [to_ticks_eq h]
  split_ifs with hfit
  · simp only [true_and]
    omega
  · simp only [false_and, false_iff]
    omega

/-- `set_from_ticks` and `to_ticks` are inverse to each other, exactly where no
operation overflows. -/
theorem ticks_exact_iff (x : datetime_struct) :
    (∀ ticks : Int64, ticks.toInt ≠ DATETIME_NA →
      ((∃ y, x.set_from_ticks ticks = some y ∧ y.isValid = true ∧ y.to_ticks = some ticks.toInt) ↔
        -2 ^ 63 + 863999999999 ≤ ticks.toInt)) ∧
    (x.isValid = true →
      ((x.to_ticks = some x.exactTicks ∧ x.exactTicks ≠ DATETIME_NA) ↔ -10675199 ≤ x.ymd.number ∧
        (x.ymd.number < 10675199 ∨ x.ymd.number = 10675199 ∧ x.hmst.toTicks ≤ 100854775807))) :=
  ⟨fun _ h => set_from_ticks_exact_iff x h, fun h => to_ticks_exact_iff h⟩

/-- The day after January 1, 1970 is counted. -/
theorem ticks_exact_next_day : ∃ y, set_from_ticks ⟨⟨1970, 1, 1⟩, ⟨0, 0, 0, 0⟩⟩ 864000000000 = some y ∧
    y.isValid = true ∧ y.to_ticks = some 864000000000 :=
  ((ticks_exact_iff ⟨⟨1970, 1, 1⟩, ⟨0, 0, 0, 0⟩⟩).1 864000000000 (by decide)).2 (by decide)

/-- The smallest count next to the missing value overflows. -/
theorem first_tick_overflows :
    ¬ ((∀ (x : datetime_struct) (ticks : Int64), ticks.toInt ≠ DATETIME_NA →
        ∃ y, x.set_from_ticks ticks = some y ∧ y.isValid = true ∧ y.to_ticks = some ticks.toInt) ∧
      ∀ x : datetime_struct, x.isValid = true → x.to_ticks = some x.exactTicks ∧ x.exactTicks ≠ DATETIME_NA) := by
  rintro ⟨h, -⟩
  obtain ⟨y, hy, -⟩ := h ⟨⟨1970, 1, 1⟩, ⟨0, 0, 0, 0⟩⟩ (-9223372036854775807) (by decide)
  have hnone : set_from_ticks ⟨⟨1970, 1, 1⟩, ⟨0, 0, 0, 0⟩⟩ (-9223372036854775807) = none := by decide
  rw [hnone] at hy
  cases hy

end datetime_struct

end Dynd
