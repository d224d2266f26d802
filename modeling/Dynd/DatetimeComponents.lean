import Dynd.ParseScalar
import Dynd.TimeOfDay
/-!
# Dates and datetimes from their components

`set_ymd`, the date type's `__construct__` and `set_cal` make a value of
components of 32 bits each. They check the components, put them in narrower
fields or count days and ticks of them, each in an order of its own.

`components_iff` says when the components that are accepted are those that
`get_ymd` and `get_cal` return.
-/
namespace Dynd.DatetimeComponents
open Lib Gregorian date_ymd Parse

/-! ## The source -/

inductive Error where
  /-- Undefined behaviour. -/
  | signed_overflow
  | runtime_error (message : String)
deriving DecidableEq

def set_ymd (errmode : assign_error_mode) (year month day : Int32) : Except Error Int32 :=
  if errmode ≠ .nocheck ∧ is_valid year.toInt month.toInt day.toInt = false then
    .error (.runtime_error s!"invalid input year/month/day {year}/{month}/{day}")
  else .ok (to_days year.toInt month.toInt day.toInt)

def get_ymd (data : Int32) : date_ymd := set_from_days data

/-- A stream takes an `int8_t` for a character. -/
def asChar (x : Int8) : Char := Char.ofNat x.toUInt8.toNat

/-- What `__construct__` applies to each element. -/
def date_from_ymd (year month day : Int32) : Except Error Int32 :=
  let ymd : date_ymd := ⟨year.toInt16, month.toInt8, day.toInt8⟩
  if ymd.isValid = false then
    .error (.runtime_error s!"invalid year/month/day {ymd.year}/{asChar ymd.month}/{asChar ymd.day}")
  else .ok ymd.toDays

inductive datetime_tz_t where
  | tz_abstract
  | tz_utc
deriving DecidableEq

def datetime_tz_t.print_type : datetime_tz_t → String
  | .tz_abstract => "datetime"
  | .tz_utc => "datetime[tz=\x27UTC\x27]"

/-- The arguments of `set_cal`, and what `get_cal` returns. -/
structure cal where
  year : Int32
  month : Int32
  day : Int32
  hour : Int32
  minute : Int32
  second : Int32
  tick : Int32
deriving DecidableEq

def check_cal (tz : datetime_tz_t) (c : cal) : Except Error Unit :=
  if is_valid c.year.toInt c.month.toInt c.day.toInt = false then
    .error (.runtime_error s!"invalid input year/month/day {c.year}/{c.month}/{c.day}")
  else if c.hour.toInt < 0 ∨ 24 ≤ c.hour.toInt then
    .error (.runtime_error s!"invalid input hour {c.hour} for {tz.print_type}")
  else if c.minute.toInt < 0 ∨ 60 ≤ c.minute.toInt then
    .error (.runtime_error s!"invalid input minute {c.minute} for {tz.print_type}")
  else if c.second.toInt < 0 ∨ 60 ≤ c.second.toInt then
    .error (.runtime_error s!"invalid input second {c.second} for {tz.print_type}")
  else if c.tick.toInt < 0 ∨ 1000000000 ≤ c.tick.toInt then
    .error (.runtime_error s!"invalid input tick (100*nanosecond) {c.tick} for {tz.print_type}")
  else .ok ()

def cal.dts (c : cal) : datetime_struct :=
  ⟨⟨c.year.toInt16, c.month.toInt8, c.day.toInt8⟩, ⟨c.hour.toInt8, c.minute.toInt8, c.second.toInt8, c.tick⟩⟩

def set_cal (tz : datetime_tz_t) (errmode : assign_error_mode) (c : cal) : Except Error Int64 := do
  let _ ← if errmode ≠ .nocheck then check_cal tz c else .ok ()
  match c.dts.to_ticks with
  | some ticks => .ok (Int64.ofInt ticks)
  | none => .error .signed_overflow

/-- `dts` starts with what was in its place. -/
def get_cal (dts : datetime_struct) (data : Int64) : Option cal :=
  (dts.set_from_ticks data).map fun dts =>
    ⟨dts.ymd.year.toInt32, dts.ymd.month.toInt32, dts.ymd.day.toInt32, dts.hmst.hour.toInt32, dts.hmst.minute.toInt32,
      dts.hmst.second.toInt32, dts.hmst.tick⟩

/-! ## The purpose -/

/-- It throws, or the stored date has these components. -/
def StoresYmd (stored : Except Error Int32) (year month day : Int32) : Prop :=
  match stored with
  | .ok data => (get_ymd data).year.toInt = year.toInt ∧ (get_ymd data).month.toInt = month.toInt ∧
      (get_ymd data).day.toInt = day.toInt
  | .error err => err ≠ .signed_overflow

/-- It throws, or the stored datetime has these components. -/
def StoresCal (stored : Except Error Int64) (c : cal) : Prop :=
  match stored with
  | .ok data => ∀ dts, get_cal dts data = some c
  | .error err => err ≠ .signed_overflow

/-! ## The condition -/

/-- The components are taken. -/
def cal.Accepted (c : cal) : Prop :=
  is_valid c.year.toInt c.month.toInt c.day.toInt = true ∧ (0 ≤ c.hour.toInt ∧ c.hour.toInt < 24) ∧
    (0 ≤ c.minute.toInt ∧ c.minute.toInt < 60) ∧ (0 ≤ c.second.toInt ∧ c.second.toInt < 60) ∧
    0 ≤ c.tick.toInt ∧ c.tick.toInt < 1000000000

/-- The exact number of ticks since 1970. -/
noncomputable def cal.ticks (c : cal) : ℤ :=
  dayNumber 1970 c.year.toInt c.month.toInt c.day.toInt * 864000000000 +
    (c.tick.toInt + 10000000 * (c.second.toInt + 60 * (c.minute.toInt + 60 * c.hour.toInt)))

/-- The tick is in its second, and the count can be made and split again. -/
def cal.Fits (c : cal) : Prop := c.tick.toInt < 10000000 ∧ -2 ^ 63 + 863999999999 ≤ c.ticks ∧ c.ticks < 2 ^ 63

/-! ## Dates -/

theorem toInt_toInt16 {x : Int32} (h : YearRange x.toInt) : x.toInt16.toInt = x.toInt := Int16.toInt_ofInt_of_le h.1 h.2

theorem toInt_toInt8 {x : Int32} (h : -2 ^ 7 ≤ x.toInt ∧ x.toInt < 2 ^ 7) : x.toInt8.toInt = x.toInt :=
  Int8.toInt_ofInt_of_le h.1 h.2

/-- The date of a year that fits comes back from its days. -/
theorem get_ymd_to_days {year month day : ℤ} (h : Valid year month day) (hy : YearRange year) :
    (get_ymd (to_days year month day)).year.toInt = year ∧ (get_ymd (to_days year month day)).month.toInt = month ∧
      (get_ymd (to_days year month day)).day.toInt = day := by
  have hb := (yearRange_iff h).1 hy
  have hdays := to_days_eq h (by omega)
  obtain ⟨hvalid, hnumber⟩ := @set_from_days_spec (to_days year month day) (by omega) (by omega)
  exact dayNumber_inj 1970 ((isValid_iff _).1 hvalid) h (hnumber.trans hdays)

theorem set_ymd_iff {errmode : assign_error_mode} (h : errmode ≠ .nocheck) (year month day : Int32) :
    StoresYmd (set_ymd errmode year month day) year month day ↔
      (is_valid year.toInt month.toInt day.toInt = true → YearRange year.toInt) := by
  unfold set_ymd StoresYmd
  by_cases hvalid : is_valid year.toInt month.toInt day.toInt = true
  · rw [if_neg fun hbad => Bool.eq_false_iff.1 hbad.2 hvalid]
    dsimp only
    constructor
    · rintro ⟨hyear, -⟩ _
      have hrange := (get_ymd (to_days year.toInt month.toInt day.toInt)).yearRange
      rwa [hyear] at hrange
    · intro hrange
      exact get_ymd_to_days ((is_valid_iff _ _ _).1 hvalid) (hrange hvalid)
  · rw [if_pos ⟨h, Bool.eq_false_iff.2 hvalid⟩]
    exact iff_of_true (by simp) fun hv => absurd hv hvalid

/-- The components are checked after they are cut to the width of the fields. -/
theorem date_from_ymd_iff (year month day : Int32) : StoresYmd (date_from_ymd year month day) year month day ↔
    (is_valid year.toInt16.toInt month.toInt8.toInt day.toInt8.toInt = true →
      year.toInt16.toInt = year.toInt ∧ month.toInt8.toInt = month.toInt ∧ day.toInt8.toInt = day.toInt) := by
  unfold date_from_ymd StoresYmd
  dsimp only
  by_cases hvalid : isValid ⟨year.toInt16, month.toInt8, day.toInt8⟩ = true
  · rw [if_neg fun hbad => Bool.eq_false_iff.1 hbad hvalid]
    dsimp only
    rw [get_ymd, set_from_days_toDays hvalid]
    exact ⟨fun h _ => h, fun h => h hvalid⟩
  · rw [if_pos (Bool.eq_false_iff.2 hvalid)]
    exact iff_of_true (by simp) fun hv => absurd hv hvalid

/-! ## Datetimes -/

theorem check_cal_ok {c : cal} (h : c.Accepted) (tz : datetime_tz_t) : check_cal tz c = .ok () := by
  obtain ⟨hymd, hhour, hminute, hsecond, htick⟩ := h
  rw [check_cal, if_neg fun hbad => Bool.eq_false_iff.1 hbad hymd, if_neg (by omega), if_neg (by omega), if_neg (by omega),
    if_neg (by omega)]

theorem check_cal_error {c : cal} (h : ¬ c.Accepted) (tz : datetime_tz_t) :
    ∃ message, check_cal tz c = .error (.runtime_error message) := by
  unfold check_cal
  split_ifs with hymd hhour hminute hsecond htick
  · exact ⟨_, rfl⟩
  · exact ⟨_, rfl⟩
  · exact ⟨_, rfl⟩
  · exact ⟨_, rfl⟩
  · exact ⟨_, rfl⟩
  · exact absurd ⟨eq_true_of_ne_false hymd, by omega, by omega, by omega, by omega⟩ h

/-- The fields are wide enough for all components that are accepted but the year. -/
theorem dts_toInt {c : cal} (h : c.Accepted) :
    (c.dts.ymd.month.toInt = c.month.toInt ∧ c.dts.ymd.day.toInt = c.day.toInt) ∧ c.dts.hmst.hour.toInt = c.hour.toInt ∧
      c.dts.hmst.minute.toInt = c.minute.toInt ∧ c.dts.hmst.second.toInt = c.second.toInt := by
  obtain ⟨hymd, hhour, hminute, hsecond, -⟩ := h
  have hvalid := (is_valid_iff _ _ _).1 hymd
  have hm := hvalid.month
  have hd := hvalid.day
  have hlong := monthLength_le c.year.toInt c.month.toInt
  exact ⟨⟨toInt_toInt8 (by omega), toInt_toInt8 (by omega)⟩, toInt_toInt8 (by omega), toInt_toInt8 (by omega),
    toInt_toInt8 (by omega)⟩

theorem dts_hmst_valid {c : cal} (h : c.Accepted) : c.dts.hmst.isValid = true ↔ c.tick.toInt < 10000000 := by
  obtain ⟨-, hhour', hminute', hsecond'⟩ := dts_toInt h
  obtain ⟨-, hhour, hminute, hsecond, htick⟩ := h
  rw [time_hmst.isValid, time_hmst.is_valid_iff, hhour', hminute', hsecond']
  change _ ∧ _ ∧ _ ∧ 0 ≤ c.tick.toInt ∧ c.tick.toInt < 10000000 ↔ _
  omega

/-- A datetime whose year fits is the one that is counted. -/
theorem dts_exact {c : cal} (h : c.Accepted) (hy : YearRange c.year.toInt) (ht : c.tick.toInt < 10000000) :
    c.dts.isValid = true ∧ c.dts.exactTicks = c.ticks := by
  have hyear : c.dts.ymd.year.toInt = c.year.toInt := toInt_toInt16 hy
  have hhmst := (dts_hmst_valid h).2 ht
  obtain ⟨⟨hmonth, hday⟩, hhour, hminute, hsecond⟩ := dts_toInt h
  have htick : c.dts.hmst.tick.toInt = c.tick.toInt := rfl
  refine ⟨Bool.and_eq_true_iff.2 ⟨?_, hhmst⟩, ?_⟩
  · rw [isValid, hyear, hmonth, hday]
    exact h.1
  · rw [datetime_struct.exactTicks, date_ymd.number, time_hmst.toTicks_eq hhmst, hyear, hmonth, hday, hhour, hminute, hsecond,
      htick, cal.ticks]

theorem set_cal_accepted {c : cal} (h : c.Accepted) (tz : datetime_tz_t) (errmode : assign_error_mode) :
    set_cal tz errmode c = match c.dts.to_ticks with
      | some ticks => .ok (Int64.ofInt ticks)
      | none => .error .signed_overflow := by
  unfold set_cal
  rw [check_cal_ok h, ite_self]
  rfl

/-- What is returned has a year of 16 bits. -/
theorem get_cal_year {dts : datetime_struct} {data : Int64} {c : cal} (h : get_cal dts data = some c) : YearRange c.year.toInt := by
  obtain ⟨y, -, rfl⟩ := Option.map_eq_some_iff.1 h
  rw [Int16.toInt_toInt32]
  exact ⟨y.ymd.year.le_toInt, y.ymd.year.toInt_lt⟩

/-- A datetime comes back from its ticks when no second of it is a leap second. -/
theorem set_from_ticks_back {x : datetime_struct} (hx : x.isValid = true) (hleap : x.hmst.second.toInt ≠ 60)
    (h : -2 ^ 63 + 863999999999 ≤ x.exactTicks ∧ x.exactTicks < 2 ^ 63) (dts : datetime_struct) :
    dts.set_from_ticks (Int64.ofInt x.exactTicks) = some x := by
  obtain ⟨hymd, hhmst⟩ := Bool.and_eq_true_iff.1 hx
  obtain ⟨hin, -, hback⟩ := (roundTrips_iff hhmst).2 hleap
  have hday : TICKS_PER_DAY = 864000000000 := rfl
  have hna : DATETIME_NA = -2 ^ 63 := rfl
  have hdata : (Int64.ofInt x.exactTicks).toInt = x.exactTicks := Int64.toInt_ofInt_of_le (by omega) (by omega)
  have hexact : x.exactTicks = x.ymd.number * 864000000000 + x.hmst.toTicks := rfl
  have hnumber : x.exactTicks / 864000000000 = x.ymd.number := by omega
  have hticks : x.exactTicks % 864000000000 = x.hmst.toTicks := by omega
  have hdays : Int32.ofInt x.ymd.number = x.ymd.toDays := by rw [← toDays_eq hymd, Int32.ofInt_toInt]
  rw [datetime_struct.set_from_ticks, hdata, if_pos (by omega), ← hdata, datetime_struct.splitTicks_eq, hdata, if_pos h.1,
    hnumber, hticks, Option.bind_eq_bind, Option.bind_some]
  dsimp only
  rw [hdays, set_from_days_toDays hymd, hback]
  rfl

theorem get_cal_dts {c : cal} (h : c.Accepted) (hfit : c.Fits) (hy : YearRange c.year.toInt) (dts : datetime_struct) :
    get_cal dts (Int64.ofInt c.ticks) = some c := by
  obtain ⟨hvalid, hexact⟩ := dts_exact h hy hfit.1
  obtain ⟨⟨hmonth, hday⟩, hhour, hminute, hsecond⟩ := dts_toInt h
  have hleap : c.dts.hmst.second.toInt ≠ 60 := by
    rw [hsecond]
    exact h.2.2.2.1.2.ne
  have hback := set_from_ticks_back hvalid hleap (by rw [hexact]; exact hfit.2) dts
  rw [hexact] at hback
  have hyear : c.dts.ymd.year.toInt = c.year.toInt := toInt_toInt16 hy
  unfold get_cal
  rw [hback, Option.map_some, Option.some.injEq]
  cases c
  simp only [cal.mk.injEq, ← Int32.toInt_inj, Int16.toInt_toInt32, Int8.toInt_toInt32]
  exact ⟨hyear, hmonth, hday, hhour, hminute, hsecond, rfl⟩

/-- A count that fits has a year that fits. -/
theorem yearRange_of_fits {c : cal} (h : c.Accepted) (hfit : c.Fits) : YearRange c.year.toInt := by
  obtain ⟨-, hlow, hhigh⟩ := hfit
  rw [yearRange_iff ((is_valid_iff _ _ _).1 h.1)]
  obtain ⟨-, hhour, hminute, hsecond, htick⟩ := h
  rw [cal.ticks] at hlow hhigh
  omega

/-- NA has no month. -/
theorem get_cal_na (dts : datetime_struct) {c : cal} (h : c.Accepted) :
    get_cal dts (Int64.ofInt DATETIME_NA) ≠ some c := by
  intro hget
  have hna : dts.set_from_ticks (Int64.ofInt DATETIME_NA) = some dts.set_to_na := if_neg (not_not.2 (by decide))
  unfold get_cal at hget
  rw [hna] at hget
  obtain rfl := Option.some.inj hget
  have hmonth : 1 ≤ (-128 : Int8).toInt32.toInt := ((is_valid_iff _ _ _).1 h.1).month.1
  exact absurd hmonth (by decide)

/-- A count within a day of the smallest one is not split. -/
theorem get_cal_low {dts : datetime_struct} {ticks : ℤ} {c : cal} (hlow : -2 ^ 63 < ticks) (hhigh : ticks < 2 ^ 63)
    (h : get_cal dts (Int64.ofInt ticks) = some c) : -2 ^ 63 + 863999999999 ≤ ticks := by
  have hdata : (Int64.ofInt ticks).toInt = ticks := Int64.toInt_ofInt_of_le hlow.le hhigh
  have hna : DATETIME_NA = -2 ^ 63 := rfl
  obtain ⟨y, hy, -⟩ := Option.map_eq_some_iff.1 h
  by_contra hout
  rw [datetime_struct.set_from_ticks, if_pos (by omega), datetime_struct.splitTicks_eq, hdata, if_neg hout] at hy
  cases hy

theorem set_cal_iff {errmode : assign_error_mode} (h : errmode ≠ .nocheck) (tz : datetime_tz_t) (c : cal) :
    StoresCal (set_cal tz errmode c) c ↔ (c.Accepted → c.Fits) := by
  unfold StoresCal
  by_cases hacc : c.Accepted
  swap
  · obtain ⟨message, hmessage⟩ := check_cal_error hacc tz
    unfold set_cal
    rw [if_pos h, hmessage, error_bind]
    exact iff_of_true (by simp) fun h => absurd h hacc
  rw [set_cal_accepted hacc, imp_iff_right hacc]
  constructor
  · intro hstores
    cases hticks : c.dts.to_ticks with
    | none =>
      rw [hticks] at hstores
      exact absurd rfl hstores
    | some ticks =>
      rw [hticks] at hstores
      have hy := get_cal_year (hstores c.dts)
      by_cases ht : c.tick.toInt < 10000000
      · obtain ⟨hvalid, hexact⟩ := dts_exact hacc hy ht
        rw [datetime_struct.to_ticks_eq hvalid, hexact] at hticks
        split_ifs at hticks with hfits
        obtain rfl := Option.some.inj hticks
        have hbelow : -2 ^ 63 < c.ticks := by
          have hb := time_hmst.toTicks_bounds ((dts_hmst_valid hacc).2 ht)
          rw [datetime_struct.exactTicks] at hexact
          omega
        exact ⟨ht, get_cal_low hbelow hfits.2 (hstores c.dts), hfits.2⟩
      · have hinvalid : c.dts.isValid = false := by
          rw [datetime_struct.isValid, Bool.eq_false_iff.2 (mt (dts_hmst_valid hacc).1 ht), Bool.and_false]
        rw [datetime_struct.to_ticks, if_neg (by rw [hinvalid]; decide)] at hticks
        obtain rfl := Option.some.inj hticks
        exact absurd (hstores c.dts) (get_cal_na c.dts hacc)
  · intro hfit
    have hy := yearRange_of_fits hacc hfit
    obtain ⟨hvalid, hexact⟩ := dts_exact hacc hy hfit.1
    obtain ⟨-, hlow, hhigh⟩ := id hfit
    have hnumber : -10675199 ≤ c.dts.ymd.number := by
      have hb := time_hmst.toTicks_bounds ((dts_hmst_valid hacc).2 hfit.1)
      rw [datetime_struct.exactTicks] at hexact
      omega
    rw [datetime_struct.to_ticks_eq hvalid, hexact, if_pos ⟨hnumber, hhigh⟩]
    exact fun dts => get_cal_dts hacc hfit hy dts

/-- In a checking mode, the three functions throw or store the components they
are given exactly under these conditions. -/
theorem components_iff {errmode : assign_error_mode} (h : errmode ≠ .nocheck) :
    (∀ year month day, StoresYmd (set_ymd errmode year month day) year month day ↔
      (is_valid year.toInt month.toInt day.toInt = true → YearRange year.toInt)) ∧
    (∀ year month day, StoresYmd (date_from_ymd year month day) year month day ↔
      (is_valid year.toInt16.toInt month.toInt8.toInt day.toInt8.toInt = true →
        year.toInt16.toInt = year.toInt ∧ month.toInt8.toInt = month.toInt ∧ day.toInt8.toInt = day.toInt)) ∧
    ∀ tz c, StoresCal (set_cal tz errmode c) c ↔ (c.Accepted → c.Fits) :=
  ⟨set_ymd_iff h, date_from_ymd_iff, set_cal_iff h⟩

theorem components_leap_day : StoresYmd (set_ymd .fractional 2000 2 29) 2000 2 29 :=
  ((@components_iff .fractional (by decide)).1 2000 2 29).2 fun _ => ⟨by decide, by decide⟩

/-- A year that is cut off, a day that is cut off before it is checked, and a
tick that the check takes and the datetime does not. -/
theorem cut_off_components :
    ¬ StoresYmd (set_ymd .fractional 40000 1 1) 40000 1 1 ∧ ¬ StoresYmd (date_from_ymd 2000 1 257) 2000 1 257 ∧
      ¬ StoresCal (set_cal .tz_abstract .fractional ⟨2000, 1, 1, 0, 0, 0, 10000000⟩) ⟨2000, 1, 1, 0, 0, 0, 10000000⟩ := by
  refine ⟨?_, ?_, ?_⟩
  · rw [set_ymd_iff (by decide)]
    intro h
    exact absurd (h (by decide)).2 (by decide)
  · rw [date_from_ymd_iff]
    intro h
    exact absurd (h (by decide)).2.2 (by decide)
  · rw [set_cal_iff (by decide)]
    intro h
    exact absurd (h ⟨by decide, by decide, by decide, by decide, by decide⟩).1 (by decide)

end Dynd.DatetimeComponents
