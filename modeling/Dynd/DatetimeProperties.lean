import Dynd.DatetimeComponents
/-!
# The properties of a datetime

Each property kernel takes its part out of the ticks with a division and a
remainder of its own, which C++ rounds toward zero. `properties_iff` says for
which counts of ticks they are the parts of one datetime, and NA for NA.
-/
namespace Dynd.DatetimeProperties
open Lib date_ymd datetime_struct DatetimeComponents

/-! ## The source -/

def TICKS_PER_MICROSECOND : ℤ := 10

section
variable {α : Type} (tz : datetime_tz_t)

/-- A kernel for the time zones that are implemented. -/
def implemented (what : String) (value : Except Error α) : Except Error α :=
  if tz = .tz_utc ∨ tz = .tz_abstract then value
  else .error (.runtime_error s!"datetime {what} only implemented for UTC and abstract timezones")

/-- A signed operation of 64 bits. -/
def operation (z : ℤ) : Except Error ℤ :=
  match checked z with
  | some z => .ok z
  | none => .error .signed_overflow

/-- `date_ymd::set_from_ticks`. -/
def set_ymd_from_ticks (ticks : Int64) : Except Error date_ymd :=
  if 0 ≤ ticks.toInt then .ok (set_from_days (Int32.ofInt (ticks.toInt.tdiv TICKS_PER_DAY)))
  else do
    let ticks ← operation (ticks.toInt - (TICKS_PER_DAY - 1))
    return set_from_days (Int32.ofInt (ticks.tdiv TICKS_PER_DAY))

/-- The remainder, made positive. -/
def remainder (ticks : Int64) (unit : ℤ) : ℤ :=
  let rest := ticks.toInt.tmod unit
  if rest < 0 then rest + unit else rest

def datetime_get_date (src : Int64) : Except Error Int32 :=
  implemented tz "date property" do
    let days ← if src.toInt < 0 then operation (src.toInt - (TICKS_PER_DAY - 1)) else .ok src.toInt
    return Int32.ofInt (days.tdiv TICKS_PER_DAY)

def datetime_get_time (src : Int64) : Except Error Int64 :=
  implemented tz "time property" (.ok (Int64.ofInt (remainder src TICKS_PER_DAY)))

/-- The kernels of `year`, `month` and `day`. -/
def datetime_get_ymd (field : date_ymd → Int32) (src : Int64) : Except Error Int32 :=
  implemented tz "property access" do
    let ymd ← set_ymd_from_ticks src
    return field ymd

def datetime_get_year : Int64 → Except Error Int32 := datetime_get_ymd tz fun ymd => ymd.year.toInt32
def datetime_get_month : Int64 → Except Error Int32 := datetime_get_ymd tz fun ymd => ymd.month.toInt32
def datetime_get_day : Int64 → Except Error Int32 := datetime_get_ymd tz fun ymd => ymd.day.toInt32

/-- The kernels of the parts of the time: units in the next greater unit. -/
def datetime_get_part (greater unit : ℤ) (src : Int64) : Except Error Int32 :=
  implemented tz "property access" (.ok (Int32.ofInt ((remainder src greater).tdiv unit)))

def datetime_get_hour : Int64 → Except Error Int32 := datetime_get_part tz TICKS_PER_DAY TICKS_PER_HOUR
def datetime_get_minute : Int64 → Except Error Int32 := datetime_get_part tz TICKS_PER_HOUR TICKS_PER_MINUTE
def datetime_get_second : Int64 → Except Error Int32 := datetime_get_part tz TICKS_PER_MINUTE TICKS_PER_SECOND
def datetime_get_microsecond : Int64 → Except Error Int32 := datetime_get_part tz TICKS_PER_SECOND TICKS_PER_MICROSECOND

def datetime_get_tick (src : Int64) : Except Error Int32 :=
  implemented tz "property access" (.ok (Int32.ofInt (remainder src 10000000)))

end

/-! ## The purpose -/

/-- The properties are the parts of a datetime, and its date and time make up the ticks. -/
structure PartsOf (tz : datetime_tz_t) (ticks : Int64) (x : datetime_struct) : Prop where
  date : datetime_get_date tz ticks = .ok x.ymd.toDays
  time : datetime_get_time tz ticks = .ok (Int64.ofInt x.hmst.toTicks)
  year : datetime_get_year tz ticks = .ok x.ymd.year.toInt32
  month : datetime_get_month tz ticks = .ok x.ymd.month.toInt32
  day : datetime_get_day tz ticks = .ok x.ymd.day.toInt32
  hour : datetime_get_hour tz ticks = .ok x.hmst.hour.toInt32
  minute : datetime_get_minute tz ticks = .ok x.hmst.minute.toInt32
  second : datetime_get_second tz ticks = .ok x.hmst.second.toInt32
  microsecond : datetime_get_microsecond tz ticks = .ok (Int32.ofInt (x.hmst.tick.toInt / 10))
  tick : datetime_get_tick tz ticks = .ok x.hmst.tick
  sum : x.ymd.toDays.toInt * TICKS_PER_DAY + (Int64.ofInt x.hmst.toTicks).toInt = ticks.toInt

/-- The properties of a count of ticks are those of the datetime it is set to,
and the date and the time of NA are NA. -/
def Properties (tz : datetime_tz_t) (ticks : Int64) : Prop :=
  if ticks.toInt ≠ DATETIME_NA then ∀ dts : datetime_struct, ∃ x, dts.set_from_ticks ticks = some x ∧ PartsOf tz ticks x
  else datetime_get_date tz ticks = .ok DATE_NA ∧ datetime_get_time tz ticks = .ok (Int64.ofInt DATETIME_NA)

/-! ## Divisions and remainders -/

theorem implemented_eq {α : Type} (tz : datetime_tz_t) (what : String) (value : Except Error α) :
    implemented tz what value = value := by
  cases tz
  · exact if_pos (.inr rfl)
  · exact if_pos (.inl rfl)

theorem remainder_eq (ticks : Int64) {unit : ℤ} (h : 0 < unit) : remainder ticks unit = ticks.toInt % unit := by
  have hlow := Int.lt_tmod_of_pos ticks.toInt h
  have hhigh := Int.tmod_lt_of_pos ticks.toInt h
  have hrest : ticks.toInt.tmod unit % unit = ticks.toInt % unit := by
    conv_rhs => rw [← Int.mul_tdiv_add_tmod ticks.toInt unit, Int.mul_add_emod_self_left]
  unfold remainder
  dsimp only
  rw [← hrest]
  split_ifs with hneg
  · rw [← Int.add_emod_right, Int.emod_eq_of_lt (by omega) (by omega)]
  · rw [Int.emod_eq_of_lt (by omega) hhigh]

theorem operation_eq {z : ℤ} (h : -2 ^ 63 ≤ z ∧ z < 2 ^ 63) : operation z = .ok z := by
  rw [operation, checked_eq_some.2 ⟨rfl, h⟩]

/-- Rounding toward zero from the first tick of the day is rounding down. -/
theorem tdiv_down {ticks : ℤ} (h : ticks < 0) : (ticks - (TICKS_PER_DAY - 1)).tdiv TICKS_PER_DAY = ticks / 864000000000 := by
  have hday : TICKS_PER_DAY = 864000000000 := rfl
  rw [hday, tdiv_of_nonpos (by omega)]
  omega

theorem tdiv_up {ticks : ℤ} (h : 0 ≤ ticks) : ticks.tdiv TICKS_PER_DAY = ticks / 864000000000 := Int.tdiv_eq_ediv_of_nonneg h

/-! ## The kernels -/

section
variable {ticks : Int64} (tz : datetime_tz_t)

theorem set_ymd_from_ticks_eq (h : -2 ^ 63 + 863999999999 ≤ ticks.toInt) :
    set_ymd_from_ticks ticks = .ok (set_from_days (Int32.ofInt (ticks.toInt / 864000000000))) := by
  have hday : TICKS_PER_DAY = 864000000000 := rfl
  unfold set_ymd_from_ticks
  split_ifs with h0
  · rw [tdiv_up h0]
  · rw [operation_eq (by omega), ok_bind, tdiv_down (by omega)]
    rfl

theorem datetime_get_date_eq (h : -2 ^ 63 + 863999999999 ≤ ticks.toInt) :
    datetime_get_date tz ticks = .ok (Int32.ofInt (ticks.toInt / 864000000000)) := by
  have hday : TICKS_PER_DAY = 864000000000 := rfl
  unfold datetime_get_date
  rw [implemented_eq]
  by_cases h0 : ticks.toInt < 0
  · rw [if_pos h0, operation_eq (by omega), ok_bind]
    beta_reduce
    rw [pure_eq_ok, tdiv_down h0]
  · rw [if_neg h0, ok_bind]
    beta_reduce
    rw [pure_eq_ok, tdiv_up (not_lt.1 h0)]

theorem datetime_get_time_eq : datetime_get_time tz ticks = .ok (Int64.ofInt (ticks.toInt % 864000000000)) := by
  unfold datetime_get_time
  rw [implemented_eq, remainder_eq ticks (by decide)]
  rfl

theorem datetime_get_part_eq {greater unit : ℤ} (h : 0 < greater) :
    datetime_get_part tz greater unit ticks = .ok (Int32.ofInt (ticks.toInt % greater / unit)) := by
  unfold datetime_get_part
  rw [implemented_eq, remainder_eq ticks h, Int.tdiv_eq_ediv_of_nonneg (Int.emod_nonneg _ h.ne')]

theorem datetime_get_tick_eq : datetime_get_tick tz ticks = .ok (Int32.ofInt (ticks.toInt % 10000000)) := by
  unfold datetime_get_tick
  rw [implemented_eq, remainder_eq ticks (by decide)]

/-- The datetime that ticks are set to: the date of the day and the time of the rest. -/
theorem set_from_ticks_split (h : -2 ^ 63 + 863999999999 ≤ ticks.toInt) (dts : datetime_struct) :
    dts.set_from_ticks ticks = some ⟨set_from_days (Int32.ofInt (ticks.toInt / 864000000000)),
      dts.hmst.set_from_ticks (ticks.toInt % 864000000000)⟩ := by
  have hna : DATETIME_NA = -2 ^ 63 := rfl
  rw [datetime_struct.set_from_ticks, if_pos (by omega), splitTicks_eq, if_pos h]
  rfl

/-- A part of the time and a field of the time are one number. -/
theorem part_eq {n : ℤ} {x : Int8} (h : x.toInt = n) : Int32.ofInt n = x.toInt32 := by
  rw [← h, Int32.ofInt_int8ToInt]

theorem parts_of (h : -2 ^ 63 + 863999999999 ≤ ticks.toInt) (dts : datetime_struct) :
    PartsOf tz ticks ⟨set_from_days (Int32.ofInt (ticks.toInt / 864000000000)),
      dts.hmst.set_from_ticks (ticks.toInt % 864000000000)⟩ := by
  have hhigh := ticks.toInt_lt
  have hlow : 0 ≤ ticks.toInt % 864000000000 := by omega
  have hlt : ticks.toInt % 864000000000 < 864000000000 := by omega
  obtain ⟨hhour, hminute, hsecond, htick⟩ := set_from_ticks_parts dts.hmst hlow hlt
  obtain ⟨-, hticks⟩ := time_hmst.set_from_ticks_spec dts.hmst hlow hlt
  have hfit : (Int32.ofInt (ticks.toInt / 864000000000)).toInt = ticks.toInt / 864000000000 :=
    Int32.toInt_ofInt_of_le (by omega) (by omega)
  have hdays : (set_from_days (Int32.ofInt (ticks.toInt / 864000000000))).toDays = Int32.ofInt (ticks.toInt / 864000000000) := by
    obtain ⟨hvalid, hnumber⟩ := @set_from_days_spec (Int32.ofInt (ticks.toInt / 864000000000)) (by omega) (by omega)
    exact Int32.toInt_inj.1 ((toDays_eq hvalid).trans hnumber)
  have hymd : ∀ field, datetime_get_ymd tz field ticks = .ok (field (set_from_days (Int32.ofInt (ticks.toInt / 864000000000)))) := by
    intro field
    unfold datetime_get_ymd
    rw [implemented_eq, set_ymd_from_ticks_eq h]
    rfl
  exact {
    date := by rw [hdays, datetime_get_date_eq tz h]
    time := by rw [hticks, datetime_get_time_eq]
    year := hymd fun ymd => ymd.year.toInt32
    month := hymd fun ymd => ymd.month.toInt32
    day := hymd fun ymd => ymd.day.toInt32
    hour := by
      rw [datetime_get_hour, datetime_get_part_eq tz (by decide), part_eq]
      rw [hhour, TICKS_PER_DAY, TICKS_PER_HOUR]
      omega
    minute := by
      rw [datetime_get_minute, datetime_get_part_eq tz (by decide), part_eq]
      rw [hminute, TICKS_PER_HOUR, TICKS_PER_MINUTE]
      omega
    second := by
      rw [datetime_get_second, datetime_get_part_eq tz (by decide), part_eq]
      rw [hsecond, TICKS_PER_MINUTE, TICKS_PER_SECOND]
      omega
    microsecond := by
      rw [datetime_get_microsecond, datetime_get_part_eq tz (by decide), htick, TICKS_PER_SECOND, TICKS_PER_MICROSECOND]
      congr 3
      omega
    tick := by
      have hrest : ticks.toInt % 10000000 = (dts.hmst.set_from_ticks (ticks.toInt % 864000000000)).tick.toInt := by omega
      rw [datetime_get_tick_eq, hrest, Int32.ofInt_toInt]
    sum := by
      have htime : (Int64.ofInt (ticks.toInt % 864000000000)).toInt = ticks.toInt % 864000000000 :=
        Int64.toInt_ofInt_of_le (by omega) (by omega)
      rw [hdays, hfit, hticks, htime, TICKS_PER_DAY]
      omega }

/-- The kernels and `set_from_ticks` fail together, and the time of NA is a time. -/
theorem properties_iff (ticks : Int64) : Properties tz ticks ↔ -2 ^ 63 + 863999999999 ≤ ticks.toInt := by
  have hna : DATETIME_NA = -2 ^ 63 := rfl
  unfold Properties
  constructor
  · intro h
    by_contra hlow
    split_ifs at h with hmissing
    · obtain ⟨x, hx, -⟩ := h ⟨⟨0, 0, 0⟩, ⟨0, 0, 0, 0⟩⟩
      rw [datetime_struct.set_from_ticks, if_pos hmissing, splitTicks_eq, if_neg hlow] at hx
      cases hx
    · rw [datetime_get_time_eq, not_not.1 hmissing] at h
      exact absurd (Except.ok.inj h.2) (by decide)
  · intro h
    rw [if_pos (by omega)]
    exact fun dts => ⟨_, set_from_ticks_split h dts, parts_of tz h dts⟩

end

/-- The first count of ticks that is not NA overflows, and NA has a time of day. -/
theorem time_of_na : ¬ Properties .tz_abstract (-9223372036854775807) ∧ ¬ Properties .tz_abstract Int64.minValue ∧
    datetime_get_time .tz_abstract Int64.minValue = .ok 763145224192 := by
  refine ⟨?_, ?_, ?_⟩
  · unfold Properties
    rw [if_pos (by decide)]
    intro h
    obtain ⟨x, hx, -⟩ := h ⟨⟨0, 0, 0⟩, ⟨0, 0, 0, 0⟩⟩
    have hnone : datetime_struct.set_from_ticks ⟨⟨0, 0, 0⟩, ⟨0, 0, 0, 0⟩⟩ (-9223372036854775807) = none := by decide
    rw [hnone] at hx
    cases hx
  · unfold Properties
    rw [if_neg (by decide), datetime_get_time_eq]
    intro h
    exact absurd (Except.ok.inj h.2) (by decide)
  · rw [datetime_get_time_eq]
    rfl

end Dynd.DatetimeProperties
