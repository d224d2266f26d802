import Dynd.DateText
import Dynd.DatetimeParser
/-!
# Dates and times are read back

A date prints as an ISO 8601 date, with a sign and six digits where four are
not enough. A time prints as short as it can: the seconds only when there are
some, and of the fraction only the digits before its trailing zeros. Each
layout is read back as the value it was printed for.
-/
namespace Dynd
open Parse Lib Gregorian

/-! ## Printing -/

/-- `'0' + v` -/
def digitChar (v : ℤ) : UInt8 := UInt8.ofInt (48 + v)

/-- "-MM-DD" -/
def monthAndDayText (month day : ℤ) : List UInt8 :=
  [ch '-', digitChar (month.tdiv 10), digitChar (month.tmod 10), ch '-', digitChar (day.tdiv 10), digitChar (day.tmod 10)]

/-- `date_ymd::to_str(int year, int month, int day)`. -/
def date_ymd.to_str (year month day : ℤ) : List UInt8 :=
  if is_valid year month day then
    if 1 ≤ year ∧ year ≤ 9999 then
      -- ISO 8601 date
      [digitChar (year.tdiv 1000), digitChar ((year.tdiv 100).tmod 10), digitChar ((year.tdiv 10).tmod 10),
        digitChar (year.tmod 10)] ++ monthAndDayText month day
    else
      -- Expanded ISO 8601 date, using +/- 6 digit year
      let sign := if 0 ≤ year then ch '+' else ch '-'
      let year := if 0 ≤ year then year else -year
      [sign, digitChar (year.tdiv 100000), digitChar ((year.tdiv 10000).tmod 10), digitChar ((year.tdiv 1000).tmod 10),
        digitChar ((year.tdiv 100).tmod 10), digitChar ((year.tdiv 10).tmod 10), digitChar (year.tmod 10)] ++
        monthAndDayText month day
  else []

/-- `date_ymd::to_str()`. -/
def date_ymd.toStr (x : date_ymd) : List UInt8 := to_str x.year.toInt x.month.toInt x.day.toInt

/-- The digits of the fraction, while there are ticks left; the buffer has room for `n`. -/
def printTicks : ℕ → ℤ → ℤ → List UInt8
  | 0, _, _ => []
  | n + 1, tick, divisor =>
    if tick ≠ 0 then digitChar (tick.tdiv divisor) :: printTicks n (tick.tmod divisor) (divisor.tdiv 10) else []

/-- `time_hmst::to_str(int hour, int minute, int second, int tick)`. -/
def time_hmst.to_str (hour minute second tick : ℤ) : List UInt8 :=
  if is_valid hour minute second tick then
    [digitChar (hour.tdiv 10), digitChar (hour.tmod 10), ch ':', digitChar (minute.tdiv 10), digitChar (minute.tmod 10)] ++
      if second ≠ 0 || tick ≠ 0 then
        [ch ':', digitChar (second.tdiv 10), digitChar (second.tmod 10)] ++
          if tick ≠ 0 then ch '.' :: printTicks 7 tick 1000000 else []
      else []
  else []

/-- `time_hmst::to_str()`. -/
def time_hmst.toStr (x : time_hmst) : List UInt8 := to_str x.hour.toInt x.minute.toInt x.second.toInt x.tick.toInt

/-- `datetime_struct::to_str()`. -/
def datetime_struct.toStr (x : datetime_struct) : List UInt8 :=
  if x.isValid then x.ymd.toStr ++ ch 'T' :: x.hmst.toStr else []

/-! ## Digits are read back -/

theorem digitChar_spec {v : ℤ} (h : 0 ≤ v ∧ v < 10) : isDigit (digitChar v) = true ∧ digitValue (digitChar v) = v := by
  obtain ⟨h0, h10⟩ := h
  interval_cases v <;> decide

theorem isDigit_digitChar {v : ℤ} (h : 0 ≤ v ∧ v < 10) : isDigit (digitChar v) = true := (digitChar_spec h).1

theorem parse_digits_print {vs : List ℤ} (h : ∀ v ∈ vs, 0 ≤ v ∧ v < 10) (r : List UInt8) :
    parse_digits vs.length (vs.map digitChar ++ r) = .ok (vs.foldl (fun a v => a * 10 + v) 0, r) := by
  have hlen : (vs.map digitChar).length = vs.length := List.length_map _
  have hall : (vs.map digitChar).all isDigit = true := by
    rw [List.all_eq_true]
    intro c hc
    obtain ⟨v, hv, rfl⟩ := List.mem_map.1 hc
    exact isDigit_digitChar (h v hv)
  have hfold : ∀ a : ℤ, (vs.map digitChar).foldl (fun v c => v * 10 + digitValue c) a = vs.foldl (fun a v => a * 10 + v) a := by
    clear hlen hall
    induction vs with
    | nil => exact fun _ => rfl
    | cons v vs ih =>
      intro a
      rw [List.map_cons, List.foldl_cons, List.foldl_cons, (digitChar_spec (h v List.mem_cons_self)).2]
      exact ih (fun w hw => h w (List.mem_cons_of_mem v hw)) _
  rw [parse_digits, List.take_left' hlen, List.drop_left' hlen, hall, hfold, if_pos (by simp)]

theorem parse_digits_value {vs : List ℤ} {v : ℤ} (h : ∀ v ∈ vs, 0 ≤ v ∧ v < 10) (hv : vs.foldl (fun a v => a * 10 + v) 0 = v)
    (r : List UInt8) : parse_digits vs.length (vs.map digitChar ++ r) = .ok (v, r) := by
  rw [parse_digits_print h, hv]

theorem tdiv_tmod_ten {v k : ℤ} (h : 0 ≤ v) (hk : 0 ≤ k) : (v.tdiv k).tmod 10 = v / k % 10 := by
  rw [Int.tdiv_eq_ediv_of_nonneg h, Int.tmod_eq_emod_of_nonneg (Int.ediv_nonneg h hk)]

section
variable {v : ℤ} (h0 : 0 ≤ v)
include h0

theorem parse_2digit_print (h : v < 100) (r : List UInt8) :
    parse_2digit_int_no_ws (digitChar (v.tdiv 10) :: digitChar (v.tmod 10) :: r) = .ok (v, r) := by
  rw [Int.tdiv_eq_ediv_of_nonneg h0, Int.tmod_eq_emod_of_nonneg h0]
  have hb : ∀ d ∈ [v / 10, v % 10], 0 ≤ d ∧ d < 10 := by
    simp only [List.forall_mem_cons, List.not_mem_nil, false_implies, implies_true, and_true]
    omega
  refine parse_digits_value hb ?_ r
  simp only [List.foldl_cons, List.foldl_nil]
  omega

theorem parse_1or2digit_print (h : v < 100) (r : List UInt8) :
    parse_1or2digit_int_no_ws (digitChar (v.tdiv 10) :: digitChar (v.tmod 10) :: r) = .ok (v, r) := by
  rw [Int.tdiv_eq_ediv_of_nonneg h0, Int.tmod_eq_emod_of_nonneg h0]
  obtain ⟨hd0, hv0⟩ := digitChar_spec (v := v / 10) (by omega)
  obtain ⟨hd1, hv1⟩ := digitChar_spec (v := v % 10) (by omega)
  rw [parse_1or2digit_int_no_ws, if_pos hd0, if_pos hd1, hv0, hv1, mul_comm, Int.mul_ediv_add_emod]

theorem parse_4digit_print (h : v < 10000) (r : List UInt8) :
    parse_4digit_int_no_ws ([digitChar (v.tdiv 1000), digitChar ((v.tdiv 100).tmod 10), digitChar ((v.tdiv 10).tmod 10),
      digitChar (v.tmod 10)] ++ r) = .ok (v, r) := by
  rw [Int.tdiv_eq_ediv_of_nonneg h0, @tdiv_tmod_ten _ 100 h0 (by decide), @tdiv_tmod_ten _ 10 h0 (by decide),
    Int.tmod_eq_emod_of_nonneg h0]
  have hb : ∀ d ∈ [v / 1000, v / 100 % 10, v / 10 % 10, v % 10], 0 ≤ d ∧ d < 10 := by
    simp only [List.forall_mem_cons, List.not_mem_nil, false_implies, implies_true, and_true]
    omega
  refine parse_digits_value hb ?_ r
  simp only [List.foldl_cons, List.foldl_nil]
  omega

theorem parse_6digit_print (h : v < 1000000) (r : List UInt8) :
    parse_6digit_int_no_ws ([digitChar (v.tdiv 100000), digitChar ((v.tdiv 10000).tmod 10), digitChar ((v.tdiv 1000).tmod 10),
      digitChar ((v.tdiv 100).tmod 10), digitChar ((v.tdiv 10).tmod 10), digitChar (v.tmod 10)] ++ r) = .ok (v, r) := by
  rw [Int.tdiv_eq_ediv_of_nonneg h0, @tdiv_tmod_ten _ 10000 h0 (by decide), @tdiv_tmod_ten _ 1000 h0 (by decide),
    @tdiv_tmod_ten _ 100 h0 (by decide), @tdiv_tmod_ten _ 10 h0 (by decide), Int.tmod_eq_emod_of_nonneg h0]
  have hb : ∀ d ∈ [v / 100000, v / 10000 % 10, v / 1000 % 10, v / 100 % 10, v / 10 % 10, v % 10], 0 ≤ d ∧ d < 10 := by
    simp only [List.forall_mem_cons, List.not_mem_nil, false_implies, implies_true, and_true]
    omega
  refine parse_digits_value hb ?_ r
  simp only [List.foldl_cons, List.foldl_nil]
  omega

end

/-! ## Dates -/

/-- The first byte of a printed date. -/
def OpensDate (c : UInt8) : Prop := isDigit c = true ∨ c = ch '+' ∨ c = ch '-'

theorem OpensDate.not_name {c : UInt8} (h : OpensDate c) : isalpha c = false ∧ isspace c = false := by
  rcases h with h | rfl | rfl
  · obtain ⟨d, rfl⟩ := exists_digitByte h
    revert d
    decide
  · decide
  · decide

theorem parseWeekday_none {c : UInt8} (h : isalpha c = false) (s : List UInt8) : parseWeekday (c :: s) = (-1, c :: s) := by
  have hempty : (c :: s).takeWhile isalpha = [] := by
    rw [List.takeWhile_cons_of_neg]
    rw [h]
    decide
  have hnone : parse_str_weekday_no_ws (c :: s) = noMatch := by
    rw [parse_str_weekday_no_ws, parse_ci_alpha_str_named_value_no_ws, hempty]
    rfl
  rw [parseWeekday, hnone]
  rfl

/-- A year of four digits, or a sign and six, is read back. -/
theorem year_read {y m d : ℤ} (hy : date_ymd.YearRange y) (hv : date_ymd.is_valid y m d = true) :
    ∃ c t, OpensDate c ∧ date_ymd.to_str y m d = c :: t ∧
      ∀ r, parse_iso8601_year (c :: t ++ r) = .ok (y, monthAndDayText m d ++ r) := by
  rw [date_ymd.to_str, if_pos hv]
  obtain ⟨hlo, hhi⟩ := hy
  by_cases h4 : 1 ≤ y ∧ y ≤ 9999
  · rw [if_pos h4]
    have hc : isDigit (digitChar (y.tdiv 1000)) = true := by
      rw [Int.tdiv_eq_ediv_of_nonneg (by omega)]
      exact (digitChar_spec (by omega)).1
    have hne : ∀ c, isDigit c = false → c ≠ digitChar (y.tdiv 1000) := by
      rintro c hd rfl
      rw [hc] at hd
      cases hd
    refine ⟨_, _, .inl hc, rfl, fun r => ?_⟩
    rw [List.cons_append, parse_iso8601_year, token_none_cons (hne _ (by decide)), token_none_cons (hne _ (by decide))]
    exact parse_4digit_print (by omega) (by omega) (monthAndDayText m d ++ r)
  · rw [if_neg h4]
    by_cases hpos : 0 ≤ y
    · rw [if_pos hpos, if_pos hpos]
      refine ⟨_, _, .inr (.inl rfl), rfl, fun r => ?_⟩
      have hplus : ∀ s, parse_token_no_ws [ch '+'] (ch '+' :: s) = some s := token_some [ch '+']
      rw [List.cons_append, parse_iso8601_year, token_none_cons (by decide), hplus]
      exact parse_6digit_print hpos (by omega) (monthAndDayText m d ++ r)
    · rw [if_neg hpos, if_neg hpos]
      refine ⟨_, _, .inr (.inr rfl), rfl, fun r => ?_⟩
      have hminus : ∀ s, parse_token_no_ws [ch '-'] (ch '-' :: s) = some s := token_some [ch '-']
      rw [List.cons_append, parse_iso8601_year, hminus]
      refine bind_eq_ok.2 ⟨_, parse_6digit_print (v := -y) (by omega) (by omega) (monthAndDayText m d ++ r), ?_⟩
      dsimp only
      rw [neg_neg]
      rfl

theorem parse_md_print {m d : ℤ} (hm : 0 ≤ m ∧ m < 100) (hd : 0 ≤ d ∧ d < 100) {r : List UInt8} (hr : Stops isDigit r) :
    parse_md (ch '-') (monthAndDayText m d ++ r) = .ok ((m, d), r) := by
  have htoken : ∀ s, matched (parse_token_no_ws [ch '-'] (ch '-' :: s)) = .ok s := fun s =>
    matched_eq_ok.2 (token_some [ch '-'] s)
  have hlast : lastDay (digitChar (d.tdiv 10) :: digitChar (d.tmod 10) :: r) = .ok (d, r) := by
    refine bind_eq_ok.2 ⟨_, parse_1or2digit_print hd.1 hd.2 r, ?_⟩
    have hstop : nextIsDigit r = false := by
      cases r with
      | nil => rfl
      | cons c t => exact stops_cons.1 hr
    dsimp only
    rw [hstop]
    rfl
  refine bind_eq_ok.2 ⟨_, htoken _, bind_eq_ok.2 ⟨_, parse_1or2digit_print hm.1 hm.2 _, bind_eq_ok.2 ⟨_, htoken _, ?_⟩⟩⟩
  exact bind_eq_ok.2 ⟨_, hlast, rfl⟩

theorem skip_whitespace_print {s : List UInt8} (h : ∃ c t, s = c :: t ∧ isspace c = false) : skip_whitespace s = s := by
  obtain ⟨c, t, rfl, hc⟩ := h
  exact skip_whitespace_eq (List.forall_mem_nil _) (stops_cons.2 hc)

section
variable (rawtime : ℤ) (ambig : date_parse_order_t) (century_window : ℤ)

/-- A printed date is read by the first of the formats, whatever follows it. -/
theorem parse_date_print {x : date_ymd} (h : x.isValid = true) :
    ∃ c t, x.toStr = c :: t ∧ isspace c = false ∧
      ∀ r, Stops isDigit r → parse_date rawtime ambig century_window (x.toStr ++ r) = .ok (x, r) := by
  obtain ⟨c, t, hc, htext, hyear⟩ := year_read x.yearRange h
  obtain ⟨halpha, hspace⟩ := hc.not_name
  have hvalid := (date_ymd.isValid_iff x).1 h
  refine ⟨c, t, htext, hspace, fun r hr => ?_⟩
  have hmd : parse_md (ch '-') (monthAndDayText x.month.toInt x.day.toInt ++ r) = .ok ((x.month.toInt, x.day.toInt), r) := by
    have hm := hvalid.month
    have hd := hvalid.day
    have hlong := monthLength_le x.year.toInt x.month.toInt
    exact parse_md_print (by omega) (by omega) hr
  have hdate : validDate x.year.toInt x.month.toInt x.day.toInt r = .ok (x, r) := by
    have hv : date_ymd.is_valid x.year.toInt x.month.toInt x.day.toInt = true := h
    rw [validDate, if_pos hv, Int16.ofInt_toInt, Int8.ofInt_toInt, Int8.ofInt_toInt]
  have hdashes : parse_iso8601_dashes_date (c :: t ++ r) = .ok (x, r) :=
    bind_eq_ok.2 ⟨_, hyear r, bind_eq_ok.2 ⟨_, hmd, hdate⟩⟩
  rw [date_ymd.toStr, htext, List.cons_append, parse_date, parseWeekday_none halpha]
  dsimp only
  rw [parseFormats, ← List.cons_append, hdashes]
  rfl

theorem string_to_date_print (errmode : assign_error_mode) {x : date_ymd} (h : x.isValid = true) :
    string_to_date rawtime ambig century_window errmode x.toStr = .ok x := by
  obtain ⟨c, t, htext, hspace, hread⟩ := parse_date_print rawtime ambig century_window h
  have hparse := hread [] (stops_nil _)
  rw [List.append_nil] at hparse
  rw [string_to_date, skip_whitespace_print ⟨c, t, htext, hspace⟩, hparse]
  dsimp only [ok_bind]
  split_ifs
  · rfl
  · rfl
  · next hend => exact absurd rfl hend

end

/-! ## Times -/

theorem tickLoop_nil (i : ℕ) (acc : ℤ) : tickLoop i acc [] = (acc * 10 ^ i, []) := by
  induction i generalizing acc with
  | zero =>
    rw [pow_zero, mul_one]
    rfl
  | succ i ih =>
    have hstep : tickLoop (i + 1) acc [] = tickLoop i (acc * 10) [] := rfl
    rw [hstep, ih, pow_succ', mul_assoc]

theorem tickLoop_digit (i : ℕ) (acc : ℤ) {d : ℤ} (h : 0 ≤ d ∧ d < 10) (s : List UInt8) :
    tickLoop (i + 1) acc (digitChar d :: s) = tickLoop i (acc * 10 + d) s := by
  obtain ⟨hd, hv⟩ := digitChar_spec h
  have hstep : tickLoop (i + 1) acc (digitChar d :: s) = tickLoop i (acc * 10 + digitValue (digitChar d)) s := if_pos hd
  rw [hstep, hv]

theorem printTicks_succ (n : ℕ) {tick : ℤ} (hne : tick ≠ 0) (divisor : ℤ) : printTicks (n + 1) tick divisor =
    digitChar (tick.tdiv divisor) :: printTicks n (tick.tmod divisor) (divisor.tdiv 10) := if_pos hne

theorem printTicks_zero (n : ℕ) (divisor : ℤ) : printTicks (n + 1) 0 divisor = [] := if_neg (not_not.2 rfl)

/-- The digits of a fraction without its trailing zeros are read as the whole fraction. -/
theorem printTicks_read (n : ℕ) {tick : ℤ} (h0 : 0 ≤ tick) (h : tick < 10 ^ (n + 1)) (acc : ℤ) :
    tickLoop (n + 1) acc (printTicks (n + 1) tick (10 ^ n)) = (acc * 10 ^ (n + 1) + tick, []) := by
  induction n generalizing tick acc with
  | zero =>
    rcases eq_or_ne tick 0 with rfl | hne
    · rw [printTicks_zero, tickLoop_nil, add_zero]
    · rw [printTicks_succ _ hne, pow_zero, Int.tdiv_one, tickLoop_digit 0 acc (by omega), zero_add, pow_one]
      rfl
  | succ n ih =>
    rcases eq_or_ne tick 0 with rfl | hne
    · rw [printTicks_zero, tickLoop_nil, add_zero]
    · have hpos : (0 : ℤ) < 10 ^ (n + 1) := by positivity
      have hdigit : 0 ≤ tick / 10 ^ (n + 1) ∧ tick / 10 ^ (n + 1) < 10 := by
        refine ⟨Int.ediv_nonneg h0 hpos.le, Int.ediv_lt_of_lt_mul hpos ?_⟩
        rwa [mul_comm, ← pow_succ]
      have hnext : ((10 : ℤ) ^ (n + 1)).tdiv 10 = 10 ^ n := by
        rw [pow_succ]
        exact Int.mul_tdiv_cancel _ (by decide)
      rw [printTicks_succ _ hne, Int.tdiv_eq_ediv_of_nonneg h0, Int.tmod_eq_emod_of_nonneg h0, hnext, tickLoop_digit _ _ hdigit,
        ih (Int.emod_nonneg _ hpos.ne') (Int.emod_lt_of_pos _ hpos)]
      congr 1
      have := Int.mul_ediv_add_emod tick (10 ^ (n + 1))
      rw [pow_succ 10 (n + 1)]
      linarith

theorem parseTicks_print {tick : ℤ} (h0 : 0 ≤ tick) (h : tick < 10000000) (hne : tick ≠ 0) :
    parseTicks (printTicks 7 tick 1000000) = .ok (tick, []) := by
  have hpow : (10 : ℤ) ^ 6 = 1000000 := by norm_num
  have hread := printTicks_read 6 h0 h 0
  have hdigit : 0 ≤ tick.tdiv 1000000 ∧ tick.tdiv 1000000 < 10 := by
    rw [Int.tdiv_eq_ediv_of_nonneg h0]
    omega
  obtain ⟨hd, hv⟩ := digitChar_spec hdigit
  rw [zero_mul, zero_add, hpow, printTicks_succ _ hne, tickLoop_digit _ _ hdigit, zero_mul, zero_add] at hread
  rw [printTicks_succ _ hne, parseTicks, if_pos hd, hv, hread]
  rfl

theorem timeSeparator_colon (s : List UInt8) : timeSeparator (ch ':' :: s) = some s := by
  rw [timeSeparator, token_none_cons (by decide), Option.none_or]
  exact token_some [ch ':'] s

theorem timeSeparator_point (s : List UInt8) : timeSeparator (ch '.' :: s) = some s := by
  have hpoint : parse_token_no_ws [ch '.'] (ch '.' :: s) = some s := token_some [ch '.'] s
  rw [timeSeparator, hpoint, Option.some_or]

theorem parse_flex_time_print {x : time_hmst} (h : x.isValid = true) : parse_flex_time x.toStr = .ok (x, []) := by
  have hv : time_hmst.is_valid x.hour.toInt x.minute.toInt x.second.toInt x.tick.toInt = true := h
  obtain ⟨hh, hm, hs, ht0, ht⟩ := (time_hmst.is_valid_iff _ _ _ _).1 hv
  have hvalid : validTime x.hour.toInt x.minute.toInt x.second.toInt x.tick.toInt [] = .ok (x, []) := by
    rw [validTime, if_pos hv, Int8.ofInt_toInt, Int8.ofInt_toInt, Int8.ofInt_toInt, Int32.ofInt_toInt]
  rw [time_hmst.toStr, time_hmst.to_str, if_pos hv]
  simp only [List.cons_append, List.nil_append]
  refine bind_eq_ok.2 ⟨_, parse_1or2digit_print hh.1 (by omega) _, ?_⟩
  refine bind_eq_ok.2 ⟨_, matched_eq_ok.2 (timeSeparator_colon _), ?_⟩
  refine bind_eq_ok.2 ⟨_, parse_2digit_print hm.1 (by omega) _, ?_⟩
  dsimp only
  split_ifs with hsec htick
  · rw [timeSeparator_colon]
    refine bind_eq_ok.2 ⟨_, parse_2digit_print hs.1 (by omega) _, ?_⟩
    dsimp only
    rw [timeSeparator_point]
    refine bind_eq_ok.2 ⟨_, parseTicks_print ht0 ht htick, ?_⟩
    exact hvalid
  · rw [timeSeparator_colon]
    refine bind_eq_ok.2 ⟨_, parse_2digit_print hs.1 (by omega) _, ?_⟩
    rw [not_not.1 htick] at hvalid
    exact hvalid
  · obtain ⟨hs0, ht0⟩ : x.second.toInt = 0 ∧ x.tick.toInt = 0 := by simpa using hsec
    rw [hs0, ht0] at hvalid
    exact hvalid

theorem parse_time_print {x : time_hmst} (h : x.isValid = true) : parse_time x.toStr = .ok ((x, none), []) :=
  bind_eq_ok.2 ⟨_, parse_flex_time_print h, rfl⟩

theorem time_toStr_opens {x : time_hmst} (h : x.isValid = true) : ∃ c t, x.toStr = c :: t ∧ isspace c = false := by
  have hv : time_hmst.is_valid x.hour.toInt x.minute.toInt x.second.toInt x.tick.toInt = true := h
  obtain ⟨⟨h0, h24⟩, -⟩ := (time_hmst.is_valid_iff _ _ _ _).1 hv
  rw [time_hmst.toStr, time_hmst.to_str, if_pos hv]
  refine ⟨_, _, rfl, ?_⟩
  rw [Int.tdiv_eq_ediv_of_nonneg h0]
  exact (OpensDate.not_name (.inl (digitChar_spec (by omega)).1)).2

theorem string_to_time_print {x : time_hmst} (h : x.isValid = true) : string_to_time x.toStr = .ok (x, none) := by
  rw [string_to_time, skip_whitespace_print (time_toStr_opens h), parse_time_print h]
  rfl

/-! ## Datetimes -/

section
variable (unset : ℤ × ℤ) (rawtime : ℤ) (ambig : date_parse_order_t) (century_window : ℤ) (errmode : assign_error_mode)

theorem string_to_datetime_print {x : datetime_struct} (h : x.isValid = true) :
    string_to_datetime unset rawtime ambig century_window errmode x.toStr = .ok (x, none) := by
  obtain ⟨hymd, hhmst⟩ := Bool.and_eq_true_iff.1 h
  obtain ⟨c, t, htext, hspace, hdate⟩ := parse_date_print rawtime ambig century_window hymd
  have hopen : skip_whitespace (x.ymd.toStr ++ ch 'T' :: x.hmst.toStr) = x.ymd.toStr ++ ch 'T' :: x.hmst.toStr :=
    skip_whitespace_print ⟨c, t ++ ch 'T' :: x.hmst.toStr, by rw [htext, List.cons_append], hspace⟩
  have hT : parse_token [ch 'T'] (ch 'T' :: x.hmst.toStr) = some x.hmst.toStr :=
    (parse_token_iff (by decide)).2 ⟨[], List.forall_mem_nil _, rfl⟩
  have hsep : datetimeSeparator (ch 'T' :: x.hmst.toStr) = some x.hmst.toStr := by
    rw [datetimeSeparator, hT]
    exact congrArg some (skip_whitespace_print (time_toStr_opens hhmst))
  have htime : withTime x.ymd x.hmst.toStr = .ok ((x, none), []) :=
    bind_eq_ok.2 ⟨_, parse_time_print hhmst, rfl⟩
  have hparse : parse_date_time_datetime rawtime ambig century_window (x.ymd.toStr ++ ch 'T' :: x.hmst.toStr) =
      .ok ((x, none), []) := by
    refine bind_eq_ok.2 ⟨_, hdate _ (stops_cons.2 (by decide)), ?_⟩
    dsimp only
    rw [hsep]
    dsimp only
    rw [htime]
    rfl
  rw [datetime_struct.toStr, if_pos h, string_to_datetime, hopen, parse_datetime, hparse]
  rfl

/-- What `to_str` prints for a date, a time or a datetime is read back as it. -/
theorem to_str_read_back : (∀ x : date_ymd, x.isValid = true → string_to_date rawtime ambig century_window errmode x.toStr = .ok x) ∧
    (∀ x : time_hmst, x.isValid = true → string_to_time x.toStr = .ok (x, none)) ∧
    ∀ x : datetime_struct, x.isValid = true →
      string_to_datetime unset rawtime ambig century_window errmode x.toStr = .ok (x, none) :=
  ⟨fun _ => string_to_date_print rawtime ambig century_window errmode, fun _ => string_to_time_print,
    fun _ => string_to_datetime_print unset rawtime ambig century_window errmode⟩

end

/-- The last tick of the first day that 16 bits hold. -/
theorem to_str_read_back_first_day :
    (string_to_date 0 .no_ambig 70 .fractional (date_ymd.toStr ⟨-32768, 1, 1⟩) = .ok ⟨-32768, 1, 1⟩) ∧
    string_to_time (time_hmst.toStr ⟨23, 59, 59, 9999999⟩) = .ok (⟨23, 59, 59, 9999999⟩, none) ∧
    string_to_datetime (0, 0) 0 .no_ambig 70 .fractional (datetime_struct.toStr ⟨⟨-32768, 1, 1⟩, ⟨23, 59, 59, 9999999⟩⟩) =
      .ok (⟨⟨-32768, 1, 1⟩, ⟨23, 59, 59, 9999999⟩⟩, none) := by
  obtain ⟨hdate, htime, hdatetime⟩ := to_str_read_back (0, 0) 0 .no_ambig 70 .fractional
  exact ⟨hdate _ (by decide), htime _ (by decide), hdatetime _ (by decide)⟩

end Dynd
