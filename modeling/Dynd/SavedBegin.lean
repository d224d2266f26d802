import Dynd.DateText
import Dynd.DatetimeParser
/-!
# Where a failed parse leaves the text

A parse function takes `begin` by reference and moves it as it goes; a
`saved_begin_state` puts it back when the function fails. The functions here
have the `begin` they leave in either case, and each of them comes to the
scanner of `DateParser` or `DatetimeParser`, which has the text left only
where it matches: all but `parse_date`, which keeps no saved state and fails
after the weekday it has read.
-/
namespace Dynd.SavedBegin
open Parse Lib

/-- What the function returns, and where it leaves `begin`; `noMatch` is `return false`. -/
def Cursor (α : Type) : Type := List UInt8 → Except scan_failure α × List UInt8

instance : Monad Cursor where
  pure a := fun begin => (.ok a, begin)
  bind x f := fun begin =>
    match x begin with
    | (.ok a, begin) => f a begin
    | (.error e, begin) => (.error e, begin)

section
variable {α β : Type}

def fail : Cursor α := fun begin => (noMatch, begin)

/-- A call that may throw and does not see the text. -/
def throws (x : Except scan_failure α) : Cursor α := fun begin => (x, begin)

/-- A function that works on a copy of `begin` and writes it back where it matches. -/
def scan (f : Scan α) : Cursor α := fun begin =>
  match f begin with
  | .ok (a, rest) => (.ok a, rest)
  | .error e => (.error e, begin)

/-- The same with nothing read but the text itself. -/
def advance (f : List UInt8 → Option (List UInt8)) : Cursor Unit := fun begin =>
  match f begin with
  | some rest => (.ok (), rest)
  | none => (noMatch, begin)

/-- `if (x(begin, end)) yes else no` -/
def ifParses (x : Cursor α) (yes : α → Cursor β) (no : Cursor β) : Cursor β := fun begin =>
  match x begin with
  | (.ok a, begin) => yes a begin
  | (.error .no_match, begin) => no begin
  | (.error (.thrown e), begin) => (.error (.thrown e), begin)

/-- `x || y` -/
def alternative (x y : Cursor α) : Cursor α := ifParses x pure y

/-- A call whose result is not looked at. -/
def optional (x : Cursor Unit) : Cursor Unit := ifParses x pure (pure ())

/-- `saved_begin_state sbs(begin)`: the destructor puts `begin` back unless `sbs.succeed()` was called. -/
def saved_begin_state (body : Cursor α) : Cursor α := fun begin =>
  match body begin with
  | (.ok a, rest) => (.ok a, rest)
  | (.error e, _) => (.error e, begin)

/-- `begin = sbs.saved_begin();` -/
def restore (saved_begin : List UInt8) : Cursor Unit := fun _ => (.ok (), saved_begin)

end

def skip_whitespace : Cursor Unit := fun begin => (.ok (), Parse.skip_whitespace begin)

/-- Don't match if the next character is another digit. -/
def noDigit : Cursor Unit := fun begin => if nextIsDigit begin then (noMatch, begin) else (.ok (), begin)

/-! ## Dates -/

def parse_str_month_no_ws : Cursor ℤ :=
  ifParses (scan (parse_ci_alpha_str_named_value_no_ws named_month_table))
    (fun out_month => pure (if out_month > 12 then out_month - 12 else out_month)) fail

/-- If the token matched has 12 added to it, it's an abbreviation, so accept a period after it. -/
def parse_str_month_punct_no_ws : Cursor ℤ :=
  ifParses (scan (parse_ci_alpha_str_named_value_no_ws named_month_table))
    (fun out_month =>
      if out_month > 12 then do
        optional (advance (parse_token_no_ws [ch '.']))
        return out_month - 12
      else return out_month)
    fail

def parse_str_weekday_no_ws : Cursor ℤ := scan (parse_ci_alpha_str_named_value_no_ws named_weekday_table)

section
variable (rawtime : ℤ) (ambig : date_parse_order_t) (century_window : ℤ)

/-- The day of `parse_md` and `parse_md_str_month`. -/
def lastDay : Cursor ℤ := do
  let day ← scan parse_1or2digit_int_no_ws
  noDigit
  return day

/-- sMMsDD for separator character 's' -/
def parse_md (sep : UInt8) : Cursor (ℤ × ℤ) := saved_begin_state do
  advance (parse_token_no_ws [sep])
  let month ← scan parse_1or2digit_int_no_ws
  advance (parse_token_no_ws [sep])
  let day ← lastDay
  return (month, day)

/-- sMMMsDD for separator character 's' and string-based month -/
def parse_md_str_month (sep : UInt8) : Cursor (ℤ × ℤ) := saved_begin_state do
  advance (parse_token_no_ws [sep])
  let month ← parse_str_month_no_ws
  advance (parse_token_no_ws [sep])
  let day ← lastDay
  return (month, day)

/-- The year of `parse_ymd_sep_date`. -/
def parse_year (twoDigits : Bool) : Cursor ℤ :=
  ifParses (scan parse_4digit_int_no_ws) pure <|
    if twoDigits then do
      let year ← scan parse_2digit_int_no_ws
      throws (resolve_2digit_year rawtime year century_window)
    else fail

/-- The year at the end of the other dates. -/
def parse_last_year (twoDigits : Bool) : Cursor ℤ :=
  ifParses (scan parse_4digit_int_no_ws)
    (fun year => do
      noDigit
      return year) <|
    if twoDigits then do
      let year ← scan parse_2digit_int_no_ws
      noDigit
      throws (resolve_2digit_year rawtime year century_window)
    else fail

/-- 1979s03s22, 1979sMARs22 and if ambig is YMD, also accept 79s03s22, 79sMARs22 -/
def parse_ymd_sep_date (sep : UInt8) : Cursor date_ymd := saved_begin_state do
  let year ← parse_year rawtime century_window (century_window ≠ 0 && ambig = .ymd)
  let (month, day) ← alternative (parse_md sep) (parse_md_str_month sep)
  scan (validDate year month day)

/-- MMsDDsYYYY -/
def parse_mdy_ambig_sep_date (sep : UInt8) : Cursor date_ymd := saved_begin_state do
  let month ← scan parse_1or2digit_int_no_ws
  advance (parse_token_no_ws [sep])
  let day ← scan parse_1or2digit_int_no_ws
  advance (parse_token_no_ws [sep])
  let year ← parse_last_year rawtime century_window (century_window ≠ 0)
  scan (validDate year month day)

/-- DDsMMsYYYY -/
def parse_dmy_ambig_sep_date (sep : UInt8) : Cursor date_ymd := saved_begin_state do
  let day ← scan parse_1or2digit_int_no_ws
  advance (parse_token_no_ws [sep])
  let month ← scan parse_1or2digit_int_no_ws
  advance (parse_token_no_ws [sep])
  let year ← parse_last_year rawtime century_window (century_window ≠ 0)
  scan (validDate year month day)

/-- DDsMMMsYYYY -/
def parse_dmy_str_month_sep_date (sep : UInt8) : Cursor date_ymd := saved_begin_state do
  let day ← scan parse_1or2digit_int_no_ws
  advance (parse_token_no_ws [sep])
  let month ← parse_str_month_no_ws
  advance (parse_token_no_ws [sep])
  let year ← parse_last_year rawtime century_window (yearAtEnd ambig century_window)
  scan (validDate year month day)

/-- DDsMMMsYYYY for arbitrary amount of whitespace 's' -/
def parse_dmy_str_month_ws_date : Cursor date_ymd := saved_begin_state do
  let day ← scan parse_1or2digit_int_no_ws
  skip_whitespace
  let month ← parse_str_month_no_ws
  skip_whitespace
  let year ← parse_last_year rawtime century_window (yearAtEnd ambig century_window)
  scan (validDate year month day)

/-- YYYY, +YYYYYY, or -YYYYYY -/
def parse_iso8601_year : Cursor ℤ :=
  ifParses (advance (parse_token_no_ws [ch '-']))
    (fun _ => do
      let year ← scan parse_6digit_int_no_ws
      return -year)
    (ifParses (advance (parse_token_no_ws [ch '+'])) (fun _ => scan parse_6digit_int_no_ws) (scan parse_4digit_int_no_ws))

/-- YYYY-MM-DD, +YYYYYY-MM-DD, or -YYYYYY-MM-DD -/
def parse_iso8601_dashes_date : Cursor date_ymd := saved_begin_state do
  let year ← parse_iso8601_year
  let (month, day) ← parse_md (ch '-')
  scan (validDate year month day)

/-- YYYYMMDD -/
def parse_iso8601_nodashes_date : Cursor date_ymd := saved_begin_state do
  let year ← scan parse_4digit_int_no_ws
  let month ← scan parse_2digit_int_no_ws
  let day ← scan parse_2digit_int_no_ws
  noDigit
  scan (validDate year month day)

/-- March 22, 1979 -/
def parse_mdy_long_format_date : Cursor date_ymd := saved_begin_state do
  let month ← parse_str_month_punct_no_ws
  advance skip_required_whitespace
  let day ← scan parse_1or2digit_int_no_ws
  -- Comma allowed, but not required
  optional (advance (parse_token [ch ',']))
  skip_whitespace
  let year ← parse_last_year rawtime century_window (century_window ≠ 0)
  scan (validDate year month day)

def withSeparators (format : UInt8 → Cursor date_ymd) : Cursor date_ymd :=
  alternative (format (ch '/')) (alternative (format (ch '-')) (format (ch '.')))

/-- The formats of `parse_date` in their order; each begins where the one before it left the text. -/
def parseFormats : Cursor date_ymd :=
  alternative parse_iso8601_dashes_date <|
  alternative parse_iso8601_nodashes_date <|
  alternative (withSeparators (parse_ymd_sep_date rawtime ambig century_window)) <|
  alternative (withSeparators (parse_dmy_str_month_sep_date rawtime ambig century_window)) <|
  alternative (parse_dmy_str_month_ws_date rawtime ambig century_window) <|
  alternative (parse_mdy_long_format_date rawtime century_window) <|
  alternative (if ambig = .mdy then withSeparators (parse_mdy_ambig_sep_date rawtime century_window) else fail) <|
  if ambig = .dmy then withSeparators (parse_dmy_ambig_sep_date rawtime century_window) else fail

/-- There is no `saved_begin_state` in this one. -/
def parse_date : Cursor date_ymd := do
  let weekday ← ifParses parse_str_weekday_no_ws
    (fun weekday => do
      -- Optional comma and whitespace after the weekday
      optional (advance (parse_token [ch ',']))
      skip_whitespace
      return weekday)
    (return -1)
  let ymd ← parseFormats rawtime ambig century_window
  -- If there was a weekday, validate it
  if 0 ≤ weekday && ymd.get_weekday ≠ weekday then fail else return ymd

end

/-! ## Times -/

def parse_timezone : Cursor (List UInt8) := scan fun begin => matched (Parse.parse_timezone begin)

/-- The indicators, as they are met: whether the hour fits one, the hour, and what is left. -/
def ampmBody (inout_hour : ℤ) (begin : List UInt8) : (Bool × ℤ) × List UInt8 :=
  let begin := Parse.skip_whitespace begin
  match parseOneOf [['A', 'M'], ['a', 'm'], ['A', '.', 'M', '.'], ['a', '.', 'm', '.'], ['a']] begin with
  | some begin =>
    -- Invalidate the hour for later checks to see
    if inout_hour < 1 || inout_hour > 12 then ((false, -1), begin)
    -- 12:00 AM is 00:00
    else ((true, if inout_hour = 12 then 0 else inout_hour), begin)
  | none =>
  match parseOneOf [['P', 'M'], ['p', 'm'], ['P', '.', 'M', '.'], ['p', '.', 'm', '.'], ['p']] begin with
  | some begin =>
    if inout_hour < 1 || inout_hour > 12 then ((false, -1), begin)
    else ((true, if inout_hour < 12 then inout_hour + 12 else inout_hour), begin)
  | none => ((false, inout_hour), begin)

/-- The hour is written also where the function returns false. -/
def parse_time_ampm (inout_hour : ℤ) (begin : List UInt8) : (Bool × ℤ) × List UInt8 :=
  match ampmBody inout_hour begin with
  | ((true, hour), rest) => ((true, hour), rest)
  | ((false, hour), _) => ((false, hour), begin)

/-- The call that goes on with the hour, whatever was returned. -/
def adjustHour (hour : ℤ) : Cursor ℤ := fun begin => (.ok (parse_time_ampm hour begin).1.2, (parse_time_ampm hour begin).2)

def timeSeparator : Cursor Unit := alternative (advance (parse_token_no_ws [ch '.'])) (advance (parse_token_no_ws [ch ':']))

/-- Similar to ISO 8601, but allow 1-digit hour, AM/PM specifier, either ':' or '.' to separate the time components. -/
def parse_flex_time : Cursor time_hmst := saved_begin_state do
  -- HH
  let hour ← scan parse_1or2digit_int_no_ws
  -- :MM
  timeSeparator
  let minute ← scan parse_2digit_int_no_ws
  -- :SS
  ifParses timeSeparator
    (fun _ => do
      let second ← scan parse_2digit_int_no_ws
      -- .SS* or :SS*
      ifParses timeSeparator
        (fun _ => do
          let tick ← scan parseTicks
          let hour ← adjustHour hour
          scan (validTime hour minute second tick))
        (do
          let hour ← adjustHour hour
          scan (validTime hour minute second 0)))
    (do
      let hour ← adjustHour hour
      scan (validTime hour minute 0 0))

def parse_time_no_tz : Cursor time_hmst := ifParses parse_flex_time pure fail

def parse_time : Cursor (time_hmst × Option (List UInt8)) :=
  ifParses parse_time_no_tz (fun hmst => ifParses parse_timezone (fun tz => pure (hmst, some tz)) (pure (hmst, none))) fail

/-! ## Datetimes -/

/-- "Dec 19 " or "19 Dec " -/
def monthAndDay : Cursor (ℤ × ℤ) :=
  ifParses (scan parse_1or2digit_int_no_ws)
    (fun day => do
      advance skip_required_whitespace
      let month ← parse_str_month_no_ws
      return (month, day))
    (ifParses parse_str_month_no_ws
      (fun month => do
        advance skip_required_whitespace
        let day ← scan parse_1or2digit_int_no_ws
        return (month, day))
      fail)

/-- Fri Dec 19 15:10:11 1997, Fri 19 Dec 15:10:11 1997 -/
def parse_postgres_datetime : Cursor datetime_struct := saved_begin_state do
  let weekday ← parse_str_weekday_no_ws
  advance skip_required_whitespace
  let (month, day) ← monthAndDay
  advance skip_required_whitespace
  let hmst ← parse_time_no_tz
  advance skip_required_whitespace
  let year ← scan parse_4digit_int_no_ws
  let ymd ← scan (validDate year month day)
  if ymd.get_weekday ≠ weekday then fail else return ⟨ymd, hmst⟩

section
variable (unset : ℤ × ℤ)

def optionalPart (unset : ℤ) (done : Bool) : Cursor (ℤ × Bool) :=
  if done then return (unset, true)
  else ifParses (scan parse_2digit_int_no_ws) (fun part => return (part, false)) (return (0, true))

/-- .SS* -/
def fraction (done : Bool) : Cursor ℤ :=
  ifParses (advance (parse_token_no_ws [ch '.']))
    (fun _ => if done then return 0 else ifParses (scan parseTicks) pure (return 0))
    (return 0)

/-- 19971219151011; `unset` are the minute and the second where the source never sets them. -/
def parse_iso8601_nodashes_datetime : Cursor datetime_struct := saved_begin_state do
  let year ← scan parse_4digit_int_no_ws
  let month ← scan parse_2digit_int_no_ws
  let day ← scan parse_2digit_int_no_ws
  let ymd ← scan (validDate year month day)
  let (hour, done) ← optionalPart 0 false
  let (minute, done) ← optionalPart unset.1 done
  let (second, done) ← optionalPart unset.2 done
  let tick ← fraction done
  let hmst ← scan (validTime hour minute second tick)
  return ⟨ymd, hmst⟩

variable (rawtime : ℤ) (ambig : date_parse_order_t) (century_window : ℤ)

/-- For ISO dash-formatted dates an hour alone is accepted as a time. -/
def parse_iso8601_hour : Cursor datetime_struct := do
  let ymd ← parse_iso8601_dashes_date
  -- Either a "T" or whitespace may separate a date and a time
  alternative (advance (parse_token_no_ws [ch 'T'])) (advance skip_required_whitespace)
  -- Require a 2 digit hour followed by a non-digit
  let hour ← scan parse_2digit_int_no_ws
  noDigit
  let hmst ← scan (validTime hour 0 0 0)
  return ⟨ymd, hmst⟩

/-- The time after a date and its separator. -/
def parseTimeOf (ymd : date_ymd) (saved_begin : List UInt8) : Cursor (datetime_struct × Option (List UInt8)) :=
  ifParses parse_time (fun time => return (⟨ymd, time.1⟩, time.2)) do
    restore saved_begin
    let dt ← parse_iso8601_hour
    return (dt, none)

/-- If there was just the date, set the rest to zero. -/
def afterSpace (ymd : date_ymd) (saved_begin : List UInt8) : Cursor (datetime_struct × Option (List UInt8)) := fun begin =>
  if begin = [] then (.ok (⟨ymd, ⟨0, 0, 0, 0⟩⟩, none), begin) else parseTimeOf ymd saved_begin begin

/-- `<date> T <time>`, `<date>:<time>`, `<date> <time>`, optionally followed by a timezone specifier. -/
def parse_date_time_datetime : Cursor (datetime_struct × Option (List UInt8)) := fun saved_begin =>
  saved_begin_state (do
    let ymd ← parse_date rawtime ambig century_window
    -- "T", ":', or whitespace may separate a date and a time
    ifParses (advance (parse_token [ch 'T']))
      (fun _ => do
        -- Allow whitespace around the T
        skip_whitespace
        parseTimeOf ymd saved_begin)
      (ifParses (advance (parse_token_no_ws [ch ':'])) (fun _ => parseTimeOf ymd saved_begin)
        (ifParses (advance skip_required_whitespace) (fun _ => afterSpace ymd saved_begin)
          (return (⟨ymd, ⟨0, 0, 0, 0⟩⟩, none))))) saved_begin

def parse_datetime : Cursor (datetime_struct × Option (List UInt8)) :=
  alternative (parse_date_time_datetime rawtime ambig century_window) <|
  alternative (ifParses parse_postgres_datetime (fun dt => return (dt, none)) fail) <|
  ifParses (parse_iso8601_nodashes_datetime unset) (fun dt => return (dt, none)) fail

end

/-! ## What the functions come to -/

/-- The same outcome, with the same text left where something was read. -/
inductive Agrees {α : Type} : Except scan_failure α × List UInt8 → Except scan_failure (α × List UInt8) → Prop where
  | read (a : α) (r : List UInt8) : Agrees (.ok a, r) (.ok (a, r))
  | failed (e : scan_failure) (s : List UInt8) : Agrees (.error e, s) (.error e)

section
variable {α β : Type} {s r : List UInt8}

theorem scan_eq (f : Scan α) (s : List UInt8) : scan f s =
    match f s with
    | .ok (a, rest) => (.ok a, rest)
    | .error e => (.error e, s) := rfl

theorem scan_ok {f : Scan α} {a : α} (h : f s = .ok (a, r)) : scan f s = (.ok a, r) := by
  rw [scan_eq, h]

theorem scan_error {f : Scan α} {e : scan_failure} (h : f s = .error e) : scan f s = (.error e, s) := by
  rw [scan_eq, h]

theorem scan_agrees (f : Scan α) (s : List UInt8) : Agrees (scan f s) (f s) := by
  cases h : f s with
  | ok x =>
    rw [scan_ok h]
    exact .read x.1 x.2
  | error e =>
    rw [scan_error h]
    exact .failed e s

/-- Where the body agrees with a scanner, the guarded function is the scanner. -/
theorem saved_begin_state_eq {body : Cursor α} {f : Scan α} (h : Agrees (body s) (f s)) :
    saved_begin_state body s = scan f s := by
  unfold saved_begin_state
  rw [scan_eq]
  generalize body s = out at h
  generalize f s = x at h
  cases h with
  | read a r => rfl
  | failed e r => rfl

theorem bind_of_ok {x : Cursor α} {f : α → Cursor β} {a : α} (h : x s = (.ok a, r)) : (x >>= f) s = f a r := by
  change (match x s with | (.ok a, begin) => f a begin | (.error e, begin) => (.error e, begin)) = _
  rw [h]

theorem bind_of_error {x : Cursor α} {f : α → Cursor β} {e : scan_failure} (h : x s = (.error e, r)) :
    (x >>= f) s = (.error e, r) := by
  change (match x s with | (.ok a, begin) => f a begin | (.error e, begin) => (.error e, begin)) = _
  rw [h]

theorem advance_eq (g : List UInt8 → Option (List UInt8)) (s : List UInt8) : advance g s =
    match g s with
    | some rest => (.ok (), rest)
    | none => (noMatch, s) := rfl

theorem advance_some {g : List UInt8 → Option (List UInt8)} (h : g s = some r) : advance g s = (.ok (), r) := by
  rw [advance_eq, h]

theorem advance_none {g : List UInt8 → Option (List UInt8)} (h : g s = none) : advance g s = (noMatch, s) := by
  rw [advance_eq, h]

theorem ifParses_eq (x : Cursor α) (yes : α → Cursor β) (no : Cursor β) (s : List UInt8) : ifParses x yes no s =
    match x s with
    | (.ok a, begin) => yes a begin
    | (.error .no_match, begin) => no begin
    | (.error (.thrown e), begin) => (.error (.thrown e), begin) := rfl

theorem Agrees.bind {x : Cursor α} {f : α → Cursor β} {y : Except scan_failure (α × List UInt8)}
    {k : α × List UInt8 → Except scan_failure (β × List UInt8)} (h : Agrees (x s) y)
    (hf : ∀ a r, Agrees (f a r) (k (a, r))) : Agrees ((x >>= f) s) (y >>= k) := by
  generalize hout : x s = out at h
  cases h with
  | read a r =>
    rw [bind_of_ok hout]
    exact hf a r
  | failed e r =>
    rw [bind_of_error hout]
    exact .failed e r

theorem Agrees.advance {g : List UInt8 → Option (List UInt8)} {f : Unit → Cursor β}
    {k : List UInt8 → Except scan_failure (β × List UInt8)} (hf : ∀ r, Agrees (f () r) (k r)) :
    Agrees ((SavedBegin.advance g >>= f) s) (matched (g s) >>= k) := by
  cases h : g s with
  | none =>
    rw [bind_of_error (advance_none h)]
    exact .failed _ s
  | some r =>
    rw [bind_of_ok (advance_some h)]
    exact hf r

theorem Agrees.noDigit {f : Unit → Cursor β} {x : Except scan_failure (β × List UInt8)} (h : Agrees (f () s) x) :
    Agrees ((SavedBegin.noDigit >>= f) s) (if nextIsDigit s then noMatch else x) := by
  split_ifs with hd
  · rw [bind_of_error (if_pos hd)]
    exact .failed _ s
  · rw [bind_of_ok (if_neg hd)]
    exact h

theorem Agrees.alternative {f : Scan α} {y : Cursor α} {z : Except scan_failure (α × List UInt8)} (h : Agrees (y s) z) :
    Agrees (SavedBegin.alternative (scan f) y s) (orElse (f s) z) := by
  unfold SavedBegin.alternative orElse
  rw [ifParses_eq]
  cases hf : f s with
  | ok x =>
    rw [scan_ok hf]
    exact .read x.1 x.2
  | error e =>
    rw [scan_error hf]
    cases e with
    | no_match => exact h
    | thrown e => exact .failed _ s

theorem ifParses_scan_ok {f : Scan α} {a : α} {yes : α → Cursor β} {no : Cursor β} (h : f s = .ok (a, r)) :
    ifParses (scan f) yes no s = yes a r := by
  rw [ifParses_eq, scan_ok h]

theorem ifParses_scan_noMatch {f : Scan α} {yes : α → Cursor β} {no : Cursor β} (h : f s = noMatch) :
    ifParses (scan f) yes no s = no s := by
  rw [ifParses_eq, scan_error h]

theorem ifParses_scan_thrown {f : Scan α} {yes : α → Cursor β} {no : Cursor β} {e : exception} (h : f s = .error (.thrown e)) :
    ifParses (scan f) yes no s = (.error (.thrown e), s) := by
  rw [ifParses_eq, scan_error h]

theorem ifParses_some {g : List UInt8 → Option (List UInt8)} {yes : Unit → Cursor β} {no : Cursor β} (h : g s = some r) :
    ifParses (advance g) yes no s = yes () r := by
  rw [ifParses_eq, advance_some h]

theorem ifParses_none {g : List UInt8 → Option (List UInt8)} {yes : Unit → Cursor β} {no : Cursor β} (h : g s = none) :
    ifParses (advance g) yes no s = no s := by
  rw [ifParses_eq, advance_none h]
  rfl

theorem skip_whitespace_eq (s : List UInt8) : skip_whitespace s = (.ok (), Parse.skip_whitespace s) := rfl

theorem optional_eq (g : List UInt8 → Option (List UInt8)) (s : List UInt8) :
    optional (advance g) s = (.ok (), (g s).getD s) := by
  unfold optional
  cases h : g s with
  | none => exact ifParses_none h
  | some r => exact ifParses_some h

end

theorem parse_digits_cases (n : ℕ) (s : List UInt8) :
    (∃ v r, parse_digits n s = .ok (v, r)) ∨ parse_digits n s = noMatch := by
  unfold parse_digits
  split_ifs
  · exact .inl ⟨_, _, rfl⟩
  · exact .inr rfl

theorem named_value_cases (nvt : List named_value) (s : List UInt8) :
    (∃ v r, parse_ci_alpha_str_named_value_no_ws nvt s = .ok (v, r)) ∨
      parse_ci_alpha_str_named_value_no_ws nvt s = noMatch := by
  unfold parse_ci_alpha_str_named_value_no_ws
  split
  · exact .inl ⟨_, _, rfl⟩
  · exact .inr rfl

theorem parse_1or2digit_cases (s : List UInt8) :
    (∃ v r, parse_1or2digit_int_no_ws s = .ok (v, r)) ∨ parse_1or2digit_int_no_ws s = noMatch := by
  unfold parse_1or2digit_int_no_ws
  split
  · split_ifs
    · exact .inl ⟨_, _, rfl⟩
    · exact .inl ⟨_, _, rfl⟩
    · exact .inr rfl
  · split_ifs
    · exact .inl ⟨_, _, rfl⟩
    · exact .inr rfl
  · exact .inr rfl

theorem parse_str_month_no_ws_eq : parse_str_month_no_ws = scan Parse.parse_str_month_no_ws := by
  funext s
  unfold parse_str_month_no_ws
  obtain ⟨v, r, h⟩ | h := named_value_cases named_month_table s
  · rw [ifParses_scan_ok h]
    refine (scan_ok ?_).symm
    unfold Parse.parse_str_month_no_ws
    rw [h]
    rfl
  · rw [ifParses_scan_noMatch h]
    refine (scan_error ?_).symm
    unfold Parse.parse_str_month_no_ws
    rw [h]
    rfl

theorem parse_str_month_cases (s : List UInt8) :
    (∃ v r, Parse.parse_str_month_no_ws s = .ok (v, r)) ∨ Parse.parse_str_month_no_ws s = noMatch := by
  unfold Parse.parse_str_month_no_ws
  obtain ⟨v, r, h⟩ | h := named_value_cases named_month_table s
  · exact .inl ⟨_, r, by rw [h]; rfl⟩
  · exact .inr (by rw [h]; rfl)

theorem parse_str_month_punct_no_ws_eq : parse_str_month_punct_no_ws = scan Parse.parse_str_month_punct_no_ws := by
  funext s
  unfold parse_str_month_punct_no_ws
  obtain ⟨v, r, h⟩ | h := named_value_cases named_month_table s
  · rw [ifParses_scan_ok h]
    have hread : Parse.parse_str_month_punct_no_ws s =
        if v > 12 then .ok (v - 12, (parse_token_no_ws [ch '.'] r).getD r) else .ok (v, r) := by
      unfold Parse.parse_str_month_punct_no_ws
      rw [h]
      rfl
    split_ifs at hread ⊢ with hv
    · rw [scan_ok hread]
      exact bind_of_ok (optional_eq _ r)
    · rw [scan_ok hread]
      rfl
  · rw [ifParses_scan_noMatch h]
    refine (scan_error ?_).symm
    unfold Parse.parse_str_month_punct_no_ws
    rw [h]
    rfl

section
variable (rawtime : ℤ) (ambig : date_parse_order_t) (century_window : ℤ)

theorem lastDay_agrees (s : List UInt8) : Agrees (lastDay s) (Parse.lastDay s) :=
  .bind (scan_agrees _ s) fun day r => .noDigit (.read day r)

theorem parse_md_eq (sep : UInt8) : parse_md sep = scan (Parse.parse_md sep) := by
  funext s
  apply saved_begin_state_eq
  refine .advance fun s => .bind (scan_agrees _ s) fun month s => ?_
  refine .advance fun s => .bind (lastDay_agrees s) fun day s => ?_
  exact .read (month, day) s

theorem parse_md_str_month_eq (sep : UInt8) : parse_md_str_month sep = scan (Parse.parse_md_str_month sep) := by
  funext s
  apply saved_begin_state_eq
  refine .advance fun s => .bind ?_ fun month s => ?_
  · rw [parse_str_month_no_ws_eq]
    exact scan_agrees _ s
  refine .advance fun s => .bind (lastDay_agrees s) fun day s => ?_
  exact .read (month, day) s

theorem twoDigitYear_agrees (s : List UInt8) :
    Agrees ((scan parse_2digit_int_no_ws >>= fun year => throws (resolve_2digit_year rawtime year century_window)) s)
      (parse_2digit_int_no_ws s >>= fun x => resolve_2digit_year rawtime x.1 century_window >>= fun year => pure (year, x.2)) := by
  refine .bind (scan_agrees _ s) fun year s => ?_
  unfold throws
  cases resolve_2digit_year rawtime year century_window with
  | ok year => exact .read year s
  | error e => exact .failed e s

theorem parse_year_agrees (twoDigits : Bool) (s : List UInt8) :
    Agrees (parse_year rawtime century_window twoDigits s) (Parse.parse_year rawtime century_window twoDigits s) := by
  refine Agrees.alternative ?_
  cases twoDigits with
  | false => exact .failed _ s
  | true => exact twoDigitYear_agrees rawtime century_window s

theorem parse_last_year_agrees (twoDigits : Bool) (s : List UInt8) :
    Agrees (parse_last_year rawtime century_window twoDigits s)
      (Parse.parse_last_year rawtime century_window twoDigits s) := by
  unfold parse_last_year Parse.parse_last_year
  obtain ⟨v, r, h⟩ | h : (∃ v r, parse_4digit_int_no_ws s = .ok (v, r)) ∨ parse_4digit_int_no_ws s = noMatch :=
    parse_digits_cases 4 s
  · rw [ifParses_scan_ok h, h]
    exact .noDigit (.read v r)
  · rw [ifParses_scan_noMatch h, h]
    cases twoDigits with
    | false => exact .failed _ s
    | true =>
      refine .bind (scan_agrees _ s) fun year s => .noDigit ?_
      unfold throws
      cases resolve_2digit_year rawtime year century_window with
      | ok year => exact .read year s
      | error e => exact .failed e s

theorem parse_ymd_sep_date_eq (sep : UInt8) : parse_ymd_sep_date rawtime ambig century_window sep =
    scan (Parse.parse_ymd_sep_date rawtime ambig century_window sep) := by
  funext s
  apply saved_begin_state_eq
  refine .bind (parse_year_agrees rawtime century_window _ s) fun year s => .bind ?_ ?_
  · rw [parse_md_eq, parse_md_str_month_eq]
    exact .alternative (scan_agrees _ s)
  · rintro ⟨month, day⟩ s
    exact scan_agrees _ s

theorem parse_mdy_ambig_sep_date_eq (sep : UInt8) : parse_mdy_ambig_sep_date rawtime century_window sep =
    scan (Parse.parse_mdy_ambig_sep_date rawtime century_window sep) := by
  funext s
  apply saved_begin_state_eq
  refine .bind (scan_agrees _ s) fun month s => .advance fun s => ?_
  refine .bind (scan_agrees _ s) fun day s => .advance fun s => ?_
  exact .bind (parse_last_year_agrees rawtime century_window _ s) fun year s => scan_agrees _ s

theorem parse_dmy_ambig_sep_date_eq (sep : UInt8) : parse_dmy_ambig_sep_date rawtime century_window sep =
    scan (Parse.parse_dmy_ambig_sep_date rawtime century_window sep) := by
  funext s
  apply saved_begin_state_eq
  refine .bind (scan_agrees _ s) fun day s => .advance fun s => ?_
  refine .bind (scan_agrees _ s) fun month s => .advance fun s => ?_
  exact .bind (parse_last_year_agrees rawtime century_window _ s) fun year s => scan_agrees _ s

theorem parse_dmy_str_month_sep_date_eq (sep : UInt8) : parse_dmy_str_month_sep_date rawtime ambig century_window sep =
    scan (Parse.parse_dmy_str_month_sep_date rawtime ambig century_window sep) := by
  funext s
  apply saved_begin_state_eq
  refine .bind (scan_agrees _ s) fun day s => .advance fun s => .bind ?_ fun month s => .advance fun s => ?_
  · rw [parse_str_month_no_ws_eq]
    exact scan_agrees _ s
  · exact .bind (parse_last_year_agrees rawtime century_window _ s) fun year s => scan_agrees _ s

theorem parse_dmy_str_month_ws_date_eq : parse_dmy_str_month_ws_date rawtime ambig century_window =
    scan (Parse.parse_dmy_str_month_ws_date rawtime ambig century_window) := by
  funext s
  apply saved_begin_state_eq
  refine .bind (scan_agrees _ s) fun day s => ?_
  rw [bind_of_ok (skip_whitespace_eq s)]
  refine .bind ?_ fun month s => ?_
  · rw [parse_str_month_no_ws_eq]
    exact scan_agrees _ _
  rw [bind_of_ok (skip_whitespace_eq s)]
  exact .bind (parse_last_year_agrees rawtime century_window _ _) fun year s => scan_agrees _ s

theorem parse_iso8601_year_agrees (s : List UInt8) : Agrees (parse_iso8601_year s) (Parse.parse_iso8601_year s) := by
  unfold parse_iso8601_year Parse.parse_iso8601_year
  cases hminus : parse_token_no_ws [ch '-'] s with
  | some r =>
    rw [ifParses_some hminus]
    exact .bind (scan_agrees _ r) fun year s => .read (-year) s
  | none =>
    rw [ifParses_none hminus]
    cases hplus : parse_token_no_ws [ch '+'] s with
    | some r =>
      rw [ifParses_some hplus]
      exact scan_agrees _ r
    | none =>
      rw [ifParses_none hplus]
      exact scan_agrees _ s

theorem parse_iso8601_dashes_date_eq : parse_iso8601_dashes_date = scan Parse.parse_iso8601_dashes_date := by
  funext s
  apply saved_begin_state_eq
  refine .bind (parse_iso8601_year_agrees s) fun year s => .bind ?_ ?_
  · rw [parse_md_eq]
    exact scan_agrees _ s
  · rintro ⟨month, day⟩ s
    exact scan_agrees _ s

theorem parse_iso8601_nodashes_date_eq : parse_iso8601_nodashes_date = scan Parse.parse_iso8601_nodashes_date := by
  funext s
  apply saved_begin_state_eq
  refine .bind (scan_agrees _ s) fun year s => .bind (scan_agrees _ s) fun month s => ?_
  exact .bind (scan_agrees _ s) fun day s => .noDigit (scan_agrees _ s)

theorem parse_mdy_long_format_date_eq : parse_mdy_long_format_date rawtime century_window =
    scan (Parse.parse_mdy_long_format_date rawtime century_window) := by
  funext s
  apply saved_begin_state_eq
  refine .bind ?_ fun month s => .advance fun s => .bind (scan_agrees _ s) fun day s => ?_
  · rw [parse_str_month_punct_no_ws_eq]
    exact scan_agrees _ s
  rw [bind_of_ok (optional_eq _ s), bind_of_ok (skip_whitespace_eq _)]
  exact .bind (parse_last_year_agrees rawtime century_window _ _) fun year s => scan_agrees _ s

/-- An alternative that fails has no part in the next. -/
theorem alternative_eq {α : Type} (f g : Scan α) : alternative (scan f) (scan g) = scan fun s => orElse (f s) (g s) := by
  funext s
  unfold alternative
  cases h : f s with
  | ok x =>
    rw [ifParses_scan_ok h]
    refine (scan_ok ?_).symm
    rw [h]
    rfl
  | error e =>
    cases e with
    | no_match =>
      rw [ifParses_scan_noMatch h]
      rw [scan_eq, scan_eq, h]
      rfl
    | thrown e =>
      rw [ifParses_scan_thrown h]
      refine (scan_error ?_).symm
      rw [h]
      rfl

theorem alternative_advance (g g' : List UInt8 → Option (List UInt8)) :
    alternative (advance g) (advance g') = advance fun s => (g s).or (g' s) := by
  funext s
  unfold alternative
  cases h : g s with
  | some r =>
    rw [ifParses_some h]
    refine (advance_some ?_).symm
    rw [h]
    rfl
  | none =>
    rw [ifParses_none h]
    rw [advance_eq, advance_eq, h]
    rfl

theorem withSeparators_eq (format : UInt8 → Scan date_ymd) :
    withSeparators (fun sep => scan (format sep)) = scan (Parse.withSeparators format) := by
  unfold withSeparators
  rw [alternative_eq, alternative_eq]
  rfl

theorem scan_if {α : Type} (p : Prop) [Decidable p] (f : Scan α) :
    (if p then scan f else fail) = scan fun s => if p then f s else noMatch := by
  split_ifs <;> rfl

/-- Each format begins where the first one did. -/
theorem parseFormats_eq : parseFormats rawtime ambig century_window = scan (Parse.parseFormats rawtime ambig century_window) := by
  unfold parseFormats
  simp only [parse_iso8601_dashes_date_eq, parse_iso8601_nodashes_date_eq, parse_dmy_str_month_ws_date_eq,
    parse_mdy_long_format_date_eq, funext (parse_ymd_sep_date_eq rawtime ambig century_window),
    funext (parse_dmy_str_month_sep_date_eq rawtime ambig century_window),
    funext (parse_mdy_ambig_sep_date_eq rawtime century_window),
    funext (parse_dmy_ambig_sep_date_eq rawtime century_window), withSeparators_eq, scan_if, alternative_eq]
  rfl

end

theorem adjustHour_eq (hour : ℤ) (s : List UInt8) :
    adjustHour hour s = (.ok (Parse.parse_time_ampm hour s).1, (Parse.parse_time_ampm hour s).2) := by
  unfold adjustHour parse_time_ampm ampmBody Parse.parse_time_ampm
  dsimp only
  cases parseOneOf [['A', 'M'], ['a', 'm'], ['A', '.', 'M', '.'], ['a', '.', 'm', '.'], ['a']] (Parse.skip_whitespace s) with
  | some r =>
    dsimp only
    split_ifs <;> rfl
  | none =>
    dsimp only
    cases parseOneOf [['P', 'M'], ['p', 'm'], ['P', '.', 'M', '.'], ['p', '.', 'm', '.'], ['p']] (Parse.skip_whitespace s) with
    | some r =>
      dsimp only
      split_ifs <;> rfl
    | none => rfl

theorem timeSeparator_eq : timeSeparator = advance Parse.timeSeparator := alternative_advance _ _

/-- The hour is adjusted and the time is validated. -/
theorem adjusted_agrees (hour minute second tick : ℤ) (s : List UInt8) :
    Agrees ((adjustHour hour >>= fun hour => scan (validTime hour minute second tick)) s)
      (match Parse.parse_time_ampm hour s with
        | (hour, begin) => validTime hour minute second tick begin) := by
  rw [bind_of_ok (adjustHour_eq hour s)]
  exact scan_agrees _ _

theorem parse_flex_time_eq : parse_flex_time = scan Parse.parse_flex_time := by
  funext s
  apply saved_begin_state_eq
  rw [timeSeparator_eq]
  refine .bind (scan_agrees _ s) fun hour s => .advance fun s => .bind (scan_agrees _ s) fun minute s => ?_
  dsimp only
  cases hsecond : Parse.timeSeparator s with
  | none =>
    rw [ifParses_none hsecond]
    exact adjusted_agrees hour minute 0 0 s
  | some r =>
    rw [ifParses_some hsecond]
    refine .bind (scan_agrees _ r) fun second s => ?_
    dsimp only
    cases htick : Parse.timeSeparator s with
    | none =>
      rw [ifParses_none htick]
      exact adjusted_agrees hour minute second 0 s
    | some r =>
      rw [ifParses_some htick]
      exact .bind (scan_agrees _ r) fun tick s => adjusted_agrees hour minute second tick s

/-- A function that goes on without failing, or fails where the call did. -/
theorem ifParses_fail_eq {α β : Type} {f : Scan α} {yes : α → Cursor β} {k : α × List UInt8 → β × List UInt8}
    (h : ∀ a r, yes a r = (.ok (k (a, r)).1, (k (a, r)).2)) :
    ifParses (scan f) yes fail = scan fun s => f s >>= fun x => pure (k x) := by
  funext s
  cases hf : f s with
  | ok x =>
    rw [ifParses_scan_ok hf, h]
    refine (scan_ok ?_).symm
    rw [hf]
    rfl
  | error e =>
    have hbind : (f s >>= fun x => pure (k x) : Except scan_failure (β × List UInt8)) = .error e := by rw [hf]; rfl
    rw [scan_error hbind]
    rw [ifParses_eq, scan_error hf]
    cases e <;> rfl

theorem parse_time_no_tz_eq : parse_time_no_tz = scan Parse.parse_time_no_tz := by
  unfold parse_time_no_tz
  rw [parse_flex_time_eq, @ifParses_fail_eq _ _ _ (pure : time_hmst → Cursor time_hmst) id fun hmst r => rfl]
  congr 1
  funext s
  exact bind_pure (Parse.parse_flex_time s)

/-- The time zone, where there is one. -/
def withZone (x : time_hmst × List UInt8) : (time_hmst × Option (List UInt8)) × List UInt8 :=
  match Parse.parse_timezone x.2 with
  | some (tz, begin) => ((x.1, some tz), begin)
  | none => ((x.1, none), x.2)

theorem parse_time_eq : parse_time = scan Parse.parse_time := by
  unfold parse_time
  rw [parse_time_no_tz_eq, @ifParses_fail_eq _ _ _ _ withZone]
  · congr 1
    funext s
    unfold Parse.parse_time withZone
    congr 1
    funext ⟨hmst, r⟩
    dsimp only
    cases Parse.parse_timezone r <;> rfl
  · intro hmst r
    unfold parse_timezone withZone
    cases h : Parse.parse_timezone r with
    | none => exact ifParses_scan_noMatch (by rw [h]; rfl)
    | some x => exact ifParses_scan_ok (by rw [h]; rfl)

theorem monthAndDay_agrees (s : List UInt8) : Agrees (monthAndDay s) (Parse.monthAndDay s) := by
  unfold monthAndDay Parse.monthAndDay
  rw [parse_str_month_no_ws_eq]
  obtain ⟨day, r, hday⟩ | hday := parse_1or2digit_cases s
  · rw [ifParses_scan_ok hday, hday]
    exact .advance fun s => .bind (scan_agrees _ s) fun month s => .read (month, day) s
  · rw [ifParses_scan_noMatch hday, hday]
    obtain ⟨month, r, hmonth⟩ | hmonth := parse_str_month_cases s
    · rw [ifParses_scan_ok hmonth]
      dsimp only
      rw [hmonth]
      exact .advance fun s => .bind (scan_agrees _ s) fun day s => .read (month, day) s
    · rw [ifParses_scan_noMatch hmonth]
      dsimp only
      rw [hmonth]
      exact .failed _ s

theorem parse_postgres_datetime_eq : parse_postgres_datetime = scan Parse.parse_postgres_datetime := by
  funext s
  apply saved_begin_state_eq
  rw [parse_time_no_tz_eq]
  refine .bind (scan_agrees _ s) fun weekday s => .advance fun s => .bind (monthAndDay_agrees s) ?_
  rintro ⟨month, day⟩ s
  refine .advance fun s => .bind (scan_agrees _ s) fun hmst s => .advance fun s => ?_
  refine .bind (scan_agrees _ s) fun year s => .bind (scan_agrees _ s) fun ymd s => ?_
  dsimp only
  split_ifs
  · exact .failed _ s
  · exact .read (datetime_struct.mk ymd hmst) s

section
variable (unset : ℤ × ℤ) (rawtime : ℤ) (ambig : date_parse_order_t) (century_window : ℤ)

theorem optionalPart_cases (unset : ℤ) (done : Bool) (s : List UInt8) : ∃ part done' r,
    Parse.optionalPart unset done s = (part, done', r) ∧ optionalPart unset done s = (.ok (part, done'), r) := by
  unfold optionalPart Parse.optionalPart
  cases done with
  | true => exact ⟨unset, true, s, rfl, rfl⟩
  | false =>
    obtain ⟨v, r, h⟩ | h : (∃ v r, parse_2digit_int_no_ws s = .ok (v, r)) ∨ parse_2digit_int_no_ws s = noMatch :=
      parse_digits_cases 2 s
    · refine ⟨v, false, r, ?_, ifParses_scan_ok h⟩
      rw [if_neg Bool.false_ne_true, h]
    · refine ⟨0, true, s, ?_, ifParses_scan_noMatch h⟩
      rw [if_neg Bool.false_ne_true, h]
      rfl

theorem parseTicks_cases (s : List UInt8) : (∃ v r, parseTicks s = .ok (v, r)) ∨ parseTicks s = noMatch := by
  unfold parseTicks
  split
  · exact .inr rfl
  · split_ifs
    · exact .inl ⟨_, _, rfl⟩
    · exact .inr rfl

theorem fraction_agrees {α : Type} {f : ℤ → Cursor α} {k : ℤ × List UInt8 → Except scan_failure (α × List UInt8)}
    (done : Bool) (s : List UInt8) (hf : ∀ tick r, Agrees (f tick r) (k (tick, r))) :
    Agrees ((fraction done >>= f) s) (k (match parse_token_no_ws [ch '.'] s with
      | none => (0, s)
      | some begin =>
        if done then (0, begin)
        else
          match parseTicks begin with
          | .ok (tick, begin) => (tick, begin)
          | .error _ => (0, begin))) := by
  cases hdot : parse_token_no_ws [ch '.'] s with
  | none =>
    have hread : fraction done s = (.ok 0, s) := ifParses_none hdot
    rw [bind_of_ok hread]
    exact hf 0 s
  | some begin =>
    cases done with
    | true =>
      have hread : fraction true s = (.ok 0, begin) := ifParses_some hdot
      rw [bind_of_ok hread]
      exact hf 0 begin
    | false =>
      dsimp only
      rw [if_neg Bool.false_ne_true]
      obtain ⟨tick, r, h⟩ | h := parseTicks_cases begin
      · have hread : fraction false s = (.ok tick, r) := (ifParses_some hdot).trans (ifParses_scan_ok h)
        rw [bind_of_ok hread, h]
        exact hf tick r
      · have hread : fraction false s = (.ok 0, begin) := (ifParses_some hdot).trans (ifParses_scan_noMatch h)
        rw [bind_of_ok hread, h]
        exact hf 0 begin

/-- The validated time at the end of a datetime. -/
theorem hmst_agrees (ymd : date_ymd) (hour minute second tick : ℤ) (s : List UInt8) :
    Agrees ((scan (validTime hour minute second tick) >>= fun hmst => pure (datetime_struct.mk ymd hmst)) s)
      (validTime hour minute second tick s >>= fun x => pure (⟨ymd, x.1⟩, x.2)) :=
  .bind (scan_agrees _ s) fun hmst s => .read (datetime_struct.mk ymd hmst) s

theorem parse_iso8601_nodashes_datetime_eq :
    parse_iso8601_nodashes_datetime unset = scan (Parse.parse_iso8601_nodashes_datetime unset) := by
  funext s
  apply saved_begin_state_eq
  refine .bind (scan_agrees _ s) fun year s => .bind (scan_agrees _ s) fun month s => ?_
  refine .bind (scan_agrees _ s) fun day s => .bind (scan_agrees _ s) fun ymd s => ?_
  obtain ⟨hour, done, s, hscan, hhour⟩ := optionalPart_cases 0 false s
  dsimp only
  rw [bind_of_ok hhour, hscan]
  obtain ⟨minute, done, s, hscan, hminute⟩ := optionalPart_cases unset.1 done s
  dsimp only
  rw [bind_of_ok hminute, hscan]
  obtain ⟨second, done, s, hscan, hsecond⟩ := optionalPart_cases unset.2 done s
  dsimp only
  rw [bind_of_ok hsecond, hscan]
  dsimp only
  exact fraction_agrees
    (k := fun x => validTime hour minute second x.1 x.2 >>= fun y => pure (datetime_struct.mk ymd y.1, y.2)) done s
    fun tick r => hmst_agrees ymd hour minute second tick r

theorem parse_iso8601_hour_agrees (s : List UInt8) : Agrees (parse_iso8601_hour s) (Parse.parse_iso8601_hour s) := by
  unfold parse_iso8601_hour
  rw [parse_iso8601_dashes_date_eq, alternative_advance]
  refine .bind (scan_agrees _ s) fun ymd s => .advance fun s => .bind (scan_agrees _ s) fun hour s => .noDigit ?_
  exact hmst_agrees ymd hour 0 0 0 s

theorem parseTimeOf_agrees (ymd : date_ymd) (saved_begin s : List UInt8) : Agrees (parseTimeOf ymd saved_begin s)
    (orElse (withTime ymd s) (withoutZone Parse.parse_iso8601_hour saved_begin)) := by
  unfold parseTimeOf withTime withoutZone
  rw [parse_time_eq]
  cases h : Parse.parse_time s with
  | ok x =>
    rw [ifParses_scan_ok h]
    exact .read _ _
  | error e =>
    cases e with
    | no_match =>
      rw [ifParses_scan_noMatch h, bind_of_ok (rfl : restore saved_begin s = (.ok (), saved_begin))]
      exact .bind (parse_iso8601_hour_agrees saved_begin) fun dt s => .read (dt, none) s
    | thrown e =>
      rw [ifParses_scan_thrown h]
      exact .failed _ s

/-- After the optional weekday. -/
theorem parse_date_eq (s : List UInt8) : parse_date rawtime ambig century_window s =
    (scan (Parse.parseFormats rawtime ambig century_window) >>= fun ymd =>
      if 0 ≤ (parseWeekday s).1 && ymd.get_weekday ≠ (parseWeekday s).1 then fail else pure ymd) (parseWeekday s).2 := by
  have hweekday : ifParses parse_str_weekday_no_ws
      (fun weekday => do
        optional (advance (parse_token [ch ',']))
        skip_whitespace
        return weekday)
      (return -1) s = (.ok (parseWeekday s).1, (parseWeekday s).2) := by
    change ifParses (scan Parse.parse_str_weekday_no_ws) _ _ s = _
    unfold parseWeekday
    obtain ⟨v, r, h⟩ | h : (∃ v r, Parse.parse_str_weekday_no_ws s = .ok (v, r)) ∨ Parse.parse_str_weekday_no_ws s = noMatch :=
      named_value_cases named_weekday_table s
    · rw [ifParses_scan_ok h, bind_of_ok (optional_eq _ r), bind_of_ok (skip_whitespace_eq _), h]
      rfl
    · rw [ifParses_scan_noMatch h, h]
      rfl
  unfold parse_date
  rw [bind_of_ok hweekday, parseFormats_eq]

theorem parse_date_agrees (s : List UInt8) :
    Agrees (parse_date rawtime ambig century_window s) (Parse.parse_date rawtime ambig century_window s) := by
  rw [parse_date_eq]
  refine .bind (scan_agrees _ _) fun ymd r => ?_
  change Agrees _ (if 0 ≤ (parseWeekday s).1 && ymd.get_weekday ≠ (parseWeekday s).1 then noMatch else pure (ymd, r))
  split_ifs
  · exact .failed _ r
  · exact .read ymd r

/-- Without a weekday nothing is read before the formats. -/
theorem parse_date_restores {s s' : List UInt8} (hweekday : Parse.parse_str_weekday_no_ws s = noMatch)
    (h : parse_date rawtime ambig century_window s = (noMatch, s')) : s' = s := by
  have hnone : parseWeekday s = (-1, s) := by
    unfold parseWeekday
    rw [hweekday]
    rfl
  rw [parse_date_eq, hnone] at h
  cases hformats : Parse.parseFormats rawtime ambig century_window s with
  | ok x =>
    rw [bind_of_ok (scan_ok hformats)] at h
    cases h
  | error e =>
    rw [bind_of_error (scan_error hformats)] at h
    exact (Prod.mk.inj h).2.symm

/-- Whatever was read after the weekday, the weekday is not put back. -/
theorem parse_date_moves {s s' : List UInt8} (hweekday : ∃ v r, Parse.parse_str_weekday_no_ws s = .ok (v, r))
    (h : parse_date rawtime ambig century_window s = (noMatch, s')) : s'.length < s.length := by
  have hshorter : (parseWeekday s).2.length < s.length := by
    obtain ⟨v, r, hweekday⟩ := hweekday
    obtain ⟨name, nv, hs, hmem, hname, -⟩ := named_value_read hweekday
    obtain ⟨after, hafter, -⟩ := comma_read r
    have hread : (parseWeekday s).2 = Parse.skip_whitespace ((parse_token [ch ','] r).getD r) := by
      unfold parseWeekday
      rw [hweekday]
    have hnamed : name.length = nv.name.length := by
      rw [← List.length_map, hname, List.length_map]
    have hletters : ∀ nv ∈ named_weekday_table, 0 < nv.name.length := by decide
    have hpos := hletters nv hmem
    have hlength := congrArg List.length hs
    have hlength' := congrArg List.length hafter
    rw [List.length_append] at hlength hlength'
    rw [hread]
    omega
  rw [parse_date_eq] at h
  cases hformats : Parse.parseFormats rawtime ambig century_window (parseWeekday s).2 with
  | error e =>
    rw [bind_of_error (scan_error hformats)] at h
    rw [← (Prod.mk.inj h).2]
    exact hshorter
  | ok x =>
    obtain ⟨body, y, m, d, hbody, -⟩ := parseFormats_read hformats
    rw [bind_of_ok (scan_ok hformats)] at h
    split_ifs at h
    · have hlength := congrArg List.length hbody
      rw [List.length_append] at hlength
      rw [← (Prod.mk.inj h).2]
      omega
    · cases h

theorem parse_date_time_datetime_eq : parse_date_time_datetime rawtime ambig century_window =
    scan (Parse.parse_date_time_datetime rawtime ambig century_window) := by
  funext s
  refine saved_begin_state_eq (.bind (parse_date_agrees rawtime ambig century_window s) fun ymd r => ?_)
  unfold datetimeSeparator
  dsimp only
  cases hT : parse_token [ch 'T'] r with
  | some r' =>
    rw [ifParses_some hT, bind_of_ok (skip_whitespace_eq r')]
    exact parseTimeOf_agrees ymd s _
  | none =>
    rw [ifParses_none hT]
    cases hcolon : parse_token_no_ws [ch ':'] r with
    | some r' =>
      rw [ifParses_some hcolon]
      exact parseTimeOf_agrees ymd s r'
    | none =>
      rw [ifParses_none hcolon]
      cases hspace : skip_required_whitespace r with
      | none =>
        rw [ifParses_none hspace]
        exact .read _ r
      | some r' =>
        rw [ifParses_some hspace]
        cases r' with
        | nil => exact .read _ []
        | cons c r' =>
          unfold afterSpace
          rw [if_neg (List.cons_ne_nil c r')]
          exact parseTimeOf_agrees ymd s _

/-- Each of the three begins where the first one did. -/
theorem parse_datetime_eq : parse_datetime unset rawtime ambig century_window =
    scan (Parse.parse_datetime unset rawtime ambig century_window) := by
  have hzone (f : Scan datetime_struct) : ifParses (scan f) (fun dt => pure (dt, none)) fail = scan (withoutZone f) :=
    @ifParses_fail_eq _ (datetime_struct × Option (List UInt8)) _ _ (fun x => ((x.1, none), x.2)) fun dt r => rfl
  unfold parse_datetime
  rw [parse_date_time_datetime_eq, parse_postgres_datetime_eq, parse_iso8601_nodashes_datetime_eq, hzone, hzone,
    alternative_eq, alternative_eq]
  rfl

/-! ## Every parse function -/

/-- A call of one of the functions that take `begin` by reference. -/
inductive sub_parse where
  | parse_str_month_no_ws
  | parse_str_month_punct_no_ws
  | parse_str_weekday_no_ws
  | parse_md (sep : UInt8)
  | parse_md_str_month (sep : UInt8)
  | parse_ymd_sep_date (sep : UInt8) (ambig : date_parse_order_t) (century_window : ℤ)
  | parse_mdy_ambig_sep_date (sep : UInt8) (century_window : ℤ)
  | parse_dmy_ambig_sep_date (sep : UInt8) (century_window : ℤ)
  | parse_dmy_str_month_sep_date (sep : UInt8) (ambig : date_parse_order_t) (century_window : ℤ)
  | parse_dmy_str_month_ws_date (ambig : date_parse_order_t) (century_window : ℤ)
  | parse_iso8601_dashes_date
  | parse_iso8601_nodashes_date
  | parse_mdy_long_format_date (century_window : ℤ)
  | parse_date (ambig : date_parse_order_t) (century_window : ℤ)
  | parse_timezone
  | parse_flex_time
  | parse_time_ampm (inout_hour : ℤ)
  | parse_time_no_tz
  | parse_time
  | parse_postgres_datetime
  | parse_iso8601_nodashes_datetime
  | parse_date_time_datetime (ambig : date_parse_order_t) (century_window : ℤ)
  | parse_datetime (ambig : date_parse_order_t) (century_window : ℤ)

/-- The call without what it reads. -/
def returned {α : Type} (x : Cursor α) : Cursor Unit := fun begin =>
  match x begin with
  | (.ok _, begin) => (.ok (), begin)
  | (.error e, begin) => (.error e, begin)

def sub_parse.call : sub_parse → Cursor Unit
  | .parse_str_month_no_ws => returned SavedBegin.parse_str_month_no_ws
  | .parse_str_month_punct_no_ws => returned SavedBegin.parse_str_month_punct_no_ws
  | .parse_str_weekday_no_ws => returned SavedBegin.parse_str_weekday_no_ws
  | .parse_md sep => returned (SavedBegin.parse_md sep)
  | .parse_md_str_month sep => returned (SavedBegin.parse_md_str_month sep)
  | .parse_ymd_sep_date sep ambig century_window =>
    returned (SavedBegin.parse_ymd_sep_date rawtime ambig century_window sep)
  | .parse_mdy_ambig_sep_date sep century_window => returned (SavedBegin.parse_mdy_ambig_sep_date rawtime century_window sep)
  | .parse_dmy_ambig_sep_date sep century_window => returned (SavedBegin.parse_dmy_ambig_sep_date rawtime century_window sep)
  | .parse_dmy_str_month_sep_date sep ambig century_window =>
    returned (SavedBegin.parse_dmy_str_month_sep_date rawtime ambig century_window sep)
  | .parse_dmy_str_month_ws_date ambig century_window =>
    returned (SavedBegin.parse_dmy_str_month_ws_date rawtime ambig century_window)
  | .parse_iso8601_dashes_date => returned SavedBegin.parse_iso8601_dashes_date
  | .parse_iso8601_nodashes_date => returned SavedBegin.parse_iso8601_nodashes_date
  | .parse_mdy_long_format_date century_window => returned (SavedBegin.parse_mdy_long_format_date rawtime century_window)
  | .parse_date ambig century_window => returned (SavedBegin.parse_date rawtime ambig century_window)
  | .parse_timezone => returned SavedBegin.parse_timezone
  | .parse_flex_time => returned SavedBegin.parse_flex_time
  | .parse_time_ampm inout_hour => fun begin =>
    (if (SavedBegin.parse_time_ampm inout_hour begin).1.1 then .ok () else noMatch,
      (SavedBegin.parse_time_ampm inout_hour begin).2)
  | .parse_time_no_tz => returned SavedBegin.parse_time_no_tz
  | .parse_time => returned SavedBegin.parse_time
  | .parse_postgres_datetime => returned SavedBegin.parse_postgres_datetime
  | .parse_iso8601_nodashes_datetime => returned (SavedBegin.parse_iso8601_nodashes_datetime unset)
  | .parse_date_time_datetime ambig century_window =>
    returned (SavedBegin.parse_date_time_datetime rawtime ambig century_window)
  | .parse_datetime ambig century_window => returned (SavedBegin.parse_datetime unset rawtime ambig century_window)

/-- `parse_date` puts `begin` back only where it does not begin with a weekday. -/
def sub_parse.Restores (p : sub_parse) (begin : List UInt8) : Prop :=
  match p with
  | .parse_date _ _ => ∀ weekday, Parse.parse_str_weekday_no_ws begin ≠ .ok weekday
  | _ => True

theorem returned_noMatch {α : Type} {x : Cursor α} {s s' : List UInt8} (h : returned x s = (noMatch, s')) :
    x s = (noMatch, s') := by
  unfold returned at h
  rcases hx : x s with ⟨_ | a, r⟩
  · rw [hx] at h
    obtain ⟨he, rfl⟩ := Prod.mk.inj h
    rw [Except.error.inj he]
    rfl
  · rw [hx] at h
    cases h

theorem returned_scan {α : Type} {x : Cursor α} {f : Scan α} {s s' : List UInt8} (hx : x = scan f)
    (h : returned x s = (noMatch, s')) : s' = s := by
  have hscan := returned_noMatch h
  rw [hx] at hscan
  cases hf : f s with
  | ok x =>
    rw [scan_ok hf] at hscan
    cases hscan
  | error e =>
    rw [scan_error hf] at hscan
    exact (Prod.mk.inj hscan).2.symm

theorem parse_time_ampm_false {hour : ℤ} {s : List UInt8} (h : (parse_time_ampm hour s).1.1 = false) :
    (parse_time_ampm hour s).2 = s := by
  unfold parse_time_ampm at h ⊢
  rcases hbody : ampmBody hour s with ⟨⟨_ | _, hour'⟩, r⟩
  · rfl
  · rw [hbody] at h
    cases h

theorem restores_of_false {p : sub_parse} {s s' : List UInt8} (h : p.call unset rawtime s = (noMatch, s'))
    (hp : ∀ ambig century_window, p ≠ .parse_date ambig century_window) : s' = s := by
  cases p with
  | parse_date ambig century_window => exact absurd rfl (hp ambig century_window)
  | parse_time_ampm hour =>
    obtain ⟨hfalse, rfl⟩ := Prod.mk.inj h
    apply parse_time_ampm_false
    by_contra htrue
    rw [if_pos (Bool.eq_true_of_not_eq_false htrue)] at hfalse
    cases hfalse
  | parse_str_month_no_ws => exact returned_scan parse_str_month_no_ws_eq h
  | parse_str_month_punct_no_ws => exact returned_scan parse_str_month_punct_no_ws_eq h
  | parse_md sep => exact returned_scan (parse_md_eq sep) h
  | parse_md_str_month sep => exact returned_scan (parse_md_str_month_eq sep) h
  | parse_str_weekday_no_ws => exact returned_scan rfl h
  | parse_timezone => exact returned_scan rfl h
  | parse_ymd_sep_date sep ambig window => exact returned_scan (parse_ymd_sep_date_eq rawtime ambig window sep) h
  | parse_mdy_ambig_sep_date sep window => exact returned_scan (parse_mdy_ambig_sep_date_eq rawtime window sep) h
  | parse_dmy_ambig_sep_date sep window => exact returned_scan (parse_dmy_ambig_sep_date_eq rawtime window sep) h
  | parse_dmy_str_month_sep_date sep ambig window =>
    exact returned_scan (parse_dmy_str_month_sep_date_eq rawtime ambig window sep) h
  | parse_dmy_str_month_ws_date ambig window =>
    exact returned_scan (parse_dmy_str_month_ws_date_eq rawtime ambig window) h
  | parse_iso8601_dashes_date => exact returned_scan parse_iso8601_dashes_date_eq h
  | parse_iso8601_nodashes_date => exact returned_scan parse_iso8601_nodashes_date_eq h
  | parse_mdy_long_format_date window => exact returned_scan (parse_mdy_long_format_date_eq rawtime window) h
  | parse_flex_time => exact returned_scan parse_flex_time_eq h
  | parse_time_no_tz => exact returned_scan parse_time_no_tz_eq h
  | parse_time => exact returned_scan parse_time_eq h
  | parse_postgres_datetime => exact returned_scan parse_postgres_datetime_eq h
  | parse_iso8601_nodashes_datetime => exact returned_scan (parse_iso8601_nodashes_datetime_eq unset) h
  | parse_date_time_datetime ambig window => exact returned_scan (parse_date_time_datetime_eq rawtime ambig window) h
  | parse_datetime ambig window => exact returned_scan (parse_datetime_eq unset rawtime ambig window) h

/-- A function that returns false leaves `begin` where it was, but for
`parse_date` after a weekday; the formats of `parse_date` and the three of
`parse_datetime` all begin where the first of them did. -/
theorem begin_restored_iff :
    (∀ (p : sub_parse) (s s' : List UInt8), p.call unset rawtime s = (noMatch, s') → (s' = s ↔ p.Restores s)) ∧
    parseFormats rawtime ambig century_window = scan (Parse.parseFormats rawtime ambig century_window) ∧
    parse_datetime unset rawtime ambig century_window = scan (Parse.parse_datetime unset rawtime ambig century_window) := by
  refine ⟨fun p s s' h => ?_, parseFormats_eq rawtime ambig century_window,
    parse_datetime_eq unset rawtime ambig century_window⟩
  cases p with
  | parse_date ambig century_window =>
    have hdate := returned_noMatch h
    refine ⟨fun hsame weekday hweekday => ?_, fun hnone => ?_⟩
    · have hmoved := parse_date_moves rawtime ambig century_window ⟨weekday.1, weekday.2, hweekday⟩ hdate
      rw [hsame] at hmoved
      exact lt_irrefl _ hmoved
    · obtain ⟨v, r, hweekday⟩ | hweekday := named_value_cases named_weekday_table s
      · exact absurd hweekday (hnone (v, r))
      · exact parse_date_restores rawtime ambig century_window hweekday hdate
  | _ =>
    refine iff_of_true (restores_of_false unset rawtime h fun _ _ hp => ?_) trivial
    cases hp

end

/-- A month without a day. -/
theorem begin_restored_month : ['-', '1'].map ch = ['-', '1'].map ch ↔
    sub_parse.Restores (.parse_md (ch '-')) (['-', '1'].map ch) :=
  (begin_restored_iff (0, 0) 0 .no_ambig 0).1 (.parse_md (ch '-')) _ _ rfl

/-- `parse_date` fails on "Fri 13" and leaves "13". -/
theorem weekday_not_restored : ¬ ∀ (p : sub_parse) (s s' : List UInt8), p.call (0, 0) 0 s = (noMatch, s') → s' = s := by
  intro h
  have hmoved := h (.parse_date .no_ambig 0) (['F', 'r', 'i', ' ', '1', '3'].map ch) (['1', '3'].map ch) rfl
  exact absurd hmoved (by decide)

end Dynd.SavedBegin
