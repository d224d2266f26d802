import Dynd.DateParser
import Dynd.DatetimeUtil
/-!
# Parsing times and datetimes

A time is hours, minutes and optionally seconds with a fraction, an AM/PM
specifier and a time zone. `string_to_datetime` tries a date with a time after
it first, then two formats of its own.
-/
namespace Dynd.Parse
open Lib

/-! ## Times -/

/-- Matches a time zone: its text and what is left. -/
def parse_timezone (rbegin : List UInt8) : Option (List UInt8 × List UInt8) :=
  let tz_begin := skip_whitespace rbegin
  let matchTo (begin : List UInt8) := some (tz_begin.take (tz_begin.length - begin.length), begin)
  match tz_begin with
  | [] => none
  | c :: begin =>
    if c = ch '+' || c = ch '-' then
      -- ISO-style offset +05, +0500, -05:30
      match parse_2digit_int_no_ws begin with
      | .error _ => none
      | .ok (_, begin) =>
        let colon := parse_token_no_ws [ch ':'] begin
        if colon = none && !nextIsDigit begin then matchTo begin
        else
          match parse_2digit_int_no_ws (colon.getD begin) with
          | .error _ => none
          -- Don't allow extra digits
          | .ok (_, begin) => if nextIsDigit begin then none else matchTo begin
    else if isalpha c then
      -- Z, UTC, CST, America/Chicago, etc
      matchTo (begin.dropWhile fun c => isalpha c || c = ch '/')
    else none

/-- The first token of these that matches. -/
def parseOneOf (tokens : List (List Char)) (begin : List UInt8) : Option (List UInt8) :=
  tokens.findSome? fun token => parse_token (token.map ch) begin

/-- Matches various AM/PM indicators, and adjusts the hour value. -/
def parse_time_ampm (hour : ℤ) (begin : List UInt8) : ℤ × List UInt8 :=
  match parseOneOf [['A', 'M'], ['a', 'm'], ['A', '.', 'M', '.'], ['a', '.', 'm', '.'], ['a']] (skip_whitespace begin) with
  | some r =>
    -- Invalidate the hour for later checks to see
    if hour < 1 || hour > 12 then (-1, begin)
    -- 12:00 AM is 00:00
    else (if hour = 12 then 0 else hour, r)
  | none =>
  match parseOneOf [['P', 'M'], ['p', 'm'], ['P', '.', 'M', '.'], ['p', '.', 'm', '.'], ['p']] (skip_whitespace begin) with
  | some r => if hour < 1 || hour > 12 then (-1, begin) else (if hour < 12 then hour + 12 else hour, r)
  | none => (hour, begin)

/-- The rest of the loop over the digits of a fraction: `i` more digits, zero where there is none. -/
def tickLoop : ℕ → ℤ → List UInt8 → ℤ × List UInt8
  | 0, tick, begin => (tick, begin)
  | i + 1, tick, [] => tickLoop i (tick * 10) []
  | i + 1, tick, c :: begin =>
    if isDigit c then tickLoop i (tick * 10 + digitValue c) begin else tickLoop i (tick * 10) (c :: begin)

/-- At least one digit; additional decimal digits are swallowed, truncating to ticks. -/
def parseTicks : Scan ℤ
  | [] => noMatch
  | c :: begin =>
    if isDigit c then
      let (tick, begin) := tickLoop 6 (digitValue c) begin
      .ok (tick, begin.dropWhile isDigit)
    else noMatch

/-- Validate and return the time. -/
def validTime (hour minute second tick : ℤ) : Scan time_hmst := fun begin =>
  if time_hmst.is_valid hour minute second tick then
    .ok (⟨Int8.ofInt hour, Int8.ofInt minute, Int8.ofInt second, Int32.ofInt tick⟩, begin)
  else noMatch

/-- '.' or ':' -/
def timeSeparator (begin : List UInt8) : Option (List UInt8) :=
  (parse_token_no_ws [ch '.'] begin).or (parse_token_no_ws [ch ':'] begin)

/-- Similar to ISO 8601, but allow 1-digit hour, AM/PM specifier, either ':' or '.' to separate the time components. -/
def parse_flex_time : Scan time_hmst := fun begin => do
  -- HH
  let (hour, begin) ← parse_1or2digit_int_no_ws begin
  -- :MM
  let begin ← matched (timeSeparator begin)
  let (minute, begin) ← parse_2digit_int_no_ws begin
  -- :SS
  match timeSeparator begin with
  | none =>
    let (hour, begin) := parse_time_ampm hour begin
    validTime hour minute 0 0 begin
  | some begin =>
    let (second, begin) ← parse_2digit_int_no_ws begin
    -- .SS* or :SS*
    match timeSeparator begin with
    | none =>
      let (hour, begin) := parse_time_ampm hour begin
      validTime hour minute second 0 begin
    | some begin =>
      let (tick, begin) ← parseTicks begin
      let (hour, begin) := parse_time_ampm hour begin
      validTime hour minute second tick begin

def parse_time_no_tz : Scan time_hmst := parse_flex_time

/-- The time, and the text of the time zone if there is one. -/
def parse_time : Scan (time_hmst × Option (List UInt8)) := fun begin => do
  let (hmst, begin) ← parse_time_no_tz begin
  match parse_timezone begin with
  | some (tz, begin) => return ((hmst, some tz), begin)
  | none => return ((hmst, none), begin)

def string_to_time (s : List UInt8) : Except scan_failure (time_hmst × Option (List UInt8)) := do
  let (out, begin) ← parse_time (skip_whitespace s)
  if skip_whitespace begin = [] then return out else noMatch

/-! ## Datetimes -/

/-- "Dec 19 " or "19 Dec " -/
def monthAndDay : Scan (ℤ × ℤ) := fun begin =>
  match parse_1or2digit_int_no_ws begin with
  | .ok (day, begin) => do
    let begin ← matched (skip_required_whitespace begin)
    let (month, begin) ← parse_str_month_no_ws begin
    return ((month, day), begin)
  | .error _ => do
    let (month, begin) ← parse_str_month_no_ws begin
    let begin ← matched (skip_required_whitespace begin)
    let (day, begin) ← parse_1or2digit_int_no_ws begin
    return ((month, day), begin)

/-- Fri Dec 19 15:10:11 1997, Fri 19 Dec 15:10:11 1997 -/
def parse_postgres_datetime : Scan datetime_struct := fun begin => do
  let (weekday, begin) ← parse_str_weekday_no_ws begin
  let begin ← matched (skip_required_whitespace begin)
  let ((month, day), begin) ← monthAndDay begin
  let begin ← matched (skip_required_whitespace begin)
  let (hmst, begin) ← parse_time_no_tz begin
  let begin ← matched (skip_required_whitespace begin)
  let (year, begin) ← parse_4digit_int_no_ws begin
  let (ymd, begin) ← validDate year month day begin
  if ymd.get_weekday ≠ weekday then noMatch else return (⟨ymd, hmst⟩, begin)

section
variable (unset : ℤ × ℤ)

/-- The part of two digits and whether the parts are done; a part is `unset` when they were done before it. -/
def optionalPart (unset : ℤ) (done : Bool) (begin : List UInt8) : ℤ × Bool × List UInt8 :=
  if done then (unset, true, begin)
  else
    match parse_2digit_int_no_ws begin with
    | .ok (v, begin) => (v, false, begin)
    | .error _ => (0, true, begin)

/-- 19971219151011; `unset` are the minute and the second where the source never sets them. -/
def parse_iso8601_nodashes_datetime : Scan datetime_struct := fun begin => do
  let (year, begin) ← parse_4digit_int_no_ws begin
  let (month, begin) ← parse_2digit_int_no_ws begin
  let (day, begin) ← parse_2digit_int_no_ws begin
  let (ymd, begin) ← validDate year month day begin
  let (hour, done, begin) := optionalPart 0 false begin
  let (minute, done, begin) := optionalPart unset.1 done begin
  let (second, done, begin) := optionalPart unset.2 done begin
  -- .SS*
  let (tick, begin) :=
    match parse_token_no_ws [ch '.'] begin with
    | none => (0, begin)
    | some begin =>
      if done then (0, begin)
      else
        match parseTicks begin with
        | .ok (tick, begin) => (tick, begin)
        | .error _ => (0, begin)
  let (hmst, begin) ← validTime hour minute second tick begin
  return (⟨ymd, hmst⟩, begin)

variable (rawtime : ℤ) (ambig : date_parse_order_t) (century_window : ℤ)

/-- For ISO dash-formatted dates an hour alone is accepted as a time. -/
def parse_iso8601_hour : Scan datetime_struct := fun begin => do
  let (ymd, begin) ← parse_iso8601_dashes_date begin
  -- Either a "T" or whitespace may separate a date and a time
  let begin ← matched ((parse_token_no_ws [ch 'T'] begin).or (skip_required_whitespace begin))
  -- Require a 2 digit hour followed by a non-digit
  let (hour, begin) ← parse_2digit_int_no_ws begin
  if nextIsDigit begin then noMatch
  else
    let (hmst, begin) ← validTime hour 0 0 0 begin
    return (⟨ymd, hmst⟩, begin)

/-- What is left after the separator of a date and a time; nothing when there is just the date. -/
def datetimeSeparator (begin : List UInt8) : Option (List UInt8) :=
  match parse_token [ch 'T'] begin with
  -- Allow whitespace around the T
  | some begin => some (skip_whitespace begin)
  | none =>
    match parse_token_no_ws [ch ':'] begin with
    | some begin => some begin
    | none =>
      match skip_required_whitespace begin with
      | some (c :: begin) => some (c :: begin)
      | _ => none

def withTime (ymd : date_ymd) : Scan (datetime_struct × Option (List UInt8)) := fun begin => do
  let ((hmst, tz), begin) ← parse_time begin
  return ((⟨ymd, hmst⟩, tz), begin)

/-- A format that has no time zone. -/
def withoutZone (format : Scan datetime_struct) : Scan (datetime_struct × Option (List UInt8)) := fun begin => do
  let (dt, begin) ← format begin
  return ((dt, none), begin)

/-- `<date> T <time>`, `<date>:<time>`, `<date> <time>`, optionally followed by a timezone specifier. -/
def parse_date_time_datetime : Scan (datetime_struct × Option (List UInt8)) := fun saved_begin => do
  let (ymd, begin) ← parse_date rawtime ambig century_window saved_begin
  match datetimeSeparator begin with
  -- If there was just the date, set the rest to zero
  | none => return ((⟨ymd, ⟨0, 0, 0, 0⟩⟩, none), (skip_required_whitespace begin).getD begin)
  | some begin => orElse (withTime ymd begin) (withoutZone parse_iso8601_hour saved_begin)

def parse_datetime : Scan (datetime_struct × Option (List UInt8)) := fun begin =>
  orElse (parse_date_time_datetime rawtime ambig century_window begin) <|
  orElse (withoutZone parse_postgres_datetime begin) <|
  withoutZone (parse_iso8601_nodashes_datetime unset) begin

/-- `string_to_datetime`: the datetime and the text of its time zone. -/
def string_to_datetime (errmode : assign_error_mode) (s : List UInt8) :
    Except scan_failure (datetime_struct × Option (List UInt8)) := do
  let (out, begin) ← parse_datetime unset rawtime ambig century_window (skip_whitespace s)
  if skip_whitespace begin = [] || errmode = .nocheck then return out else noMatch

end

end Dynd.Parse
