import Dynd.DateUtil
import Dynd.ParseScalar
/-!
# Parsing dates

`string_to_date` tries its formats one after the other. A format that does not
match leaves the text as it was and the next one is tried; a bad
`century_window` is thrown out of the whole parse. A two digit year may need
the current year, so the system time is a parameter.
-/
namespace Dynd.Parse
open Lib

/-! ## Scanners -/

/-- `return false`, or an exception. -/
inductive scan_failure where
  | no_match
  | thrown (e : exception)
deriving DecidableEq, Repr

/-- What was read, and what is left. -/
abbrev Scan (α : Type) : Type := List UInt8 → Except scan_failure (α × List UInt8)

/-- `return sbs.fail();` -/
def noMatch {α : Type} : Except scan_failure α := .error .no_match

def matched {α : Type} : Option α → Except scan_failure α
  | some a => .ok a
  | none => noMatch

/-- `x || y`, where `x` leaves the text as it was when it is false. -/
def orElse {α : Type} (x y : Except scan_failure α) : Except scan_failure α :=
  match x with
  | .error .no_match => y
  | _ => x

/-- `begin < end && isdigit(begin[0])` -/
def nextIsDigit : List UInt8 → Bool
  | [] => false
  | c :: _ => isDigit c

/-- `d - '0'` -/
def digitValue (c : UInt8) : ℤ := c.toNat - 48

/-- `n` digits. -/
def parse_digits (n : ℕ) : Scan ℤ := fun begin =>
  if n ≤ begin.length && (begin.take n).all isDigit then
    .ok ((begin.take n).foldl (fun v c => v * 10 + digitValue c) 0, begin.drop n)
  else noMatch

def parse_2digit_int_no_ws : Scan ℤ := parse_digits 2

def parse_4digit_int_no_ws : Scan ℤ := parse_digits 4

def parse_6digit_int_no_ws : Scan ℤ := parse_digits 6

def parse_1or2digit_int_no_ws : Scan ℤ
  | d0 :: d1 :: begin =>
    if isDigit d0 then
      if isDigit d1 then .ok (digitValue d0 * 10 + digitValue d1, begin)
      else .ok (digitValue d0, d1 :: begin)
    else noMatch
  | [d0] => if isDigit d0 then .ok (digitValue d0, []) else noMatch
  | [] => noMatch

/-- The remainder after at least one byte of whitespace. -/
def skip_required_whitespace : List UInt8 → Option (List UInt8)
  | [] => none
  | c :: begin => if isspace c then some (skip_whitespace begin) else none

/-- `isalpha` in the C locale. -/
def isalpha (c : UInt8) : Bool := (ch 'a' ≤ c && c ≤ ch 'z') || (ch 'A' ≤ c && c ≤ ch 'Z')

/-- `tolower` in the C locale. -/
def tolower (c : UInt8) : UInt8 := if ch 'A' ≤ c && c ≤ ch 'Z' then c + 32 else c

/-- A name in lower case, and what it stands for. -/
structure named_value where
  name : List Char
  value : ℤ

def parse_ci_alpha_str_named_value_no_ws (nvt : List named_value) : Scan ℤ := fun begin =>
  match nvt.find? fun nv => nv.name.map ch = (begin.takeWhile isalpha).map tolower with
  | some nv => .ok (nv.value, begin.dropWhile isalpha)
  | none => noMatch

/-! ## Names -/

/-- Abbreviations have 12 added. -/
def named_month_table : List named_value := [
  ⟨['a', 'p', 'r'], 4 + 12⟩,
  ⟨['a', 'p', 'r', 'i', 'l'], 4⟩,
  ⟨['a', 'u', 'g'], 8 + 12⟩,
  ⟨['a', 'u', 'g', 'u', 's', 't'], 8⟩,
  ⟨['d', 'e', 'c'], 12 + 12⟩,
  ⟨['d', 'e', 'c', 'e', 'm', 'b', 'e', 'r'], 12⟩,
  ⟨['f', 'e', 'b'], 2 + 12⟩,
  ⟨['f', 'e', 'b', 'r', 'u', 'a', 'r', 'y'], 2⟩,
  ⟨['j', 'a', 'n'], 1 + 12⟩,
  ⟨['j', 'a', 'n', 'u', 'a', 'r', 'y'], 1⟩,
  ⟨['j', 'u', 'l'], 7 + 12⟩,
  ⟨['j', 'u', 'l', 'y'], 7⟩,
  ⟨['j', 'u', 'n'], 6 + 12⟩,
  ⟨['j', 'u', 'n', 'e'], 6⟩,
  ⟨['m', 'a', 'r'], 3 + 12⟩,
  ⟨['m', 'a', 'r', 'c', 'h'], 3⟩,
  ⟨['m', 'a', 'y'], 5 + 12⟩,
  ⟨['n', 'o', 'v'], 11 + 12⟩,
  ⟨['n', 'o', 'v', 'e', 'm', 'b', 'e', 'r'], 11⟩,
  ⟨['o', 'c', 't'], 10 + 12⟩,
  ⟨['o', 'c', 't', 'o', 'b', 'e', 'r'], 10⟩,
  ⟨['s', 'e', 'p'], 9 + 12⟩,
  ⟨['s', 'e', 'p', 't'], 9 + 12⟩,
  ⟨['s', 'e', 'p', 't', 'e', 'm', 'b', 'e', 'r'], 9⟩]

def parse_str_month_no_ws : Scan ℤ := fun begin => do
  let (month, begin) ← parse_ci_alpha_str_named_value_no_ws named_month_table begin
  return (if month > 12 then month - 12 else month, begin)

/-- A period is accepted after an abbreviation. -/
def parse_str_month_punct_no_ws : Scan ℤ := fun begin => do
  let (month, begin) ← parse_ci_alpha_str_named_value_no_ws named_month_table begin
  if month > 12 then return (month - 12, (parse_token_no_ws [ch '.'] begin).getD begin)
  else return (month, begin)

def named_weekday_table : List named_value := [
  ⟨['f', 'r', 'i'], 4⟩,
  ⟨['f', 'r', 'i', 'd', 'a', 'y'], 4⟩,
  ⟨['m', 'o', 'n'], 0⟩,
  ⟨['m', 'o', 'n', 'd', 'a', 'y'], 0⟩,
  ⟨['s', 'a', 't'], 5⟩,
  ⟨['s', 'a', 't', 'u', 'r', 'd', 'a', 'y'], 5⟩,
  ⟨['s', 'u', 'n'], 6⟩,
  ⟨['s', 'u', 'n', 'd', 'a', 'y'], 6⟩,
  ⟨['t', 'h', 'u'], 3⟩,
  ⟨['t', 'h', 'u', 'r', 's', 'd', 'a', 'y'], 3⟩,
  ⟨['t', 'u', 'e'], 1⟩,
  ⟨['t', 'u', 'e', 's', 'd', 'a', 'y'], 1⟩,
  ⟨['w', 'e', 'd'], 2⟩,
  ⟨['w', 'e', 'd', 'n', 'e', 's', 'd', 'a', 'y'], 2⟩]

def parse_str_weekday_no_ws : Scan ℤ := parse_ci_alpha_str_named_value_no_ws named_weekday_table

/-! ## Years of two digits -/

inductive date_parse_order_t where
  | no_ambig
  | ymd
  | mdy
  | dmy
deriving DecidableEq, Repr

/-- The window of a hundred years from `year_start` on. -/
def resolve_2digit_year_fixed_window (year year_start : ℤ) : ℤ :=
  let century_start := year_start.tdiv 100 * 100
  if year ≥ year_start - century_start then century_start + year else century_start + 100 + year

/-- The date of the system time `rawtime`, in seconds since 1970. -/
def current_date (rawtime : ℤ) : date_ymd :=
  if 0 ≤ rawtime then .set_from_days (Int32.ofInt (rawtime.tdiv 86400))
  else .set_from_days (Int32.ofInt ((rawtime - 86399).tdiv 86400))

def resolve_2digit_year_sliding_window (rawtime year years_ago : ℤ) : ℤ :=
  resolve_2digit_year_fixed_window year ((current_date rawtime).year.toInt - years_ago)

def resolve_2digit_year (rawtime year century_window : ℤ) : Except scan_failure ℤ :=
  if 1 ≤ century_window ∧ century_window ≤ 99 then
    .ok (resolve_2digit_year_sliding_window rawtime year century_window)
  else if 1000 ≤ century_window then .ok (resolve_2digit_year_fixed_window year century_window)
  else .error (.thrown ⟨s!"invalid century_window value {century_window}, must be 1-99 for a sliding window, or >= 1000 for a fixed window", []⟩)

/-! ## The formats -/

/-- Validate and return the date. -/
def validDate (year month day : ℤ) : Scan date_ymd := fun begin =>
  if date_ymd.is_valid year month day then .ok (⟨Int16.ofInt year, Int8.ofInt month, Int8.ofInt day⟩, begin) else noMatch

/-- A day that no other digit follows. -/
def lastDay : Scan ℤ := fun begin => do
  let (day, begin) ← parse_1or2digit_int_no_ws begin
  if nextIsDigit begin then noMatch else return (day, begin)

section
variable (rawtime : ℤ) (ambig : date_parse_order_t) (century_window : ℤ)

/-- sMMsDD for separator character 's' -/
def parse_md (sep : UInt8) : Scan (ℤ × ℤ) := fun begin => do
  let begin ← matched (parse_token_no_ws [sep] begin)
  let (month, begin) ← parse_1or2digit_int_no_ws begin
  let begin ← matched (parse_token_no_ws [sep] begin)
  let (day, begin) ← lastDay begin
  return ((month, day), begin)

/-- sMMMsDD for separator character 's' and string-based month -/
def parse_md_str_month (sep : UInt8) : Scan (ℤ × ℤ) := fun begin => do
  let begin ← matched (parse_token_no_ws [sep] begin)
  let (month, begin) ← parse_str_month_no_ws begin
  let begin ← matched (parse_token_no_ws [sep] begin)
  let (day, begin) ← lastDay begin
  return ((month, day), begin)

/-- A year of four digits, or of two where that is accepted. -/
def parse_year (twoDigits : Bool) : Scan ℤ := fun begin =>
  orElse (parse_4digit_int_no_ws begin) <|
    if twoDigits then do
      let (year, begin) ← parse_2digit_int_no_ws begin
      return (← resolve_2digit_year rawtime year century_window, begin)
    else noMatch

/-- The same at the end of a date: don't match if the next character is another digit. -/
def parse_last_year (twoDigits : Bool) : Scan ℤ := fun begin =>
  match parse_4digit_int_no_ws begin with
  | .ok (year, begin) => if nextIsDigit begin then noMatch else .ok (year, begin)
  | .error _ =>
    if twoDigits then do
      let (year, begin) ← parse_2digit_int_no_ws begin
      if nextIsDigit begin then noMatch
      else return (← resolve_2digit_year rawtime year century_window, begin)
    else noMatch

/-- 1979s03s22, 1979sMARs22 and if ambig is YMD, also accept 79s03s22, 79sMARs22 -/
def parse_ymd_sep_date (sep : UInt8) : Scan date_ymd := fun begin => do
  let (year, begin) ← parse_year rawtime century_window (century_window ≠ 0 && ambig = .ymd) begin
  let ((month, day), begin) ← orElse (parse_md sep begin) (parse_md_str_month sep begin)
  validDate year month day begin

/-- MMsDDsYYYY -/
def parse_mdy_ambig_sep_date (sep : UInt8) : Scan date_ymd := fun begin => do
  let (month, begin) ← parse_1or2digit_int_no_ws begin
  let begin ← matched (parse_token_no_ws [sep] begin)
  let (day, begin) ← parse_1or2digit_int_no_ws begin
  let begin ← matched (parse_token_no_ws [sep] begin)
  let (year, begin) ← parse_last_year rawtime century_window (century_window ≠ 0) begin
  validDate year month day begin

/-- DDsMMsYYYY -/
def parse_dmy_ambig_sep_date (sep : UInt8) : Scan date_ymd := fun begin => do
  let (day, begin) ← parse_1or2digit_int_no_ws begin
  let begin ← matched (parse_token_no_ws [sep] begin)
  let (month, begin) ← parse_1or2digit_int_no_ws begin
  let begin ← matched (parse_token_no_ws [sep] begin)
  let (year, begin) ← parse_last_year rawtime century_window (century_window ≠ 0) begin
  validDate year month day begin

/-- If ambig is DMY or MDY, also accept a year of two digits at the end. -/
def yearAtEnd : Bool := century_window ≠ 0 && (ambig = .dmy || ambig = .mdy)

/-- DDsMMMsYYYY -/
def parse_dmy_str_month_sep_date (sep : UInt8) : Scan date_ymd := fun begin => do
  let (day, begin) ← parse_1or2digit_int_no_ws begin
  let begin ← matched (parse_token_no_ws [sep] begin)
  let (month, begin) ← parse_str_month_no_ws begin
  let begin ← matched (parse_token_no_ws [sep] begin)
  let (year, begin) ← parse_last_year rawtime century_window (yearAtEnd ambig century_window) begin
  validDate year month day begin

/-- DDsMMMsYYYY for arbitrary amount of whitespace 's' -/
def parse_dmy_str_month_ws_date : Scan date_ymd := fun begin => do
  let (day, begin) ← parse_1or2digit_int_no_ws begin
  let (month, begin) ← parse_str_month_no_ws (skip_whitespace begin)
  let (year, begin) ← parse_last_year rawtime century_window (yearAtEnd ambig century_window) (skip_whitespace begin)
  validDate year month day begin

/-- YYYY, +YYYYYY, or -YYYYYY -/
def parse_iso8601_year : Scan ℤ := fun begin =>
  match parse_token_no_ws [ch '-'] begin with
  | some begin => do
    let (year, begin) ← parse_6digit_int_no_ws begin
    return (-year, begin)
  | none =>
    match parse_token_no_ws [ch '+'] begin with
    | some begin => parse_6digit_int_no_ws begin
    | none => parse_4digit_int_no_ws begin

/-- YYYY-MM-DD, +YYYYYY-MM-DD, or -YYYYYY-MM-DD -/
def parse_iso8601_dashes_date : Scan date_ymd := fun begin => do
  let (year, begin) ← parse_iso8601_year begin
  let ((month, day), begin) ← parse_md (ch '-') begin
  validDate year month day begin

/-- YYYYMMDD -/
def parse_iso8601_nodashes_date : Scan date_ymd := fun begin => do
  let (year, begin) ← parse_4digit_int_no_ws begin
  let (month, begin) ← parse_2digit_int_no_ws begin
  let (day, begin) ← parse_2digit_int_no_ws begin
  if nextIsDigit begin then noMatch else validDate year month day begin

/-- March 22, 1979 -/
def parse_mdy_long_format_date : Scan date_ymd := fun begin => do
  let (month, begin) ← parse_str_month_punct_no_ws begin
  let begin ← matched (skip_required_whitespace begin)
  let (day, begin) ← parse_1or2digit_int_no_ws begin
  -- Comma allowed, but not required
  let begin := skip_whitespace ((parse_token [ch ','] begin).getD begin)
  let (year, begin) ← parse_last_year rawtime century_window (century_window ≠ 0) begin
  validDate year month day begin

/-- The same format with each separator. -/
def withSeparators (format : UInt8 → Scan date_ymd) : Scan date_ymd := fun begin =>
  orElse (format (ch '/') begin) (orElse (format (ch '-') begin) (format (ch '.') begin))

/-- The formats in their order. -/
def parseFormats : Scan date_ymd := fun begin =>
  orElse (parse_iso8601_dashes_date begin) <|
  orElse (parse_iso8601_nodashes_date begin) <|
  orElse (withSeparators (parse_ymd_sep_date rawtime ambig century_window) begin) <|
  orElse (withSeparators (parse_dmy_str_month_sep_date rawtime ambig century_window) begin) <|
  orElse (parse_dmy_str_month_ws_date rawtime ambig century_window begin) <|
  orElse (parse_mdy_long_format_date rawtime century_window begin) <|
  orElse (if ambig = .mdy then withSeparators (parse_mdy_ambig_sep_date rawtime century_window) begin else noMatch) <|
  if ambig = .dmy then withSeparators (parse_dmy_ambig_sep_date rawtime century_window) begin else noMatch

/-- An optional weekday, with optional comma and whitespace after it. -/
def parseWeekday (begin : List UInt8) : ℤ × List UInt8 :=
  match parse_str_weekday_no_ws begin with
  | .ok (weekday, begin) => (weekday, skip_whitespace ((parse_token [ch ','] begin).getD begin))
  | .error _ => (-1, begin)

def parse_date : Scan date_ymd := fun begin => do
  let (weekday, begin) := parseWeekday begin
  let (ymd, begin) ← parseFormats rawtime ambig century_window begin
  -- If there was a weekday, validate it
  if 0 ≤ weekday && ymd.get_weekday ≠ weekday then noMatch else return (ymd, begin)

end

/-! ## The time after a date -/

/-- Skips the ####, ##, ##:## after a sign. -/
def skipOffset (begin : List UInt8) : List UInt8 :=
  match parse_4digit_int_no_ws begin with
  | .ok (_, begin) => begin
  | .error _ =>
  match parse_2digit_int_no_ws begin with
  | .error _ => begin
  | .ok (_, begin) =>
  match parse_token_no_ws [ch ':'] begin with
  | none => begin
  | some begin' =>
    match parse_2digit_int_no_ws begin' with
    | .ok (_, begin) => begin
    | .error _ => begin

/-- Skips Z, GMT, +####, -####, +##, -##, +##:##, -##:## -/
def skip_timezone (begin : List UInt8) : List UInt8 :=
  let begin := skip_whitespace begin
  match parse_token_no_ws [ch 'Z'] begin with
  | some begin => begin
  | none =>
  match parse_token_no_ws [ch 'G', ch 'M', ch 'T'] begin with
  | some begin => begin
  | none =>
  match (parse_token_no_ws [ch '+'] begin).or (parse_token_no_ws [ch '-'] begin) with
  | none => begin
  | some begin => skipOffset begin

/-- Skips 00:00:00.0000, 00:00:00.0000Z, 00:00:00.0000-06:00, 00:00:00.0000-0600, 00:00:00.0000-06 -/
def skip_midnight_time (begin : List UInt8) : List UInt8 :=
  match parse_token_no_ws [ch '0', ch '0'] begin with
  | none => begin
  | some begin =>
  -- Minute
  match parse_token_no_ws [ch ':', ch '0', ch '0'] begin with
  | none => skip_timezone begin
  | some begin =>
  -- Second
  match parse_token_no_ws [ch ':', ch '0', ch '0'] begin with
  | none => skip_timezone begin
  | some begin =>
  -- Second decimal
  match parse_token_no_ws [ch '.', ch '0'] begin with
  | none => skip_timezone begin
  | some begin => skip_timezone (begin.dropWhile (fun c => c = ch '0'))

/-- Either a "T" or whitespace may separate a date and a time. -/
def skipTime (begin : List UInt8) : List UInt8 :=
  match parse_token_no_ws [ch 'T'] begin with
  | some begin => skip_midnight_time begin
  | none =>
    match skip_required_whitespace begin with
    | some begin => skip_midnight_time begin
    | none => begin

/-- `string_to_date`: `noMatch` is `return false`. -/
def string_to_date (rawtime : ℤ) (ambig : date_parse_order_t) (century_window : ℤ) (errmode : assign_error_mode)
    (s : List UInt8) : Except scan_failure date_ymd := do
  let (ymd, begin) ← parse_date rawtime ambig century_window (skip_whitespace s)
  -- In mode "nocheck", just take what we got no matter what comes next.
  if errmode = .nocheck then return ymd
  else if skip_whitespace (skipTime begin) = [] then return ymd
  else noMatch

/-- `date_ymd::set_from_str`. -/
def date_set_from_str (rawtime : ℤ) (ambig : date_parse_order_t) (century_window : ℤ) (errmode : assign_error_mode)
    (s : List UInt8) : Except exception date_ymd :=
  match string_to_date rawtime ambig century_window errmode s with
  | .ok ymd => .ok ymd
  | .error .no_match => .error ⟨"Unable to parse … as a date", s⟩
  | .error (.thrown e) => .error e

end Dynd.Parse
