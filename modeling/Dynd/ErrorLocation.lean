import Dynd.PrintInt
import Dynd.SkipJson
import Mathlib.Data.List.TakeWhile
/-!
# Where a parse error is

The JSON and the datashape parser catch their parse errors and report them with
a line and a column, which they find by going through the text line by line.
The line after the last line end is none for that loop, so there an internal
error takes the place of the parse error. `reports_iff` says where that is, and
which lines and columns an `int` holds.
-/
namespace Dynd.ErrorLocation
open Lib Parse Dynd.Json

/-! ## The function -/

/-- The out parameters. -/
structure location where
  line_prev : List UInt8
  line_cur : List UInt8
  line : ℤ
  column : ℤ
deriving DecidableEq

inductive exception where
  | invalid_argument (what : List UInt8)
  | runtime_error (what : List UInt8)
  | out_of_range
  /-- `++out_line` of the largest `int` -/
  | signed_overflow
deriving DecidableEq

abbrev newline : UInt8 := ch '\n'

/-- The bytes of a literal. -/
def lit (s : String) : List UInt8 := s.toUTF8.toList

/-- `int(position - begin + 1)`. -/
def columnFrom (begin position : List UInt8) : ℤ := Int.bmod (begin.length - position.length + 1) (2 ^ 32)

/-- The loop of `get_error_line_column`. A position is what is left of the text there. -/
def lineLoop (position out_line_cur : List UInt8) (out_line : ℤ) (begin : List UInt8) : Except exception location :=
  if begin = [] then .error (.runtime_error (lit "Cannot get line number of error, its position is out of range"))
  else
    -- the line that was the current one is now the previous one
    match hend : begin.dropWhile (· != newline) with
    | [] => .ok ⟨out_line_cur, begin, out_line, columnFrom begin position⟩
    | _ :: line_end =>
      let line := begin.takeWhile (· != newline)
      if line_end.length < position.length then .ok ⟨out_line_cur, line, out_line, columnFrom begin position⟩
      else if out_line = 2 ^ 31 - 1 then .error .signed_overflow
      else lineLoop position line (out_line + 1) line_end
termination_by begin.length
decreasing_by
  have hle := (List.dropWhile_suffix (· != newline) (l := begin)).length_le
  rw [hend] at hle
  exact hle

/-- The function of both files. -/
def errorLineColumn (begin position : List UInt8) : Except exception location := lineLoop position [] 1 begin

/-- A line of spaces and the mark below the column. -/
def caret (spaces : ℤ) : List UInt8 := List.replicate spaces.toNat (ch ' ') ++ [ch '^', newline]

/-- What both reports start with. -/
def heading (what : String) (l : location) : List UInt8 :=
  lit what ++ lit " at line " ++ intText l.line ++ lit ", column " ++ intText l.column ++ [newline]

/-- The lines of the error, the one before it only if there is one. -/
def shownLines (l : location) : List UInt8 := (if 1 < l.line then l.line_prev ++ [newline] else []) ++ l.line_cur ++ [newline]

namespace Json

def get_error_line_column (begin position : List UInt8) : Except exception location := errorLineColumn begin position

def print_json_parse_error_marker (l : location) : Except exception (List UInt8) :=
  -- If the line is short, print the lines and indicate the error
  if l.line_cur.length < 200 then .ok (shownLines l ++ caret (l.column - 1))
  -- If the line is long, print a part of the line and indicate the error
  else if l.column < 80 then .ok (l.line_cur.take 80 ++ lit " ...\n" ++ caret (l.column - 1))
  else
    let start := l.column - 60
    if l.line_cur.length < start - 1 then .error .out_of_range
    else .ok (lit " ... " ++ (l.line_cur.drop (start - 1).toNat).take 80 ++ lit " ...\n" ++ caret 65)

/-- The text of a report, the type in it only where the error has one. -/
def reportText (what : String) (tp : Option (List UInt8)) (message : List UInt8) (l : location) (marker : List UInt8) : List UInt8 :=
  heading what l ++ (tp.elim [] fun tp => lit "DyND Type: " ++ tp ++ [newline]) ++ lit "Message: " ++ message ++ [newline] ++ marker

/-- The `catch` clauses of `validate_json` and `parse_json`: what is thrown in place of a parse error. -/
def report (what : String) (json : List UInt8) (tp : Option (List UInt8)) (position message : List UInt8) : exception :=
  match get_error_line_column json position with
  | .error e => e
  | .ok l =>
    match print_json_parse_error_marker l with
    | .error e => e
    | .ok marker => .invalid_argument (reportText what tp message l marker)

def validate_json (json : List UInt8) : Except exception Unit :=
  match Dynd.Json.validate_json json with
  | .ok () => .ok ()
  | .error e => .error (report "Error validating JSON" json none e.position (lit e.message))

end Json

namespace Datashape

def get_error_line_column (begin position : List UInt8) : Except exception location := errorLineColumn begin position

def reportText (message : List UInt8) (l : location) : List UInt8 :=
  heading "Error parsing datashape" l ++ lit "Message: " ++ message ++ [newline] ++ shownLines l ++ caret (l.column - 1)

/-- The `catch` clause of `type_from_datashape`. -/
def report (datashape position message : List UInt8) : exception :=
  match get_error_line_column datashape position with
  | .error e => e
  | .ok l => .runtime_error (reportText message l)

end Datashape

/-! ## Where a position is -/

/-- The lines of a text, the last of which no line end follows. -/
def lines (text : List UInt8) : List (List UInt8) := text.splitOn newline

/-- The line and column of the position after `before`, and the lines there. -/
def locate (before position : List UInt8) : location where
  line_prev := ([] :: lines (before ++ position)).getD (before.count newline) []
  line_cur := (lines (before ++ position)).getD (before.count newline) []
  line := before.count newline + 1
  column := (before.reverse.takeWhile (· != newline)).length + 1

@[simp] theorem locate_line (before position : List UInt8) : (locate before position).line = before.count newline + 1 := rfl

@[simp] theorem locate_column (before position : List UInt8) :
    (locate before position).column = (before.reverse.takeWhile (· != newline)).length + 1 := rfl

/-- The end of the text is a position of a line only where something that is no line end stands before it. -/
def OnLine (before position : List UInt8) : Prop := position = [] → ∃ c, before.getLast? = some c ∧ c ≠ newline

/-! ## The loop -/

section
variable {position cur : List UInt8} {line : ℤ}

theorem lineLoop_nil : ∃ e, lineLoop position cur line [] = .error e := by
  rw [lineLoop, if_pos rfl]
  exact ⟨_, rfl⟩

theorem dropWhile_line {l : List UInt8} (h : newline ∉ l) (rest : List UInt8) :
    (l ++ newline :: rest).dropWhile (· != newline) = newline :: rest ∧ (l ++ newline :: rest).takeWhile (· != newline) = l := by
  have hl : ∀ c ∈ l, (c != newline) = true := fun c hc => bne_iff_ne.2 (ne_of_mem_of_not_mem hc h)
  constructor
  · rw [List.dropWhile_append_of_pos hl, List.dropWhile_cons_of_neg (by simp)]
  · rw [List.takeWhile_append_of_pos hl, List.takeWhile_cons_of_neg (by simp), List.append_nil]

/-- The last line, of a text that does not end with a line end. -/
theorem lineLoop_last {begin : List UInt8} (hne : begin ≠ []) (h : newline ∉ begin) :
    lineLoop position cur line begin = .ok ⟨cur, begin, line, columnFrom begin position⟩ := by
  have hend : begin.dropWhile (· != newline) = [] :=
    List.dropWhile_eq_nil_iff.2 fun c hc => bne_iff_ne.2 (ne_of_mem_of_not_mem hc h)
  rw [lineLoop, if_neg hne]
  split
  · rfl
  · rename_i hcons
    rw [hend] at hcons
    cases hcons

theorem lineLoop_line {l : List UInt8} (h : newline ∉ l) (rest : List UInt8) :
    lineLoop position cur line (l ++ newline :: rest) =
      if rest.length < position.length then .ok ⟨cur, l, line, columnFrom (l ++ newline :: rest) position⟩
      else if line = 2 ^ 31 - 1 then .error .signed_overflow
      else lineLoop position l (line + 1) rest := by
  obtain ⟨hend, hline⟩ := dropWhile_line h rest
  rw [lineLoop, if_neg (by simp)]
  split
  · rename_i hnil
    rw [hend] at hnil
    cases hnil
  · rename_i hcons
    rw [hend] at hcons
    obtain ⟨-, rfl⟩ := List.cons.inj hcons
    rw [hline]

/-- A position on the line that the loop has come to. -/
theorem lineLoop_here {before : List UInt8} (h : newline ∉ before) :
    (OnLine before position → lineLoop position cur line (before ++ position) =
      .ok ⟨cur, (lines (before ++ position)).getD 0 [], line, Int.bmod (before.length + 1) (2 ^ 32)⟩) ∧
    (¬ OnLine before position → ∃ e, lineLoop position cur line (before ++ position) = .error e) := by
  have hcolumn : columnFrom (before ++ position) position = Int.bmod (before.length + 1) (2 ^ 32) := by
    rw [columnFrom, List.length_append, Nat.cast_add, add_sub_cancel_right]
  by_cases hpos : newline ∈ position
  · obtain ⟨l, rest, rfl, hl⟩ := List.eq_append_cons_of_mem hpos
    have hline : newline ∉ before ++ l := fun hmem => (List.mem_append.1 hmem).elim h hl
    have hon : OnLine before (l ++ newline :: rest) := fun hnil => by simp at hnil
    refine ⟨fun _ => ?_, fun hoff => absurd hon hoff⟩
    rw [← List.append_assoc, lineLoop_line hline, if_pos (by simp; omega), lines, List.splitOn_append_cons_self_of_not_mem hline,
      List.getD_cons_zero, List.append_assoc, hcolumn]
  · have hline : newline ∉ before ++ position := fun hmem => (List.mem_append.1 hmem).elim h hpos
    rcases eq_or_ne (before ++ position) [] with hnil | hne
    · obtain ⟨rfl, rfl⟩ := List.append_eq_nil_iff.1 hnil
      refine ⟨fun hon => ?_, fun _ => lineLoop_nil⟩
      obtain ⟨c, hc, -⟩ := hon rfl
      cases hc
    · refine ⟨fun _ => ?_, fun hoff => absurd (fun hp => ?_) hoff⟩
      · rw [lineLoop_last hne hline, lines, List.splitOn_eq_singleton hline, List.getD_cons_zero, hcolumn]
      · rw [hp, List.append_nil] at hne
        exact ⟨_, List.getLast?_eq_some_getLast hne, ne_of_mem_of_not_mem (List.getLast_mem hne) h⟩

end

/-! ## The lines before a position -/

theorem takeWhile_reverse {l before : List UInt8} :
    (l ++ newline :: before).reverse.takeWhile (· != newline) = before.reverse.takeWhile (· != newline) := by
  rw [List.reverse_append, List.reverse_cons, List.append_assoc, List.takeWhile_append]
  split_ifs with hall
  · rw [List.singleton_append, List.takeWhile_cons_of_neg (by simp), List.append_nil]
    exact ((List.takeWhile_prefix _).eq_of_length hall).symm
  · rfl

/-- The first of the lines that have ended. -/
theorem split_first {n : ℕ} {before : List UInt8} (hn : before.count newline = n + 1) : ∃ l rest, before = l ++ newline :: rest ∧
    newline ∉ l ∧ rest.count newline = n := by
  have hmem : newline ∈ before := List.count_pos_iff.1 (by omega)
  obtain ⟨l, rest, rfl, hl⟩ := List.eq_append_cons_of_mem hmem
  refine ⟨l, rest, rfl, hl, ?_⟩
  rw [List.count_append, List.count_eq_zero.2 hl, List.count_cons_self] at hn
  omega

theorem onLine_cons {l before position : List UInt8} : OnLine (l ++ newline :: before) position ↔ OnLine before position := by
  refine imp_congr_right fun _ => ?_
  rw [List.getLast?_append_cons, List.getLast?_cons]
  cases before.getLast? <;> simp

/-- The loop from any line on: where it ends, and where it throws. -/
theorem lineLoop_spec (n : ℕ) : ∀ {before position cur : List UInt8} {line : ℤ}, before.count newline = n → line < 2 ^ 31 →
    (OnLine before position → line + n < 2 ^ 31 → lineLoop position cur line (before ++ position) =
      .ok ⟨(cur :: lines (before ++ position)).getD n [], (lines (before ++ position)).getD n [], line + n,
        Int.bmod ((before.reverse.takeWhile (· != newline)).length + 1) (2 ^ 32)⟩) ∧
    (¬ (OnLine before position ∧ line + n < 2 ^ 31) → ∃ e, lineLoop position cur line (before ++ position) = .error e) := by
  induction n with
  | zero =>
    intro before position cur line hn hline
    have hbefore := List.count_eq_zero.1 hn
    have hall : before.reverse.takeWhile (· != newline) = before.reverse := by
      refine List.takeWhile_eq_self_iff.2 fun c hc => bne_iff_ne.2 ?_
      exact ne_of_mem_of_not_mem (List.mem_reverse.1 hc) hbefore
    have hhere := @lineLoop_here position cur line before hbefore
    refine ⟨fun hon _ => ?_, fun hoff => hhere.2 fun hon => hoff ⟨hon, by simpa using hline⟩⟩
    rw [hhere.1 hon, hall, List.length_reverse, Nat.cast_zero, add_zero, List.getD_cons_zero]
  | succ n ih =>
    intro before position cur line hn hline
    obtain ⟨l, rest, rfl, hl, hrest⟩ := split_first hn
    have hsplit : lines (l ++ newline :: (rest ++ position)) = l :: lines (rest ++ position) :=
      List.splitOn_append_cons_self_of_not_mem hl _
    have hpast : ¬ (rest ++ position).length < position.length := by simp
    rw [takeWhile_reverse, onLine_cons, List.append_assoc, List.cons_append, hsplit, lineLoop_line hl, if_neg hpast,
      List.getD_cons_succ, List.getD_cons_succ]
    have hcast : line + ((n + 1 : ℕ) : ℤ) = line + 1 + n := by
      push_cast
      ring
    rw [hcast]
    by_cases hmax : line = 2 ^ 31 - 1
    · rw [if_pos hmax]
      exact ⟨fun _ hfit => by omega, fun _ => ⟨_, rfl⟩⟩
    · rw [if_neg hmax]
      exact ih hrest (by omega)

/-- A positive number is kept by an `int` that holds it. -/
theorem bmod_eq_iff {c : ℤ} (h : 0 < c) : Int.bmod c (2 ^ 32) = c ↔ c < 2 ^ 31 := by
  constructor
  · intro heq
    have := Int.bmod_lt (x := c) (m := 2 ^ 32) (by decide)
    rw [heq] at this
    omega
  · intro hlt
    exact Int.bmod_eq_of_le (by omega) (by omega)

/-- The function finds the line and the column exactly where the position is on a line and both are `int`s. -/
theorem errorLineColumn_iff (before position : List UInt8) : errorLineColumn (before ++ position) position = .ok (locate before position) ↔
    OnLine before position ∧ (locate before position).line < 2 ^ 31 ∧ (locate before position).column < 2 ^ 31 := by
  obtain ⟨hok, herr⟩ := @lineLoop_spec _ before position [] 1 rfl (by decide)
  rw [errorLineColumn, locate_line, locate_column, add_comm (before.count newline : ℤ)]
  by_cases h : OnLine before position ∧ 1 + (before.count newline : ℤ) < 2 ^ 31
  · rw [hok h.1 h.2, and_iff_right h.1, and_iff_right h.2, ← bmod_eq_iff (by omega), Except.ok.injEq, locate, location.mk.injEq]
    simp [add_comm]
  · obtain ⟨e, he⟩ := herr h
    rw [he]
    exact iff_of_false nofun fun hall => h ⟨hall.1, hall.2.1⟩

/-- The column of a position is on its line, or one past it. -/
theorem column_le (n : ℕ) : ∀ {before : List UInt8} (position : List UInt8), before.count newline = n →
    (before.reverse.takeWhile (· != newline)).length ≤ ((lines (before ++ position)).getD n []).length := by
  induction n with
  | zero =>
    intro before position hn
    have hbefore := List.count_eq_zero.1 hn
    have hlen : before.length ≤ ((lines (before ++ position)).getD 0 []).length := by
      by_cases hpos : newline ∈ position
      · obtain ⟨l, rest, rfl, hl⟩ := List.eq_append_cons_of_mem hpos
        have hline : newline ∉ before ++ l := fun hmem => (List.mem_append.1 hmem).elim hbefore hl
        rw [← List.append_assoc, lines, List.splitOn_append_cons_self_of_not_mem hline, List.getD_cons_zero, List.length_append]
        exact Nat.le_add_right _ _
      · have hline : newline ∉ before ++ position := fun hmem => (List.mem_append.1 hmem).elim hbefore hpos
        rw [lines, List.splitOn_eq_singleton hline, List.getD_cons_zero, List.length_append]
        exact Nat.le_add_right _ _
    refine le_trans ?_ hlen
    have hprefix := (List.takeWhile_prefix (· != newline) (l := before.reverse)).length_le
    rwa [List.length_reverse] at hprefix
  | succ n ih =>
    intro before position hn
    obtain ⟨l, rest, rfl, hl, hrest⟩ := split_first hn
    rw [takeWhile_reverse, List.append_assoc, List.cons_append, lines, List.splitOn_append_cons_self_of_not_mem hl,
      List.getD_cons_succ]
    exact ih position hrest

/-- So the part of the line that is printed starts on the line. -/
theorem print_marker (before position : List UInt8) : ∃ marker,
    Json.print_json_parse_error_marker (locate before position) = .ok marker := by
  have hle : (before.reverse.takeWhile (· != newline)).length ≤ (locate before position).line_cur.length := column_le _ position rfl
  have hstart : ¬ ((locate before position).line_cur.length : ℤ) < (locate before position).column - 60 - 1 := by
    rw [locate_column]
    omega
  rw [Json.print_json_parse_error_marker, if_neg hstart]
  split_ifs <;> exact ⟨_, rfl⟩

/-- What is said of an error at the position after `before`: the line and column of that position. -/
structure Reports (before position : List UInt8) : Prop where
  json : Json.get_error_line_column (before ++ position) position = .ok (locate before position)
  datashape : Datashape.get_error_line_column (before ++ position) position = .ok (locate before position)
  json_error : ∀ what tp message, ∃ marker, Json.print_json_parse_error_marker (locate before position) = .ok marker ∧
    Json.report what (before ++ position) tp position message =
      .invalid_argument (Json.reportText what tp message (locate before position) marker)
  datashape_error : ∀ message, Datashape.report (before ++ position) position message =
    .runtime_error (Datashape.reportText message (locate before position))

/-- Both parsers report an error at a position with its line and column exactly where the position is on a line and both are `int`s. -/
theorem reports_iff (before position : List UInt8) : Reports before position ↔
    OnLine before position ∧ (locate before position).line < 2 ^ 31 ∧ (locate before position).column < 2 ^ 31 := by
  rw [← errorLineColumn_iff]
  constructor
  · exact fun h => h.json
  · intro h
    obtain ⟨marker, hmarker⟩ := print_marker before position
    refine ⟨h, h, fun what tp message => ⟨marker, hmarker, ?_⟩, fun message => ?_⟩
    · simp only [Json.report, Json.get_error_line_column, h, hmarker]
    · rw [Datashape.report, Datashape.get_error_line_column, h]

/-- The end of a text that is an open bracket and a line end. -/
theorem after_line_end : ¬ Reports [ch '[', newline] [] := by
  intro h
  have hline : lineLoop [] [] 1 ([ch '['] ++ newline :: []) = lineLoop [] [ch '['] (1 + 1) [] := by
    rw [lineLoop_line (by decide), if_neg (by simp), if_neg (by decide)]
  obtain ⟨e, he⟩ := @lineLoop_nil [] [ch '['] (1 + 1)
  have hjson : lineLoop [] [] 1 ([ch '['] ++ newline :: []) = .ok (locate [ch '[', newline] []) := h.json
  rw [hline, he] at hjson
  cases hjson

/-! ## Errors of the scanner -/

/-- An error is at a position of the text. -/
def ErrorInside {α : Type} (text : List UInt8) (x : Except parse_error α) : Prop := ∀ e, x = .error e → e.position <:+ text

section
variable {α β : Type} {text : List UInt8}

theorem errorInside_ok (a : α) : ErrorInside text (.ok a : Except parse_error α) := nofun

theorem errorInside_error {position : List UInt8} (h : position <:+ text) (message : String) :
    ErrorInside text (.error ⟨position, message⟩ : Except parse_error α) := by
  intro e he
  cases he
  exact h

theorem ErrorInside.bind {x : Except parse_error α} {f : α → Except parse_error β} (hx : ErrorInside text x)
    (hf : ∀ a, x = .ok a → ErrorInside text (f a)) : ErrorInside text (x >>= f) := by
  cases x with
  | error e => exact fun e' he => hx e' (by cases he; rfl)
  | ok a => exact hf a rfl

theorem errorInside_expect {position : List UInt8} (h : position <:+ text) (o : Option α) (message : String) :
    ErrorInside text (expect o ⟨position, message⟩) := by
  cases o with
  | none => exact errorInside_error h message
  | some a => exact errorInside_ok a

theorem errorInside_quotedLoop (n : ℕ) {rbegin : List UInt8} (hr : rbegin <:+ text) : ∀ {begin : List UInt8}, begin.length = n →
    begin <:+ text → (∀ escaped, ErrorInside text (quotedLoop rbegin begin escaped)) ∧ ∀ k, ErrorInside text (hexLoop rbegin k begin) := by
  induction n using Nat.strong_induction_on with
  | _ n ih =>
    intro begin hn hbegin
    have hnext : ∀ {s : List UInt8}, s.length < n → s <:+ begin →
        (∀ escaped, ErrorInside text (quotedLoop rbegin s escaped)) ∧ ∀ k, ErrorInside text (hexLoop rbegin k s) :=
      fun hlt hs => ih _ hlt rfl (hs.trans hbegin)
    match begin, hn with
    | [], _ =>
      refine ⟨fun escaped => ?_, fun k => ?_⟩
      · rw [quotedLoop]
        exact errorInside_error hr _
      · rw [hexLoop]
        exact errorInside_error hbegin _
    | [c], hn =>
      have hnil := hnext (s := []) (by rw [← hn]; simp) (List.nil_suffix)
      refine ⟨fun escaped => ?_, fun k => ?_⟩
      · rw [quotedLoop]
        split_ifs
        · exact errorInside_error hr _
        · exact errorInside_ok _
        · exact hnil.1 escaped
      · rw [hexLoop]
        split_ifs
        · exact hnil.1 true
        · exact hnil.2 (k - 1)
        · exact errorInside_error hbegin _
    | c :: e :: s, hn =>
      have htail := hnext (s := e :: s) (by rw [← hn]; simp) (List.suffix_cons c _)
      have htail2 := hnext (s := s) (by rw [← hn]; simp) ((List.suffix_cons e s).trans (List.suffix_cons c _))
      refine ⟨fun escaped => ?_, fun k => ?_⟩
      · rw [quotedLoop]
        split_ifs
        · exact htail2.1 true
        · exact errorInside_error hbegin _
        · exact htail2.2 4
        · exact errorInside_error hbegin _
        · exact htail2.2 8
        · exact errorInside_error hbegin _
        · exact errorInside_ok _
        · exact htail.1 escaped
      · rw [hexLoop]
        split_ifs
        · exact htail.1 true
        · exact htail.2 (k - 1)
        · exact errorInside_error hbegin _

theorem errorInside_quoted {begin : List UInt8} (h : begin <:+ text) : ErrorInside text (parse_doublequote_string_no_ws begin) := by
  rw [parse_doublequote_string_no_ws]
  cases htoken : parse_token_no_ws [ch '"'] begin with
  | none => exact errorInside_ok _
  | some s =>
    have hs : s <:+ text := (parse_token_no_ws_iff.1 htoken ▸ List.suffix_cons (ch '"') s : s <:+ begin).trans h
    exact ((errorInside_quotedLoop _ h rfl hs).1 false).bind fun _ _ => errorInside_ok _

theorem suffix_of_token {token s r : List UInt8} (h : parse_token token s = some r) : r <:+ s := by
  have hr : skip_whitespace s = token ++ r := parse_token_no_ws_iff.1 h
  exact (hr ▸ List.suffix_append token r : r <:+ skip_whitespace s).trans (List.dropWhile_suffix _)

theorem suffix_of_quoted {s : List UInt8} {q : Quoted} (h : parse_doublequote_string_no_ws s = .ok (some q)) : q.rest <:+ s := by
  rw [(parse_doublequote_string_no_ws_iff.1 h).1]
  exact (List.suffix_cons _ _).trans (List.suffix_append _ _)

theorem suffix_of_value {n : ℕ} {s r : List UInt8} (h : skipValue n s = .ok r) : r <:+ s := by
  obtain ⟨w, v, hs⟩ := (skip_sound n).1 s r h
  rw [hs.split]
  exact (List.suffix_append v r).trans (List.suffix_append w _)

/-- The errors of the scanner, and what it leaves. -/
theorem errorInside_skip (n : ℕ) : (∀ {s}, s <:+ text → ErrorInside text (skipValue n s)) ∧
    (∀ {s}, s <:+ text → ErrorInside text (skipElements n s)) ∧ (∀ {s}, s <:+ text → ErrorInside text (skipMembers n s)) := by
  induction n with
  | zero =>
    refine ⟨fun h => ?_, fun h => ?_, fun h => ?_⟩
    · rw [skipValue]
      exact errorInside_error h _
    · rw [skipElements]
      exact errorInside_error h _
    · rw [skipMembers]
      exact errorInside_error h _
  | succ n ih =>
    obtain ⟨ihv, ihe, ihm⟩ := ih
    refine ⟨fun {s} h => ?_, fun {s} h => ?_, fun {s} h => ?_⟩
    · have hskip : skip_whitespace s <:+ text := (List.dropWhile_suffix _).trans h
      rw [skipValue]
      cases hs : skip_whitespace s with
      | nil => exact errorInside_error (List.nil_suffix) _
      | cons c t =>
        rw [hs] at hskip
        have ht : t <:+ text := (List.suffix_cons c t).trans hskip
        dsimp only
        split_ifs
        · cases parse_token [ch '}'] t with
          | some r => exact errorInside_ok r
          | none => exact ihm ht
        · cases parse_token [ch ']'] t with
          | some r => exact errorInside_ok r
          | none => exact ihe ht
        · exact (errorInside_quoted hskip).bind fun q _ => (errorInside_expect hskip q _).bind fun _ _ => errorInside_ok _
        · exact errorInside_expect hskip _ _
        · exact errorInside_expect hskip _ _
        · exact errorInside_expect hskip _ _
        · exact (errorInside_expect hskip _ _).bind fun _ _ => errorInside_ok _
        · exact errorInside_error hskip _
    · rw [skipElements]
      refine (ihv h).bind fun r hr => ?_
      have hr' : r <:+ text := (suffix_of_value hr).trans h
      cases hc : parse_token [ch ','] r with
      | some r' => exact ihe ((suffix_of_token hc).trans hr')
      | none => exact errorInside_expect hr' _ _
    · have hskip : skip_whitespace s <:+ text := (List.dropWhile_suffix _).trans h
      rw [skipMembers]
      refine (errorInside_quoted hskip).bind fun o ho => (errorInside_expect hskip o _).bind fun q hq => ?_
      have hrest : q.rest <:+ text := (suffix_of_quoted (expect_eq_ok.1 hq ▸ ho)).trans hskip
      refine (errorInside_expect hrest _ _).bind fun r hr => ?_
      have hr' : r <:+ text := (suffix_of_token (expect_eq_ok.1 hr)).trans hrest
      refine (ihv hr').bind fun r2 hr2 => ?_
      have hr2' : r2 <:+ text := (suffix_of_value hr2).trans hr'
      cases hc : parse_token [ch ','] r2 with
      | some r' => exact ihm ((suffix_of_token hc).trans hr2')
      | none => exact errorInside_expect hr2' _ _

/-- Every syntax error of `validate_json` is at a position of the text. -/
theorem validate_json_position {json : List UInt8} : ErrorInside json (Dynd.Json.validate_json json) := by
  rw [Dynd.Json.validate_json]
  refine ((errorInside_skip _).1 (List.suffix_refl json)).bind fun r hr => ?_
  have hr' : skip_whitespace r <:+ json := (List.dropWhile_suffix _).trans (suffix_of_value hr)
  dsimp only
  split_ifs with hne
  · exact errorInside_error hr' _
  · exact errorInside_ok _

end

/-- What `validate_json` throws for a text that is no JSON: its error, at the line and the column where it is. -/
theorem validate_json_reports {json : List UInt8} {e : parse_error} (h : Dynd.Json.validate_json json = .error e) :
    ∃ before, json = before ++ e.position ∧ (Reports before e.position → ∃ marker, Json.validate_json json =
      .error (.invalid_argument (Json.reportText "Error validating JSON" none (lit e.message) (locate before e.position) marker))) := by
  obtain ⟨before, hsplit⟩ := validate_json_position e h
  refine ⟨before, hsplit.symm, fun hr => ?_⟩
  obtain ⟨marker, -, hreport⟩ := hr.json_error "Error validating JSON" none (lit e.message)
  rw [hsplit] at hreport
  exact ⟨marker, by rw [Json.validate_json, h]; exact congrArg Except.error hreport⟩

end Dynd.ErrorLocation
