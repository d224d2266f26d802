import Dynd.DateParser
/-!
# What a date is written as

`DateText` is the grammar of the formats of `parse_date`: the text of a date
with the year, the month and the day it names. Whatever `string_to_date`
accepts is such a text, and the date it returns is the one written whenever
the year fits 16 bits.
-/
namespace Dynd.Parse
open Lib Gregorian

/-! ## The grammar -/

/-- `n` digits, and the number they are. -/
def Number (n : ℕ) (text : List UInt8) (v : ℤ) : Prop :=
  ∃ ds : List (Fin 10), ds.length = n ∧ text = digitBytes ds ∧ v = horner 10 0 (ds.map Fin.val)

/-- One or two digits. -/
def ShortNumber (text : List UInt8) (v : ℤ) : Prop := Number 1 text v ∨ Number 2 text v

def monthNames : List (List Char) := [
  ['j', 'a', 'n', 'u', 'a', 'r', 'y'],
  ['f', 'e', 'b', 'r', 'u', 'a', 'r', 'y'],
  ['m', 'a', 'r', 'c', 'h'],
  ['a', 'p', 'r', 'i', 'l'],
  ['m', 'a', 'y'],
  ['j', 'u', 'n', 'e'],
  ['j', 'u', 'l', 'y'],
  ['a', 'u', 'g', 'u', 's', 't'],
  ['s', 'e', 'p', 't', 'e', 'm', 'b', 'e', 'r'],
  ['o', 'c', 't', 'o', 'b', 'e', 'r'],
  ['n', 'o', 'v', 'e', 'm', 'b', 'e', 'r'],
  ['d', 'e', 'c', 'e', 'm', 'b', 'e', 'r']]

def weekdayNames : List (List Char) := [
  ['m', 'o', 'n', 'd', 'a', 'y'],
  ['t', 'u', 'e', 's', 'd', 'a', 'y'],
  ['w', 'e', 'd', 'n', 'e', 's', 'd', 'a', 'y'],
  ['t', 'h', 'u', 'r', 's', 'd', 'a', 'y'],
  ['f', 'r', 'i', 'd', 'a', 'y'],
  ['s', 'a', 't', 'u', 'r', 'd', 'a', 'y'],
  ['s', 'u', 'n', 'd', 'a', 'y']]

/-- A name in any case: the whole of it, its first three letters, or "sept". -/
def Spelled (text : List UInt8) (name : List Char) : Prop :=
  text.map tolower = name.map ch ∨ text.map tolower = (name.take 3).map ch ∨
    name = monthNames.getD 8 [] ∧ text.map tolower = (name.take 4).map ch

instance (text : List UInt8) (name : List Char) : Decidable (Spelled text name) :=
  inferInstanceAs (Decidable (_ ∨ _ ∨ _))

def MonthName (text : List UInt8) (m : ℤ) : Prop := ∃ i : Fin 12, m = i + 1 ∧ Spelled text (monthNames.getD i [])

/-- A weekday, and an optional comma and whitespace after it. -/
def WeekdayText (text : List UInt8) : Prop := ∃ (i : Fin 7) (name after : List UInt8),
  text = name ++ after ∧ Spelled name (weekdayNames.getD i []) ∧ ∀ c ∈ after, c = ch ',' ∨ isspace c = true

def IsoYear (text : List UInt8) (y : ℤ) : Prop :=
  Number 4 text y ∨ (∃ t, text = ch '+' :: t ∧ Number 6 t y) ∨ ∃ t v, text = ch '-' :: t ∧ Number 6 t v ∧ y = -v

section
variable (rawtime : ℤ) (ambig : date_parse_order_t) (century_window : ℤ)

/-- Four digits, or two digits where `twoDigits` says so, and the year they stand for. -/
def YearText (twoDigits : Bool) (text : List UInt8) (y : ℤ) : Prop :=
  Number 4 text y ∨ twoDigits = true ∧ ∃ v, Number 2 text v ∧ resolve_2digit_year rawtime v century_window = .ok y

/-- The separators '/', '-' and '.'. -/
def IsSeparator (sep : UInt8) : Prop := sep = ch '/' ∨ sep = ch '-' ∨ sep = ch '.'

/-- A text, and the year, the month and the day it names. -/
inductive DateText : List UInt8 → ℤ → ℤ → ℤ → Prop where
  | dashes {yt mt dt : List UInt8} {y m d : ℤ} : IsoYear yt y → ShortNumber mt m → ShortNumber dt d →
      DateText (yt ++ ch '-' :: (mt ++ ch '-' :: dt)) y m d
  | nodashes {yt mt dt : List UInt8} {y m d : ℤ} : Number 4 yt y → Number 2 mt m → Number 2 dt d →
      DateText (yt ++ (mt ++ dt)) y m d
  | ymd {sep : UInt8} {yt mt dt : List UInt8} {y m d : ℤ} : IsSeparator sep →
      YearText rawtime century_window (century_window ≠ 0 && ambig = .ymd) yt y → ShortNumber mt m ∨ MonthName mt m →
      ShortNumber dt d → DateText (yt ++ sep :: (mt ++ sep :: dt)) y m d
  | dmyName {sep : UInt8} {yt mt dt : List UInt8} {y m d : ℤ} : IsSeparator sep → ShortNumber dt d → MonthName mt m →
      YearText rawtime century_window (yearAtEnd ambig century_window) yt y →
      DateText (dt ++ sep :: (mt ++ sep :: yt)) y m d
  | dmySpaces {w w' yt mt dt : List UInt8} {y m d : ℤ} : ShortNumber dt d → Ws w → MonthName mt m → Ws w' →
      YearText rawtime century_window (yearAtEnd ambig century_window) yt y →
      DateText (dt ++ (w ++ (mt ++ (w' ++ yt)))) y m d
  | long {dot w comma yt mt dt : List UInt8} {y m d : ℤ} : MonthName mt m → dot = [] ∨ dot = [ch '.'] → Ws w → w ≠ [] →
      ShortNumber dt d → (∀ c ∈ comma, c = ch ',' ∨ isspace c = true) →
      YearText rawtime century_window (century_window ≠ 0) yt y →
      DateText (mt ++ (dot ++ (w ++ (dt ++ (comma ++ yt))))) y m d
  | mdy {sep : UInt8} {yt mt dt : List UInt8} {y m d : ℤ} : ambig = .mdy → IsSeparator sep → ShortNumber mt m →
      ShortNumber dt d → YearText rawtime century_window (century_window ≠ 0) yt y →
      DateText (mt ++ sep :: (dt ++ sep :: yt)) y m d
  | dmy {sep : UInt8} {yt mt dt : List UInt8} {y m d : ℤ} : ambig = .dmy → IsSeparator sep → ShortNumber dt d →
      ShortNumber mt m → YearText rawtime century_window (century_window ≠ 0) yt y →
      DateText (dt ++ sep :: (mt ++ sep :: yt)) y m d

end

/-! ## What the scanners read -/

theorem noMatch_ne_ok {α : Type} {v : α} : ¬ noMatch = .ok v := by
  intro h
  cases h

theorem matched_eq_ok {α : Type} {o : Option α} {v : α} : matched o = .ok v ↔ o = some v := by
  cases o with
  | none => exact ⟨fun h => absurd h noMatch_ne_ok, fun h => by cases h⟩
  | some a => exact ⟨fun h => congrArg some (Except.ok.inj h), fun h => congrArg _ (Option.some.inj h)⟩

theorem orElse_eq_ok {α : Type} {x y : Except scan_failure α} {v : α} (h : orElse x y = .ok v) : x = .ok v ∨ y = .ok v := by
  cases x with
  | ok a => exact .inl h
  | error e =>
    cases e with
    | no_match => exact .inr h
    | thrown e => cases h

theorem token_read {sep : UInt8} {s r : List UInt8} (h : matched (parse_token_no_ws [sep] s) = .ok r) : s = sep :: r :=
  parse_token_no_ws_iff.1 (matched_eq_ok.1 h)

theorem digitValue_digitByte (d : Fin 10) : digitValue (digitByte d) = d.val := by
  rw [digitValue, digitByte_toNat]
  omega

/-- The digits are read in one pass. -/
theorem foldl_digitValue (ds : List (Fin 10)) (v : ℕ) :
    (digitBytes ds).foldl (fun v c => v * 10 + digitValue c) (v : ℤ) = horner 10 v (ds.map Fin.val) := by
  induction ds generalizing v with
  | nil => rfl
  | cons d ds ih =>
    have hstep : (v : ℤ) * 10 + digitValue (digitByte d) = ((10 * v + d.val : ℕ) : ℤ) := by
      rw [digitValue_digitByte]
      push_cast
      ring
    rw [digitBytes, List.map_cons, List.foldl_cons, hstep]
    exact ih _

theorem exists_digitBytes {s : List UInt8} (h : ∀ c ∈ s, isDigit c = true) : ∃ ds, s = digitBytes ds := by
  induction s with
  | nil => exact ⟨[], rfl⟩
  | cons c s ih =>
    rw [List.forall_mem_cons] at h
    obtain ⟨d, rfl⟩ := exists_digitByte h.1
    obtain ⟨ds, rfl⟩ := ih h.2
    exact ⟨d :: ds, rfl⟩

theorem parse_digits_iff {n : ℕ} {s r : List UInt8} {v : ℤ} :
    parse_digits n s = .ok (v, r) ↔ ∃ text, s = text ++ r ∧ Number n text v := by
  rw [parse_digits]
  constructor
  · intro h
    split_ifs at h with hd
    · simp only [Bool.and_eq_true, decide_eq_true_eq, List.all_eq_true] at hd
      obtain ⟨hv, rfl⟩ := Prod.mk.inj (Except.ok.inj h)
      obtain ⟨ds, hds⟩ := exists_digitBytes hd.2
      refine ⟨s.take n, (List.take_append_drop n s).symm, ds, ?_, hds, ?_⟩
      · have hlen := congrArg List.length hds
        rw [List.length_take, digitBytes, List.length_map] at hlen
        omega
      · rw [← hv, hds]
        exact foldl_digitValue ds 0
    · exact absurd h noMatch_ne_ok
  · rintro ⟨text, rfl, ds, rfl, rfl, rfl⟩
    have hlen : (digitBytes ds).length = ds.length := List.length_map _
    have hall : (digitBytes ds).all isDigit = true := by
      rw [List.all_eq_true, digitBytes]
      intro c hc
      obtain ⟨d, -, rfl⟩ := List.mem_map.1 hc
      exact isDigit_digitByte d
    have hval : (digitBytes ds).foldl (fun v c => v * 10 + digitValue c) 0 = (horner 10 0 (ds.map Fin.val) : ℤ) :=
      foldl_digitValue ds 0
    rw [List.take_left' hlen, List.drop_left' hlen, hall, if_pos (by simp [hlen]), hval]

theorem number_one (d : Fin 10) : Number 1 [digitByte d] d.val :=
  ⟨[d], rfl, rfl, by simp⟩

theorem number_two (d e : Fin 10) : Number 2 [digitByte d, digitByte e] (d.val * 10 + e.val) := by
  refine ⟨[d, e], rfl, rfl, ?_⟩
  simp only [List.map_cons, List.map_nil, horner_cons, horner_nil]
  push_cast
  ring

theorem parse_1or2digit_read {s r : List UInt8} {v : ℤ} (h : parse_1or2digit_int_no_ws s = .ok (v, r)) :
    ∃ text, s = text ++ r ∧ ShortNumber text v := by
  rw [parse_1or2digit_int_no_ws.eq_def] at h
  cases s with
  | nil => exact absurd h noMatch_ne_ok
  | cons d0 s =>
    cases s with
    | nil =>
      dsimp only at h
      split_ifs at h with h0
      · obtain ⟨d, rfl⟩ := exists_digitByte h0
        obtain ⟨rfl, rfl⟩ := Prod.mk.inj (Except.ok.inj h)
        rw [digitValue_digitByte]
        exact ⟨[digitByte d], rfl, .inl (number_one d)⟩
      · exact absurd h noMatch_ne_ok
    | cons d1 s =>
      dsimp only at h
      split_ifs at h with h0 h1
      · obtain ⟨d, rfl⟩ := exists_digitByte h0
        obtain ⟨e, rfl⟩ := exists_digitByte h1
        obtain ⟨rfl, rfl⟩ := Prod.mk.inj (Except.ok.inj h)
        rw [digitValue_digitByte, digitValue_digitByte]
        exact ⟨[digitByte d, digitByte e], rfl, .inr (number_two d e)⟩
      · obtain ⟨d, rfl⟩ := exists_digitByte h0
        obtain ⟨rfl, rfl⟩ := Prod.mk.inj (Except.ok.inj h)
        rw [digitValue_digitByte]
        exact ⟨[digitByte d], rfl, .inl (number_one d)⟩
      · exact absurd h noMatch_ne_ok

theorem named_value_read {nvt : List named_value} {s r : List UInt8} {v : ℤ}
    (h : parse_ci_alpha_str_named_value_no_ws nvt s = .ok (v, r)) :
    ∃ text nv, s = text ++ r ∧ nv ∈ nvt ∧ text.map tolower = nv.name.map ch ∧ nv.value = v := by
  rw [parse_ci_alpha_str_named_value_no_ws] at h
  cases hf : nvt.find? (fun nv => nv.name.map ch = (s.takeWhile isalpha).map tolower) with
  | none =>
    rw [hf] at h
    exact absurd h noMatch_ne_ok
  | some nv =>
    rw [hf] at h
    obtain ⟨hv, rfl⟩ := Prod.mk.inj (Except.ok.inj h)
    have hname := List.find?_some hf
    exact ⟨s.takeWhile isalpha, nv, List.takeWhile_append_dropWhile.symm, List.mem_of_find?_eq_some hf,
      (of_decide_eq_true hname).symm, hv⟩

/-- Every name of the table is spelled as the month it stands for. -/
theorem named_month_table_spelled : ∀ nv ∈ named_month_table, ∃ i : Fin 12,
    (if nv.value > 12 then nv.value - 12 else nv.value) = i + 1 ∧ Spelled (nv.name.map ch) (monthNames.getD i []) ∧
      (nv.name.map ch).map tolower = nv.name.map ch := by
  decide

theorem named_weekday_table_spelled : ∀ nv ∈ named_weekday_table, ∃ i : Fin 7,
    nv.value = i ∧ Spelled (nv.name.map ch) (weekdayNames.getD i []) ∧ (nv.name.map ch).map tolower = nv.name.map ch := by
  decide

/-- A name that is read as a name of the table is spelled as that one. -/
theorem Spelled.of_lower {text name : List UInt8} {full : List Char} (h : text.map tolower = name)
    (hlow : name.map tolower = name) (hs : Spelled name full) : Spelled text full := by
  rw [Spelled, hlow] at hs
  rwa [Spelled, h]

theorem month_read {s r : List UInt8} {nv : ℤ}
    (h : parse_ci_alpha_str_named_value_no_ws named_month_table s = .ok (nv, r)) :
    ∃ text, s = text ++ r ∧ MonthName text (if nv > 12 then nv - 12 else nv) := by
  obtain ⟨text, nv, hs, hmem, hname, rfl⟩ := named_value_read h
  obtain ⟨i, hv, hsp, hlow⟩ := named_month_table_spelled nv hmem
  exact ⟨text, hs, i, hv, hsp.of_lower hname hlow⟩

theorem parse_str_month_read {s r : List UInt8} {m : ℤ} (h : parse_str_month_no_ws s = .ok (m, r)) :
    ∃ text, s = text ++ r ∧ MonthName text m := by
  obtain ⟨⟨nv, r'⟩, h1, h2⟩ := bind_eq_ok.1 h
  obtain ⟨rfl, rfl⟩ := Prod.mk.inj (Except.ok.inj h2)
  exact month_read h1

/-- A token that is not required. -/
theorem optional_token (c : UInt8) (s : List UInt8) :
    ∃ t, s = t ++ (parse_token_no_ws [c] s).getD s ∧ (t = [] ∨ t = [c]) := by
  cases h : parse_token_no_ws [c] s with
  | none => exact ⟨[], rfl, .inl rfl⟩
  | some r => exact ⟨[c], parse_token_no_ws_iff.1 h, .inr rfl⟩

theorem parse_str_month_punct_read {s r : List UInt8} {m : ℤ} (h : parse_str_month_punct_no_ws s = .ok (m, r)) :
    ∃ text dot, s = text ++ (dot ++ r) ∧ MonthName text m ∧ (dot = [] ∨ dot = [ch '.']) := by
  obtain ⟨⟨nv, r'⟩, h1, h2⟩ := bind_eq_ok.1 h
  obtain ⟨text, rfl, hm⟩ := month_read h1
  dsimp only at h2
  split_ifs at h2 hm with hv
  · obtain ⟨rfl, rfl⟩ := Prod.mk.inj (Except.ok.inj h2)
    obtain ⟨dot, hdot, hd⟩ := optional_token (ch '.') r'
    exact ⟨text, dot, by rw [← hdot], hm, hd⟩
  · obtain ⟨rfl, rfl⟩ := Prod.mk.inj (Except.ok.inj h2)
    exact ⟨text, [], rfl, hm, .inl rfl⟩

/-- An optional comma, and whitespace on both sides of it. -/
theorem comma_read (s : List UInt8) : ∃ t, s = t ++ skip_whitespace ((parse_token [ch ','] s).getD s) ∧
    ∀ c ∈ t, c = ch ',' ∨ isspace c = true := by
  obtain ⟨w', hw', hws', -⟩ := skip_whitespace_split ((parse_token [ch ','] s).getD s)
  cases h : parse_token [ch ','] s with
  | none =>
    rw [h, Option.getD_none] at hw'
    exact ⟨w', hw', fun c hc => .inr (hws' c hc)⟩
  | some r =>
    rw [h, Option.getD_some] at hw'
    obtain ⟨w, hw, rfl⟩ := (parse_token_iff (by decide)).1 h
    refine ⟨w ++ ch ',' :: w', ?_, ?_⟩
    · rw [Option.getD_some, List.append_assoc, List.append_assoc, List.cons_append, List.cons_append, List.nil_append, ← hw']
    · intro c hc
      rcases List.mem_append.1 hc with hc | hc
      · exact .inr (hw c hc)
      · rcases List.mem_cons.1 hc with rfl | hc
        · exact .inl rfl
        · exact .inr (hws' c hc)

theorem required_whitespace_read {s r : List UInt8} (h : matched (skip_required_whitespace s) = .ok r) :
    ∃ w, s = w ++ r ∧ Ws w ∧ w ≠ [] := by
  have h := matched_eq_ok.1 h
  rw [skip_required_whitespace.eq_def] at h
  cases s with
  | nil => cases h
  | cons c s =>
    dsimp only at h
    split_ifs at h with hc
    obtain ⟨w, hw, hws, -⟩ := skip_whitespace_split s
    rw [Option.some.inj h] at hw
    exact ⟨c :: w, by rw [List.cons_append, ← hw], List.forall_mem_cons.2 ⟨hc, hws⟩, List.cons_ne_nil _ _⟩

theorem nextIsDigit_stops {s : List UInt8} (h : ¬ nextIsDigit s = true) : Stops isDigit s := by
  cases s with
  | nil => exact stops_nil _
  | cons c s => exact stops_cons.2 (Bool.eq_false_iff.2 h)

theorem lastDay_read {s r : List UInt8} {d : ℤ} (h : lastDay s = .ok (d, r)) :
    ∃ text, s = text ++ r ∧ ShortNumber text d ∧ Stops isDigit r := by
  obtain ⟨⟨d', r'⟩, h1, h2⟩ := bind_eq_ok.1 h
  obtain ⟨text, rfl, ht⟩ := parse_1or2digit_read h1
  dsimp only at h2
  split_ifs at h2 with hd
  · exact absurd h2 noMatch_ne_ok
  · obtain ⟨rfl, rfl⟩ := Prod.mk.inj (Except.ok.inj h2)
    exact ⟨text, rfl, ht, nextIsDigit_stops hd⟩

/-! ## What the formats read -/

theorem parse_md_read {sep : UInt8} {s r : List UInt8} {m d : ℤ} (h : parse_md sep s = .ok ((m, d), r)) :
    ∃ mt dt, s = sep :: (mt ++ sep :: (dt ++ r)) ∧ ShortNumber mt m ∧ ShortNumber dt d ∧ Stops isDigit r := by
  obtain ⟨s1, h1, h⟩ := bind_eq_ok.1 h
  obtain ⟨⟨m', s2⟩, h2, h⟩ := bind_eq_ok.1 h
  obtain ⟨s3, h3, h⟩ := bind_eq_ok.1 h
  obtain ⟨⟨d', s4⟩, h4, h⟩ := bind_eq_ok.1 h
  obtain ⟨hmd, rfl⟩ := Prod.mk.inj (Except.ok.inj h)
  obtain ⟨rfl, rfl⟩ := Prod.mk.inj hmd
  obtain rfl := token_read h1
  obtain ⟨mt, rfl, hm⟩ := parse_1or2digit_read h2
  obtain rfl := token_read h3
  obtain ⟨dt, rfl, hd, hr⟩ := lastDay_read h4
  exact ⟨mt, dt, rfl, hm, hd, hr⟩

theorem parse_md_str_month_read {sep : UInt8} {s r : List UInt8} {m d : ℤ} (h : parse_md_str_month sep s = .ok ((m, d), r)) :
    ∃ mt dt, s = sep :: (mt ++ sep :: (dt ++ r)) ∧ MonthName mt m ∧ ShortNumber dt d ∧ Stops isDigit r := by
  obtain ⟨s1, h1, h⟩ := bind_eq_ok.1 h
  obtain ⟨⟨m', s2⟩, h2, h⟩ := bind_eq_ok.1 h
  obtain ⟨s3, h3, h⟩ := bind_eq_ok.1 h
  obtain ⟨⟨d', s4⟩, h4, h⟩ := bind_eq_ok.1 h
  obtain ⟨hmd, rfl⟩ := Prod.mk.inj (Except.ok.inj h)
  obtain ⟨rfl, rfl⟩ := Prod.mk.inj hmd
  obtain rfl := token_read h1
  obtain ⟨mt, rfl, hm⟩ := parse_str_month_read h2
  obtain rfl := token_read h3
  obtain ⟨dt, rfl, hd, hr⟩ := lastDay_read h4
  exact ⟨mt, dt, rfl, hm, hd, hr⟩

theorem validDate_eq_ok {y m d : ℤ} {s r : List UInt8} {out : date_ymd} (h : validDate y m d s = .ok (out, r)) :
    Valid y m d ∧ out = ⟨Int16.ofInt y, Int8.ofInt m, Int8.ofInt d⟩ ∧ s = r := by
  rw [validDate] at h
  split_ifs at h with hv
  · obtain ⟨rfl, rfl⟩ := Prod.mk.inj (Except.ok.inj h)
    exact ⟨(date_ymd.is_valid_iff y m d).1 hv, rfl, rfl⟩
  · exact absurd h noMatch_ne_ok

theorem parse_iso8601_year_read {s r : List UInt8} {y : ℤ} (h : parse_iso8601_year s = .ok (y, r)) :
    ∃ text, s = text ++ r ∧ IsoYear text y := by
  rw [parse_iso8601_year] at h
  cases hm : parse_token_no_ws [ch '-'] s with
  | some s1 =>
    rw [hm] at h
    obtain rfl := parse_token_no_ws_iff.1 hm
    obtain ⟨⟨v, s2⟩, h1, h2⟩ := bind_eq_ok.1 h
    obtain ⟨rfl, rfl⟩ := Prod.mk.inj (Except.ok.inj h2)
    obtain ⟨t, rfl, ht⟩ := parse_digits_iff.1 h1
    exact ⟨ch '-' :: t, rfl, .inr (.inr ⟨t, v, rfl, ht, rfl⟩)⟩
  | none =>
    rw [hm] at h
    cases hp : parse_token_no_ws [ch '+'] s with
    | some s1 =>
      rw [hp] at h
      obtain rfl := parse_token_no_ws_iff.1 hp
      obtain ⟨t, rfl, ht⟩ := parse_digits_iff.1 h
      exact ⟨ch '+' :: t, rfl, .inr (.inl ⟨t, rfl, ht⟩)⟩
    | none =>
      rw [hp] at h
      obtain ⟨t, rfl, ht⟩ := parse_digits_iff.1 h
      exact ⟨t, rfl, .inl ht⟩

section
variable {rawtime : ℤ} {ambig : date_parse_order_t} {century_window : ℤ}

theorem parse_year_read {twoDigits : Bool} {s r : List UInt8} {y : ℤ}
    (h : parse_year rawtime century_window twoDigits s = .ok (y, r)) :
    ∃ text, s = text ++ r ∧ YearText rawtime century_window twoDigits text y := by
  rcases orElse_eq_ok h with h | h
  · obtain ⟨t, rfl, ht⟩ := parse_digits_iff.1 h
    exact ⟨t, rfl, .inl ht⟩
  · split_ifs at h with htwo
    · obtain ⟨⟨v, s1⟩, h1, h⟩ := bind_eq_ok.1 h
      obtain ⟨y', h2, h⟩ := bind_eq_ok.1 h
      obtain ⟨rfl, rfl⟩ := Prod.mk.inj (Except.ok.inj h)
      obtain ⟨t, rfl, ht⟩ := parse_digits_iff.1 h1
      exact ⟨t, rfl, .inr ⟨htwo, v, ht, h2⟩⟩
    · exact absurd h noMatch_ne_ok

theorem parse_last_year_read {twoDigits : Bool} {s r : List UInt8} {y : ℤ}
    (h : parse_last_year rawtime century_window twoDigits s = .ok (y, r)) :
    ∃ text, s = text ++ r ∧ YearText rawtime century_window twoDigits text y ∧ Stops isDigit r := by
  rw [parse_last_year] at h
  cases h4 : parse_4digit_int_no_ws s with
  | ok x =>
    rw [h4] at h
    dsimp only at h
    split_ifs at h with hd
    · exact absurd h noMatch_ne_ok
    · obtain ⟨rfl, rfl⟩ := Prod.mk.inj (Except.ok.inj h)
      obtain ⟨t, rfl, ht⟩ := parse_digits_iff.1 h4
      exact ⟨t, rfl, .inl ht, nextIsDigit_stops hd⟩
  | error e =>
    rw [h4] at h
    dsimp only at h
    split_ifs at h with htwo
    · obtain ⟨⟨v, s1⟩, h1, h⟩ := bind_eq_ok.1 h
      dsimp only at h
      split_ifs at h with hd
      · exact absurd h noMatch_ne_ok
      · obtain ⟨y', h2, h⟩ := bind_eq_ok.1 h
        obtain ⟨rfl, rfl⟩ := Prod.mk.inj (Except.ok.inj h)
        obtain ⟨t, rfl, ht⟩ := parse_digits_iff.1 h1
        exact ⟨t, rfl, .inr ⟨htwo, v, ht, h2⟩, nextIsDigit_stops hd⟩
    · exact absurd h noMatch_ne_ok

variable (rawtime ambig century_window) in
/-- The text before `r` names a date that exists, and `out` is that date as it is stored. -/
def ReadsDate (s : List UInt8) (out : date_ymd) (r : List UInt8) : Prop :=
  ∃ body y m d, s = body ++ r ∧ DateText rawtime ambig century_window body y m d ∧ Valid y m d ∧ Stops isDigit r ∧
    out = ⟨Int16.ofInt y, Int8.ofInt m, Int8.ofInt d⟩

variable {s r : List UInt8} {out : date_ymd}

theorem dashes_read (h : parse_iso8601_dashes_date s = .ok (out, r)) : ReadsDate rawtime ambig century_window s out r := by
  obtain ⟨⟨y, s1⟩, h1, h⟩ := bind_eq_ok.1 h
  obtain ⟨⟨⟨m, d⟩, s2⟩, h2, hout⟩ := bind_eq_ok.1 h
  obtain ⟨yt, rfl, hy⟩ := parse_iso8601_year_read h1
  obtain ⟨mt, dt, rfl, hm, hd, hr⟩ := parse_md_read h2
  obtain ⟨hv, rfl, rfl⟩ := validDate_eq_ok hout
  exact ⟨_, y, m, d, by simp, .dashes hy hm hd, hv, hr, rfl⟩

theorem nodashes_read (h : parse_iso8601_nodashes_date s = .ok (out, r)) : ReadsDate rawtime ambig century_window s out r := by
  obtain ⟨⟨y, s1⟩, h1, h⟩ := bind_eq_ok.1 h
  obtain ⟨⟨m, s2⟩, h2, h⟩ := bind_eq_ok.1 h
  obtain ⟨⟨d, s3⟩, h3, hout⟩ := bind_eq_ok.1 h
  dsimp only at hout
  split_ifs at hout with hdig
  · exact absurd hout noMatch_ne_ok
  · obtain ⟨yt, rfl, hy⟩ := parse_digits_iff.1 h1
    obtain ⟨mt, rfl, hm⟩ := parse_digits_iff.1 h2
    obtain ⟨dt, rfl, hd⟩ := parse_digits_iff.1 h3
    obtain ⟨hv, rfl, rfl⟩ := validDate_eq_ok hout
    exact ⟨_, y, m, d, by simp, .nodashes hy hm hd, hv, nextIsDigit_stops hdig, rfl⟩

theorem ymd_read {sep : UInt8} (hsep : IsSeparator sep)
    (h : parse_ymd_sep_date rawtime ambig century_window sep s = .ok (out, r)) :
    ReadsDate rawtime ambig century_window s out r := by
  obtain ⟨⟨y, s1⟩, h1, h⟩ := bind_eq_ok.1 h
  obtain ⟨⟨⟨m, d⟩, s2⟩, h2, hout⟩ := bind_eq_ok.1 h
  obtain ⟨yt, rfl, hy⟩ := parse_year_read h1
  obtain ⟨hv, rfl, rfl⟩ := validDate_eq_ok hout
  rcases orElse_eq_ok h2 with h2 | h2
  · obtain ⟨mt, dt, rfl, hm, hd, hr⟩ := parse_md_read h2
    exact ⟨_, y, m, d, by simp, .ymd hsep hy (.inl hm) hd, hv, hr, rfl⟩
  · obtain ⟨mt, dt, rfl, hm, hd, hr⟩ := parse_md_str_month_read h2
    exact ⟨_, y, m, d, by simp, .ymd hsep hy (.inr hm) hd, hv, hr, rfl⟩

theorem dmyName_read {sep : UInt8} (hsep : IsSeparator sep)
    (h : parse_dmy_str_month_sep_date rawtime ambig century_window sep s = .ok (out, r)) :
    ReadsDate rawtime ambig century_window s out r := by
  obtain ⟨⟨d, s1⟩, h1, h⟩ := bind_eq_ok.1 h
  obtain ⟨s2, h2, h⟩ := bind_eq_ok.1 h
  obtain ⟨⟨m, s3⟩, h3, h⟩ := bind_eq_ok.1 h
  obtain ⟨s4, h4, h⟩ := bind_eq_ok.1 h
  obtain ⟨⟨y, s5⟩, h5, hout⟩ := bind_eq_ok.1 h
  obtain ⟨dt, rfl, hd⟩ := parse_1or2digit_read h1
  obtain rfl := token_read h2
  obtain ⟨mt, rfl, hm⟩ := parse_str_month_read h3
  obtain rfl := token_read h4
  obtain ⟨yt, rfl, hy, hr⟩ := parse_last_year_read h5
  obtain ⟨hv, rfl, rfl⟩ := validDate_eq_ok hout
  exact ⟨_, y, m, d, by simp, .dmyName hsep hd hm hy, hv, hr, rfl⟩

theorem dmySpaces_read (h : parse_dmy_str_month_ws_date rawtime ambig century_window s = .ok (out, r)) :
    ReadsDate rawtime ambig century_window s out r := by
  obtain ⟨⟨d, s1⟩, h1, h⟩ := bind_eq_ok.1 h
  obtain ⟨⟨m, s2⟩, h2, h⟩ := bind_eq_ok.1 h
  obtain ⟨⟨y, s3⟩, h3, hout⟩ := bind_eq_ok.1 h
  obtain ⟨dt, rfl, hd⟩ := parse_1or2digit_read h1
  obtain ⟨w, hw, hws, -⟩ := skip_whitespace_split s1
  obtain ⟨mt, hmt, hm⟩ := parse_str_month_read h2
  obtain ⟨w', hw', hws', -⟩ := skip_whitespace_split s2
  obtain ⟨yt, hyt, hy, hr⟩ := parse_last_year_read h3
  obtain ⟨hv, rfl, rfl⟩ := validDate_eq_ok hout
  refine ⟨dt ++ (w ++ (mt ++ (w' ++ yt))), y, m, d, ?_, .dmySpaces hd hws hm hws' hy, hv, hr, rfl⟩
  rw [hw, hmt, hw', hyt]
  simp

theorem long_read (h : parse_mdy_long_format_date rawtime century_window s = .ok (out, r)) :
    ReadsDate rawtime ambig century_window s out r := by
  obtain ⟨⟨m, s1⟩, h1, h⟩ := bind_eq_ok.1 h
  obtain ⟨s2, h2, h⟩ := bind_eq_ok.1 h
  obtain ⟨⟨d, s3⟩, h3, h⟩ := bind_eq_ok.1 h
  obtain ⟨⟨y, s4⟩, h4, hout⟩ := bind_eq_ok.1 h
  obtain ⟨mt, dot, rfl, hm, hdot⟩ := parse_str_month_punct_read h1
  obtain ⟨w, rfl, hws, hw⟩ := required_whitespace_read h2
  obtain ⟨dt, rfl, hd⟩ := parse_1or2digit_read h3
  obtain ⟨comma, hcomma, hc⟩ := comma_read s3
  obtain ⟨yt, hyt, hy, hr⟩ := parse_last_year_read h4
  obtain ⟨hv, rfl, rfl⟩ := validDate_eq_ok hout
  refine ⟨mt ++ (dot ++ (w ++ (dt ++ (comma ++ yt)))), y, m, d, ?_, .long hm hdot hws hw hd hc hy, hv, hr, rfl⟩
  rw [hcomma, hyt]
  simp

theorem mdy_read {sep : UInt8} (hsep : IsSeparator sep) (hambig : ambig = .mdy)
    (h : parse_mdy_ambig_sep_date rawtime century_window sep s = .ok (out, r)) :
    ReadsDate rawtime ambig century_window s out r := by
  obtain ⟨⟨m, s1⟩, h1, h⟩ := bind_eq_ok.1 h
  obtain ⟨s2, h2, h⟩ := bind_eq_ok.1 h
  obtain ⟨⟨d, s3⟩, h3, h⟩ := bind_eq_ok.1 h
  obtain ⟨s4, h4, h⟩ := bind_eq_ok.1 h
  obtain ⟨⟨y, s5⟩, h5, hout⟩ := bind_eq_ok.1 h
  obtain ⟨mt, rfl, hm⟩ := parse_1or2digit_read h1
  obtain rfl := token_read h2
  obtain ⟨dt, rfl, hd⟩ := parse_1or2digit_read h3
  obtain rfl := token_read h4
  obtain ⟨yt, rfl, hy, hr⟩ := parse_last_year_read h5
  obtain ⟨hv, rfl, rfl⟩ := validDate_eq_ok hout
  exact ⟨_, y, m, d, by simp, .mdy hambig hsep hm hd hy, hv, hr, rfl⟩

theorem dmy_read {sep : UInt8} (hsep : IsSeparator sep) (hambig : ambig = .dmy)
    (h : parse_dmy_ambig_sep_date rawtime century_window sep s = .ok (out, r)) :
    ReadsDate rawtime ambig century_window s out r := by
  obtain ⟨⟨d, s1⟩, h1, h⟩ := bind_eq_ok.1 h
  obtain ⟨s2, h2, h⟩ := bind_eq_ok.1 h
  obtain ⟨⟨m, s3⟩, h3, h⟩ := bind_eq_ok.1 h
  obtain ⟨s4, h4, h⟩ := bind_eq_ok.1 h
  obtain ⟨⟨y, s5⟩, h5, hout⟩ := bind_eq_ok.1 h
  obtain ⟨dt, rfl, hd⟩ := parse_1or2digit_read h1
  obtain rfl := token_read h2
  obtain ⟨mt, rfl, hm⟩ := parse_1or2digit_read h3
  obtain rfl := token_read h4
  obtain ⟨yt, rfl, hy, hr⟩ := parse_last_year_read h5
  obtain ⟨hv, rfl, rfl⟩ := validDate_eq_ok hout
  exact ⟨_, y, m, d, by simp, .dmy hambig hsep hd hm hy, hv, hr, rfl⟩

theorem withSeparators_read {format : UInt8 → Scan date_ymd} {P : Prop} (hformat : ∀ sep, IsSeparator sep →
      format sep s = .ok (out, r) → P) (h : withSeparators format s = .ok (out, r)) : P := by
  rcases orElse_eq_ok h with h | h
  · exact hformat _ (.inl rfl) h
  rcases orElse_eq_ok h with h | h
  · exact hformat _ (.inr (.inl rfl)) h
  · exact hformat _ (.inr (.inr rfl)) h

/-- Whichever format matches, it reads a date that is written in the text. -/
theorem parseFormats_read (h : parseFormats rawtime ambig century_window s = .ok (out, r)) :
    ReadsDate rawtime ambig century_window s out r := by
  rcases orElse_eq_ok h with h | h
  · exact dashes_read h
  rcases orElse_eq_ok h with h | h
  · exact nodashes_read h
  rcases orElse_eq_ok h with h | h
  · exact withSeparators_read (fun _ hsep => ymd_read hsep) h
  rcases orElse_eq_ok h with h | h
  · exact withSeparators_read (fun _ hsep => dmyName_read hsep) h
  rcases orElse_eq_ok h with h | h
  · exact dmySpaces_read h
  rcases orElse_eq_ok h with h | h
  · exact long_read h
  rcases orElse_eq_ok h with h | h
  · split_ifs at h with hambig
    · exact withSeparators_read (fun _ hsep => mdy_read hsep hambig) h
    · exact absurd h noMatch_ne_ok
  · split_ifs at h with hambig
    · exact withSeparators_read (fun _ hsep => dmy_read hsep hambig) h
    · exact absurd h noMatch_ne_ok

theorem parseWeekday_read (s : List UInt8) : ∃ wt, s = wt ++ (parseWeekday s).2 ∧ (wt = [] ∨ WeekdayText wt) := by
  rw [parseWeekday]
  cases h : parse_str_weekday_no_ws s with
  | error e => exact ⟨[], rfl, .inl rfl⟩
  | ok x =>
    obtain ⟨name, nv, hs, hmem, hname, -⟩ := named_value_read h
    obtain ⟨i, -, hsp, hlow⟩ := named_weekday_table_spelled nv hmem
    obtain ⟨after, hafter, hc⟩ := comma_read x.2
    refine ⟨name ++ after, ?_, .inr ⟨i, name, after, rfl, hsp.of_lower hname hlow, hc⟩⟩
    dsimp only
    rw [List.append_assoc, ← hafter, hs]

theorem parse_date_read (h : parse_date rawtime ambig century_window s = .ok (out, r)) :
    ∃ wt rest, s = wt ++ rest ∧ (wt = [] ∨ WeekdayText wt) ∧ ReadsDate rawtime ambig century_window rest out r := by
  obtain ⟨wt, hs, hwt⟩ := parseWeekday_read s
  obtain ⟨⟨ymd, r'⟩, h1, h⟩ := bind_eq_ok.1 h
  dsimp only at h
  split_ifs at h
  · exact absurd h noMatch_ne_ok
  · obtain ⟨rfl, rfl⟩ := Prod.mk.inj (Except.ok.inj h)
    exact ⟨wt, _, hs, hwt, parseFormats_read h1⟩

/-! ## The date that is returned -/

/-- A month and a day fit 8 bits, and a year may not fit 16. -/
theorem stored_iff {y m d : ℤ} (h : Valid y m d) :
    (((Int16.ofInt y).toInt = y ∧ (Int8.ofInt m).toInt = m ∧ (Int8.ofInt d).toInt = d) ↔ date_ymd.YearRange y) := by
  have hm := h.month
  have hd := h.day
  have hlong := monthLength_le y m
  have em : (Int8.ofInt m).toInt = m := Int8.toInt_ofInt_of_le (by omega) (by omega)
  have ed : (Int8.ofInt d).toInt = d := Int8.toInt_ofInt_of_le (by omega) (by omega)
  simp only [em, ed, and_true]
  constructor
  · intro hy
    have hlo := (Int16.ofInt y).le_toInt
    have hhi := (Int16.ofInt y).toInt_lt
    rw [hy] at hlo hhi
    exact ⟨hlo, hhi⟩
  · exact fun hy => Int16.toInt_ofInt_of_le hy.1 hy.2

/-- An accepted string is whitespace, an optional weekday, the text of a date
that exists, and what follows; the date returned is the one written exactly
when the year written fits 16 bits. -/
theorem string_to_date_faithful_iff {errmode : assign_error_mode}
    (h : string_to_date rawtime ambig century_window errmode s = .ok out) :
    ∃ w wt body after y m d, s = w ++ (wt ++ (body ++ after)) ∧ Ws w ∧ (wt = [] ∨ WeekdayText wt) ∧
      DateText rawtime ambig century_window body y m d ∧ Valid y m d ∧ Stops isDigit after ∧
      ((out.year.toInt = y ∧ out.month.toInt = m ∧ out.day.toInt = d) ↔ date_ymd.YearRange y) := by
  obtain ⟨⟨ymd, r⟩, h1, h⟩ := bind_eq_ok.1 h
  obtain rfl : ymd = out := by
    dsimp only at h
    split_ifs at h
    · exact Except.ok.inj h
    · exact Except.ok.inj h
    · exact absurd h noMatch_ne_ok
  obtain ⟨w, hw, hws, -⟩ := skip_whitespace_split s
  obtain ⟨wt, rest, hs, hwt, body, y, m, d, rfl, htext, hv, hr, rfl⟩ := parse_date_read h1
  refine ⟨w, wt, body, r, y, m, d, ?_, hws, hwt, htext, hv, hr, stored_iff hv⟩
  rw [← hs]
  exact hw

end

theorem string_to_date_faithful_iso : ∃ w wt body after y m d,
    ['+', '0', '0', '1', '9', '7', '9', '-', '0', '3', '-', '2', '2'].map ch = w ++ (wt ++ (body ++ after)) ∧ Ws w ∧
      (wt = [] ∨ WeekdayText wt) ∧ DateText 0 .no_ambig 70 body y m d ∧ Valid y m d ∧ Stops isDigit after ∧
      (((1979 : Int16).toInt = y ∧ (3 : Int8).toInt = m ∧ (22 : Int8).toInt = d) ↔ date_ymd.YearRange y) :=
  @string_to_date_faithful_iff 0 .no_ambig 70 _ ⟨1979, 3, 22⟩ .fractional (by decide +kernel)

theorem Number.starts {n : ℕ} {text : List UInt8} {v : ℤ} (h : Number (n + 1) text v) :
    ∃ c t, text = c :: t ∧ isDigit c = true := by
  obtain ⟨ds, hlen, rfl, -⟩ := h
  cases ds with
  | nil => cases hlen
  | cons d ds => exact ⟨_, _, rfl, isDigit_digitByte d⟩

theorem ShortNumber.starts {text : List UInt8} {v : ℤ} (h : ShortNumber text v) : ∃ c t, text = c :: t ∧ isDigit c = true :=
  h.elim Number.starts Number.starts

theorem YearText.starts {rawtime century_window y : ℤ} {twoDigits : Bool} {text : List UInt8}
    (h : YearText rawtime century_window twoDigits text y) : ∃ c t, text = c :: t ∧ isDigit c = true := by
  rcases h with h | ⟨-, v, h, -⟩
  · exact h.starts
  · exact h.starts

theorem MonthName.no_sign {t : List UInt8} {m : ℤ} : ¬ MonthName (ch '+' :: t) m := by
  rintro ⟨i, -, h⟩
  have names : ∀ i : Fin 12, ∀ n ∈ [9, 3, 4], (((monthNames.getD i []).take n).map ch).head? ≠ some (tolower (ch '+')) := by
    decide
  rcases h with h | h | ⟨-, h⟩
  · refine names i 9 (by decide) ?_
    rw [List.take_of_length_le (by clear h; revert i; decide), ← h]
    rfl
  · refine names i 3 (by decide) ?_
    rw [← h]
    rfl
  · refine names i 4 (by decide) ?_
    rw [← h]
    rfl

/-- Only a year of six digits starts with a plus. -/
theorem DateText.plus_year {rawtime century_window y m d : ℤ} {ambig : date_parse_order_t} {t : List UInt8}
    (h : DateText rawtime ambig century_window (ch '+' :: t) y m d) : ∃ yt rest, t = yt ++ rest ∧ Number 6 yt y := by
  have plus : ∀ {text rest : List UInt8}, (∃ c t, text = c :: t ∧ isDigit c = true) → ch '+' :: t = text ++ rest → False := by
    rintro text rest ⟨c, t', rfl, hc⟩ ht
    obtain rfl := (List.cons.inj ht).1
    exact absurd hc (by decide)
  have name : ∀ {text rest : List UInt8}, MonthName text m → ch '+' :: t = text ++ rest → False := by
    intro text rest hm ht
    cases text with
    | nil =>
      obtain ⟨i, -, hs⟩ := hm
      revert i
      decide
    | cons c text =>
      obtain rfl := (List.cons.inj ht).1
      exact hm.no_sign
  generalize hs : ch '+' :: t = s at h
  cases h with
  | dashes hy =>
    rcases hy with hy | ⟨t', rfl, hy⟩ | ⟨t', v, rfl, -⟩
    · exact (plus hy.starts hs).elim
    · exact ⟨t', _, (List.cons.inj hs).2, hy⟩
    · exact absurd (List.cons.inj hs).1 (by decide)
  | nodashes hy => exact (plus hy.starts hs).elim
  | ymd _ hy => exact (plus hy.starts hs).elim
  | dmyName _ hd => exact (plus hd.starts hs).elim
  | dmySpaces hd => exact (plus hd.starts hs).elim
  | long hm => exact (name hm hs).elim
  | mdy _ _ hm => exact (plus hm.starts hs).elim
  | dmy _ _ hd => exact (plus hd.starts hs).elim

/-- Six digits are more than the year can hold: the year 65537 is stored as 1. -/
theorem year_65537_stored : string_to_date 0 .no_ambig 70 .fractional
      (['+', '0', '6', '5', '5', '3', '7', '-', '0', '1', '-', '0', '1'].map ch) = .ok ⟨1, 1, 1⟩ ∧
    DateText 0 .no_ambig 70 (['+', '0', '6', '5', '5', '3', '7', '-', '0', '1', '-', '0', '1'].map ch) 65537 1 1 ∧
    ∀ y m d, DateText 0 .no_ambig 70 (['+', '0', '6', '5', '5', '3', '7', '-', '0', '1', '-', '0', '1'].map ch) y m d →
      y ≠ (1 : Int16).toInt := by
  have year : ∀ {yt rest : List UInt8} {y : ℤ}, ['0', '6', '5', '5', '3', '7', '-', '0', '1', '-', '0', '1'].map ch = yt ++ rest →
      Number 6 yt y → y = 65537 := by
    intro yt rest y ht hy
    have hread := parse_digits_iff.2 ⟨yt, ht, hy⟩
    have h65537 : parse_digits 6 (['0', '6', '5', '5', '3', '7', '-', '0', '1', '-', '0', '1'].map ch) =
        .ok (65537, ['-', '0', '1', '-', '0', '1'].map ch) := by decide
    exact (Prod.mk.inj (Except.ok.inj (hread.symm.trans h65537))).1
  refine ⟨by decide +kernel, ?_, ?_⟩
  · have hy : IsoYear (ch '+' :: ['0', '6', '5', '5', '3', '7'].map ch) 65537 :=
      .inr (.inl ⟨_, rfl, [0, 6, 5, 5, 3, 7], by decide⟩)
    have hm : ShortNumber (['0', '1'].map ch) 1 := .inr ⟨[0, 1], by decide⟩
    exact .dashes hy hm hm
  · intro y m d h
    obtain ⟨yt, rest, ht, hy⟩ := h.plus_year
    rw [year ht hy]
    decide

end Dynd.Parse
