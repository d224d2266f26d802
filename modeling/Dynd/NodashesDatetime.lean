import Dynd.TimeOfDay
/-!
# Datetimes without separators

A datetime of digits alone stops after any of its parts. The minute and the
second are assigned only where the part before them was read, so that after a
date alone, and after an hour alone, the result has what was in memory.
`nodashes_determined_iff` says that this is the only case.
-/
namespace Dynd.Parse
open Lib Gregorian

/-! ## What is written -/

/-- No part of two digits comes next. -/
def NoPart (s : List UInt8) : Prop := ∀ text v r, Number 2 text v → s ≠ text ++ r

/-- The first `n` digits, zero where none is written. -/
def padded (n : ℕ) (ds : List (Fin 10)) : List ℕ := (ds.map Fin.val ++ List.replicate n 0).take n

/-- The fraction of a second in ticks. -/
def fractionTicks (ds : List (Fin 10)) : ℕ := horner 10 0 (padded 7 ds)

/-- A point that comes next is read, with or without digits after it. -/
inductive Point : List UInt8 → List UInt8 → Prop where
  | none {s : List UInt8} : Stops (· = ch '.') s → Point s s
  | point {s : List UInt8} : Point (ch '.' :: s) s

/-- The parts of a time that are written, zero for the others, and what follows them. -/
inductive WrittenTime : List UInt8 → ℤ × ℤ × ℤ × ℤ → List UInt8 → Prop where
  | date {s r : List UInt8} : NoPart s → Point s r → WrittenTime s (0, 0, 0, 0) r
  | hour {ht s r : List UInt8} {h : ℤ} : Number 2 ht h → NoPart s → Point s r → WrittenTime (ht ++ s) (h, 0, 0, 0) r
  | minute {ht mt s r : List UInt8} {h m : ℤ} : Number 2 ht h → Number 2 mt m → NoPart s → Point s r →
      WrittenTime (ht ++ (mt ++ s)) (h, m, 0, 0) r
  | second {ht mt st r : List UInt8} {h m sec : ℤ} : Number 2 ht h → Number 2 mt m → Number 2 st sec →
      Stops (· = ch '.') r → WrittenTime (ht ++ (mt ++ (st ++ r))) (h, m, sec, 0) r
  | fraction {ht mt st r : List UInt8} {h m sec : ℤ} (ds : List (Fin 10)) : Number 2 ht h → Number 2 mt m → Number 2 st sec →
      Stops isDigit r → WrittenTime (ht ++ (mt ++ (st ++ ch '.' :: (digitBytes ds ++ r)))) (h, m, sec, fractionTicks ds) r

/-- `YYYYMMDD`, and what follows. -/
inductive WrittenDate : List UInt8 → ℤ × ℤ × ℤ → List UInt8 → Prop where
  | intro {yt mt dt r : List UInt8} {y m d : ℤ} : Number 4 yt y → Number 2 mt m → Number 2 dt d → Valid y m d →
      WrittenDate (yt ++ (mt ++ (dt ++ r))) (y, m, d) r

/-- The parts of a datetime. -/
def components (x : datetime_struct) : (ℤ × ℤ × ℤ) × (ℤ × ℤ × ℤ × ℤ) :=
  ((x.ymd.year.toInt, x.ymd.month.toInt, x.ymd.day.toInt),
    (x.hmst.hour.toInt, x.hmst.minute.toInt, x.hmst.second.toInt, x.hmst.tick.toInt))

/-- Whatever was in memory, the outcome is the same, and what is accepted has the parts that are written. -/
def Determined (s : List UInt8) : Prop :=
  (∀ unset unset', parse_iso8601_nodashes_datetime unset s = parse_iso8601_nodashes_datetime unset' s) ∧
  ∀ unset out r, parse_iso8601_nodashes_datetime unset s = .ok (out, r) →
    ∃ rest, WrittenDate s (components out).1 rest ∧ WrittenTime rest (components out).2 r

/-- A date of digits with no hour after it, or with an hour of the day that no minute follows. -/
def CutOff (s : List UInt8) : Prop :=
  ∃ ymd rest, WrittenDate s ymd rest ∧ (NoPart rest ∨ ∃ ht h r, rest = ht ++ r ∧ Number 2 ht h ∧ h < 24 ∧ NoPart r)

/-! ## Each part -/

theorem part_cases (s : List UInt8) : (∃ text v r, s = text ++ r ∧ Number 2 text v) ∨ NoPart s := by
  by_cases h : ∃ text v r, s = text ++ r ∧ Number 2 text v
  · exact .inl h
  · exact .inr fun text v r hn hs => h ⟨text, v, r, hs, hn⟩

theorem optionalPart_read {text : List UInt8} {v : ℤ} (h : Number 2 text v) (unset : ℤ) (r : List UInt8) :
    optionalPart unset false (text ++ r) = (v, false, r) := by
  have hread : parse_2digit_int_no_ws (text ++ r) = .ok (v, r) := parse_digits_read h
  simp [optionalPart, hread]

theorem optionalPart_none {s : List UInt8} (h : NoPart s) (unset : ℤ) : optionalPart unset false s = (0, true, s) := by
  rw [optionalPart, if_neg (by decide)]
  split
  · rename_i hread
    obtain ⟨text, hs, hn⟩ := parse_digits_iff.1 hread
    exact absurd hs (h _ _ _ hn)
  · rfl

theorem optionalPart_done (unset : ℤ) (s : List UInt8) : optionalPart unset true s = (unset, true, s) := rfl

theorem padded_nil (n : ℕ) : padded (n + 1) [] = 0 :: padded n [] := by simp [padded, List.replicate_succ]

theorem padded_cons (n : ℕ) (d : Fin 10) (ds : List (Fin 10)) : padded (n + 1) (d :: ds) = d.val :: padded n ds := by
  rw [padded, List.map_cons, List.cons_append, List.take_succ_cons, List.replicate_succ', ← List.append_assoc,
    List.take_append_of_le_length (by simp), padded]

/-- The digits of a fraction, one for each round of the loop. -/
theorem tickLoop_read (i : ℕ) {r : List UInt8} (hr : Stops isDigit r) (acc : ℕ) (ds : List (Fin 10)) :
    tickLoop i acc (digitBytes ds ++ r) =
      ((horner 10 acc (padded i ds) : ℤ), digitBytes (ds.drop i) ++ r) := by
  induction i generalizing acc ds with
  | zero => simp [tickLoop, padded]
  | succ i ih =>
    cases ds with
    | nil =>
      have hzero : tickLoop (i + 1) acc r = tickLoop i ((10 * acc : ℕ) : ℤ) r := by
        cases r with
        | nil =>
          rw [tickLoop, Nat.cast_mul, mul_comm]
          rfl
        | cons c r =>
          rw [tickLoop, if_neg (by simp [stops_cons.1 hr]), Nat.cast_mul, mul_comm]
          rfl
      have hnext := ih (10 * acc) []
      have hnil : digitBytes [] ++ r = r := rfl
      rw [hnil] at hnext
      rw [hnil, hzero, hnext, padded_nil, horner_cons, add_zero, List.drop_nil, List.drop_nil, hnil]
    | cons d ds =>
      have hdigit : tickLoop (i + 1) acc (digitBytes (d :: ds) ++ r) = tickLoop i ((10 * acc + d.val : ℕ) : ℤ) (digitBytes ds ++ r) := by
        have hcons : digitBytes (d :: ds) ++ r = digitByte d :: (digitBytes ds ++ r) := rfl
        rw [hcons, tickLoop, if_pos (isDigit_digitByte d), digitValue_digitByte]
        push_cast
        rw [mul_comm]
      rw [hdigit, ih, padded_cons, horner_cons, List.drop_succ_cons]

/-- A fraction with at least one digit. -/
theorem parseTicks_read {r : List UInt8} (hr : Stops isDigit r) (d : Fin 10) (ds : List (Fin 10)) :
    parseTicks (digitBytes (d :: ds) ++ r) = .ok ((fractionTicks (d :: ds) : ℤ), r) := by
  have hcons : digitBytes (d :: ds) ++ r = digitByte d :: (digitBytes ds ++ r) := rfl
  have hloop := tickLoop_read 6 hr d.val ds
  have hticks : fractionTicks (d :: ds) = horner 10 d.val (padded 6 ds) := by
    rw [fractionTicks, padded_cons, horner_cons, mul_zero, zero_add]
  have hdigits : ∀ c ∈ digitBytes (ds.drop 6), isDigit c = true := by
    intro c hc
    obtain ⟨e, -, rfl⟩ := List.mem_map.1 hc
    exact isDigit_digitByte e
  have hdrop : (digitBytes (ds.drop 6) ++ r).dropWhile isDigit = r := dropWhile_eq_iff.2 ⟨_, rfl, hdigits, hr⟩
  rw [hcons, parseTicks, if_pos (isDigit_digitByte d), digitValue_digitByte, hloop, hticks]
  exact congrArg (fun x => Except.ok (_, x)) hdrop

theorem parseTicks_none {r : List UInt8} (hr : Stops isDigit r) : parseTicks r = noMatch := by
  cases r with
  | nil => rfl
  | cons c r => rw [parseTicks, if_neg (by simp [stops_cons.1 hr])]

/-! ## The time -/

/-- The part of the function that reads the fraction. -/
def readFraction (done : Bool) (begin : List UInt8) : ℤ × List UInt8 :=
  match parse_token_no_ws [ch '.'] begin with
  | none => (0, begin)
  | some begin =>
    if done then (0, begin)
    else
      match parseTicks begin with
      | .ok (tick, begin) => (tick, begin)
      | .error _ => (0, begin)

/-- The part that reads the time: the hour, the minute, the second and the tick. -/
def readTime (unset : ℤ × ℤ) (begin : List UInt8) : (ℤ × ℤ × ℤ × ℤ) × List UInt8 :=
  let (hour, done, begin) := optionalPart 0 false begin
  let (minute, done, begin) := optionalPart unset.1 done begin
  let (second, done, begin) := optionalPart unset.2 done begin
  let (tick, begin) := readFraction done begin
  ((hour, minute, second, tick), begin)

/-- The part after the date. -/
def afterDate (unset : ℤ × ℤ) (ymd : date_ymd) (begin : List UInt8) : Except scan_failure (datetime_struct × List UInt8) := do
  let ((hour, minute, second, tick), begin) := readTime unset begin
  let (hmst, begin) ← validTime hour minute second tick begin
  return (⟨ymd, hmst⟩, begin)

theorem parse_iso8601_nodashes_datetime_eq (unset : ℤ × ℤ) (s : List UInt8) : parse_iso8601_nodashes_datetime unset s = (do
    let (year, begin) ← parse_4digit_int_no_ws s
    let (month, begin) ← parse_2digit_int_no_ws begin
    let (day, begin) ← parse_2digit_int_no_ws begin
    let (ymd, begin) ← validDate year month day begin
    afterDate unset ymd begin) := rfl

theorem point_cases (s : List UInt8) : Stops (· = ch '.') s ∨ ∃ r, s = ch '.' :: r := by
  cases s with
  | nil => exact .inl nofun
  | cons c s =>
    by_cases h : c = ch '.'
    · exact .inr ⟨s, by rw [h]⟩
    · exact .inl (stops_cons.2 (decide_eq_false h))

theorem readFraction_none {s : List UInt8} (h : Stops (· = ch '.') s) (done : Bool) : readFraction done s = (0, s) := by
  rw [readFraction, token_none_stops h]

theorem readFraction_point (done : Bool) (s : List UInt8) : readFraction done (ch '.' :: s) =
    if done then (0, s)
    else
      match parseTicks s with
      | .ok (tick, begin) => (tick, begin)
      | .error _ => (0, s) := by
  have htoken : parse_token_no_ws [ch '.'] (ch '.' :: s) = some s := token_some [ch '.'] s
  rw [readFraction, htoken]

theorem readFraction_done (s : List UInt8) : ∃ r, readFraction true s = (0, r) ∧ Point s r := by
  rcases point_cases s with h | ⟨r, rfl⟩
  · exact ⟨s, readFraction_none h true, .none h⟩
  · exact ⟨r, readFraction_point true r, .point⟩

theorem readFraction_digits {r : List UInt8} (hr : Stops isDigit r) (ds : List (Fin 10)) :
    readFraction false (ch '.' :: (digitBytes ds ++ r)) = ((fractionTicks ds : ℤ), r) := by
  rw [readFraction_point, if_neg (by decide)]
  cases ds with
  | nil =>
    have hnil : digitBytes [] ++ r = r := rfl
    rw [hnil, parseTicks_none hr]
    rfl
  | cons d ds => rw [parseTicks_read hr]

/-- Without an hour the minute and the second are left as they were. -/
theorem readTime_date {s : List UInt8} (h : NoPart s) :
    ∃ r, Point s r ∧ ∀ unset, readTime unset s = ((0, unset.1, unset.2, 0), r) := by
  obtain ⟨r, hr, hpoint⟩ := readFraction_done s
  refine ⟨r, hpoint, fun unset => ?_⟩
  simp only [readTime, optionalPart_none h, optionalPart_done, hr]

/-- Without a minute the second is left as it was. -/
theorem readTime_hour {ht s : List UInt8} {h : ℤ} (hh : Number 2 ht h) (hs : NoPart s) :
    ∃ r, Point s r ∧ ∀ unset, readTime unset (ht ++ s) = ((h, 0, unset.2, 0), r) := by
  obtain ⟨r, hr, hpoint⟩ := readFraction_done s
  refine ⟨r, hpoint, fun unset => ?_⟩
  simp only [readTime, optionalPart_read hh, optionalPart_none hs, optionalPart_done, hr]

/-- After a minute every part is set. -/
theorem readTime_minute {ht mt : List UInt8} {h m : ℤ} (hh : Number 2 ht h) (hm : Number 2 mt m) (s : List UInt8) :
    ∃ x r, WrittenTime (ht ++ (mt ++ s)) x r ∧ ∀ unset, readTime unset (ht ++ (mt ++ s)) = (x, r) := by
  rcases part_cases s with ⟨st, sec, s, rfl, hsec⟩ | hs
  · rcases point_cases s with hpoint | ⟨s, rfl⟩
    · refine ⟨_, _, .second hh hm hsec hpoint, fun unset => ?_⟩
      simp only [readTime, optionalPart_read hh, optionalPart_read hm, optionalPart_read hsec, readFraction_none hpoint]
    · obtain ⟨w, hw, hdigits, hr⟩ := dropWhile_eq_iff.1 (rfl : s.dropWhile isDigit = _)
      obtain ⟨ds, rfl⟩ := exists_digitBytes hdigits
      rw [hw]
      refine ⟨_, _, .fraction ds hh hm hsec hr, fun unset => ?_⟩
      simp only [readTime, optionalPart_read hh, optionalPart_read hm, optionalPart_read hsec, readFraction_digits hr]
  · obtain ⟨r, hr, hpoint⟩ := readFraction_done s
    refine ⟨_, _, .minute hh hm hs hpoint, fun unset => ?_⟩
    simp only [readTime, optionalPart_read hh, optionalPart_read hm, optionalPart_none hs, hr]

/-! ## The result -/

/-- The date that is stored for numbers. -/
def storedDate (ymd : ℤ × ℤ × ℤ) : date_ymd := ⟨Int16.ofInt ymd.1, Int8.ofInt ymd.2.1, Int8.ofInt ymd.2.2⟩

theorem nodashes_date {s rest : List UInt8} {ymd : ℤ × ℤ × ℤ} (h : WrittenDate s ymd rest) (unset : ℤ × ℤ) :
    parse_iso8601_nodashes_datetime unset s = afterDate unset (storedDate ymd) rest := by
  cases h with
  | intro hy hm hd hv =>
    have hvalid := (date_ymd.is_valid_iff _ _ _).2 hv
    simp only [parse_iso8601_nodashes_datetime_eq, parse_4digit_int_no_ws, parse_2digit_int_no_ws, parse_digits_read hy,
      parse_digits_read hm, parse_digits_read hd, ok_bind, validDate, if_pos hvalid]
    rfl

theorem digits_cases (n : ℕ) (s : List UInt8) :
    (∃ text v r, s = text ++ r ∧ Number n text v) ∨ parse_digits n s = noMatch := by
  rw [parse_digits]
  split_ifs with h
  · obtain ⟨text, hs, hn⟩ := parse_digits_iff.1 (if_pos h : parse_digits n s = _)
    exact .inl ⟨text, _, _, hs, hn⟩
  · exact .inr rfl

/-- A text that starts with no date is never accepted. -/
theorem nodashes_no_date {s : List UInt8} (h : ¬ ∃ ymd rest, WrittenDate s ymd rest) (unset : ℤ × ℤ) :
    parse_iso8601_nodashes_datetime unset s = noMatch := by
  rw [parse_iso8601_nodashes_datetime_eq, parse_4digit_int_no_ws, parse_2digit_int_no_ws]
  rcases digits_cases 4 s with ⟨yt, y, s, rfl, hy⟩ | hy
  swap
  · rw [hy]
    rfl
  rw [parse_digits_read hy, ok_bind]
  rcases digits_cases 2 s with ⟨mt, m, s, rfl, hm⟩ | hm
  swap
  · simp only [hm]
    rfl
  rcases digits_cases 2 s with ⟨dt, d, s, rfl, hd⟩ | hd
  swap
  · simp only [parse_digits_read hm, ok_bind, hd]
    rfl
  have hv : ¬ date_ymd.is_valid y m d = true := fun hv => h ⟨_, _, .intro hy hm hd ((date_ymd.is_valid_iff y m d).1 hv)⟩
  simp only [parse_digits_read hm, parse_digits_read hd, ok_bind, validDate, if_neg hv]
  rfl

theorem number_four_year {yt : List UInt8} {y : ℤ} (h : Number 4 yt y) : date_ymd.YearRange y := by
  obtain ⟨ds, hlen, -, rfl⟩ := h
  have hlt : horner 10 0 (ds.map Fin.val) < (0 + 1) * 10 ^ (ds.map Fin.val).length := horner_lt (by simp)
  rw [List.length_map, hlen] at hlt
  constructor <;> omega

theorem storedDate_components {s rest : List UInt8} {ymd : ℤ × ℤ × ℤ} (h : WrittenDate s ymd rest) :
    ((storedDate ymd).year.toInt, (storedDate ymd).month.toInt, (storedDate ymd).day.toInt) = ymd := by
  cases h with
  | intro hy hm hd hv =>
    obtain ⟨ey, em, ed⟩ := (stored_iff hv).2 (number_four_year hy)
    rw [storedDate, ey, em, ed]

/-- What is left in memory decides nothing after a date once every part has been set. -/
theorem determined_of_readTime {s rest r : List UInt8} {ymd : ℤ × ℤ × ℤ} {x : ℤ × ℤ × ℤ × ℤ} (hd : WrittenDate s ymd rest)
    (ht : WrittenTime rest x r) (hread : ∀ unset, readTime unset rest = (x, r)) : Determined s := by
  have hparse : ∀ unset, parse_iso8601_nodashes_datetime unset s = (do
      let (hmst, begin) ← validTime x.1 x.2.1 x.2.2.1 x.2.2.2 r
      return (⟨storedDate ymd, hmst⟩, begin)) := by
    intro unset
    rw [nodashes_date hd, afterDate, hread]
  refine ⟨fun unset unset' => by rw [hparse, hparse], fun unset out r' hout => ?_⟩
  rw [hparse] at hout
  obtain ⟨⟨hmst, r''⟩, hv, hret⟩ := bind_eq_ok.1 hout
  obtain ⟨rfl, rfl⟩ := Prod.mk.inj (Except.ok.inj hret)
  obtain ⟨-, htime, rfl⟩ := validTime_read hv
  refine ⟨rest, ?_, ?_⟩
  · rw [components]
    dsimp only
    rw [storedDate_components hd]
    exact hd
  · rw [components]
    dsimp only
    rw [htime]
    exact ht

/-- Where the second is what was in memory, two runs differ. -/
theorem afterDate_second_ne {h : ℤ} {rest r : List UInt8} (hread : ∀ second, readTime (0, second) rest = ((h, 0, second, 0), r))
    (h0 : 0 ≤ h) (hlt : h < 24) (d : date_ymd) : afterDate (0, 0) d rest ≠ afterDate (0, 1) d rest := by
  have hrun : ∀ second, 0 ≤ second ∧ second ≤ 60 → afterDate (0, second) d rest =
      .ok (⟨d, ⟨Int8.ofInt h, 0, Int8.ofInt second, 0⟩⟩, r) := by
    intro second hsecond
    have hv : time_hmst.is_valid h 0 second 0 = true := (time_hmst.is_valid_iff h 0 second 0).2 (by omega)
    simp only [afterDate, hread, validTime, if_pos hv, ok_bind]
    rfl
  rw [hrun 0 (by omega), hrun 1 (by omega)]
  intro heq
  have hsecond : Int8.ofInt 0 = Int8.ofInt 1 := congrArg (fun x => x.1.hmst.second) (Except.ok.inj heq)
  exact absurd hsecond (by decide)

theorem Number.nonneg {n : ℕ} {text : List UInt8} {v : ℤ} (h : Number n text v) : 0 ≤ v := by
  obtain ⟨ds, -, -, rfl⟩ := h
  exact Int.natCast_nonneg _

/-- The result is the written datetime, whatever was in memory, exactly where the text is not cut off after the date or after
the hour. -/
theorem nodashes_determined_iff (s : List UInt8) : Determined s ↔ ¬ CutOff s := by
  constructor
  · rintro ⟨hsame, -⟩ ⟨ymd, rest, hd, hrest⟩
    have hsame := hsame (0, 0) (0, 1)
    rw [nodashes_date hd, nodashes_date hd] at hsame
    rcases hrest with hnone | ⟨ht, h, s', rfl, hh, hlt, hnone⟩
    · obtain ⟨r, -, hread⟩ := readTime_date hnone
      exact afterDate_second_ne (fun second => hread (0, second)) le_rfl (by decide) _ hsame
    · obtain ⟨r, -, hread⟩ := readTime_hour hh hnone
      exact afterDate_second_ne (fun second => hread (0, second)) hh.nonneg hlt _ hsame
  · intro hcut
    have hfails : (∀ unset, parse_iso8601_nodashes_datetime unset s = noMatch) → Determined s := by
      intro hno
      refine ⟨fun unset unset' => by rw [hno, hno], fun unset out r hout => ?_⟩
      rw [hno] at hout
      exact absurd hout noMatch_ne_ok
    by_cases hdate : ∃ ymd rest, WrittenDate s ymd rest
    swap
    · exact hfails (nodashes_no_date hdate)
    obtain ⟨ymd, rest, hd⟩ := hdate
    rcases part_cases rest with ⟨ht, h, s1, rfl, hh⟩ | hnone
    swap
    · exact absurd ⟨ymd, rest, hd, .inl hnone⟩ hcut
    rcases part_cases s1 with ⟨mt, m, s2, rfl, hm⟩ | hnone
    · obtain ⟨x, r, hw, hread⟩ := readTime_minute hh hm s2
      exact determined_of_readTime hd hw hread
    · -- an hour alone that is no hour of the day
      obtain ⟨r, -, hread⟩ := readTime_hour hh hnone
      have hlt : ¬ h < 24 := fun hlt => hcut ⟨ymd, _, hd, .inr ⟨ht, h, s1, rfl, hh, hlt, hnone⟩⟩
      refine hfails fun unset => ?_
      have hv : ¬ time_hmst.is_valid h 0 unset.2 0 = true := fun hv => hlt ((time_hmst.is_valid_iff _ _ _ _).1 hv).1.2
      simp only [nodashes_date hd, afterDate, hread, validTime, if_neg hv]
      rfl

/-- A date alone: what was in memory is the minute and the second. -/
theorem date_alone_undetermined : ¬ Determined (['1', '9', '9', '7', '1', '2', '1', '9'].map ch) := by
  rintro ⟨hsame, -⟩
  exact absurd (hsame (0, 0) (30, 15)) (by decide +kernel)

end Dynd.Parse
