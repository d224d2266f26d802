import Dynd.DateText
import Dynd.SkipJson
/-!
# The time after a date

A date may be followed by a time of day that is midnight, with a time zone.
`DateSuffix` says which suffixes those are. `CutShort` are the two that break
off and are accepted as well: a "T" without a time, and a sign without an
offset.
-/
namespace Dynd.Parse
open Lib
open Json (isspace_toNat isspace_ne)

/-! ## The suffixes -/

/-- The digits of an offset: 06, 0600 or 06:00. -/
inductive Offset : List UInt8 → Prop where
  | hours {t : List UInt8} {v : ℤ} : Number 2 t v → Offset t
  | joined {t : List UInt8} {v : ℤ} : Number 4 t v → Offset t
  | colon {t t' : List UInt8} {v v' : ℤ} : Number 2 t v → Number 2 t' v' → Offset (t ++ ch ':' :: t')

def IsSign (c : UInt8) : Prop := c = ch '+' ∨ c = ch '-'

inductive Zone : List UInt8 → Prop where
  | utc : Zone [ch 'Z']
  | gmt : Zone [ch 'G', ch 'M', ch 'T']
  | offset {sign : UInt8} {t : List UInt8} : IsSign sign → Offset t → Zone (sign :: t)

/-- An hour, and optionally the minute, the second and its fraction, all zero. -/
inductive Midnight : List UInt8 → Prop where
  | hour : Midnight (['0', '0'].map ch)
  | minute : Midnight (['0', '0', ':', '0', '0'].map ch)
  | second : Midnight (['0', '0', ':', '0', '0', ':', '0', '0'].map ch)
  | fraction (n : ℕ) : Midnight (['0', '0', ':', '0', '0', ':', '0', '0', '.', '0'].map ch ++ List.replicate n (ch '0'))

/-- A "T" or whitespace. -/
def Separates (sep : List UInt8) : Prop := sep = [ch 'T'] ∨ Ws sep ∧ sep ≠ []

inductive DateSuffix : List UInt8 → Prop where
  | blank {w : List UInt8} : Ws w → DateSuffix w
  | midnight {sep clock w zone w' : List UInt8} : Separates sep → Midnight clock → Ws w → zone = [] ∨ Zone zone → Ws w' →
      DateSuffix (sep ++ (clock ++ (w ++ (zone ++ w'))))

inductive CutShort : List UInt8 → Prop where
  | time {w : List UInt8} : Ws w → CutShort (ch 'T' :: w)
  | offset {sep clock w w' : List UInt8} {sign : UInt8} : Separates sep → Midnight clock → Ws w → IsSign sign → Ws w' →
      CutShort (sep ++ (clock ++ (w ++ sign :: w')))

/-! ## The zone -/

theorem blank_iff {s : List UInt8} : skip_whitespace s = [] ↔ Ws s :=
  List.dropWhile_eq_nil_iff

theorem Ws.stops {p : UInt8 → Bool} {w : List UInt8} (hw : Ws w) (hp : ∀ c, isspace c = true → p c = false) : Stops p w := by
  rintro c t rfl
  exact hp c (hw c List.mem_cons_self)

theorem isDigit_of_isspace (c : UInt8) (h : isspace c = true) : isDigit c = false := by
  have hc := isspace_toNat h
  have h0 : (ch '0').toNat = 48 := rfl
  simp only [isDigit, Bool.and_eq_false_iff, decide_eq_false_iff_not, UInt8.le_iff_toNat_le]
  omega

/-- Fewer than `n` digits are not read as `n`. -/
theorem parse_digits_short {n : ℕ} {text r : List UInt8} {k : ℕ} {v : ℤ} (h : Number k text v) (hk : k < n)
    (hr : Stops isDigit r) : parse_digits n (text ++ r) = noMatch := by
  obtain ⟨ds, rfl, rfl, -⟩ := h
  rw [parse_digits, if_neg]
  simp only [Bool.and_eq_true, decide_eq_true_eq, List.all_eq_true, not_and]
  intro hn hall
  have hlen : (digitBytes ds).length = ds.length := List.length_map _
  cases r with
  | nil =>
    rw [List.append_nil, hlen] at hn
    omega
  | cons c r =>
    have hc : c ∈ (digitBytes ds ++ c :: r).take n := by
      rw [List.take_append, hlen]
      refine List.mem_append_right _ ?_
      rw [show n - ds.length = (n - ds.length - 1) + 1 by omega, List.take_succ_cons]
      exact List.mem_cons_self
    have hd := hall c hc
    rw [stops_cons.1 hr] at hd
    cases hd

theorem parse_digits_read {n : ℕ} {text r : List UInt8} {v : ℤ} (h : Number n text v) :
    parse_digits n (text ++ r) = .ok (v, r) :=
  parse_digits_iff.2 ⟨text, rfl, h⟩

theorem skipOffset_read (s : List UInt8) : skipOffset s = s ∨ ∃ t, s = t ++ skipOffset s ∧ Offset t := by
  rw [skipOffset]
  cases h4 : parse_4digit_int_no_ws s with
  | ok x =>
    obtain ⟨t, hs, ht⟩ := parse_digits_iff.1 h4
    exact .inr ⟨t, hs, .joined ht⟩
  | error e =>
    dsimp only
    cases h2 : parse_2digit_int_no_ws s with
    | error e => exact .inl rfl
    | ok x =>
      obtain ⟨v, r⟩ := x
      obtain ⟨t, rfl, ht⟩ := parse_digits_iff.1 h2
      dsimp only
      cases hc : parse_token_no_ws [ch ':'] r with
      | none => exact .inr ⟨t, rfl, .hours ht⟩
      | some r' =>
        dsimp only
        obtain rfl := parse_token_no_ws_iff.1 hc
        cases hm : parse_2digit_int_no_ws r' with
        | error e => exact .inr ⟨t, rfl, .hours ht⟩
        | ok x =>
          obtain ⟨v', r⟩ := x
          obtain ⟨t', rfl, ht'⟩ := parse_digits_iff.1 hm
          exact .inr ⟨t ++ ch ':' :: t', by simp, .colon ht ht'⟩

theorem skipOffset_eq {t w : List UInt8} (h : Offset t) (hw : Ws w) : skipOffset (t ++ w) = w := by
  have hdigit : Stops isDigit w := hw.stops isDigit_of_isspace
  have hcolon : parse_token_no_ws [ch ':'] w = none :=
    token_none_stops (hw.stops fun c hc => decide_eq_false (isspace_ne hc (by decide)))
  rw [skipOffset]
  cases h with
  | hours ht =>
    rw [parse_4digit_int_no_ws, parse_digits_short ht (by decide) hdigit, parse_2digit_int_no_ws, parse_digits_read ht]
    dsimp only [noMatch]
    rw [hcolon]
  | joined ht => rw [parse_4digit_int_no_ws, parse_digits_read ht]
  | @colon t t' v v' ht ht' =>
    have hstop : Stops isDigit (ch ':' :: (t' ++ w)) := stops_cons.2 (by decide)
    have htoken : parse_token_no_ws [ch ':'] (ch ':' :: (t' ++ w)) = some (t' ++ w) := token_some [ch ':'] _
    rw [List.append_assoc, List.cons_append, parse_4digit_int_no_ws, parse_digits_short ht (by decide) hstop,
      parse_2digit_int_no_ws, parse_digits_read ht]
    dsimp only [noMatch]
    rw [htoken]
    dsimp only
    rw [parse_digits_read ht']

/-- A sign with nothing after it but whitespace. -/
theorem skipOffset_blank {w : List UInt8} (hw : Ws w) : skipOffset w = w := by
  have hnone : Number 0 [] 0 := ⟨[], rfl, rfl, rfl⟩
  have hshort : ∀ n, 0 < n → parse_digits n w = noMatch := fun n hn =>
    parse_digits_short hnone hn (hw.stops isDigit_of_isspace)
  rw [skipOffset, parse_4digit_int_no_ws, hshort 4 (by decide), parse_2digit_int_no_ws, hshort 2 (by decide)]
  rfl

/-! ## The time zone -/

/-- A zone that the scanner gets past: a sign alone is one. -/
def Skipped (zone : List UInt8) : Prop := zone = [] ∨ Zone zone ∨ ∃ sign, IsSign sign ∧ zone = [sign]

/-- An optional zone with whitespace around it. -/
def ZoneRest (s : List UInt8) : Prop := ∃ w zone w', s = w ++ (zone ++ w') ∧ Ws w ∧ Skipped zone ∧ Ws w'

theorem skip_timezone_rest {s : List UInt8} (h : skip_whitespace (skip_timezone s) = []) : ZoneRest s := by
  obtain ⟨w, hs, hw, -⟩ := skip_whitespace_split s
  rw [skip_timezone] at h
  generalize skip_whitespace s = s' at hs h
  subst hs
  cases hz : parse_token_no_ws [ch 'Z'] s' with
  | some r =>
    rw [hz] at h
    obtain rfl := parse_token_no_ws_iff.1 hz
    exact ⟨w, _, r, rfl, hw, .inr (.inl .utc), blank_iff.1 h⟩
  | none =>
    rw [hz] at h
    dsimp only at h
    cases hg : parse_token_no_ws [ch 'G', ch 'M', ch 'T'] s' with
    | some r =>
      rw [hg] at h
      obtain rfl := parse_token_no_ws_iff.1 hg
      exact ⟨w, _, r, rfl, hw, .inr (.inl .gmt), blank_iff.1 h⟩
    | none =>
      rw [hg] at h
      dsimp only at h
      cases hsign : (parse_token_no_ws [ch '+'] s').or (parse_token_no_ws [ch '-'] s') with
      | none =>
        rw [hsign] at h
        exact ⟨w, [], s', rfl, hw, .inl rfl, blank_iff.1 h⟩
      | some r =>
        rw [hsign] at h
        obtain ⟨sign, hsg, rfl⟩ : ∃ sign, IsSign sign ∧ s' = sign :: r := by
          rcases Option.or_eq_some_iff.1 hsign with hp | ⟨-, hm⟩
          · exact ⟨_, .inl rfl, parse_token_no_ws_iff.1 hp⟩
          · exact ⟨_, .inr rfl, parse_token_no_ws_iff.1 hm⟩
        have hr : Ws (skipOffset r) := blank_iff.1 h
        rcases skipOffset_read r with hoff | ⟨t, ht, hoff⟩
        · rw [hoff] at hr
          exact ⟨w, [sign], r, rfl, hw, .inr (.inr ⟨sign, hsg, rfl⟩), hr⟩
        · refine ⟨w, sign :: t, skipOffset r, ?_, hw, .inr (.inl (.offset hsg hoff)), hr⟩
          rw [List.cons_append, ← ht]

theorem skip_timezone_sign {w t : List UInt8} {sign : UInt8} (hw : Ws w) (hsg : IsSign sign) :
    skip_timezone (w ++ sign :: t) = skipOffset t := by
  have hor : (parse_token_no_ws [ch '+'] (sign :: t)).or (parse_token_no_ws [ch '-'] (sign :: t)) = some t := by
    rcases hsg with rfl | rfl
    · rw [show parse_token_no_ws [ch '+'] (ch '+' :: t) = some t from token_some [ch '+'] t, Option.some_or]
    · rw [token_none_cons (by decide), Option.none_or]
      exact token_some [ch '-'] t
  have hstop : isspace sign = false ∧ ch 'Z' ≠ sign ∧ ch 'G' ≠ sign := by
    rcases hsg with rfl | rfl <;> decide
  rw [skip_timezone, skip_whitespace_eq hw (stops_cons.2 hstop.1), token_none_cons hstop.2.1,
    token_none_cons hstop.2.2, hor]

theorem skip_timezone_blank {s : List UInt8} (h : ZoneRest s) : skip_whitespace (skip_timezone s) = [] := by
  obtain ⟨w, zone, w', rfl, hw, hzone, hw'⟩ := h
  rw [blank_iff]
  rcases hzone with rfl | hzone | ⟨sign, hsg, rfl⟩
  · rw [List.nil_append, skip_timezone, blank_iff.2 (List.forall_mem_append.2 ⟨hw, hw'⟩)]
    exact List.forall_mem_nil _
  · cases hzone with
    | utc =>
      have hskip : skip_whitespace (w ++ ([ch 'Z'] ++ w')) = [ch 'Z'] ++ w' :=
        skip_whitespace_eq hw (stops_cons.2 (by decide))
      rw [skip_timezone, hskip, token_some]
      exact hw'
    | gmt =>
      have hskip : skip_whitespace (w ++ ([ch 'G', ch 'M', ch 'T'] ++ w')) = [ch 'G', ch 'M', ch 'T'] ++ w' :=
        skip_whitespace_eq hw (stops_cons.2 (by decide))
      have hutc : parse_token_no_ws [ch 'Z'] ([ch 'G', ch 'M', ch 'T'] ++ w') = none := token_none_cons (by decide) _ _
      rw [skip_timezone, hskip, hutc, token_some]
      exact hw'
    | offset hsg hoff =>
      rw [List.cons_append, skip_timezone_sign hw hsg, skipOffset_eq hoff hw']
      exact hw'
  · rw [List.singleton_append, skip_timezone_sign hw hsg, skipOffset_blank hw']
    exact hw'

theorem skip_timezone_iff {s : List UInt8} : skip_whitespace (skip_timezone s) = [] ↔ ZoneRest s :=
  ⟨skip_timezone_rest, skip_timezone_blank⟩

/-! ## The time -/

/-- A zone does not continue a clock. -/
theorem ZoneRest.stops {s : List UInt8} (h : ZoneRest s) : Stops (fun c => c = ch ':' || c = ch '.' || c = ch '0') s := by
  have hspace : ∀ c, isspace c = true → (c = ch ':' || c = ch '.' || c = ch '0') = false := by
    intro c hc
    have h1 := isspace_ne (d := ch ':') hc (by decide)
    have h2 := isspace_ne (d := ch '.') hc (by decide)
    have h3 := isspace_ne (d := ch '0') hc (by decide)
    simp [h1, h2, h3]
  obtain ⟨w, zone, w', rfl, hw, hzone, hw'⟩ := h
  cases w with
  | cons c w => exact stops_cons.2 (hspace c (hw c List.mem_cons_self))
  | nil =>
    have hsign : ∀ {sign : UInt8} {t : List UInt8}, IsSign sign →
        Stops (fun c => c = ch ':' || c = ch '.' || c = ch '0') (sign :: t) := by
      rintro sign t (rfl | rfl) <;> exact stops_cons.2 (by decide)
    rcases hzone with rfl | hzone | ⟨sign, hsg, rfl⟩
    · exact hw'.stops hspace
    · cases hzone with
      | utc => exact stops_cons.2 (by decide)
      | gmt => exact stops_cons.2 (by decide)
      | offset hsg hoff => exact hsign hsg
    · exact hsign hsg

/-- Midnight and a zone. -/
def TimeRest (s : List UInt8) : Prop := ∃ clock rest, s = clock ++ rest ∧ Midnight clock ∧ ZoneRest rest

theorem skip_midnight_time_rest {s : List UInt8} (h : skip_whitespace (skip_midnight_time s) = []) : Ws s ∨ TimeRest s := by
  rw [skip_midnight_time] at h
  cases hh : parse_token_no_ws [ch '0', ch '0'] s with
  | none =>
    rw [hh] at h
    exact .inl (blank_iff.1 h)
  | some s1 =>
    rw [hh] at h
    obtain rfl := parse_token_no_ws_iff.1 hh
    dsimp only at h
    cases hm : parse_token_no_ws [ch ':', ch '0', ch '0'] s1 with
    | none =>
      rw [hm] at h
      exact .inr ⟨_, s1, rfl, .hour, skip_timezone_iff.1 h⟩
    | some s2 =>
      rw [hm] at h
      obtain rfl := parse_token_no_ws_iff.1 hm
      dsimp only at h
      cases hs : parse_token_no_ws [ch ':', ch '0', ch '0'] s2 with
      | none =>
        rw [hs] at h
        exact .inr ⟨_, s2, rfl, .minute, skip_timezone_iff.1 h⟩
      | some s3 =>
        rw [hs] at h
        obtain rfl := parse_token_no_ws_iff.1 hs
        dsimp only at h
        cases hf : parse_token_no_ws [ch '.', ch '0'] s3 with
        | none =>
          rw [hf] at h
          exact .inr ⟨_, s3, rfl, .second, skip_timezone_iff.1 h⟩
        | some s4 =>
          rw [hf] at h
          obtain rfl := parse_token_no_ws_iff.1 hf
          obtain ⟨zeros, hz, hzeros, -⟩ := dropWhile_eq_iff.1 (Eq.refl (s4.dropWhile fun c => decide (c = ch '0')))
          have hrep : zeros = List.replicate zeros.length (ch '0') :=
            List.eq_replicate_iff.2 ⟨rfl, fun c hc => of_decide_eq_true (hzeros c hc)⟩
          refine .inr ⟨_, _, ?_, .fraction zeros.length, skip_timezone_iff.1 h⟩
          rw [List.append_assoc, ← hrep, ← hz]
          rfl

/-- A written clock is read in full. -/
theorem skip_midnight_time_clock {clock rest : List UInt8} (hclock : Midnight clock) (hrest : ZoneRest rest) :
    skip_midnight_time (clock ++ rest) = skip_timezone rest := by
  have hour : ∀ x, parse_token_no_ws [ch '0', ch '0'] (ch '0' :: ch '0' :: x) = some x := token_some _
  have colon : ∀ x, parse_token_no_ws [ch ':', ch '0', ch '0'] (ch ':' :: ch '0' :: ch '0' :: x) = some x := token_some _
  have point : ∀ x, parse_token_no_ws [ch '.', ch '0'] (ch '.' :: ch '0' :: x) = some x := token_some _
  have hstop : ∀ c ∈ [ch ':', ch '.', ch '0'], Stops (fun d => decide (d = c)) rest := by
    intro c hc d t ht
    have hd := hrest.stops d t ht
    simp only [Bool.or_eq_false_iff] at hd
    fin_cases hc
    · exact hd.1.1
    · exact hd.1.2
    · exact hd.2
  have nocolon : parse_token_no_ws [ch ':', ch '0', ch '0'] rest = none := token_none_stops (hstop _ (by simp))
  have nopoint : parse_token_no_ws [ch '.', ch '0'] rest = none := token_none_stops (hstop _ (by simp))
  rw [skip_midnight_time]
  cases hclock with
  | hour => simp only [List.map_cons, List.map_nil, List.cons_append, List.nil_append, hour, nocolon]
  | minute => simp only [List.map_cons, List.map_nil, List.cons_append, List.nil_append, hour, colon, nocolon]
  | second => simp only [List.map_cons, List.map_nil, List.cons_append, List.nil_append, hour, colon, nopoint]
  | fraction n =>
    have hzeros : (List.replicate n (ch '0') ++ rest).dropWhile (fun c => decide (c = ch '0')) = rest :=
      dropWhile_eq_iff.2 ⟨_, rfl, fun c hc => decide_eq_true (List.eq_of_mem_replicate hc), hstop _ (by simp)⟩
    simp only [List.map_cons, List.map_nil, List.cons_append, List.nil_append, hour, colon, point, hzeros]

theorem skip_midnight_time_iff {s : List UInt8} : skip_whitespace (skip_midnight_time s) = [] ↔ Ws s ∨ TimeRest s := by
  constructor
  · exact skip_midnight_time_rest
  · rintro (hw | ⟨clock, rest, rfl, hclock, hrest⟩)
    · have hh : parse_token_no_ws [ch '0', ch '0'] s = none :=
        token_none_stops (hw.stops fun c hc => decide_eq_false (isspace_ne hc (by decide)))
      rw [skip_midnight_time, hh]
      exact blank_iff.2 hw
    · rw [skip_midnight_time_clock hclock hrest]
      exact skip_timezone_iff.2 hrest

/-! ## What follows a date -/

theorem DateSuffix.of_rest {sep s : List UInt8} (hsep : Separates sep) (h : TimeRest s) :
    DateSuffix (sep ++ s) ∨ CutShort (sep ++ s) := by
  obtain ⟨clock, rest, rfl, hclock, w, zone, w', rfl, hw, hzone, hw'⟩ := h
  rcases hzone with hzone | hzone | ⟨sign, hsg, rfl⟩
  · exact .inl (.midnight hsep hclock hw (.inl hzone) hw')
  · exact .inl (.midnight hsep hclock hw (.inr hzone) hw')
  · exact .inr (.offset hsep hclock hw hsg hw')

theorem TimeRest.skipTime {sep s : List UInt8} (hsep : Separates sep) (h : TimeRest s) :
    skip_whitespace (skipTime (sep ++ s)) = [] := by
  have hstart : Stops isspace s := by
    obtain ⟨clock, rest, rfl, hclock, -⟩ := h
    cases hclock <;> exact stops_cons.2 (by decide)
  have hs := skip_midnight_time_iff.2 (.inr h)
  rcases hsep with rfl | ⟨hw, hne⟩
  · rw [Parse.skipTime, token_some]
    exact hs
  · obtain ⟨c, w, rfl⟩ := List.exists_cons_of_ne_nil hne
    have hT : parse_token_no_ws [ch 'T'] (c :: w ++ s) = none :=
      token_none_cons (isspace_ne (hw c List.mem_cons_self) (by decide)).symm _ _
    have hskip : skip_required_whitespace (c :: w ++ s) = some s := by
      rw [List.cons_append, skip_required_whitespace, if_pos (hw c List.mem_cons_self),
        skip_whitespace_eq (fun d hd => hw d (List.mem_cons_of_mem c hd)) hstart]
    rw [Parse.skipTime, hT, hskip]
    exact hs

theorem skipTime_iff {s : List UInt8} : skip_whitespace (skipTime s) = [] ↔ DateSuffix s ∨ CutShort s := by
  constructor
  · intro h
    rw [skipTime] at h
    cases hT : parse_token_no_ws [ch 'T'] s with
    | some r =>
      rw [hT] at h
      obtain rfl := parse_token_no_ws_iff.1 hT
      rcases skip_midnight_time_iff.1 h with hw | hr
      · exact .inr (.time hw)
      · exact DateSuffix.of_rest (.inl rfl) hr
    | none =>
      rw [hT] at h
      dsimp only at h
      cases hw : skip_required_whitespace s with
      | none =>
        rw [hw] at h
        exact .inl (.blank (blank_iff.1 h))
      | some r =>
        rw [hw] at h
        obtain ⟨w, rfl, hws, hne⟩ := required_whitespace_read (by rw [hw]; rfl)
        rcases skip_midnight_time_iff.1 h with hr | hr
        · exact .inl (.blank (List.forall_mem_append.2 ⟨hws, hr⟩))
        · exact DateSuffix.of_rest (.inr ⟨hws, hne⟩) hr
  · rintro (h | h)
    · cases h with
      | blank hw =>
        cases s with
        | nil => rfl
        | cons c w =>
          have hT : parse_token_no_ws [ch 'T'] (c :: w) = none :=
            token_none_cons (isspace_ne (hw c List.mem_cons_self) (by decide)).symm _ _
          have hend : skip_whitespace w = [] := blank_iff.2 fun d hd => hw d (List.mem_cons_of_mem c hd)
          rw [skipTime, hT, skip_required_whitespace, if_pos (hw c List.mem_cons_self), hend]
          rfl
      | midnight hsep hclock hw hzone hw' =>
        exact TimeRest.skipTime hsep ⟨_, _, rfl, hclock, _, _, _, rfl, hw, hzone.imp_right .inl, hw'⟩
    · cases h with
      | @time w hw =>
        have hT : parse_token_no_ws [ch 'T'] (ch 'T' :: w) = some w := token_some [ch 'T'] w
        rw [skipTime, hT]
        exact skip_midnight_time_iff.2 (.inl hw)
      | offset hsep hclock hw hsg hw' =>
        exact TimeRest.skipTime hsep ⟨_, _, rfl, hclock, _, [_], _, rfl, hw, .inr (.inr ⟨_, hsg, rfl⟩), hw'⟩

section
variable {rawtime century_window : ℤ} {ambig : date_parse_order_t} {errmode : assign_error_mode} {s : List UInt8}

theorem date_set_from_str_iff (hmode : errmode ≠ .nocheck) (ymd : date_ymd) :
    date_set_from_str rawtime ambig century_window errmode s = .ok ymd ↔
      ∃ r, parse_date rawtime ambig century_window (skip_whitespace s) = .ok (ymd, r) ∧ (DateSuffix r ∨ CutShort r) := by
  rw [date_set_from_str, string_to_date]
  cases hp : parse_date rawtime ambig century_window (skip_whitespace s) with
  | error e =>
    constructor
    · intro h
      cases e <;> cases h
    · rintro ⟨r, h, -⟩
      cases h
  | ok x =>
    obtain ⟨ymd', r⟩ := x
    dsimp only [ok_bind]
    rw [if_neg hmode]
    by_cases hend : skip_whitespace (skipTime r) = []
    · rw [if_pos hend]
      constructor
      · intro h
        obtain rfl := Except.ok.inj h
        exact ⟨r, rfl, skipTime_iff.1 hend⟩
      · rintro ⟨r', h, -⟩
        rw [(Prod.mk.inj (Except.ok.inj h)).1]
        rfl
    · rw [if_neg hend]
      constructor
      · intro h
        cases h
      · rintro ⟨r', h, hr⟩
        obtain ⟨rfl, rfl⟩ := Prod.mk.inj (Except.ok.inj h)
        exact absurd (skipTime_iff.2 hr) hend

/-- In a checking mode nothing but whitespace or a time of midnight may follow
the date, the two that break off apart. -/
theorem date_suffix_iff (hmode : errmode ≠ .nocheck)
    (hcut : ∀ ymd r, parse_date rawtime ambig century_window (skip_whitespace s) = .ok (ymd, r) → ¬ CutShort r)
    (ymd : date_ymd) : date_set_from_str rawtime ambig century_window errmode s = .ok ymd ↔
      ∃ r, parse_date rawtime ambig century_window (skip_whitespace s) = .ok (ymd, r) ∧ DateSuffix r := by
  rw [date_set_from_str_iff hmode]
  constructor
  · rintro ⟨r, hp, hr | hr⟩
    · exact ⟨r, hp, hr⟩
    · exact absurd hr (hcut ymd r hp)
  · rintro ⟨r, hp, hr⟩
    exact ⟨r, hp, .inl hr⟩

end

theorem not_cutShort_nil : ¬ CutShort [] := by
  generalize hs : ([] : List UInt8) = s
  intro h
  cases h with
  | time hw => cases hs
  | offset hsep =>
    have hempty := (List.append_eq_nil_iff.1 hs.symm).1
    rcases hsep with rfl | ⟨-, hne⟩
    · cases hempty
    · exact hne hempty

theorem date_suffix_blank : date_set_from_str 0 .no_ambig 70 .fractional
      (['1', '9', '1', '8', '-', '0', '5', '-', '2', '3'].map ch) = .ok ⟨1918, 5, 23⟩ ↔
    ∃ r, parse_date 0 .no_ambig 70 (skip_whitespace (['1', '9', '1', '8', '-', '0', '5', '-', '2', '3'].map ch)) =
      .ok (⟨1918, 5, 23⟩, r) ∧ DateSuffix r :=
  date_suffix_iff (by decide) (by
    intro ymd r h
    have hread : parse_date 0 .no_ambig 70 (skip_whitespace (['1', '9', '1', '8', '-', '0', '5', '-', '2', '3'].map ch)) =
        .ok (⟨1918, 5, 23⟩, []) := by decide +kernel
    rw [(Prod.mk.inj (Except.ok.inj (h.symm.trans hread))).2]
    exact not_cutShort_nil) _

/-- An hour is enough for a time. -/
theorem hour_alone_accepted : date_set_from_str 0 .no_ambig 70 .fractional
      (['1', '9', '1', '8', '-', '0', '5', '-', '2', '3', 'T', '0', '0'].map ch) = .ok ⟨1918, 5, 23⟩ ∧
    parse_date 0 .no_ambig 70 (['1', '9', '1', '8', '-', '0', '5', '-', '2', '3', 'T', '0', '0'].map ch) =
      .ok (⟨1918, 5, 23⟩, ['T', '0', '0'].map ch) ∧
    ¬ Ws (['T', '0', '0'].map ch) ∧ ∀ sep t, ['T', '0', '0'].map ch ≠ sep ++ (['0', '0', ':', '0', '0'].map ch ++ t) := by
  refine ⟨by decide +kernel, by decide +kernel, ?_, ?_⟩
  · intro h
    exact absurd (h (ch 'T') List.mem_cons_self) (by decide)
  · intro sep t h
    have hlen := congrArg List.length h
    simp only [List.length_append, List.length_map, List.length_cons, List.length_nil] at hlen
    omega

end Dynd.Parse
