import Dynd.DatetimeParser
import Dynd.MidnightTime
/-!
# Leap seconds

A time is valid with a second of 60, and the parser takes one. The ticks since
midnight have no place for it: they are those of the next minute, and after
the last minute those of no time of the day. `time_of_day_iff` says that this
is all that does not come back.
-/
namespace Dynd
open Lib Parse

/-- The ticks are in a day, not the NA value, and are set back to the same time. -/
structure time_hmst.RoundTrips (x : time_hmst) : Prop where
  in_day : 0 ≤ x.toTicks ∧ x.toTicks < TICKS_PER_DAY
  not_na : x.toTicks ≠ DATETIME_NA
  back : ∀ y : time_hmst, y.set_from_ticks x.toTicks = x

/-! ## The ticks -/

/-- The parts that a count of ticks is split into. -/
theorem set_from_ticks_parts (y : time_hmst) {ticks : ℤ} (h0 : 0 ≤ ticks) (h : ticks < TICKS_PER_DAY) :
    (y.set_from_ticks ticks).hour.toInt = ticks / 10000000 / 60 / 60 ∧
    (y.set_from_ticks ticks).minute.toInt = ticks / 10000000 / 60 % 60 ∧
    (y.set_from_ticks ticks).second.toInt = ticks / 10000000 % 60 ∧
    (y.set_from_ticks ticks).tick.toInt = ticks % 10000000 := by
  have hday : TICKS_PER_DAY = 864000000000 := rfl
  have hsec : TICKS_PER_SECOND = 10000000 := rfl
  have hseconds : 0 ≤ ticks / 10000000 := by omega
  have hminutes : 0 ≤ ticks / 10000000 / 60 := by omega
  rw [time_hmst.set_from_ticks, if_pos ⟨h0, h⟩, hsec]
  dsimp only
  rw [Int.tdiv_eq_ediv_of_nonneg h0, Int.tmod_eq_emod_of_nonneg h0, Int.tdiv_eq_ediv_of_nonneg hseconds,
    Int.tmod_eq_emod_of_nonneg hseconds, Int.tdiv_eq_ediv_of_nonneg hminutes, Int.tmod_eq_emod_of_nonneg hminutes]
  refine ⟨?_, ?_, ?_, ?_⟩
  · exact Int8.toInt_ofInt_of_le (by omega) (by omega)
  · exact Int8.toInt_ofInt_of_le (by omega) (by omega)
  · exact Int8.toInt_ofInt_of_le (by omega) (by omega)
  · exact Int32.toInt_ofInt_of_le (by omega) (by omega)

/-- A valid time comes back from its ticks exactly when its second is not a leap second. -/
theorem roundTrips_iff {x : time_hmst} (h : x.isValid = true) : x.RoundTrips ↔ x.second.toInt ≠ 60 := by
  have hday : TICKS_PER_DAY = 864000000000 := rfl
  have hna : DATETIME_NA = -2 ^ 63 := rfl
  have hv := (time_hmst.is_valid_iff _ _ _ _).1 h
  have hticks := time_hmst.toTicks_eq h
  constructor
  · intro hr hleap
    obtain ⟨-, -, hsecond, -⟩ := set_from_ticks_parts x hr.in_day.1 hr.in_day.2
    rw [hr.back x] at hsecond
    omega
  · intro hne
    have hin : 0 ≤ x.toTicks ∧ x.toTicks < TICKS_PER_DAY := by omega
    refine ⟨hin, by omega, fun y => ?_⟩
    obtain ⟨hhour, hminute, hsecond, htick⟩ := set_from_ticks_parts y hin.1 hin.2
    ext
    · exact Int8.toInt_inj.1 (by omega)
    · exact Int8.toInt_inj.1 (by omega)
    · exact Int8.toInt_inj.1 (by omega)
    · exact Int32.toInt_inj.1 (by omega)

namespace Parse

/-! ## The text -/

def IsTimeSeparator (c : UInt8) : Prop := c = ch '.' ∨ c = ch ':'

/-- An hour, a minute and the seconds `60`. -/
def LeapSecond (s : List UInt8) : Prop := ∃ w ht h a mt m b rest,
  s = w ++ (ht ++ a :: (mt ++ b :: ch '6' :: ch '0' :: rest)) ∧ Ws w ∧ ShortNumber ht h ∧ IsTimeSeparator a ∧ Number 2 mt m ∧
    IsTimeSeparator b

theorem timeSeparator_iff {s r : List UInt8} : timeSeparator s = some r ↔ ∃ c, IsTimeSeparator c ∧ s = c :: r := by
  rw [timeSeparator, Option.or_eq_some_iff, parse_token_no_ws_iff, parse_token_no_ws_iff]
  constructor
  · rintro (rfl | ⟨-, rfl⟩)
    · exact ⟨ch '.', .inl rfl, rfl⟩
    · exact ⟨ch ':', .inr rfl, rfl⟩
  · rintro ⟨c, rfl | rfl, rfl⟩
    · exact .inl rfl
    · exact .inr ⟨token_none_cons (by decide) _ _, rfl⟩

theorem Number.length {n : ℕ} {text : List UInt8} {v : ℤ} (h : Number n text v) : text.length = n := by
  obtain ⟨ds, hlen, rfl, -⟩ := h
  rw [digitBytes, List.length_map, hlen]

theorem Number.digits {n : ℕ} {text : List UInt8} {v : ℤ} (h : Number n text v) : ∀ c ∈ text, isDigit c = true := by
  obtain ⟨ds, -, rfl, -⟩ := h
  intro c hc
  obtain ⟨d, -, rfl⟩ := List.mem_map.1 hc
  exact isDigit_digitByte d

theorem number_sixty {text : List UInt8} {v : ℤ} (h : Number 2 text v) : v = 60 ↔ text = [ch '6', ch '0'] := by
  obtain ⟨ds, hlen, rfl, rfl⟩ := h
  match ds, hlen with
  | [d, e], _ =>
    have hbytes : digitBytes [d, e] = [ch '6', ch '0'] ↔ d = 6 ∧ e = 0 := by
      revert d e
      decide
    have hvalue : horner 10 0 ([d, e].map Fin.val) = 10 * d.val + e.val := by simp
    rw [hbytes, hvalue, Fin.ext_iff, Fin.ext_iff]
    have hd : (6 : Fin 10).val = 6 := rfl
    have he : (0 : Fin 10).val = 0 := rfl
    have := e.isLt
    omega

/-- A time that passes the check is valid, and it is the one that was checked. -/
theorem validTime_read {hour minute second tick : ℤ} {s r : List UInt8} {x : time_hmst}
    (h : validTime hour minute second tick s = .ok (x, r)) : x.isValid = true ∧
      (x.hour.toInt, x.minute.toInt, x.second.toInt, x.tick.toInt) = (hour, minute, second, tick) ∧ s = r := by
  rw [validTime] at h
  split_ifs at h with hv
  · obtain ⟨rfl, rfl⟩ := Prod.mk.inj (Except.ok.inj h)
    have hbounds := (time_hmst.is_valid_iff hour minute second tick).1 hv
    rw [time_hmst.isValid, Int8.toInt_ofInt_of_le (by omega) (by omega), Int8.toInt_ofInt_of_le (by omega) (by omega),
      Int8.toInt_ofInt_of_le (by omega) (by omega), Int32.toInt_ofInt_of_le (by omega) (by omega)]
    exact ⟨hv, rfl, rfl⟩
  · exact absurd h noMatch_ne_ok

/-- A time up to where its seconds are. -/
structure OpensTime (s ht : List UInt8) (a : UInt8) (mt s3 : List UInt8) : Prop where
  split : s = ht ++ a :: (mt ++ s3)
  hour : ∃ h, ShortNumber ht h
  separator : IsTimeSeparator a
  minute : ∃ m, Number 2 mt m

theorem OpensTime.unique {s ht ht' mt mt' s3 s3' : List UInt8} {a a' : UInt8} (h : OpensTime s ht a mt s3)
    (h' : OpensTime s ht' a' mt' s3') : s3 = s3' := by
  have hstop : ∀ {ht mt s3 : List UInt8} {a : UInt8}, OpensTime s ht a mt s3 → s.dropWhile isDigit = a :: (mt ++ s3) := by
    intro ht mt s3 a ho
    obtain ⟨v, hv⟩ := ho.hour
    have hdigits : ∀ c ∈ ht, isDigit c = true := hv.elim Number.digits Number.digits
    have ha : isDigit a = false := by
      rcases ho.separator with rfl | rfl <;> decide
    exact dropWhile_eq_iff.2 ⟨ht, ho.split, hdigits, stops_cons.2 ha⟩
  obtain ⟨m, hm⟩ := h.minute
  obtain ⟨m', hm'⟩ := h'.minute
  have heq := (List.cons.inj ((hstop h).symm.trans (hstop h'))).2
  exact (List.append_inj heq (by rw [hm.length, hm'.length])).2

/-- What `parse_flex_time` reads: a valid time, and its seconds where a separator follows the minute. -/
theorem flex_time_read {s r : List UInt8} {x : time_hmst} (h : parse_flex_time s = .ok (x, r)) :
    x.isValid = true ∧ ∃ ht a mt s3, OpensTime s ht a mt s3 ∧
      ((timeSeparator s3 = none ∧ x.second.toInt = 0) ∨
        ∃ b st second s4, s3 = b :: (st ++ s4) ∧ IsTimeSeparator b ∧ Number 2 st second ∧ x.second.toInt = second) := by
  obtain ⟨⟨hour, s1⟩, h1, hafter⟩ := bind_eq_ok.1 h
  obtain ⟨s2, h2, hafter'⟩ := bind_eq_ok.1 hafter
  obtain ⟨⟨minute, s3⟩, h3, hrun⟩ := bind_eq_ok.1 hafter'
  clear h hafter hafter'
  obtain ⟨ht, rfl, hh⟩ := parse_1or2digit_read h1
  obtain ⟨a, ha, rfl⟩ := timeSeparator_iff.1 (matched_eq_ok.1 h2)
  obtain ⟨mt, rfl, hm⟩ := parse_digits_iff.1 h3
  have hopen : OpensTime (ht ++ a :: (mt ++ s3)) ht a mt s3 := ⟨rfl, ⟨_, hh⟩, ha, ⟨_, hm⟩⟩
  have hread : ∀ {second tick hour' : ℤ} {s r : List UInt8}, validTime hour' minute second tick s = .ok (x, r) →
      x.isValid = true ∧ x.second.toInt = second := by
    intro second tick hour' s r hv
    obtain ⟨hvalid, hparts, -⟩ := validTime_read hv
    exact ⟨hvalid, congrArg (fun p => p.2.2.1) hparts⟩
  cases hsep : timeSeparator s3 with
  | none =>
    simp only [hsep] at hrun
    obtain ⟨hv, hsecond⟩ := hread hrun
    exact ⟨hv, ht, a, mt, s3, hopen, .inl ⟨hsep, hsecond⟩⟩
  | some s4 =>
    simp only [hsep] at hrun
    obtain ⟨⟨second, s5⟩, h4, hend⟩ := bind_eq_ok.1 hrun
    clear hrun
    obtain ⟨b, hb, rfl⟩ := timeSeparator_iff.1 hsep
    obtain ⟨st, rfl, hst⟩ := parse_digits_iff.1 h4
    have hvalid : x.isValid = true ∧ x.second.toInt = second := by
      cases hfraction : timeSeparator s5 with
      | none =>
        simp only [hfraction] at hend
        exact hread hend
      | some s6 =>
        simp only [hfraction] at hend
        obtain ⟨⟨tick, s7⟩, -, hvalid⟩ := bind_eq_ok.1 hend
        exact hread hvalid
    exact ⟨hvalid.1, ht, a, mt, _, hopen, .inr ⟨b, st, second, s5, rfl, hb, hst, hvalid.2⟩⟩

/-- A time that is accepted is valid, and its second is 60 exactly when that is what is written. -/
theorem string_to_time_second {s : List UInt8} {x : time_hmst} {tz : Option (List UInt8)} (h : string_to_time s = .ok (x, tz)) :
    x.isValid = true ∧ (x.second.toInt = 60 ↔ LeapSecond s) := by
  obtain ⟨⟨⟨x', tz'⟩, r⟩, htime, h⟩ := bind_eq_ok.1 h
  obtain ⟨⟨hmst, r'⟩, hflex, htz⟩ := bind_eq_ok.1 htime
  obtain rfl : hmst = x := by
    dsimp only at htz h
    split_ifs at h
    · obtain ⟨rfl, -⟩ := Prod.mk.inj (Except.ok.inj h)
      cases hzone : parse_timezone r' with
      | none =>
        simp only [hzone] at htz
        exact congrArg (fun p => p.1.1) (Except.ok.inj htz)
      | some z =>
        simp only [hzone] at htz
        exact congrArg (fun p => p.1.1) (Except.ok.inj htz)
    · exact absurd h noMatch_ne_ok
  obtain ⟨hv, ht, a, mt, s3, hopen, hsecond⟩ := flex_time_read hflex
  refine ⟨hv, ?_⟩
  obtain ⟨w, hs, hw, hstop⟩ := skip_whitespace_split s
  constructor
  · intro hleap
    rcases hsecond with ⟨-, h0⟩ | ⟨b, st, second, s4, rfl, hb, hst, heq⟩
    · omega
    · obtain rfl := (number_sixty hst).1 (heq.symm.trans hleap)
      obtain ⟨hour, hh⟩ := hopen.hour
      obtain ⟨m, hm⟩ := hopen.minute
      refine ⟨w, ht, hour, a, mt, m, b, s4, ?_, hw, hh, hopen.separator, hm, hb⟩
      have hsplit : skip_whitespace s = ht ++ a :: (mt ++ b :: ch '6' :: ch '0' :: s4) := hopen.split
      rw [← hsplit]
      exact hs
  · rintro ⟨w', ht', hour, a', mt', m, b', rest, rfl, hw', hh, ha, hm, hb⟩
    have hskip : skip_whitespace (w' ++ (ht' ++ a' :: (mt' ++ b' :: ch '6' :: ch '0' :: rest))) =
        ht' ++ a' :: (mt' ++ b' :: ch '6' :: ch '0' :: rest) := by
      obtain ⟨c, t, rfl, hc⟩ := hh.starts
      refine skip_whitespace_eq hw' (stops_cons.2 (Bool.eq_false_iff.2 fun hspace => ?_))
      rw [isDigit_of_isspace c hspace] at hc
      cases hc
    rw [hskip] at hopen
    have hopen' : OpensTime (ht' ++ a' :: (mt' ++ b' :: ch '6' :: ch '0' :: rest)) ht' a' mt' (b' :: ch '6' :: ch '0' :: rest) :=
      ⟨rfl, ⟨_, hh⟩, ha, ⟨_, hm⟩⟩
    obtain rfl := hopen.unique hopen'
    rcases hsecond with ⟨hnone, -⟩ | ⟨b, st, second, s4, heq, -, hst, hx⟩
    · rw [timeSeparator_iff.2 ⟨b', hb, rfl⟩] at hnone
      cases hnone
    · have htext : [ch '6', ch '0'] ++ rest = st ++ s4 := (List.cons.inj heq).2
      have hsixty : [ch '6', ch '0'] = st := (List.append_inj htext (by rw [hst.length]; rfl)).1
      exact hx.trans ((number_sixty hst).2 hsixty.symm)

end Parse

/-- A valid time comes back from its ticks exactly when it has no leap second; of an accepted text, exactly when none is written. -/
theorem time_of_day_iff (x : time_hmst) : (x.isValid = true → (x.RoundTrips ↔ x.second.toInt ≠ 60)) ∧
    ∀ s tz, string_to_time s = .ok (x, tz) → (x.RoundTrips ↔ ¬ LeapSecond s) := by
  refine ⟨fun hx => roundTrips_iff hx, fun s tz h => ?_⟩
  obtain ⟨hv, hleap⟩ := string_to_time_second h
  rw [roundTrips_iff hv, ← hleap]

/-- The last second of a day, which becomes the NA value. -/
theorem last_leap_second : string_to_time (['2', '3', ':', '5', '9', ':', '6', '0'].map ch) = .ok (⟨23, 59, 60, 0⟩, none) ∧
    ¬ time_hmst.RoundTrips ⟨23, 59, 60, 0⟩ := by
  refine ⟨by decide +kernel, fun h => ?_⟩
  exact absurd h.in_day.2 (by decide)

end Dynd
