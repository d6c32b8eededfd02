import Mathlib.Tactic.IntervalCases
import LogMgmt.Digits

/-!
# The year of a timestamp

When `parse_rfc3164` gives back the instant that was written as `Mon DD HH:MM:SS`: the year it takes is that of the
current time, or the one before.
-/

namespace LogMgmt
open Pattern

/-! ### The parts of a timestamp -/

section
variable {u : Unicode}

theorem first_char (c : Char) (s : Str) : (char c).first (chr c :: s) = some ([chr c], s) :=
  first_one (beq_self_eq_true _) s

theorem first_pair {p q : CodePoint → Bool} {n : Nat} (hn : n < 100) (hp : p (digit (n / 10)))
    (hq : q (digit (n % 10))) (s : Str) : (pair p q).first (twoDigits n ++ s) = some (twoDigits n, s) := by
  rw [twoDigits_eq hn]
  exact first_bind (first_one hp _) (first_bind (first_one hq _) (first_pure _ _))

theorem pair_eq_nil {p q : CodePoint → Bool} {n : Nat} (hn : n < 100) (hp : ¬p (digit (n / 10))) (s : Str) :
    pair p q (twoDigits n ++ s) = [] := by
  rw [twoDigits_eq hn]
  show List.flatMap _ (one p (digit (n / 10) :: _)) = []
  rw [one_eq_nil hp]
  rfl

/-- `%d` reads a day in two digits. -/
theorem first_dayRe (hu : u.Ascii) {n : Nat} (hn : 1 ≤ n ∧ n ≤ 31) (s : Str) :
    (dayRe u).first (twoDigits n ++ s) = some (twoDigits n, s) := by
  have hlt : n < 100 := by omega
  have htens : n / 10 < 10 := by omega
  have hunits : n % 10 < 10 := by omega
  by_cases hthree : n / 10 = 3
  · exact first_alt_left
      (first_pair hlt ((between_iff 3 3 htens).2 (by omega)) ((between_iff 0 1 hunits).2 (by omega)) s)
  refine first_alt_right (pair_eq_nil hlt (fun h => hthree ?_) s) ?_
  · have := (between_iff 3 3 htens).1 h
    omega
  by_cases hzero : n / 10 = 0
  · refine first_alt_right (pair_eq_nil hlt (fun h => ?_) s) (first_alt_left ?_)
    · have := (between_iff 1 2 htens).1 h
      omega
    · exact first_pair hlt ((between_iff 0 0 htens).2 (by omega)) ((between_iff 1 9 hunits).2 (by omega)) s
  · exact first_alt_left (first_pair hlt ((between_iff 1 2 htens).2 (by omega)) (hu.isDigit_digit hunits) s)

theorem first_hourRe (hu : u.Ascii) {n : Nat} (hn : n < 24) (s : Str) :
    (hourRe u).first (twoDigits n ++ s) = some (twoDigits n, s) := by
  have hlt : n < 100 := by omega
  have htens : n / 10 < 10 := by omega
  have hunits : n % 10 < 10 := by omega
  by_cases htwo : n / 10 = 2
  · exact first_alt_left
      (first_pair hlt ((between_iff 2 2 htens).2 (by omega)) ((between_iff 0 3 hunits).2 (by omega)) s)
  refine first_alt_right (pair_eq_nil hlt (fun h => htwo ?_) s) (first_alt_left ?_)
  · have := (between_iff 2 2 htens).1 h
    omega
  · exact first_pair hlt ((between_iff 0 1 htens).2 (by omega)) (hu.isDigit_digit hunits) s

theorem first_minuteRe (hu : u.Ascii) {n : Nat} (hn : n < 60) (s : Str) :
    (minuteRe u).first (twoDigits n ++ s) = some (twoDigits n, s) := by
  have htens : n / 10 < 10 := by omega
  exact first_alt_left (first_pair (by omega) ((between_iff 0 5 htens).2 (by omega)) (hu.isDigit_digit (by omega)) s)

theorem first_secondRe (hu : u.Ascii) {n : Nat} (hn : n < 60) (s : Str) :
    (secondRe u).first (twoDigits n ++ s) = some (twoDigits n, s) := by
  have hlt : n < 100 := by omega
  have htens : n / 10 < 10 := by omega
  refine first_alt_right (pair_eq_nil hlt (fun h => ?_) s) (first_alt_left ?_)
  · have := (between_iff 6 6 htens).1 h
    omega
  · exact first_pair hlt ((between_iff 0 5 htens).2 (by omega)) (hu.isDigit_digit (by omega)) s

/-- The name that `%b` writes. -/
def monthName (month : Nat) : Str :=
  (["Jan", "Feb", "Mar", "Apr", "May", "Jun", "Jul", "Aug", "Sep", "Oct", "Nov", "Dec"].map str).getD (month - 1) []

theorem first_monthRe {n : Nat} (hn : 1 ≤ n ∧ n ≤ 12) (s : Str) : monthRe.first (monthName n ++ s) = some (n, s) := by
  obtain ⟨hlo, hhi⟩ := hn
  interval_cases n <;> rfl

/-- One blank and what other white space follows it. -/
theorem first_blanks {blank s : Str} (hblank : ∀ c ∈ blank, isSpace c) (hs : ∀ c ∈ s.head?, ¬isSpace c) :
    (plus isSpace).first (chr ' ' :: (blank ++ s)) = some (chr ' ' :: blank, s) :=
  first_plus (w := chr ' ' :: blank) (List.cons_ne_nil _ _) (List.forall_mem_cons.2 ⟨by decide, hblank⟩) hs

theorem first_blank {s : Str} (hs : ∀ c ∈ s.head?, ¬isSpace c) :
    (plus isSpace).first (chr ' ' :: s) = some ([chr ' '], s) :=
  first_blanks (show ∀ c ∈ ([] : Str), isSpace c from nofun) hs

theorem first_space {w : Str} (hw : ∃ b w', w = b :: w' ∧ ¬isSpace b) (s : Str) :
    (plus isSpace).first (chr ' ' :: (w ++ s)) = some ([chr ' '], w ++ s) := by
  obtain ⟨b, w', rfl, hb⟩ := hw
  exact first_blank (not_head_cons hb _)

theorem monthName_word {n : Nat} (hn : 1 ≤ n ∧ n ≤ 12) : ∃ b w, monthName n = b :: w ∧ ¬isSpace b := by
  obtain ⟨hlo, hhi⟩ := hn
  interval_cases n <;> exact ⟨_, _, rfl, by decide⟩

theorem twoDigits_word {n : Nat} (hn : n < 100) : ∃ b w, twoDigits n = b :: w ∧ ¬isSpace b := by
  have hdigit : ∀ k < 10, ¬isSpace (digit k) := by decide
  exact ⟨_, _, twoDigits_eq hn, hdigit _ (by omega)⟩

/-- `Mon DD HH:MM:SS` of a date without its year and the seconds of the day. -/
def timestamp (month mday second : Nat) : Str :=
  monthName month ++ chr ' ' :: (twoDigits mday ++ chr ' ' :: (twoDigits (second / 3600) ++
    chr ':' :: (twoDigits (second / 60 % 60) ++ chr ':' :: twoDigits (second % 60))))

theorem first_timeFieldsRe (hu : u.Ascii) {year month mday second : Nat} (hyear : 1000 ≤ year ∧ year ≤ 9999)
    (hmonth : 1 ≤ month ∧ month ≤ 12) (hmday : 1 ≤ mday ∧ mday ≤ 31) (hsecond : second < 86400) :
    (timeFieldsRe u).first (digits year ++ chr ' ' :: timestamp month mday second) =
      some (⟨year, month, mday, second / 3600, second / 60 % 60, second % 60⟩, []) := by
  have hlength : (digits year).length = 4 := by
    have hle := (length_digits_le_iff (n := year) (show 0 < 4 by decide)).2 (by omega)
    have hgt := (length_digits_le_iff (n := year) (show 0 < 3 by decide)).not.2 (by omega)
    omega
  have hdigits : ∀ c ∈ digits year, u.isDigit c := by
    intro c hc
    obtain ⟨k, hk, rfl⟩ := mem_digits hc
    exact hu.isDigit_digit hk
  have hfour := rep_append hdigits (chr ' ' :: timestamp month mday second)
  rw [hlength] at hfour
  unfold timeFieldsRe
  refine first_bind (by rw [Pattern.first, hfour]; rfl) ?_
  refine first_bind (first_space (monthName_word hmonth) _) ?_
  refine first_bind (first_monthRe hmonth _) ?_
  refine first_bind (first_space (twoDigits_word (by omega)) _) ?_
  refine first_bind (first_dayRe hu hmday _) ?_
  refine first_bind (first_space (twoDigits_word (by omega)) _) ?_
  refine first_bind (first_hourRe hu (by omega) _) ?_
  refine first_bind (first_char ':' _) ?_
  refine first_bind (first_minuteRe hu (by omega) _) ?_
  refine first_bind (first_char ':' _) ?_
  have hlast := first_secondRe hu (n := second % 60) (by omega) []
  rw [List.append_nil] at hlast
  refine first_bind hlast ?_
  rw [hu.int_digits, hu.int_twoDigits (by omega), hu.int_twoDigits (by omega), hu.int_twoDigits (by omega),
    hu.int_twoDigits (by omega)]
  exact first_pure _ _

/-- A year of four digits is read back. -/
theorem strptime_timestamp (hu : u.Ascii) {year month mday second : Nat} (hyear : 1000 ≤ year ∧ year ≤ 9999)
    (hmonth : 1 ≤ month ∧ month ≤ 12) (hmday : 1 ≤ mday ∧ mday ≤ 31) (hsecond : second < 86400) :
    strptime u (digits year ++ str " " ++ timestamp month mday second) =
      DateTime.combine ⟨year, month, mday⟩ (seconds second) none := by
  have hfirst := first_timeFieldsRe hu hyear hmonth hmday hsecond
  have hclock : (3600 * (second / 3600 : Nat) + 60 * (second / 60 % 60 : Nat) + (second % 60 : Nat) : Int) =
      second := by omega
  rw [List.append_assoc, show str " " ++ timestamp month mday second = chr ' ' :: timestamp month mday second from rfl]
  unfold strptime
  rw [hfirst]
  dsimp only
  rw [if_pos (show second % 60 < 60 by omega), hclock]

/-- `%Y` takes four digits, and years before 1000 are written with fewer. -/
theorem strptime_short (hu : u.Ascii) {year : Nat} (hyear : year < 1000) (s : Str) :
    ∃ exc, strptime u (digits year ++ str " " ++ s) = .error exc := by
  have hlength := (length_digits_le_iff (n := year) (show 0 < 3 by decide)).2 (by omega)
  have hnone : (timeFieldsRe u).first (digits year ++ str " " ++ s) = none := by
    rw [List.append_assoc]
    exact first_bind_of_nil (rep_short (by omega) hu.not_isDigit_space s)
  unfold strptime
  rw [hnone]
  exact ⟨_, rfl⟩

end

/-! ### The instant -/

namespace DateTime

/-- `Mon DD HH:MM:SS` -/
def monthDayTime (t : DateTime) : Str :=
  timestamp t.date.month.toNat t.date.mday.toNat (t.wall % seconds 86400 / seconds 1).toNat

/-- One calendar year later; 29 February becomes 1 March where there is none. -/
def nextYear (t : DateTime) : Int :=
  seconds (86400 * ({ t.date with year := t.date.year + 1 } : Civil).day) + t.wall % seconds 86400

section
variable {t now : DateTime} {c : Civil} {time : Int} {o : Option Int}

theorem time_bounds (t : DateTime) : 0 ≤ t.wall % seconds 86400 ∧ t.wall % seconds 86400 < seconds 86400 := by
  unfold seconds
  omega

theorem wall_eq (t : DateTime) : t.wall = seconds (86400 * t.date.day) + t.wall % seconds 86400 := by
  rw [date, day_civil]
  unfold seconds
  omega

theorem date_combined (htime : 0 ≤ time ∧ time < seconds 86400) (hc : c.Valid) :
    (⟨seconds (86400 * c.day) + time, o⟩ : DateTime).date = c ∧
      (seconds (86400 * c.day) + time) % seconds 86400 = time := by
  have hday : (seconds (86400 * c.day) + time) / seconds 86400 = c.day := by
    unfold seconds at *
    omega
  constructor
  · rw [date, hday]
    exact hc
  · unfold seconds at *
    omega

theorem combine_ok (hyear : 1 ≤ c.year ∧ c.year ≤ 9999) (hc : c.Valid) :
    combine c time o = .ok ⟨seconds (86400 * c.day) + time, o⟩ := if_pos ⟨hyear.1, hyear.2, hc⟩

theorem wall_of_combine (h : combine c time o = .ok t) : t.wall = seconds (86400 * c.day) + time := by
  unfold combine at h
  split at h
  · rw [← Except.ok.inj h]
  · cases h

theorem replaceYear_combined (htime : 0 ≤ time ∧ time < seconds 86400) (hc : c.Valid) (year : Int) :
    (⟨seconds (86400 * c.day) + time, o⟩ : DateTime).replaceYear year = combine { c with year } time o := by
  obtain ⟨hdate, hmod⟩ := date_combined (o := o) htime hc
  rw [replaceYear, hdate]
  dsimp only
  rw [hmod]

/-- The years of `datetime`. -/
theorem Utc.year_bounds (h : t.Utc) : 1 ≤ t.date.year ∧ t.date.year ≤ 9999 := by
  have hge := h.ge
  have hle := h.le
  constructor
  · refine le_civil_year ?_
    rw [show newYear 1 = -719162 by decide]
    unfold minWall seconds at *
    omega
  · refine civil_year_le ?_
    rw [show newYear (9999 + 1) = 2932897 by decide]
    unfold maxWall seconds at *
    omega

end

end DateTime

section
variable {u : Unicode} {t now : DateTime}

def DateTime.inYear (t : DateTime) (year : Int) : Civil := { t.date with year }

theorem DateTime.inYear_self (t : DateTime) : t.inYear t.date.year = t.date := rfl

/-- What `strptime` makes of the timestamp, once the current year has four digits. -/
theorem strptime_monthDayTime (hu : u.Ascii) (hwhole : t.wall % seconds 1 = 0) {year : Int}
    (hyear : 1000 ≤ year ∧ year ≤ 9999) :
    strptime u (digits year.toNat ++ str " " ++ t.monthDayTime) =
      DateTime.combine (t.inYear year) (t.wall % seconds 86400) none := by
  obtain ⟨hmonth, hmonth'⟩ := civil_month (t.wall / seconds 86400)
  obtain ⟨hmday, hmday'⟩ := civil_mday (t.wall / seconds 86400)
  have htime := t.time_bounds
  have hsecond : (t.wall % seconds 86400 / seconds 1).toNat < 86400 := by
    unfold seconds at *
    omega
  have hseconds : seconds ((t.wall % seconds 86400 / seconds 1).toNat : Int) = t.wall % seconds 86400 := by
    unfold seconds at *
    omega
  have hdate : (⟨year.toNat, t.date.month.toNat, t.date.mday.toNat⟩ : Civil) = t.inYear year := by
    unfold DateTime.inYear DateTime.date
    rw [Int.toNat_of_nonneg (by omega), Int.toNat_of_nonneg (by omega), Int.toNat_of_nonneg (by omega)]
  have hmonthNat : 1 ≤ t.date.month.toNat ∧ t.date.month.toNat ≤ 12 := by
    unfold DateTime.date
    omega
  have hmdayNat : 1 ≤ t.date.mday.toNat ∧ t.date.mday.toNat ≤ 31 := by
    unfold DateTime.date
    omega
  rw [DateTime.monthDayTime, strptime_timestamp hu (by omega) hmonthNat hmdayNat hsecond, hseconds, hdate]

theorem parseRfc3164_dated (hu : u.Ascii) (hwhole : t.wall % seconds 1 = 0) (hnow : now.Utc)
    (hyear : 1000 ≤ now.date.year) (hdate : (t.inYear now.date.year).Valid)
    (hlast : now.wall + seconds 300 ≤ DateTime.maxWall) :
    parseRfc3164 u t.monthDayTime now =
      let candidate := seconds (86400 * (t.inYear now.date.year).day) + t.wall % seconds 86400
      if now.wall + seconds 300 < candidate
      then DateTime.combine (t.inYear (now.date.year - 1)) (t.wall % seconds 86400) (some 0)
      else .ok ⟨candidate, some 0⟩ := by
  have hyears := hnow.year_bounds
  have hadd : now.add (seconds 300) = .ok ⟨now.wall + seconds 300, some 0⟩ := by
    have hpos : 0 ≤ seconds 300 := by decide
    have hge := hnow.ge
    rw [DateTime.add, if_pos ⟨by omega, hlast⟩, hnow.offset]
  have hgt : ∀ a b : Int, (⟨a, some 0⟩ : DateTime).gt ⟨b, some 0⟩ = .ok (decide (b < a)) := by
    intro a b
    show Except.ok (decide (b - 0 < a - 0)) = _
    rw [Int.sub_zero, Int.sub_zero]
  unfold parseRfc3164
  rw [strptime_monthDayTime hu hwhole ⟨hyear, hyears.2⟩, DateTime.combine_ok (by exact hyears) hdate, hadd]
  simp only [bind, Except.bind, hgt, DateTime.replaceYear_combined t.time_bounds hdate, decide_eq_true_eq]
  rfl

theorem DateTime.inYear_bounds (t : DateTime) (year : Int) :
    newYear year ≤ (t.inYear year).day ∧ (t.inYear year).day < newYear (year + 1) :=
  Civil.day_bounds (c := t.inYear year) (civil_month _) (civil_mday _)

/-- An instant is of the current year or the one before, if it is not of a later one. -/
theorem year_cases (hyear : now.wall + seconds 300 < t.nextYear) (hle : t.date.year ≤ now.date.year) :
    t.date.year = now.date.year ∨ t.date.year + 1 = now.date.year := by
  by_contra hother
  have hnext := (t.inYear_bounds (t.date.year + 1)).2
  have hmono := newYear_mono (show t.date.year + 1 + 1 ≤ now.date.year by omega)
  have hnow := (civil_bounds (now.wall / seconds 86400)).1
  have htime := t.time_bounds
  unfold DateTime.nextYear at hyear
  unfold DateTime.inYear at hnext
  unfold DateTime.date at *
  unfold seconds at *
  omega

/-- A timestamp is given a time only if the current year has four digits, the date exists in it and the limit is a
time. -/
theorem dated_of_parseRfc3164 (hu : u.Ascii) (hwhole : t.wall % seconds 1 = 0) (hnow : now.Utc) {t' : DateTime}
    (h : parseRfc3164 u t.monthDayTime now = .ok t') :
    1000 ≤ now.date.year ∧ (t.inYear now.date.year).Valid ∧ now.wall + seconds 300 ≤ DateTime.maxWall := by
  have hyears := hnow.year_bounds
  have hfour : 1000 ≤ now.date.year := by
    by_contra hshort
    obtain ⟨exc, hexc⟩ := strptime_short hu (show now.date.year.toNat < 1000 by omega) t.monthDayTime
    unfold parseRfc3164 at h
    rw [hexc] at h
    cases h
  have hdate : (t.inYear now.date.year).Valid := by
    by_contra hmissing
    unfold parseRfc3164 at h
    rw [strptime_monthDayTime hu hwhole ⟨hfour, hyears.2⟩, DateTime.combine, if_neg fun h => hmissing h.2.2] at h
    cases h
  refine ⟨hfour, hdate, not_lt.1 fun hlast => ?_⟩
  have hok : (strptime u (digits now.date.year.toNat ++ str " " ++ t.monthDayTime)).isOk := by
    rw [strptime_monthDayTime hu hwhole ⟨hfour, hyears.2⟩, DateTime.combine_ok (by exact hyears) hdate]
    rfl
  rw [parseRfc3164_overflow hlast hok] at h
  cases h

/-- The year given to a timestamp is the current one or the one before it. -/
theorem year_le_of_parseRfc3164 (hu : u.Ascii) (hwhole : t.wall % seconds 1 = 0) (hnow : now.Utc)
    (h : parseRfc3164 u t.monthDayTime now = .ok t) : t.date.year ≤ now.date.year := by
  obtain ⟨hfour, hdate, hlast⟩ := dated_of_parseRfc3164 hu hwhole hnow h
  rw [parseRfc3164_dated hu hwhole hnow hfour hdate hlast] at h
  dsimp only at h
  obtain ⟨year, hyear, hwall⟩ : ∃ year, year ≤ now.date.year ∧
      t.wall = seconds (86400 * (t.inYear year).day) + t.wall % seconds 86400 := by
    split at h
    · exact ⟨_, by omega, DateTime.wall_of_combine h⟩
    · exact ⟨_, le_rfl, congrArg DateTime.wall (Except.ok.inj h).symm⟩
  -- the day is of `year`, and so is not of a year after it
  by_contra hlater
  have hthen := (t.inYear_bounds year).2
  have hmono := newYear_mono (show year + 1 ≤ t.date.year by omega)
  have hstart := (t.inYear_bounds t.date.year).1
  have hself := t.wall_eq
  rw [DateTime.inYear_self] at hstart
  unfold seconds at *
  omega

/-- A timestamp of the current year or of the one before it gives back its instant. -/
theorem parseRfc3164_back (hu : u.Ascii) (ht : t.Utc) (hwhole : t.wall % seconds 1 = 0) (hnow : now.Utc)
    (hle : t.wall ≤ now.wall + seconds 300) (hyear : now.wall + seconds 300 < t.nextYear)
    (hfour : 1000 ≤ now.date.year) (hlast : now.wall + seconds 300 ≤ DateTime.maxWall)
    (hbefore : t.date.year ≤ now.date.year) (hdate : (t.inYear now.date.year).Valid) :
    parseRfc3164 u t.monthDayTime now = .ok t := by
  have hself : (⟨seconds (86400 * t.date.day) + t.wall % seconds 86400, some 0⟩ : DateTime) = t := by
    rw [← t.wall_eq, ← ht.offset]
  rw [parseRfc3164_dated hu hwhole hnow hfour hdate hlast]
  dsimp only
  rcases year_cases hyear hbefore with hthis | hprev
  · rw [← hthis, DateTime.inYear_self, hself, ← t.wall_eq, if_neg (by omega)]
  · have hcandidate : seconds (86400 * (t.inYear now.date.year).day) + t.wall % seconds 86400 = t.nextYear := by
      rw [← hprev]
      rfl
    rw [hcandidate, if_pos hyear, ← hprev, Int.add_sub_cancel, DateTime.inYear_self,
      DateTime.combine_ok ht.year_bounds (civil_valid _), hself]

/-- A timestamp gives back its instant, up to five minutes ahead of the clock and less than a calendar year before that,
exactly when the current year has four digits, the limit is a time, the instant is not of the next year, and its date
exists in the current year. -/
theorem rollover_iff (hu : u.Ascii) (ht : t.Utc) (hwhole : t.wall % seconds 1 = 0) (hnow : now.Utc)
    (hle : t.wall ≤ now.wall + seconds 300) (hyear : now.wall + seconds 300 < t.nextYear) :
    parseRfc3164 u t.monthDayTime now = .ok t ↔
      1000 ≤ now.date.year ∧ now.wall + seconds 300 ≤ DateTime.maxWall ∧ t.date.year ≤ now.date.year ∧
        (t.inYear now.date.year).Valid := by
  constructor
  · intro h
    obtain ⟨hfour, hdate, hlast⟩ := dated_of_parseRfc3164 hu hwhole hnow h
    exact ⟨hfour, hlast, year_le_of_parseRfc3164 hu hwhole hnow h, hdate⟩
  · rintro ⟨hfour, hlast, hbefore, hdate⟩
    exact parseRfc3164_back hu ht hwhole hnow hle hyear hfour hlast hbefore hdate

end

theorem Unicode.sample_ascii : Unicode.sample.Ascii where
  decimal _ _ := rfl

/-- 29 February 2024, read on 2 January 2025: that year has no such date. And the first minute of 2027, read two minutes
before: it is taken for that of 2026. -/
theorem rollover_wrong :
    let leapDay : DateTime := ⟨1709200800000000, some 0⟩
    let january : DateTime := ⟨1735776000000000, some 0⟩
    let ahead : DateTime := ⟨1798761660000000, some 0⟩
    let december : DateTime := ⟨1798761480000000, some 0⟩
    (leapDay.wall ≤ january.wall + seconds 300 ∧ january.wall + seconds 300 < leapDay.nextYear ∧
      parseRfc3164 .sample leapDay.monthDayTime january ≠ .ok leapDay) ∧
    (ahead.wall ≤ december.wall + seconds 300 ∧ december.wall + seconds 300 < ahead.nextYear ∧
      parseRfc3164 .sample ahead.monthDayTime december ≠ .ok ahead) := by
  intro leapDay january ahead december
  have hleap : (parseRfc3164 .sample leapDay.monthDayTime january).toOption ≠ some leapDay := by decide +kernel
  have hahead : (parseRfc3164 .sample ahead.monthDayTime december).toOption ≠ some ahead := by decide +kernel
  exact ⟨⟨by decide, by decide, fun h => hleap (by rw [h]; rfl)⟩,
    by decide, by decide, fun h => hahead (by rw [h]; rfl)⟩

/-- The last second of 2025, read on 2 January 2026. -/
theorem rollover_december :
    let t : DateTime := ⟨1767225599000000, some 0⟩
    parseRfc3164 .sample t.monthDayTime ⟨1767312000000000, some 0⟩ = .ok t :=
  (rollover_iff Unicode.sample_ascii ⟨rfl, by decide, by decide⟩ (by decide) ⟨rfl, by decide, by decide⟩ (by decide)
    (by decide)).2 ⟨by decide, by decide, by decide, by decide⟩

end LogMgmt
