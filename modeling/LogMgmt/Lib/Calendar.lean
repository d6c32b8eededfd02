import Mathlib.Data.List.Basic

/-!
# The Gregorian calendar

Days are counted from 1970-01-01; `civil` gives the date of a day with astronomical years (year 0 is 1 BC)
and `Civil.day` the day of a date. Years are reckoned from March, so that a leap day is the last of its year.
-/

@[ext] structure Civil where
  year : Int
  month : Int
  mday : Int
deriving DecidableEq, Repr

namespace Civil

/-- Days from 0000-03-01 to 1970-01-01. -/
def epochShift : Int := 719468

/-- Days from 0000-03-01 to the first of March. -/
def marchDay (year : Int) : Int := 365 * year + year / 4 - year / 100 + year / 400

/-- The year that the day `z` after 0000-03-01 falls in, of its cycle of 400 years, its century and its
leap cycle; the last year of a century and of a leap cycle can be one day longer than the cycle says. -/
def marchYear (z : Int) : Int :=
  let c400 := z / 146097
  let r400 := z % 146097
  let c100 := min 3 (r400 / 36524)
  let r100 := r400 - 36524 * c100
  let c4 := r100 / 1461
  let r4 := r100 % 1461
  400 * c400 + 100 * c100 + 4 * c4 + min 3 (r4 / 365)

/-- The date of the day `yday` of a year that begins in March. -/
def ofYearDay (year yday : Int) : Civil :=
  let m := (5 * yday + 2) / 153
  { year := if m < 10 then year else year + 1
    month := if m < 10 then m + 3 else m - 9
    mday := yday - (153 * m + 2) / 5 + 1 }

/-- The day of a date. -/
def day (c : Civil) : Int :=
  let year := if c.month ≤ 2 then c.year - 1 else c.year
  let m := if c.month ≤ 2 then c.month + 9 else c.month - 3
  marchDay year + ((153 * m + 2) / 5 + c.mday - 1) - epochShift

end Civil

open Civil

/-- The date of a day. -/
def civil (day : Int) : Civil :=
  let z := day + epochShift
  ofYearDay (marchYear z) (z - marchDay (marchYear z))

/-- A date is valid if it is the date of its day. -/
def Civil.Valid (c : Civil) : Prop := civil c.day = c

instance : DecidablePred Civil.Valid := fun c => inferInstanceAs (Decidable (civil c.day = c))

/-- The first day of a year, by its cycle of 400 years, its century, its leap cycle and its place there. -/
theorem marchDay_cycles (q c d e : Int) (hc : 0 ≤ c ∧ c ≤ 3) (hd : 0 ≤ d ∧ d ≤ 24) (he : 0 ≤ e ∧ e ≤ 3) :
    marchDay (400 * q + 100 * c + 4 * d + e) = 146097 * q + 36524 * c + 1461 * d + 365 * e := by
  have h4 : (400 * q + 100 * c + 4 * d + e) / 4 = 100 * q + 25 * c + d := by omega
  have h100 : (400 * q + 100 * c + 4 * d + e) / 100 = 4 * q + c := by omega
  have h400 : (400 * q + 100 * c + 4 * d + e) / 400 = q := by omega
  rw [marchDay, h4, h100, h400]
  omega

theorem marchDay_le (z : Int) : marchDay (marchYear z) ≤ z ∧ z ≤ marchDay (marchYear z) + 365 := by
  unfold marchYear
  dsimp only
  generalize hr : z % 146097 = r
  generalize hs : r - 36524 * min 3 (r / 36524) = s
  generalize ht : s % 1461 = t
  have hd : 0 ≤ s / 1461 ∧ s / 1461 ≤ 24 := by omega
  rw [marchDay_cycles _ _ _ _ (by omega) hd (by omega)]
  omega

theorem ofYearDay_day {year yday : Int} (h : 0 ≤ yday) (h' : yday ≤ 365) :
    (ofYearDay year yday).day = marchDay year + yday - epochShift := by
  unfold ofYearDay Civil.day
  dsimp only
  generalize hm : (5 * yday + 2) / 153 = m
  by_cases h10 : m < 10
  · have hmar : ¬m + 3 ≤ 2 := by omega
    simp only [h10, hmar, if_true, if_false]
    rw [show m + 3 - 3 = m by omega]
    omega
  · have hjan : m - 9 ≤ 2 := by omega
    simp only [h10, hjan, if_true, if_false]
    rw [Int.add_sub_cancel, show m - 9 + 9 = m by omega]
    omega

theorem day_civil (day : Int) : (civil day).day = day := by
  have h := marchDay_le (day + epochShift)
  unfold civil
  dsimp only
  rw [ofYearDay_day (by omega) (by omega)]
  omega

theorem civil_injective : Function.Injective civil := Function.LeftInverse.injective day_civil

theorem civil_valid (day : Int) : (civil day).Valid := by rw [Civil.Valid, day_civil]

theorem civil_month (day : Int) : 1 ≤ (civil day).month ∧ (civil day).month ≤ 12 := by
  have h := marchDay_le (day + epochShift)
  unfold civil ofYearDay
  dsimp only
  split <;> omega

theorem civil_mday (day : Int) : 1 ≤ (civil day).mday ∧ (civil day).mday ≤ 31 := by
  have h := marchDay_le (day + epochShift)
  unfold civil ofYearDay
  dsimp only
  omega

theorem Civil.Valid.bounds {c : Civil} (h : c.Valid) :
    (1 ≤ c.month ∧ c.month ≤ 12) ∧ 1 ≤ c.mday ∧ c.mday ≤ 31 := by
  have hmonth := civil_month c.day
  have hmday := civil_mday c.day
  rw [show civil c.day = c from h] at hmonth hmday
  exact ⟨hmonth, hmday⟩

/-- The first day of the year 1 is 719162 days before 1970-01-01. -/
theorem civil_year_pos (day : Int) : 0 < (civil day).year ↔ -719162 ≤ day := by
  have h := marchDay_le (day + epochShift)
  unfold civil ofYearDay
  dsimp only
  generalize marchYear (day + epochShift) = year at h ⊢
  unfold marchDay epochShift at *
  split <;> omega

/-! ### Years -/

/-- The first day of a year. -/
def newYear (year : Int) : Int := Civil.day ⟨year, 1, 1⟩

theorem newYear_eq (year : Int) : newYear year = marchDay (year - 1) + 306 - epochShift := by
  unfold newYear Civil.day
  simp

theorem newYear_mono {year year' : Int} (h : year ≤ year') : newYear year ≤ newYear year' := by
  rw [newYear_eq, newYear_eq]
  unfold marchDay
  omega

/-- The days of a year are between its first and the next one's; this holds of a 30 February as well. -/
theorem Civil.day_bounds {c : Civil} (hmonth : 1 ≤ c.month ∧ c.month ≤ 12) (hmday : 1 ≤ c.mday ∧ c.mday ≤ 31) :
    newYear c.year ≤ c.day ∧ c.day < newYear (c.year + 1) := by
  rw [newYear_eq, newYear_eq]
  unfold Civil.day
  dsimp only
  split
  · rw [show c.year + 1 - 1 = c.year by omega]
    have hlong : marchDay c.year ≤ marchDay (c.year - 1) + 366 := by unfold marchDay; omega
    have hleap : marchDay (c.year - 1) + 365 ≤ marchDay c.year := by unfold marchDay; omega
    omega
  · rw [show c.year + 1 - 1 = c.year by omega]
    have hleap : marchDay (c.year - 1) + 365 ≤ marchDay c.year := by unfold marchDay; omega
    omega

theorem civil_bounds (day : Int) : newYear (civil day).year ≤ day ∧ day < newYear ((civil day).year + 1) := by
  have h := Civil.day_bounds (civil_month day) (civil_mday day)
  rwa [day_civil] at h

theorem civil_year_le {day year : Int} (h : day < newYear (year + 1)) : (civil day).year ≤ year := by
  by_contra hlt
  have hle := newYear_mono (show year + 1 ≤ (civil day).year by omega)
  have hge := (civil_bounds day).1
  omega

theorem le_civil_year {day year : Int} (h : newYear year ≤ day) : year ≤ (civil day).year := by
  by_contra hlt
  have hle := newYear_mono (show (civil day).year + 1 ≤ year by omega)
  have hge := (civil_bounds day).2
  omega

example : [civil 0, civil 11016, civil 20345, civil (-719163)] =
    [⟨1970, 1, 1⟩, ⟨2000, 2, 29⟩, ⟨2025, 9, 14⟩, ⟨0, 12, 31⟩] := by decide
