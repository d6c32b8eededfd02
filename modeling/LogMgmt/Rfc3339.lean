import LogMgmt.Fromisoformat

/-!
# RFC 3339 timestamps

Which strings `parse_rfc3339` reads as RFC 3339 wants them: a date-time as its instant, and no string as a time without
offset.
-/

namespace LogMgmt
open Decimal

/-! ### The grammar -/

/-- What ends a date-time. -/
inductive Zone where
  | upper
  | lower
  | numeric (negative : Bool) (hour minute : Nat)

namespace Zone

def text : Zone → Str
  | upper => str "Z"
  | lower => str "z"
  | numeric negative hour minute => signOf negative :: (fixed ascii 2 hour ++ chr ':' :: fixed ascii 2 minute)

def offset : Zone → Int
  | numeric negative hour minute => TimeComps.signed ⟨hour, minute, 0, 0⟩ negative
  | _ => 0

def Valid : Zone → Prop
  | numeric _ hour minute => hour < 24 ∧ minute < 60
  | _ => True

end Zone

/-- A date-time of RFC 3339, without leap seconds. -/
structure Rfc3339 where
  year : Nat
  month : Nat
  mday : Nat
  /-- `t` for `T` -/
  lowercase : Bool
  hour : Nat
  minute : Nat
  second : Nat
  /-- how many digits the fraction has -/
  width : Nat
  fraction : Nat
  zone : Zone
  year_lt : year < 10 ^ 4
  date_valid : Civil.Valid ⟨year, month, mday⟩
  hour_lt : hour < 24
  minute_lt : minute < 60
  second_lt : second < 60
  fraction_lt : fraction < 10 ^ width
  zone_valid : zone.Valid

namespace Rfc3339

def clockText (d : Rfc3339) : Str :=
  fixed ascii 2 d.hour ++ chr ':' :: (fixed ascii 2 d.minute ++ chr ':' :: fixed ascii 2 d.second)

def fractionText (d : Rfc3339) : Str := if d.width = 0 then [] else chr '.' :: fixed ascii d.width d.fraction

def sep (d : Rfc3339) : CodePoint := if d.lowercase then chr 't' else chr 'T'

def text (d : Rfc3339) : Str :=
  isoDate d.year d.month d.mday ++ d.sep :: (d.clockText ++ d.fractionText ++ d.zone.text)

/-- The instant, truncated to microseconds. -/
def instant (d : Rfc3339) : Int :=
  seconds (86400 * Civil.day ⟨d.year, d.month, d.mday⟩) + seconds (3600 * d.hour + 60 * d.minute + d.second) +
    (d.fraction * 1000000 / 10 ^ d.width : Nat) - d.zone.offset

/-- Within the years 1 to 9999 of UTC. -/
def InRange (d : Rfc3339) : Prop := DateTime.minWall ≤ d.instant ∧ d.instant ≤ DateTime.maxWall

/-- No fraction or one of three or six digits, an upper-case `Z` or an offset, and a year that `datetime` has. -/
structure Supported (d : Rfc3339) : Prop where
  width : d.width = 0 ∨ d.width = 3 ∨ d.width = 6
  zone : d.zone ≠ .lower
  year : 1 ≤ d.year

end Rfc3339

/-- A date alone or before `Z`, or a date, a character and a time without offset, perhaps with a NUL after it. -/
def Offsetless (s : Str) : Prop :=
  ∃ year month mday, IsoDay year month mday ∧
    (s = isoDate year month mday ∨ s = isoDate year month mday ++ str "Z" ∨
      ∃ sep w r, IsoTime w r ∧ r.ended ∧ r.time.Clock ∧ s = isoDate year month mday ++ sep :: w)

/-- A date-time is read as its instant, and nothing else as a time without offset. -/
structure ReadsRfc3339 (py : Py) (s : Str) : Prop where
  instant : ∀ d : Rfc3339, d.InRange → s = d.text →
    ∃ t, parseRfc3339 py (.str s) = .ok t ∧ t.utcoffset.isSome ∧ t.instant = d.instant
  aware : (¬∃ d : Rfc3339, d.InRange ∧ s = d.text) → ∀ t, parseRfc3339 py (.str s) = .ok t → t.utcoffset.isSome

/-! ### The suffix -/

theorem isoTime_minute {h m : Nat} (hh : h < 10 ^ 2) (hm : m < 10 ^ 2) :
    IsoTime (fixed ascii 2 h ++ chr ':' :: fixed ascii 2 m) ⟨[h, m], 0, true⟩ := .colon hh (.field hm)

/-- The string that is handed to `fromisoformat`. -/
def withOffset (s : Str) : Str := if str "Z" <:+ s then s.dropLast ++ str "+00:00" else s

/-- The library with the parser of Python 3.10. -/
def Py.python310 (py : Py) : Py := { py with fromisoformat := LogMgmt.fromisoformat }

section
variable {py : Py} {s w w' : Str} {t : DateTime}

theorem parseRfc3339_eq_ok : parseRfc3339 py.python310 (.str s) = .ok t ↔ fromisoformat (withOffset s) = some t := by
  rcases hf : fromisoformat (withOffset s) with _ | t'
  all_goals
    unfold withOffset at hf
    simp [parseRfc3339, Py.python310, hf]

theorem withOffset_upper (w : Str) : withOffset (w ++ str "Z") = w ++ str "+00:00" := by
  rw [withOffset, if_pos (List.suffix_append _ _)]
  congr 1
  exact List.dropLast_concat

theorem withOffset_other (w : Str) (hne : w' ≠ []) (hz : chr 'Z' ∉ w') : withOffset (w ++ w') = w ++ w' := by
  refine if_neg ?_
  rintro ⟨y, hy⟩
  obtain ⟨v, c, rfl⟩ := (List.eq_nil_or_concat w').resolve_left hne
  rw [List.concat_eq_append, ← List.append_assoc] at hy
  have hlast := (List.append_inj' hy rfl).2
  refine hz (List.mem_of_mem_getLast? ?_)
  rw [List.concat_eq_append, List.getLast?_concat, ← (List.cons.inj hlast).1]
  rfl

/-- A text with one place where the property holds is cut there in one way. -/
theorem cut_unique {γ : Type} {p : γ → Bool} {x x' y y' : List γ} {a b : γ} (h : x ++ a :: y = x' ++ b :: y')
    (hx : ∀ c ∈ x, !p c) (hx' : ∀ c ∈ x', !p c) (ha : p a) (hb : p b) : x = x' ∧ a = b ∧ y = y' := by
  obtain rfl : x = x' := by rw [← takeWhile_cut (y := y) hx ha, h, takeWhile_cut hx' hb]
  exact ⟨rfl, List.cons.inj (List.append_cancel_left h)⟩

/-! ### Strings without offset -/

theorem not_mem_isoDate {year month mday : Nat} {c : CodePoint} (hdash : c ≠ chr '-') (hdigit : ∀ d < 10, c ≠ digit d) :
    c ∉ isoDate year month mday := by
  intro hc
  have hfixed : ∀ {k n}, c ∉ fixed ascii k n := fun hc => by
    obtain ⟨d, hd, rfl⟩ := mem_fixed hc
    exact hdigit d hd rfl
  unfold isoDate at hc
  simp only [List.mem_append, List.mem_cons, hfixed, hdash, or_self] at hc

theorem not_mem_isoTime {r : HhMmSsFf} {c : CodePoint} (h : IsoTime w r) (hended : r.ended) (hc : ¬IsClockChar c) :
    c ∉ w := fun hmem => hc (h.chars hended c hmem)

theorem not_isClockChar {c : CodePoint} (hcolon : c ≠ chr ':') (hpoint : c ≠ chr '.') (hnul : c ≠ 0)
    (hdigit : ∀ d < 10, c ≠ digit d) : ¬IsClockChar c := by
  rintro (h | h | h | ⟨d, hd, h⟩)
  · exact hcolon h
  · exact hpoint h
  · exact hnul h
  · exact hdigit d hd h

theorem not_isClockChar_upper : ¬IsClockChar (chr 'Z') :=
  not_isClockChar (by decide) (by decide) (by decide) (by decide)

/-- A string without offset is read as a naive time. -/
theorem Offsetless.naive (h : Offsetless s) : ∃ t, fromisoformat (withOffset s) = some t ∧ t.utcoffset = none := by
  obtain ⟨year, month, mday, hday, rfl | rfl | ⟨sep, w, r, hr, hended, hclock, rfl⟩⟩ := h
  · have hz : chr 'Z' ∉ isoDate year month mday := not_mem_isoDate (by decide) (by decide)
    have hne : isoDate year month mday ≠ [] := List.cons_ne_nil _ _
    have hsame : withOffset (isoDate year month mday) = isoDate year month mday := withOffset_other [] hne hz
    rw [hsame]
    exact ⟨_, fromisoformat_date hday, rfl⟩
  · rw [withOffset_upper]
    have hzero : IsoTime (str "00:00") ⟨[0, 0], 0, true⟩ :=
      isoTime_minute (h := 0) (m := 0) (by decide) (by decide)
    exact ⟨_, fromisoformat_eq_some.2 (.time hday (chr '+') (.naive hzero rfl) ⟨by decide, by simp⟩), rfl⟩
  · have hsame := withOffset_other (isoDate year month mday ++ [sep]) hr.ne_nil
      (not_mem_isoTime hr hended not_isClockChar_upper)
    rw [List.append_assoc] at hsame
    rw [show isoDate year month mday ++ sep :: w = isoDate year month mday ++ ([sep] ++ w) from rfl, hsame]
    exact ⟨_, fromisoformat_eq_some.2 (.time hday sep (.naive hr hended) ⟨hclock, by simp⟩), rfl⟩

/-- And no other string. -/
theorem offsetless_of_naive (h : fromisoformat (withOffset s) = some t) (hnaive : t.utcoffset = none) :
    Offsetless s := by
  by_cases hz : str "Z" <:+ s
  · obtain ⟨w, rfl⟩ := hz
    rw [withOffset_upper] at h
    generalize htext : w ++ str "+00:00" = text at h
    have hplus : ¬IsClockChar (chr '+') := not_isClockChar (by decide) (by decide) (by decide) (by decide)
    have hmem : chr '+' ∈ text := by
      rw [← htext]
      exact List.mem_append_right _ List.mem_cons_self
    have hdate : ∀ {year month mday}, chr '+' ∉ isoDate year month mday := not_mem_isoDate (by decide) (by decide)
    cases fromisoformat_eq_some.1 h with
    | date hday => exact absurd hmem hdate
    | time hday sep htail hclock =>
      cases htail with
      | naive hr hended =>
        have htime := not_mem_isoTime hr hended hplus
        -- the one plus sign is the separator
        obtain rfl : sep = chr '+' := by
          rcases List.mem_append.1 hmem with hmem | hmem
          · exact absurd hmem hdate
          · exact ((List.mem_cons.1 hmem).resolve_right htime).symm
        have hw : chr '+' ∉ w := by
          have hcount := congrArg (List.count (chr '+')) htext
          rw [List.count_append, List.count_append, List.count_eq_zero_of_not_mem hdate, List.count_cons_self,
            List.count_eq_zero_of_not_mem htime, show List.count (chr '+') (str "+00:00") = 1 by decide] at hcount
          exact List.count_eq_zero.1 (by omega)
        obtain ⟨rfl, -⟩ := cut_unique (p := (· == chr '+')) (a := chr '+') htext
          (fun c hc => by simpa using fun h : c = chr '+' => hw (h ▸ hc))
          (fun c hc => by simpa using fun h : c = chr '+' => hdate (h ▸ hc)) (beq_self_eq_true _) (beq_self_eq_true _)
        exact ⟨_, _, _, hday, .inr (.inl rfl)⟩
      | aware => cases hnaive
  · rw [withOffset, if_neg hz] at h
    cases fromisoformat_eq_some.1 h with
    | date hday => exact ⟨_, _, _, hday, .inl rfl⟩
    | time hday sep htail hclock =>
      cases htail with
      | naive hr hended => exact ⟨_, _, _, hday, .inr (.inr ⟨sep, _, _, hr, hended, hclock.clock, rfl⟩)⟩
      | aware => cases hnaive

end

/-! ### Date-times -/

namespace Zone

/-- The offset as `fromisoformat` is given it: sign, hours and minutes. -/
def parts : Zone → Bool × Nat × Nat
  | numeric negative hour minute => (negative, hour, minute)
  | _ => (false, 0, 0)

def numericText (z : Zone) : Str :=
  signOf z.parts.1 :: (fixed ascii 2 z.parts.2.1 ++ chr ':' :: fixed ascii 2 z.parts.2.2)

variable {z : Zone}

theorem Valid.parts (h : z.Valid) : z.parts.2.1 < 24 ∧ z.parts.2.2 < 60 := by
  cases z with
  | numeric negative hour minute => exact h
  | _ => exact ⟨by decide, by decide⟩

theorem offset_eq (z : Zone) : z.offset = TimeComps.signed ⟨z.parts.2.1, z.parts.2.2, 0, 0⟩ z.parts.1 := by
  cases z <;> rfl

theorem Valid.offset_lt (h : z.Valid) : -seconds 86400 < z.offset ∧ z.offset < seconds 86400 := by
  have hparts := h.parts
  rw [offset_eq]
  unfold TimeComps.signed TimeComps.total TimeComps.wholeSeconds seconds
  dsimp only
  split <;> omega

end Zone

namespace Rfc3339
variable (d : Rfc3339)

def timeText : Str := d.clockText ++ d.fractionText

theorem timeText_chars : ∀ c ∈ d.timeText, IsClockChar c := by
  have hcolon : IsClockChar (chr ':') := .inl rfl
  have hpoint : IsClockChar (chr '.') := .inr (.inl rfl)
  have hclock : ∀ c ∈ d.clockText, IsClockChar c :=
    isClockChar_append isClockChar_fixed hcolon (isClockChar_append isClockChar_fixed hcolon isClockChar_fixed)
  unfold timeText fractionText
  split
  · rw [List.append_nil]
    exact hclock
  · exact isClockChar_append hclock hpoint isClockChar_fixed

theorem month_lt : d.month < 10 ^ 2 ∧ d.mday < 10 ^ 2 := by
  have hdate := d.date_valid.bounds
  dsimp only at hdate
  omega

theorem withOffset_text (hzone : d.zone ≠ .lower) :
    withOffset d.text = isoDate d.year d.month d.mday ++ d.sep :: (d.timeText ++ d.zone.numericText) := by
  have htext : d.text = isoDate d.year d.month d.mday ++ d.sep :: d.timeText ++ d.zone.text := by
    simp only [text, timeText, List.append_assoc, List.cons_append]
  rw [htext]
  cases hz : d.zone with
  | upper =>
    rw [Zone.text, withOffset_upper, List.append_assoc]
    rfl
  | lower => exact absurd hz hzone
  | numeric negative hour minute =>
    have hnone : chr 'Z' ∉ (Zone.numeric negative hour minute).text := by
      have hfixed : ∀ {k n}, chr 'Z' ∉ fixed ascii k n := fun hc => not_isClockChar_upper (isClockChar_fixed _ hc)
      have hsign : chr 'Z' ≠ signOf negative := by cases negative <;> decide
      have hcolon : chr 'Z' ≠ chr ':' := by decide
      simp only [Zone.text, List.mem_cons, List.mem_append, hfixed, hsign, hcolon, or_self, not_false_iff]
    have hne : (Zone.numeric negative hour minute).text ≠ [] := List.cons_ne_nil _ _
    rw [withOffset_other _ hne hnone, List.append_assoc]
    rfl

theorem withOffset_lower (hzone : d.zone = .lower) :
    withOffset d.text = isoDate d.year d.month d.mday ++ d.sep :: (d.timeText ++ str "z") := by
  have htext : d.text = isoDate d.year d.month d.mday ++ d.sep :: d.timeText ++ str "z" := by
    simp only [text, timeText, List.append_assoc, List.cons_append, hzone, Zone.text]
  have hne : str "z" ≠ [] := List.cons_ne_nil _ _
  rw [htext, withOffset_other _ hne (by decide), List.append_assoc]
  rfl

theorem fields_lt : d.hour < 10 ^ 2 ∧ d.minute < 10 ^ 2 ∧ d.second < 10 ^ 2 :=
  ⟨Nat.lt_trans d.hour_lt (by decide), Nat.lt_trans d.minute_lt (by decide), Nat.lt_trans d.second_lt (by decide)⟩

theorem timeText_eq (h : d.width ≠ 0) : d.timeText = fixed ascii 2 d.hour ++ chr ':' :: (fixed ascii 2 d.minute ++
    chr ':' :: (fixed ascii 2 d.second ++ chr '.' :: fixed ascii d.width d.fraction)) := by
  simp only [timeText, clockText, fractionText, if_neg h, List.append_assoc, List.cons_append]

/-- The time is of the form if the fraction has no, three or six digits. -/
theorem isoTime_timeText (hwidth : d.width = 0 ∨ d.width = 3 ∨ d.width = 6) :
    IsoTime d.timeText ⟨[d.hour, d.minute, d.second], d.fraction * 1000000 / 10 ^ d.width, true⟩ := by
  obtain ⟨hhour, hminute, hsecond⟩ := d.fields_lt
  have hfraction := d.fraction_lt
  have hpoint {us : Nat} (hw : d.width ≠ 0) (hus : IsoFraction (fixed ascii d.width d.fraction) us) :
      IsoTime d.timeText ⟨[d.hour, d.minute, d.second], us, true⟩ := by
    rw [d.timeText_eq hw]
    exact .colon hhour (.colon hminute (.point hsecond hus))
  rcases hwidth with h | h | h
  · have hzero : d.fraction = 0 := by
      rw [h] at hfraction
      omega
    unfold timeText clockText fractionText
    rw [hzero, if_pos h, List.append_nil, Nat.zero_mul, Nat.zero_div]
    exact .colon hhour (.colon hminute (.field hsecond))
  · refine hpoint (by omega) ?_
    rw [h] at hfraction ⊢
    rw [show d.fraction * 1000000 / 10 ^ 3 = d.fraction * 1000 by omega]
    exact .millisecond hfraction
  · refine hpoint (by omega) ?_
    rw [h] at hfraction ⊢
    rw [show d.fraction * 1000000 / 10 ^ 6 = d.fraction by omega]
    exact .microsecond hfraction

theorem width_of_isoTime {r : HhMmSsFf} (h : IsoTime d.timeText r) : d.width = 0 ∨ d.width = 3 ∨ d.width = 6 := by
  obtain ⟨hhour, hminute, hsecond⟩ := d.fields_lt
  by_contra hwidth
  rw [not_or, not_or] at hwidth
  obtain ⟨hzero, hthree, hsix⟩ := hwidth
  have hnone : parseFraction (fixed ascii d.width d.fraction) = none := by
    unfold parseFraction
    rw [length_fixed, if_neg hthree, if_neg hsix]
  have hne : fixed ascii d.width d.fraction ≠ [] := fun hnil => hzero (by
    rw [← length_fixed (ν := ascii) (k := d.width) (n := d.fraction), hnil, List.length_nil])
  have hmore {n : Nat} {c : CodePoint} {s : Str} : fixed ascii 2 n ++ c :: s ≠ [] := List.cons_ne_nil _ _
  have hparse := parseHhMmSsFf_eq_some.2 h
  rw [d.timeText_eq hzero, parseHhMmSsFf, parseFields_more hhour hmore, if_pos rfl, parseFields_more hminute hmore,
    if_pos rfl, parseFields_more hsecond hne, if_neg (by decide), if_pos rfl, hnone] at hparse
  cases hparse

/-- A date-time with these restrictions is read as its instant. -/
theorem Supported.reads {d : Rfc3339} (h : d.Supported) :
    ∃ t, fromisoformat (withOffset d.text) = some t ∧ t.utcoffset.isSome ∧ t.instant = d.instant := by
  have hparts := d.zone_valid.parts
  have hyear := d.year_lt
  have hday : IsoDay d.year d.month d.mday := ⟨h.year, by omega, d.date_valid⟩
  have hzone : IsoTime (fixed ascii 2 d.zone.parts.2.1 ++ chr ':' :: fixed ascii 2 d.zone.parts.2.2)
      ⟨[d.zone.parts.2.1, d.zone.parts.2.2], 0, true⟩ := isoTime_minute (by omega) (by omega)
  have hlength : (fixed ascii 2 d.zone.parts.2.1 ++ chr ':' :: fixed ascii 2 d.zone.parts.2.2).length = 5 := by
    rw [List.length_append, List.length_cons, length_fixed, length_fixed]
  have htail := IsoTail.aware (d.isoTime_timeText h.width) (fun c hc => (d.timeText_chars c hc).not_sign)
    d.zone.parts.1 hzone rfl (.inl hlength)
  have hoffset : (HhMmSsFf.time ⟨[d.zone.parts.2.1, d.zone.parts.2.2], 0, true⟩).offset d.zone.parts.1 = d.zone.offset :=
    (TimeComps.offset_eq _ rfl _).trans d.zone.offset_eq.symm
  rw [hoffset] at htail
  have hclock : IsoClock ⟨d.hour, d.minute, d.second, d.fraction * 1000000 / 10 ^ d.width⟩ (some d.zone.offset) := by
    refine ⟨⟨d.hour_lt, d.minute_lt, d.second_lt⟩, fun o ho => ?_⟩
    rw [← Option.some.inj ho]
    exact d.zone_valid.offset_lt
  rw [d.withOffset_text h.zone]
  refine ⟨_, fromisoformat_eq_some.2 (.time hday d.sep htail hclock), rfl, ?_⟩
  unfold DateTime.instant instant TimeComps.total TimeComps.wholeSeconds
  simp only [Option.getD_some]
  rw [← Int.add_assoc]
  push_cast
  rfl

/-- No other date-time is read. -/
theorem supported_of_reads {d : Rfc3339} {t : DateTime} (h : fromisoformat (withOffset d.text) = some t) :
    d.Supported := by
  obtain ⟨hmonth, hmday⟩ := d.month_lt
  by_cases hzone : d.zone = .lower
  · rw [d.withOffset_lower hzone, fromisoformat_time d.year_lt hmonth hmday, Option.bind_eq_some_iff] at h
    obtain ⟨⟨time, offset⟩, htime, -⟩ := h
    have htail := parseIsoformatTime_eq_some.1 htime
    generalize htext : d.timeText ++ str "z" = text at htail
    cases htail with
    | naive hr hended =>
      have hz := hr.chars hended (chr 'z') (htext ▸ List.mem_append_right _ List.mem_cons_self)
      exact absurd hz (not_isClockChar (by decide) (by decide) (by decide) (by decide))
    | aware hr hs negative ho hended hz =>
      have hsign : isSign (signOf negative) := isSign_iff.2 ⟨_, rfl⟩
      have hmem : signOf negative ∈ d.timeText ++ str "z" := htext ▸ List.mem_append_right _ List.mem_cons_self
      rcases List.mem_append.1 hmem with hmem | hmem
      · have hno := (d.timeText_chars _ hmem).not_sign
        rw [hsign] at hno
        cases hno
      · rw [List.mem_singleton.1 hmem] at hsign
        have hz : ¬isSign (chr 'z') := by decide
        exact absurd hsign hz
  · rw [d.withOffset_text hzone, fromisoformat_time d.year_lt hmonth hmday, Option.bind_eq_some_iff] at h
    obtain ⟨⟨time, offset⟩, htime, h⟩ := h
    dsimp only at h
    split at h
    swap
    · cases h
    obtain ⟨hday, -⟩ := combine_toOption.1 h
    refine ⟨?_, hzone, hday.first⟩
    have hsign : isSign (signOf d.zone.parts.1) := isSign_iff.2 ⟨_, rfl⟩
    have htail := parseIsoformatTime_eq_some.1 htime
    generalize htext : d.timeText ++ d.zone.numericText = text at htail
    cases htail with
    | naive hr hended =>
      have hchar := hr.chars hended (signOf d.zone.parts.1) (htext ▸ List.mem_append_right _ List.mem_cons_self)
      have hno := hchar.not_sign
      rw [hsign] at hno
      cases hno
    | aware hr hs negative ho hended hz =>
      have hchars : ∀ c ∈ d.timeText, !isSign c := fun c hc => (d.timeText_chars c hc).not_sign
      obtain ⟨heq, -⟩ := cut_unique htext hchars hs hsign (isSign_iff.2 ⟨_, rfl⟩)
      exact d.width_of_isoTime (heq ▸ hr)

end Rfc3339

/-- A string is read as it should be exactly when, if it is a date-time, its fraction has no, three or six digits, it does
not end in `z` and its year is not 0, and it is not a date alone or before `Z`, nor a date and a time without offset. -/
theorem rfc3339_iff (py : Py) (s : Str) :
    ReadsRfc3339 py.python310 s ↔ (∀ d : Rfc3339, d.InRange → s = d.text → d.Supported) ∧ ¬Offsetless s := by
  constructor
  · rintro ⟨hinstant, haware⟩
    constructor
    · rintro d hrange rfl
      obtain ⟨t, ht, -⟩ := hinstant d hrange rfl
      exact Rfc3339.supported_of_reads (parseRfc3339_eq_ok.1 ht)
    · intro hoffsetless
      obtain ⟨t, ht, hnaive⟩ := hoffsetless.naive
      by_cases hdate : ∃ d : Rfc3339, d.InRange ∧ s = d.text
      · obtain ⟨d, hrange, hs⟩ := hdate
        obtain ⟨t', ht', haware', -⟩ := hinstant d hrange hs
        obtain rfl : t = t' := Option.some.inj (ht.symm.trans (parseRfc3339_eq_ok.1 ht'))
        rw [hnaive] at haware'
        cases haware'
      · have haware' := haware hdate t (parseRfc3339_eq_ok.2 ht)
        rw [hnaive] at haware'
        cases haware'
  · rintro ⟨hsupported, hoffsetless⟩
    constructor
    · rintro d hrange rfl
      obtain ⟨t, ht, haware, hinstant⟩ := (hsupported d hrange rfl).reads
      exact ⟨t, parseRfc3339_eq_ok.2 ht, haware, hinstant⟩
    · intro _ t ht
      by_contra hnaive
      rw [Option.not_isSome_iff_eq_none] at hnaive
      exact hoffsetless (offsetless_of_naive (parseRfc3339_eq_ok.1 ht) hnaive)

def Rfc3339.halfPast : Rfc3339 where
  year := 2025
  month := 8
  mday := 20
  lowercase := false
  hour := 7
  minute := 20
  second := 0
  width := 1
  fraction := 5
  zone := .upper
  year_lt := by decide
  date_valid := by decide
  hour_lt := by decide
  minute_lt := by decide
  second_lt := by decide
  fraction_lt := by decide
  zone_valid := trivial

/-- A fraction of one digit is not read, and a time without offset is. -/
theorem rfc3339_misread :
    ¬ReadsRfc3339 Py.sample.python310 (str "2025-08-20T07:20:00.5Z") ∧
      ¬ReadsRfc3339 Py.sample.python310 (str "2025-08-20T07:20:00") := by
  constructor
  · intro h
    have hnone : fromisoformat (withOffset (str "2025-08-20T07:20:00.5Z")) = none := by decide +kernel
    obtain ⟨t, ht, -⟩ := h.instant .halfPast ⟨by decide, by decide⟩ (by decide)
    rw [parseRfc3339_eq_ok.1 ht] at hnone
    cases hnone
  · intro h
    have hnaive : fromisoformat (withOffset (str "2025-08-20T07:20:00")) = some ⟨1755674400000000, none⟩ := by
      decide +kernel
    have haware : ∃ t, parseRfc3339 Py.sample.python310 (.str (str "2025-08-20T07:20:00")) = .ok t ∧
        t.utcoffset.isSome := by
      by_cases hdate : ∃ d : Rfc3339, d.InRange ∧ str "2025-08-20T07:20:00" = d.text
      · obtain ⟨d, hrange, hs⟩ := hdate
        obtain ⟨t, ht, haware, -⟩ := h.instant d hrange hs
        exact ⟨t, ht, haware⟩
      · exact ⟨_, parseRfc3339_eq_ok.2 hnaive, h.aware hdate _ (parseRfc3339_eq_ok.2 hnaive)⟩
    obtain ⟨t, ht, haware⟩ := haware
    rw [← Option.some.inj (hnaive.symm.trans (parseRfc3339_eq_ok.1 ht))] at haware
    cases haware

end LogMgmt
