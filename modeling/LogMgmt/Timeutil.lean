import LogMgmt.Normalizers
import LogMgmt.Lib.Calendar
import LogMgmt.Lib.Pattern

/-!
# Syslog timestamps

`parse_rfc3164` of `ingest/timeutil.py`, with what it uses of `datetime`: `strptime` is a regular expression in which
`\d` stands for any decimal digit of Unicode and the letters match in either case.
-/

namespace LogMgmt
open Pattern

/-! ### Characters -/

/-- What the Unicode database says of a character. -/
structure Unicode where
  isalnum : CodePoint → Bool
  /-- the value of a decimal digit -/
  decimal : CodePoint → Option Nat

def chr (c : Char) : CodePoint := Fin.ofNat 0x110000 c.toNat

/-- `str.isspace` of a character, and `\s` -/
def isSpace (c : CodePoint) : Bool :=
  (0x09 ≤ c.val && c.val ≤ 0x0D) || (0x1C ≤ c.val && c.val ≤ 0x20) || (0x2000 ≤ c.val && c.val ≤ 0x200A) ||
    [0x85, 0xA0, 0x1680, 0x2028, 0x2029, 0x202F, 0x205F, 0x3000].contains c.val

/-- `[a-b]` of ASCII characters -/
def between (a b : Char) (c : CodePoint) : Bool := a.toNat ≤ c.val && c.val ≤ b.toNat

/-- An ASCII letter in lower case. -/
def lower (c : CodePoint) : CodePoint := if between 'A' 'Z' c then Fin.ofNat 0x110000 (c.val + 32) else c

def digits (n : Nat) : Str := (Nat.toDigits 10 n).map chr

/-- `f"{n:02d}"` of a number below 100 -/
def twoDigits (n : Nat) : Str := digits (n / 10) ++ digits (n % 10)

namespace Unicode
variable (u : Unicode)

/-- `\w` -/
def isWord (c : CodePoint) : Bool := u.isalnum c || c == chr '_'

/-- `\d` -/
def isDigit (c : CodePoint) : Bool := (u.decimal c).isSome

/-- `int(s)` of a string of decimal digits -/
def int (s : Str) : Nat := (s.filterMap u.decimal).foldl (fun n d => 10 * n + d) 0

end Unicode

/-- ASCII alone, for concrete runs. -/
def Unicode.sample : Unicode where
  isalnum c := between '0' '9' c || between 'A' 'Z' c || between 'a' 'z' c
  decimal c := if between '0' '9' c then some (c.val - 48) else none

/-! ### `datetime` -/

namespace DateTime

/-- `t + delta` -/
def add (t : DateTime) (delta : Int) : Except PyExc DateTime :=
  if minWall ≤ t.wall + delta ∧ t.wall + delta ≤ maxWall then .ok { t with wall := t.wall + delta }
  else .error .overflowError

def date (t : DateTime) : Civil := civil (t.wall / seconds 86400)

/-- `datetime(...)` of a date and the time of day in microseconds -/
def combine (c : Civil) (time : Int) (utcoffset : Option Int) : Except PyExc DateTime :=
  if 1 ≤ c.year ∧ c.year ≤ 9999 ∧ c.Valid then .ok ⟨seconds (86400 * c.day) + time, utcoffset⟩
  else .error (.valueError .none)

/-- `t.replace(year=year)` -/
def replaceYear (t : DateTime) (year : Int) : Except PyExc DateTime :=
  combine { t.date with year } (t.wall % seconds 86400) t.utcoffset

/-- `t > t'`: a naive time is not compared with an aware one. -/
def gt (t t' : DateTime) : Except PyExc Bool :=
  if t.utcoffset.isSome = t'.utcoffset.isSome then .ok (t'.instant < t.instant) else .error .typeError

end DateTime

/-! ### `strptime` -/

/-- What `"%Y %b %d %H:%M:%S"` reads. -/
structure TimeFields where
  year : Nat
  month : Nat
  day : Nat
  hour : Nat
  minute : Nat
  second : Nat

def months : List Str := ["jan", "feb", "mar", "apr", "may", "jun", "jul", "aug", "sep", "oct", "nov", "dec"].map str

section
variable (u : Unicode)

/-- Two characters, each of a class. -/
def pair (p q : CodePoint → Bool) : Pattern CodePoint Str := do
  let a ← one p
  let b ← one q
  return a ++ b

def char (c : Char) : Pattern CodePoint Str := one (· == chr c)

/-- `%b` -/
def monthRe : Pattern CodePoint Nat := fun s =>
  match months.idxOf? ((s.take 3).map lower) with
  | some i => [(i + 1, s.drop 3)]
  | none => []

/-- `%d`: `3[0-1]|[1-2]\d|0[1-9]|[1-9]| [1-9]` -/
def dayRe : Pattern CodePoint Str :=
  alt (pair (between '3' '3') (between '0' '1')) <| alt (pair (between '1' '2') u.isDigit) <|
    alt (pair (between '0' '0') (between '1' '9')) <| alt (one (between '1' '9')) <|
    pair (between ' ' ' ') (between '1' '9')

/-- `%H`: `2[0-3]|[0-1]\d|\d` -/
def hourRe : Pattern CodePoint Str :=
  alt (pair (between '2' '2') (between '0' '3')) <| alt (pair (between '0' '1') u.isDigit) <| one u.isDigit

/-- `%M`: `[0-5]\d|\d` -/
def minuteRe : Pattern CodePoint Str := alt (pair (between '0' '5') u.isDigit) <| one u.isDigit

/-- `%S`: `6[0-1]|[0-5]\d|\d` -/
def secondRe : Pattern CodePoint Str :=
  alt (pair (between '6' '6') (between '0' '1')) <| alt (pair (between '0' '5') u.isDigit) <| one u.isDigit

/-- `%Y %b %d %H:%M:%S` -/
def timeFieldsRe : Pattern CodePoint TimeFields := do
  let year ← rep u.isDigit 4 4
  let _ ← plus isSpace
  let month ← monthRe
  let _ ← plus isSpace
  let day ← dayRe u
  let _ ← plus isSpace
  let hour ← hourRe u
  let _ ← char ':'
  let minute ← minuteRe u
  let _ ← char ':'
  let second ← secondRe u
  return ⟨u.int year, month, u.int day, u.int hour, u.int minute, u.int second⟩

/-- `datetime.strptime(s, "%Y %b %d %H:%M:%S")`: a naive time; what the pattern leaves is an error. -/
def strptime (s : Str) : Except PyExc DateTime :=
  match (timeFieldsRe u).first s with
  | some (f, []) =>
    if f.second < 60 then
      DateTime.combine ⟨f.year, f.month, f.day⟩ (seconds (3600 * f.hour + 60 * f.minute + f.second)) none
    else .error (.valueError (.str s))
  | _ => .error (.valueError (.str s))

def parseRfc3164 (monthDayTime : Str) (now : DateTime) : Except PyExc DateTime := do
  let naive ← strptime u (digits now.date.year.toNat ++ str " " ++ monthDayTime)
  let candidate : DateTime := { naive with utcoffset := some 0 }
  let limit ← now.add (seconds 300)
  if ← candidate.gt limit then candidate.replaceYear (now.date.year - 1) else return candidate

end

/-- Only a `ValueError` is raised. -/
def PyExc.IsValueError : PyExc → Prop
  | .valueError _ => True
  | _ => False

/-- An aware time, five minutes or more before the last one. -/
structure DateTime.Current (now : DateTime) : Prop where
  aware : now.utcoffset.isSome
  ge : minWall ≤ now.wall
  le : now.wall + seconds 300 ≤ maxWall

/-- What `datetime.now(timezone.utc)` returns. -/
structure DateTime.Utc (now : DateTime) : Prop where
  offset : now.utcoffset = some 0
  ge : minWall ≤ now.wall
  le : now.wall ≤ maxWall

section
variable {u : Unicode} {exc : PyExc}

theorem combine_error {c : Civil} {time : Int} {utcoffset : Option Int}
    (h : DateTime.combine c time utcoffset = .error exc) : exc.IsValueError := by
  unfold DateTime.combine at h
  split at h
  · cases h
  · cases h
    trivial

theorem strptime_error {s : Str} (h : strptime u s = .error exc) : exc.IsValueError := by
  unfold strptime at h
  split at h
  · split at h
    · exact combine_error h
    · cases h
      trivial
  · cases h
    trivial

theorem parseRfc3164_error {monthDayTime : Str} {now : DateTime} (hnow : now.Current)
    (h : parseRfc3164 u monthDayTime now = .error exc) : exc.IsValueError := by
  unfold parseRfc3164 at h
  cases hs : strptime u (digits now.date.year.toNat ++ str " " ++ monthDayTime) with
  | error exc' =>
    rw [hs] at h
    cases h
    exact strptime_error hs
  | ok naive =>
    have hpos : 0 ≤ seconds 300 := by decide
    have hge : DateTime.minWall ≤ now.wall + seconds 300 := by
      have := hnow.ge
      omega
    have hadd : now.add (seconds 300) = .ok { now with wall := now.wall + seconds 300 } := if_pos ⟨hge, hnow.le⟩
    have hgt : ∀ t : DateTime, t.utcoffset.isSome →
        t.gt { now with wall := now.wall + seconds 300 } =
          .ok (decide (({ now with wall := now.wall + seconds 300 } : DateTime).instant < t.instant)) :=
      fun t ht => if_pos (ht.trans hnow.aware.symm)
    rw [hs, hadd] at h
    simp only [bind, Except.bind, hgt { naive with utcoffset := some 0 } rfl] at h
    split at h
    · exact combine_error h
    · cases h

end

theorem DateTime.Utc.current {now : DateTime} (h : now.Utc) (hlast : now.wall + seconds 300 ≤ DateTime.maxWall) :
    now.Current where
  aware := by rw [h.offset]; rfl
  ge := h.ge
  le := hlast

/-- In the last five minutes of the last year the limit is out of range. -/
theorem parseRfc3164_overflow {monthDayTime : Str} {now : DateTime} (hlast : DateTime.maxWall < now.wall + seconds 300)
    (h : (strptime u (digits now.date.year.toNat ++ str " " ++ monthDayTime)).isOk) :
    parseRfc3164 u monthDayTime now = .error .overflowError := by
  have hadd : now.add (seconds 300) = .error .overflowError := if_neg fun hrange => Int.not_le.2 hlast hrange.2
  unfold parseRfc3164
  cases hs : strptime u (digits now.date.year.toNat ++ str " " ++ monthDayTime) with
  | error exc =>
    rw [hs] at h
    cases h
  | ok naive => simp only [hadd, bind, Except.bind]

theorem parseRfc3164_undated {monthDayTime : Str} {now : DateTime}
    (h : ¬(strptime u (digits now.date.year.toNat ++ str " " ++ monthDayTime)).isOk) :
    ∃ exc, parseRfc3164 u monthDayTime now = .error exc ∧ exc.IsValueError := by
  unfold parseRfc3164
  cases hs : strptime u (digits now.date.year.toNat ++ str " " ++ monthDayTime) with
  | error exc => exact ⟨exc, rfl, strptime_error hs⟩
  | ok naive =>
    rw [hs] at h
    exact absurd rfl h

/-- A line of 31 December read on 2 January is of the year before. -/
example : (parseRfc3164 .sample (str "Dec 31 23:59:59") ⟨1767312000000000, some 0⟩).toOption =
    some ⟨1767225599000000, some 0⟩ := by
  decide

end LogMgmt
