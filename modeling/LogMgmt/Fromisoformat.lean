import Mathlib.Data.List.TakeWhile
import LogMgmt.Digits

/-!
# `datetime.fromisoformat`

The parser of CPython 3.10, for `YYYY-MM-DD[*HH[:MM[:SS[.fff[fff]]]][+HH:MM[:SS[.ffffff]]]]` with any character for `*`,
and exactly which texts it takes. There are more than those of this form: a fraction may follow any of the fields, a
colon may stand for its point, and a character that the scan of the digits stops at may be left over.
-/

namespace LogMgmt
open Decimal

/-! ### The parser -/

/-- The components of a time of day, or of an offset. -/
structure TimeComps where
  hour : Nat
  minute : Nat
  second : Nat
  microsecond : Nat

namespace TimeComps
variable (t : TimeComps)

/-- The hours, minutes and seconds, in seconds. -/
def wholeSeconds : Nat := 3600 * t.hour + 60 * t.minute + t.second

def total : Int := seconds t.wholeSeconds + t.microsecond

def signed (negative : Bool) : Int := if negative then -t.total else t.total

/-- `tzinfo_from_isoformat_results`: an offset of no whole seconds is UTC. -/
def offset (negative : Bool) : Int := if t.wholeSeconds = 0 then 0 else t.signed negative

theorem offset_eq (h : t.microsecond = 0) (negative : Bool) : t.offset negative = t.signed negative := by
  unfold offset
  split
  · rename_i hzero
    cases negative <;> simp [signed, total, hzero, h, seconds]
  · rfl

/-- A time of day. -/
def Clock : Prop := t.hour < 24 ∧ t.minute < 60 ∧ t.second < 60

instance : Decidable t.Clock := inferInstanceAs (Decidable (_ ∧ _ ∧ _))

end TimeComps

/-- `.fff[fff]` after the point, in microseconds -/
def parseFraction (s : Str) : Option Nat :=
  if s.length = 3 then (take ascii 3 0 s).map fun r => r.1 * 1000
  else if s.length = 6 then (take ascii 6 0 s).map fun r => r.1
  else none

/-- What `parse_hh_mm_ss_ff` has read. -/
structure HhMmSsFf where
  fields : List Nat
  microsecond : Nat := 0
  /-- what follows is a NUL -/
  ended : Bool := true

namespace HhMmSsFf

def time (r : HhMmSsFf) : TimeComps := ⟨r.fields.getD 0 0, r.fields.getD 1 0, r.fields.getD 2 0, r.microsecond⟩

def cons (field : Nat) (r : HhMmSsFf) : HhMmSsFf := { r with fields := field :: r.fields }

end HhMmSsFf

/-- The loop of `parse_hh_mm_ss_ff` with `n` fields to go. -/
def parseFields : Nat → Str → Option HhMmSsFf
  | 0, s => (parseFraction s).map fun us => { fields := [], microsecond := us }
  | n + 1, s => do
    let (field, s) ← take ascii 2 0 s
    match s with
    | [] => return { fields := [field] }
    -- `p >= p_end` after one byte, whichever it is
    | [c] => if c.val < 0x80 then return { fields := [field], ended := c == 0 } else none
    | c :: s =>
      if c = chr ':' then return (← parseFields n s).cons field
      else if c = chr '.' then return { fields := [field], microsecond := ← parseFraction s }
      else none

/-- `HH[:MM[:SS[.fff[fff]]]]` -/
def parseHhMmSsFf (s : Str) : Option HhMmSsFf := parseFields 3 s

def isSign (c : CodePoint) : Bool := c == chr '+' || c == chr '-'

/-- `parse_isoformat_time`: the time of day, and the offset if there is a sign. What is left over before the sign does
not matter. -/
def parseIsoformatTime (s : Str) : Option (TimeComps × Option Int) := do
  let r ← parseHhMmSsFf (s.takeWhile fun c => !isSign c)
  match s.dropWhile fun c => !isSign c with
  | [] => if r.ended then return (r.time, none) else none
  | sign :: zone =>
    if zone.length ≠ 5 ∧ zone.length ≠ 8 ∧ zone.length ≠ 15 then none
    else
      let o ← parseHhMmSsFf zone
      if o.ended then return (r.time, some (o.time.offset (sign == chr '-'))) else none

/-- What follows the character `c`. -/
def expect (c : Char) : Str → Option Str
  | [] => none
  | a :: s => if a = chr c then some s else none

/-- `datetime.fromisoformat` -/
def fromisoformat (s : Str) : Option DateTime := do
  let (year, s) ← take ascii 4 0 s
  let s ← expect '-' s
  let (month, s) ← take ascii 2 0 s
  let s ← expect '-' s
  let (mday, s) ← take ascii 2 0 s
  let (time, offset) ← match s with
    | [] => some (⟨0, 0, 0, 0⟩, none)
    | _ :: s => parseIsoformatTime s
  if time.Clock ∧ offset.all fun o => -seconds 86400 < o ∧ o < seconds 86400 then
    (DateTime.combine ⟨year, month, mday⟩ time.total offset).toOption
  else none

/-! ### The form -/

/-- `fff` or `ffffff`, in microseconds -/
inductive IsoFraction : Str → Nat → Prop
  | millisecond {f : Nat} (hf : f < 10 ^ 3) : IsoFraction (fixed ascii 3 f) (f * 1000)
  | microsecond {f : Nat} (hf : f < 10 ^ 6) : IsoFraction (fixed ascii 6 f) f

/-- One or more of `n` fields with colons between them. After the last there is nothing, one character of ASCII, or a point
and a fraction; for the point a colon will do when there are no more fields. -/
inductive IsoFields : Nat → Str → HhMmSsFf → Prop
  | fraction {s : Str} {us : Nat} (hs : IsoFraction s us) : IsoFields 0 s ⟨[], us, true⟩
  | field {n v : Nat} (hv : v < 10 ^ 2) : IsoFields (n + 1) (fixed ascii 2 v) ⟨[v], 0, true⟩
  | char {n v : Nat} (hv : v < 10 ^ 2) {c : CodePoint} (hc : c.val < 0x80) :
    IsoFields (n + 1) (fixed ascii 2 v ++ [c]) ⟨[v], 0, c == 0⟩
  | point {n v : Nat} (hv : v < 10 ^ 2) {s : Str} {us : Nat} (hs : IsoFraction s us) :
    IsoFields (n + 1) (fixed ascii 2 v ++ chr '.' :: s) ⟨[v], us, true⟩
  | colon {n v : Nat} (hv : v < 10 ^ 2) {s : Str} {r : HhMmSsFf} (hs : IsoFields n s r) :
    IsoFields (n + 1) (fixed ascii 2 v ++ chr ':' :: s) (r.cons v)

/-- `HH[:MM[:SS[.fff[fff]]]]`, and what else is read as a time -/
abbrev IsoTime : Str → HhMmSsFf → Prop := IsoFields 3

theorem parseFraction_eq_some {s : Str} {us : Nat} : parseFraction s = some us ↔ IsoFraction s us := by
  constructor
  · intro h
    unfold parseFraction at h
    split at h
    · rename_i hlen
      obtain ⟨⟨f, s'⟩, htake, rfl⟩ := Option.map_eq_some_iff.1 h
      obtain ⟨hf, rfl⟩ := take_zero_eq_some.1 htake
      obtain rfl : s' = [] := by simpa using hlen
      rw [List.append_nil]
      exact .millisecond hf
    split at h
    · rename_i hlen
      obtain ⟨⟨f, s'⟩, htake, rfl⟩ := Option.map_eq_some_iff.1 h
      obtain ⟨hf, rfl⟩ := take_zero_eq_some.1 htake
      obtain rfl : s' = [] := by simpa using hlen
      rw [List.append_nil]
      exact .microsecond hf
    · cases h
  · intro h
    unfold parseFraction
    cases h with
    | millisecond hf =>
      rw [if_pos length_fixed, take_fixed_nil hf]
      rfl
    | microsecond hf =>
      rw [if_neg (by rw [length_fixed]; decide), if_pos length_fixed, take_fixed_nil hf]
      rfl

theorem IsoFraction.ne_nil {s : Str} {us : Nat} (h : IsoFraction s us) : s ≠ [] := by
  cases h <;> exact List.cons_ne_nil _ _

theorem IsoFields.ne_nil {n : Nat} {s : Str} {r : HhMmSsFf} (h : IsoFields n s r) : s ≠ [] := by
  cases h with
  | fraction hs => exact hs.ne_nil
  | _ => exact List.cons_ne_nil _ _

section
variable {n v : Nat} {s : Str}

/-- A field with two or more characters after it. -/
theorem parseFields_more (hv : v < 10 ^ 2) {c : CodePoint} (hs : s ≠ []) :
    parseFields (n + 1) (fixed ascii 2 v ++ c :: s) =
      if c = chr ':' then (parseFields n s).map (·.cons v)
      else if c = chr '.' then (parseFraction s).map fun us => ⟨[v], us, true⟩
      else none := by
  obtain ⟨a, s, rfl⟩ := List.exists_cons_of_ne_nil hs
  rw [parseFields, take_fixed hv]
  simp only [Option.bind_eq_bind, Option.bind_some]
  split
  · cases parseFields n (a :: s) <;> rfl
  split
  · cases parseFraction (a :: s) <;> rfl
  · rfl

theorem isoFields_of_parse {r : HhMmSsFf} (h : parseFields n s = some r) : IsoFields n s r := by
  induction n generalizing s r with
  | zero =>
    obtain ⟨us, hus, rfl⟩ := Option.map_eq_some_iff.1 h
    exact .fraction (parseFraction_eq_some.1 hus)
  | succ n ih =>
    have htake := h
    rw [parseFields, Option.bind_eq_bind, bind_take_eq_some] at htake
    obtain ⟨v, hv, rest, rfl, hrest⟩ := htake
    cases rest with
    | nil =>
      cases hrest
      rw [List.append_nil]
      exact .field hv
    | cons c rest =>
      by_cases hne : rest = []
      · subst hne
        dsimp only at hrest
        split at hrest
        · rename_i hc
          cases hrest
          exact .char hv hc
        · cases hrest
      rw [parseFields_more hv hne] at h
      split at h
      · rename_i hc
        obtain ⟨r, hr, rfl⟩ := Option.map_eq_some_iff.1 h
        exact hc ▸ .colon hv (ih hr)
      split at h
      · rename_i hc
        obtain ⟨us, hus, rfl⟩ := Option.map_eq_some_iff.1 h
        exact hc ▸ .point hv (parseFraction_eq_some.1 hus)
      · cases h

theorem parseFields_eq_some {r : HhMmSsFf} : parseFields n s = some r ↔ IsoFields n s r := by
  refine ⟨isoFields_of_parse, fun h => ?_⟩
  induction h with
  | fraction hs => rw [parseFields, parseFraction_eq_some.2 hs]; rfl
  | field hv => rw [parseFields, take_fixed_nil hv]; rfl
  | char hv hc =>
    rw [parseFields, take_fixed hv]
    exact if_pos hc
  | point hv hs => rw [parseFields_more hv hs.ne_nil, if_neg (by decide), if_pos rfl, parseFraction_eq_some.2 hs]; rfl
  | colon hv hs ih => rw [parseFields_more hv hs.ne_nil, if_pos rfl, ih]; rfl

end

def IsClockChar (c : CodePoint) : Prop := c = chr ':' ∨ c = chr '.' ∨ c = 0 ∨ ∃ d < 10, c = digit d

theorem isClockChar_fixed {k n : Nat} : ∀ c ∈ fixed ascii k n, IsClockChar c := fun _ hc =>
  .inr (.inr (.inr (mem_fixed hc)))

theorem isClockChar_append {a : CodePoint} {w w' : Str} (hw : ∀ c ∈ w, IsClockChar c) (ha : IsClockChar a)
    (hw' : ∀ c ∈ w', IsClockChar c) : ∀ c ∈ w ++ a :: w', IsClockChar c := fun c hc =>
  (List.mem_append.1 hc).elim (hw c) fun hc => (List.mem_cons.1 hc).elim (fun h => h ▸ ha) (hw' c)

theorem IsClockChar.not_sign {c : CodePoint} (h : IsClockChar c) : !isSign c := by
  have hdigit : ∀ d < 10, !isSign (digit d) := by decide
  rcases h with rfl | rfl | rfl | ⟨d, hd, rfl⟩
  · decide
  · decide
  · decide
  · exact hdigit d hd

/-- What ends with its fields has no other characters, up to a NUL. -/
theorem IsoFields.chars {n : Nat} {s : Str} {r : HhMmSsFf} (h : IsoFields n s r) (hended : r.ended) :
    ∀ c ∈ s, IsClockChar c := by
  have hcolon : IsClockChar (chr ':') := .inl rfl
  have hpoint : IsClockChar (chr '.') := .inr (.inl rfl)
  have hfraction : ∀ {s us}, IsoFraction s us → ∀ c ∈ s, IsClockChar c := fun h => by
    cases h <;> exact isClockChar_fixed
  induction h with
  | fraction hs => exact hfraction hs
  | field => exact isClockChar_fixed
  | @char n v _ c _ =>
    have hnul : IsClockChar c := .inr (.inr (.inl (eq_of_beq hended)))
    exact isClockChar_append isClockChar_fixed hnul fun _ hc => absurd hc List.not_mem_nil
  | point _ hs => exact isClockChar_append isClockChar_fixed hpoint (hfraction hs)
  | colon _ _ ih => exact isClockChar_append isClockChar_fixed hcolon (ih hended)

/-- `YYYY-MM-DD` -/
def isoDate (year month mday : Nat) : Str :=
  fixed ascii 4 year ++ chr '-' :: (fixed ascii 2 month ++ chr '-' :: fixed ascii 2 mday)

def signOf (negative : Bool) : CodePoint := if negative then chr '-' else chr '+'

/-- `HH[:MM[:SS[.fff[fff]]]][+HH:MM[:SS[.ffffff]]]`. Only before a sign something else than a NUL may be left over. -/
inductive IsoTail : Str → TimeComps → Option Int → Prop
  | naive {s : Str} {r : HhMmSsFf} (hr : IsoTime s r) (hended : r.ended) : IsoTail s r.time none
  | aware {s z : Str} {r o : HhMmSsFf} (hr : IsoTime s r) (hs : ∀ c ∈ s, !isSign c) (negative : Bool) (ho : IsoTime z o)
    (hended : o.ended) (hz : z.length = 5 ∨ z.length = 8 ∨ z.length = 15) :
    IsoTail (s ++ signOf negative :: z) r.time (some (o.time.offset negative))

theorem isSign_iff {c : CodePoint} : isSign c ↔ ∃ negative, c = signOf negative := by
  unfold isSign signOf
  rw [Bool.or_eq_true, beq_iff_eq, beq_iff_eq]
  constructor
  · rintro (h | h)
    · exact ⟨false, h⟩
    · exact ⟨true, h⟩
  · rintro ⟨negative, h⟩
    cases negative
    · exact .inl h
    · exact .inr h

theorem signOf_beq_minus (negative : Bool) : (signOf negative == chr '-') = negative := by
  cases negative <;> decide

/-- The scan for a character stops at the first one. -/
theorem takeWhile_cut {γ : Type} {p : γ → Bool} {x y : List γ} {a : γ} (hx : ∀ c ∈ x, !p c) (ha : p a) :
    (x ++ a :: y).takeWhile (fun c => !p c) = x := by
  have hstop : ¬!p a := by simp [ha]
  rw [List.takeWhile_append_of_pos hx, List.takeWhile_cons_of_neg (p := fun c => !p c) hstop, List.append_nil]

theorem dropWhile_cut {γ : Type} {p : γ → Bool} {x y : List γ} {a : γ} (hx : ∀ c ∈ x, !p c) (ha : p a) :
    (x ++ a :: y).dropWhile (fun c => !p c) = a :: y := by
  have hstop : ¬!p a := by simp [ha]
  rw [List.dropWhile_append_of_pos hx, List.dropWhile_cons_of_neg (p := fun c => !p c) hstop]

theorem parseHhMmSsFf_eq_some {s : Str} {r : HhMmSsFf} : parseHhMmSsFf s = some r ↔ IsoTime s r := parseFields_eq_some

theorem parseIsoformatTime_aware {s z : Str} {r o : HhMmSsFf} (hr : IsoTime s r) (hs : ∀ c ∈ s, !isSign c)
    (negative : Bool) (ho : IsoTime z o) (hended : o.ended) (hz : z.length = 5 ∨ z.length = 8 ∨ z.length = 15) :
    parseIsoformatTime (s ++ signOf negative :: z) = some (r.time, some (o.time.offset negative)) := by
  have hsign : isSign (signOf negative) := isSign_iff.2 ⟨negative, rfl⟩
  unfold parseIsoformatTime
  rw [takeWhile_cut hs hsign, dropWhile_cut hs hsign, parseHhMmSsFf_eq_some.2 hr]
  simp only [Option.bind_eq_bind, Option.bind_some]
  rw [if_neg (by omega), parseHhMmSsFf_eq_some.2 ho]
  rw [Option.bind_some, signOf_beq_minus]
  exact if_pos hended

theorem parseIsoformatTime_naive {s : Str} {r : HhMmSsFf} (hr : IsoTime s r) (hended : r.ended) :
    parseIsoformatTime s = some (r.time, none) := by
  have hs : ∀ c ∈ s, !isSign c := fun c hc => (hr.chars hended c hc).not_sign
  have htake : s.takeWhile (fun c => !isSign c) = s := List.takeWhile_eq_self_iff.2 hs
  have hdrop : s.dropWhile (fun c => !isSign c) = [] := List.dropWhile_eq_nil_iff.2 hs
  unfold parseIsoformatTime
  rw [htake, hdrop, parseHhMmSsFf_eq_some.2 hr]
  exact if_pos hended

theorem parseIsoformatTime_eq_some {s : Str} {t : TimeComps} {offset : Option Int} :
    parseIsoformatTime s = some (t, offset) ↔ IsoTail s t offset := by
  constructor
  · intro h
    unfold parseIsoformatTime at h
    rw [Option.bind_eq_bind, Option.bind_eq_some_iff] at h
    obtain ⟨r, hparse, h⟩ := h
    have hr := parseHhMmSsFf_eq_some.1 hparse
    have hsplit := List.takeWhile_append_dropWhile (p := fun c => !isSign c) (l := s)
    cases hdrop : s.dropWhile (fun c => !isSign c) with
    | nil =>
      rw [hdrop] at h hsplit
      dsimp only at h
      rw [List.append_nil] at hsplit
      split at h
      · rename_i hended
        cases h
        exact .naive (hsplit ▸ hr) hended
      · cases h
    | cons sign zone =>
      have hsign : isSign sign := by
        have hhead := List.head?_dropWhile_not (fun c => !isSign c) s
        rw [hdrop] at hhead
        simpa using hhead
      obtain ⟨negative, rfl⟩ := isSign_iff.1 hsign
      rw [hdrop] at h hsplit
      dsimp only at h
      by_cases hz : zone.length ≠ 5 ∧ zone.length ≠ 8 ∧ zone.length ≠ 15
      · rw [if_pos hz] at h
        cases h
      rw [if_neg hz, Option.bind_eq_some_iff] at h
      obtain ⟨o, ho, h⟩ := h
      rw [signOf_beq_minus] at h
      split at h
      · rename_i hended
        cases h
        have hs : ∀ c ∈ s.takeWhile (fun c => !isSign c), !isSign c := fun c hc =>
          List.mem_takeWhile_imp (p := fun c => !isSign c) hc
        rw [← hsplit]
        exact .aware hr hs negative (parseHhMmSsFf_eq_some.1 ho) hended (by omega)
      · cases h
  · intro h
    cases h with
    | naive hr hended => exact parseIsoformatTime_naive hr hended
    | aware hr hs negative ho hended hz => exact parseIsoformatTime_aware hr hs negative ho hended hz

/-- A date of `datetime`. -/
structure IsoDay (year month mday : Nat) : Prop where
  first : 1 ≤ year
  last : year ≤ 9999
  valid : Civil.Valid ⟨year, month, mday⟩

/-- A time and an offset of `datetime`. -/
structure IsoClock (time : TimeComps) (offset : Option Int) : Prop where
  clock : time.Clock
  offset : ∀ o ∈ offset, -seconds 86400 < o ∧ o < seconds 86400

/-- `YYYY-MM-DD[*HH[:MM[:SS[.fff[fff]]]][+HH:MM[:SS[.ffffff]]]]`, and what else is taken -/
inductive IsoFormat : Str → DateTime → Prop
  | date {year month mday : Nat} (hday : IsoDay year month mday) :
    IsoFormat (isoDate year month mday) ⟨seconds (86400 * Civil.day ⟨year, month, mday⟩), none⟩
  | time {year month mday : Nat} {s : Str} {time : TimeComps} {offset : Option Int} (hday : IsoDay year month mday)
    (sep : CodePoint) (htail : IsoTail s time offset) (hclock : IsoClock time offset) :
    IsoFormat (isoDate year month mday ++ sep :: s)
      ⟨seconds (86400 * Civil.day ⟨year, month, mday⟩) + time.total, offset⟩

theorem IsoDay.bounds {year month mday : Nat} (h : IsoDay year month mday) :
    year < 10 ^ 4 ∧ month < 10 ^ 2 ∧ mday < 10 ^ 2 := by
  have hdate := h.valid.bounds
  have hlast := h.last
  dsimp only at hdate
  omega

theorem isoClock_iff {time : TimeComps} {offset : Option Int} :
    (time.Clock ∧ offset.all fun o => -seconds 86400 < o ∧ o < seconds 86400) ↔ IsoClock time offset := by
  constructor
  · rintro ⟨hclock, hoffset⟩
    refine ⟨hclock, fun o ho => ?_⟩
    rw [Option.mem_def.1 ho] at hoffset
    simpa using hoffset
  · rintro ⟨hclock, hoffset⟩
    refine ⟨hclock, ?_⟩
    cases offset with
    | none => rfl
    | some o => simpa using hoffset o rfl

theorem combine_toOption {year month mday : Nat} {time : Int} {offset : Option Int} {t : DateTime} :
    (DateTime.combine ⟨year, month, mday⟩ time offset).toOption = some t ↔
      IsoDay year month mday ∧ t = ⟨seconds (86400 * Civil.day ⟨year, month, mday⟩) + time, offset⟩ := by
  unfold DateTime.combine
  dsimp only
  constructor
  · intro h
    split at h
    · rename_i hday
      exact ⟨⟨by omega, by omega, hday.2.2⟩, (Option.some.inj h).symm⟩
    · cases h
  · rintro ⟨hday, rfl⟩
    have hfirst := hday.first
    have hlast := hday.last
    rw [if_pos ⟨by omega, by omega, hday.valid⟩]
    rfl

theorem expect_eq_some {c : Char} {s s' : Str} : expect c s = some s' ↔ s = chr c :: s' := by
  cases s with
  | nil => simp [expect]
  | cons a s =>
    unfold expect
    split
    · rename_i ha
      simp [ha]
    · rename_i ha
      simp [ha]

theorem fromisoformat_date {year month mday : Nat} (hday : IsoDay year month mday) :
    fromisoformat (isoDate year month mday) = some ⟨seconds (86400 * Civil.day ⟨year, month, mday⟩), none⟩ := by
  obtain ⟨hyear, hmonth, hmday⟩ := hday.bounds
  simp only [fromisoformat, isoDate, take_fixed hyear, take_fixed hmonth, take_fixed_nil hmday, expect_eq_some.2 rfl,
    Option.bind_eq_bind, Option.bind_some]
  refine (if_pos (isoClock_iff.2 ⟨by decide, by simp⟩)).trans (combine_toOption.2 ⟨hday, ?_⟩)
  simp [TimeComps.total, TimeComps.wholeSeconds, seconds]

theorem fromisoformat_time {year month mday : Nat} (hyear : year < 10 ^ 4) (hmonth : month < 10 ^ 2)
    (hmday : mday < 10 ^ 2) (sep : CodePoint) (s : Str) :
    fromisoformat (isoDate year month mday ++ sep :: s) = (parseIsoformatTime s).bind fun r =>
      if r.1.Clock ∧ r.2.all fun o => -seconds 86400 < o ∧ o < seconds 86400 then
        (DateTime.combine ⟨year, month, mday⟩ r.1.total r.2).toOption
      else none := by
  simp only [fromisoformat, isoDate, List.append_assoc, List.cons_append, take_fixed hyear, take_fixed hmonth,
    take_fixed hmday, expect_eq_some.2 rfl, Option.bind_eq_bind, Option.bind_some]

/-- Exactly the texts of the form are taken. -/
theorem fromisoformat_eq_some {s : Str} {t : DateTime} : fromisoformat s = some t ↔ IsoFormat s t := by
  constructor
  · intro h
    unfold fromisoformat at h
    simp only [Option.bind_eq_bind, Option.bind_eq_some_iff] at h
    obtain ⟨⟨year, s₁⟩, hyear, s₂, hs₂, ⟨month, s₃⟩, hmonth, s₄, hs₄, ⟨mday, s₅⟩, hmday, h⟩ := h
    obtain ⟨-, rfl⟩ := take_zero_eq_some.1 hyear
    obtain rfl := expect_eq_some.1 hs₂
    obtain ⟨-, rfl⟩ := take_zero_eq_some.1 hmonth
    obtain rfl := expect_eq_some.1 hs₄
    obtain ⟨-, rfl⟩ := take_zero_eq_some.1 hmday
    have htext : fixed ascii 4 year ++ chr '-' :: (fixed ascii 2 month ++ chr '-' :: (fixed ascii 2 mday ++ s₅)) =
        isoDate year month mday ++ s₅ := by
      simp only [isoDate, List.append_assoc, List.cons_append]
    rw [htext]
    cases s₅ with
    | nil =>
      rw [List.append_nil]
      simp only [Option.bind_some] at h
      split at h
      · obtain ⟨hday, rfl⟩ := combine_toOption.1 h
        have htotal : TimeComps.total ⟨0, 0, 0, 0⟩ = 0 := by decide
        rw [htotal, Int.add_zero]
        exact .date hday
      · cases h
    | cons sep s₅ =>
      dsimp only at h
      rw [Option.bind_eq_some_iff] at h
      obtain ⟨⟨time, offset⟩, htime, h⟩ := h
      dsimp only at h
      split at h
      · rename_i hclock
        obtain ⟨hday, rfl⟩ := combine_toOption.1 h
        exact .time hday sep (parseIsoformatTime_eq_some.1 htime) (isoClock_iff.1 hclock)
      · cases h
  · intro h
    cases h with
    | date hday => exact fromisoformat_date hday
    | time hday sep htail hclock =>
      obtain ⟨hyear, hmonth, hmday⟩ := hday.bounds
      rw [fromisoformat_time hyear hmonth hmday, parseIsoformatTime_eq_some.2 htail]
      exact (if_pos (isoClock_iff.2 hclock)).trans (combine_toOption.2 ⟨hday, rfl⟩)

end LogMgmt
