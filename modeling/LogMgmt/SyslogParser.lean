import Mathlib.Data.List.DropRight
import LogMgmt.Timeutil

/-!
# The syslog parser

`ingest/syslog_parser.py`: a line of text as an RFC3164 envelope, and what its keys say of its source.
-/

namespace LogMgmt
open Pattern

/-- `s.strip()` -/
def strip (s : Str) : Str := (s.dropWhile isSpace).rdropWhile isSpace

/-- The groups of `LINE_RE` -/
structure LineMatch where
  pri : Str
  month : Str
  day : Str
  time : Str
  host : Str
  rest : Str

section
variable (u : Unicode)

/-- `\d{2}:\d{2}:\d{2}` -/
def timeRe : Pattern CodePoint Str := do
  let hour ← rep u.isDigit 2 2
  let _ ← char ':'
  let minute ← rep u.isDigit 2 2
  let _ ← char ':'
  let second ← rep u.isDigit 2 2
  return hour ++ str ":" ++ minute ++ str ":" ++ second

/-- `$`: the end, or a newline before it. -/
def atEnd : Pattern CodePoint Unit := guard fun s => s = [] || s = str "\n"

def lineRe : Pattern CodePoint LineMatch := do
  let _ ← char '<'
  let pri ← rep u.isDigit 1 3
  let _ ← char '>'
  let month ← rep u.isWord 3 3
  let _ ← plus isSpace
  let day ← rep u.isDigit 1 2
  let _ ← plus isSpace
  let time ← timeRe u
  let _ ← plus isSpace
  let host ← plus fun c => !isSpace c
  let _ ← plus isSpace
  let rest ← many (· != chr '\n')
  atEnd
  return { pri, month, day, time, host, rest }

/-- `\s\w+=` -/
def keyRe : Pattern CodePoint Unit := do
  let _ ← one isSpace
  let _ ← plus u.isWord
  let _ ← char '='
  return ()

/-- `KV_RE`: the value ends before the next key. -/
def kvRe : Pattern CodePoint (Str × Str) := do
  let key ← plus u.isWord
  let _ ← char '='
  let value ← lazy (· != chr '\n')
  ahead (alt (keyRe u) atEnd)
  return (key, value)

end

/-- `d[key] = value` -/
def setField (d : List (Str × Str)) (kv : Str × Str) : List (Str × Str) :=
  if d.any fun r => r.1 == kv.1 then d.map fun r => if r.1 == kv.1 then kv else r else d ++ [kv]

/-- `_parse_kv`; the last value of a key stays. -/
def parseKv (u : Unicode) (rest : Str) : List (Str × Str) := (findall (kvRe u) rest).foldl setField []

/-! ### What the groups hold -/

section
variable {u : Unicode} {s t line : Str} {α : Type} {Q : α → Str → Prop}

theorem strip_subset (s : Str) : strip s ⊆ s :=
  List.Subset.trans (List.rdropWhile_prefix _ _).subset (List.dropWhile_suffix _).subset

/-- The pattern captures characters of the text, and leaves some. -/
def Inside (t : Str) (p : Pattern CodePoint Str) : Prop := ∀ s ⊆ t, p.Sat s fun w s' => w ⊆ t ∧ s' ⊆ t

theorem inside {p : Pattern CodePoint Str} (hp : ∀ s, p.Sat s fun w s' => w ++ s' = s) (t : Str) : Inside t p := by
  refine fun s hs => (hp s).mono fun w s' h => ?_
  rw [← h] at hs
  exact List.append_subset.1 hs

theorem Inside.bind {p : Pattern CodePoint Str} {f : Str → Pattern CodePoint α} (hp : Inside t p) (hs : s ⊆ t)
    (hf : ∀ w s', w ⊆ t → s' ⊆ t → (f w).Sat s' Q) : Sat (p >>= f) s Q :=
  sat_bind ((hp s hs).mono fun w s' h => hf w s' h.1 h.2)

theorem sat_timeRe (hs : s ⊆ t) : (timeRe u).Sat s fun _ s' => s' ⊆ t := by
  refine (inside (sat_rep _ _ _) t).bind hs fun _ s hw hs => ?_
  refine (inside (sat_one _) t).bind hs fun _ s hw hs => ?_
  refine (inside (sat_rep _ _ _) t).bind hs fun _ s hw hs => ?_
  refine (inside (sat_one _) t).bind hs fun _ s hw hs => ?_
  exact (inside (sat_rep _ _ _) t).bind hs fun _ s hw hs => sat_pure hs

theorem sat_lineRe (hs : s ⊆ t) : (lineRe u).Sat s fun m _ => m.host ⊆ t ∧ m.rest ⊆ t := by
  refine (inside (sat_one _) t).bind hs fun _ s hw hs => ?_
  refine (inside (sat_rep _ _ _) t).bind hs fun _ s hw hs => ?_
  refine (inside (sat_one _) t).bind hs fun _ s hw hs => ?_
  refine (inside (sat_rep _ _ _) t).bind hs fun _ s hw hs => ?_
  refine (inside (sat_plus _) t).bind hs fun _ s hw hs => ?_
  refine (inside (sat_rep _ _ _) t).bind hs fun _ s hw hs => ?_
  refine (inside (sat_plus _) t).bind hs fun _ s hw hs => ?_
  refine sat_bind ((sat_timeRe hs).mono fun _ s hs => ?_)
  refine (inside (sat_plus _) t).bind hs fun _ s hw hs => ?_
  refine (inside (sat_plus _) t).bind hs fun host s hhost hs => ?_
  refine (inside (sat_plus _) t).bind hs fun _ s hw hs => ?_
  refine (inside (sat_many _) t).bind hs fun rest s hrest hs => ?_
  exact sat_bind fun _ _ => sat_pure ⟨hhost, hrest⟩

theorem sat_kvRe (hs : s ⊆ t) : (kvRe u).Sat s fun kv _ => kv.2 ⊆ t := by
  refine (inside (sat_plus _) t).bind hs fun _ s hw hs => ?_
  refine (inside (sat_one _) t).bind hs fun _ s hw hs => ?_
  refine (inside (sat_lazy _) t).bind hs fun value s hvalue hs => ?_
  exact sat_bind fun _ _ => sat_pure hvalue

theorem mem_setField {d : List (Str × Str)} {kv r : Str × Str} (h : r ∈ setField d kv) : r ∈ d ∨ r = kv := by
  unfold setField at h
  split at h
  · obtain ⟨r', hr', rfl⟩ := List.mem_map.1 h
    split
    · exact .inr rfl
    · exact .inl hr'
  · simpa using h

theorem mem_foldl_setField {kvs d : List (Str × Str)} {r : Str × Str} (h : r ∈ kvs.foldl setField d) : r ∈ d ∨ r ∈ kvs := by
  induction kvs generalizing d with
  | nil => exact .inl h
  | cons kv kvs ih =>
    rcases ih h with h | h
    · exact (mem_setField h).imp_right fun heq => by simp [heq]
    · exact .inr (List.mem_cons_of_mem _ h)

/-- Values are cut out of the text. -/
theorem parseKv_subset {rest : Str} {kv : Str × Str} (h : kv ∈ parseKv u rest) : kv.2 ⊆ rest := by
  have hmem : kv ∈ findall (kvRe u) rest := (mem_foldl_setField h).resolve_left List.not_mem_nil
  obtain ⟨s', s'', hs', hfirst⟩ := exists_of_mem_findallFrom hmem
  exact (sat_kvRe hs'.subset).first hfirst

end

/-! ### Lines -/

section
variable (u : Unicode)

def parseSyslogLine (line : Str) (now : DateTime) : Except PyExc SyslogEnvelope :=
  match h : (lineRe u).first (strip line) with
  | none => .error (.valueError (.str line))
  | some (m, _) =>
    match parseRfc3164 u (m.month ++ str " " ++ twoDigits (u.int m.day) ++ str " " ++ m.time) now with
    | .error exc => .error exc
    | .ok eventTime =>
      have hsubset := (sat_lineRe (strip_subset line)).first h
      .ok {
        facility := u.int m.pri / 8
        syslogSeverity := u.int m.pri % 8
        eventTime
        hostname := m.host
        fields := parseKv u m.rest
        rawLine := line
        mem_hostname := fun _ hc => hsubset.1 hc
        mem_fields := fun _ hkv _ hc => hsubset.2 (parseKv_subset hkv hc) }

end

theorem parseSyslogLine_error {u : Unicode} {line : Str} {now : DateTime} {exc : PyExc} (hnow : now.Current)
    (h : parseSyslogLine u line now = .error exc) : exc.IsValueError := by
  unfold parseSyslogLine at h
  split at h
  · cases h
    trivial
  · split at h
    · rename_i hparse
      cases h
      exact parseRfc3164_error hnow hparse
    · cases h

def sourceHintFromFields (fields : List (Str × Str)) : Str :=
  let has (key : Str) : Bool := fields.any fun kv => kv.1 == key
  if has (str "action") && has (str "src") then str "firewall"
  else if has (str "if") && has (str "event") then str "network"
  else str "unknown"

/-- Values may contain spaces; they end before the next key. -/
example : parseKv .sample (str "msg=DNS blocked policy=Block-DNS") =
    [(str "msg", str "DNS blocked"), (str "policy", str "Block-DNS")] := by decide

example : ((parseSyslogLine .sample (str "<134>Aug 20 12:44:56 fw01 a=b ") ⟨1757664000000000, some 0⟩).toOption.map
    (·.hostname)) = some (str "fw01") := by decide

end LogMgmt
