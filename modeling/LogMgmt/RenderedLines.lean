import LogMgmt.Rollover
import LogMgmt.Classification

/-!
# Rendered lines

A syslog line put together from its parts as a device writes it. The header is read part by part, each up to the blank
after it. A value is not quoted: it ends where the rest of the line begins with another key, and nowhere before if it
mentions no key itself, so that the pairs come back by induction over their list (`findall_renderPairs`).
-/

namespace LogMgmt
open Pattern

/-- ASCII is as it should be, and what `\w` matches is not what `\s` matches. -/
structure Unicode.Documented (u : Unicode) : Prop extends Unicode.Ascii u where
  alnum : ∀ c : CodePoint, c.val < 0x80 →
    u.isalnum c = (between '0' '9' c || between 'A' 'Z' c || between 'a' 'z' c)
  not_space : ∀ c, u.isalnum c → ¬isSpace c

/-- What is written in a line. -/
structure SyslogLine where
  pri : Nat
  month : Str
  day : Nat
  hour : Nat
  minute : Nat
  second : Nat
  host : Str
  pairs : List (Str × Str)

inductive Padding where
  | zero
  | space
deriving DecidableEq

def Padding.day (n : Nat) : Padding → Str
  | zero => twoDigits n
  | space => if n < 10 then chr ' ' :: digits n else digits n

/-- `k1=v1 k2=v2 ...` -/
def renderPairs : List (Str × Str) → Str
  | [] => []
  | [kv] => kv.1 ++ chr '=' :: kv.2
  | kv :: kvs => kv.1 ++ chr '=' :: (kv.2 ++ chr ' ' :: renderPairs kvs)

/-- Somewhere in the text stands white space, a word and `=`. -/
def Mentions (u : Unicode) (s : Str) : Prop :=
  ∃ before space key after, s = before ++ space :: (key ++ chr '=' :: after) ∧ isSpace space ∧ key ≠ [] ∧
    ∀ c ∈ key, u.isWord c

namespace SyslogLine

def time (l : SyslogLine) : Str :=
  twoDigits l.hour ++ chr ':' :: (twoDigits l.minute ++ chr ':' :: twoDigits l.second)

/-- What `parse_rfc3164` is to read. -/
def stamp (l : SyslogLine) : Str := l.month ++ str " " ++ twoDigits l.day ++ str " " ++ l.time

/-- `<PRI>Mon DD HH:MM:SS host k1=v1 k2=v2 ...` -/
def render (l : SyslogLine) (padding : Padding) : Str :=
  chr '<' :: (digits l.pri ++ chr '>' :: (l.month ++ chr ' ' :: (padding.day l.day ++ chr ' ' ::
    (l.time ++ chr ' ' :: (l.host ++ chr ' ' :: renderPairs l.pairs)))))

structure Renderable (u : Unicode) (l : SyslogLine) : Prop where
  pri : l.pri ≤ 999
  /-- the name of a month, in upper or lower case -/
  month : l.month.map lower ∈ months
  day : l.day < 100
  hour : l.hour < 100
  minute : l.minute < 100
  second : l.second < 100
  host : ∀ c ∈ l.host, ¬isSpace c
  pairs : l.pairs ≠ []
  nodup : (l.pairs.map (·.1)).Nodup
  word : ∀ kv ∈ l.pairs, ∀ c ∈ kv.1, u.isWord c
  oneLine : ∀ kv ∈ l.pairs, chr '\n' ∉ kv.2
  unmentioned : ∀ kv ∈ l.pairs, ¬Mentions u kv.2
  ends : ∀ kv ∈ l.pairs.getLast?, ∀ c ∈ kv.2.getLast?, ¬isSpace c

end SyslogLine

/-! ### Characters -/

section
variable {u : Unicode}

theorem Unicode.Documented.not_isSpace (hu : u.Documented) {c : CodePoint} (hc : u.isWord c) : ¬isSpace c := by
  unfold Unicode.isWord at hc
  rcases Bool.or_eq_true_iff.1 hc with hc | hc
  · exact hu.not_space c hc
  · rw [beq_iff_eq.1 hc]
    decide

theorem Unicode.Documented.not_isWord (hu : u.Documented) {c : CodePoint} (hascii : c.val < 0x80)
    (hc : (between '0' '9' c || between 'A' 'Z' c || between 'a' 'z' c || c == chr '_') = false) : ¬u.isWord c := by
  rw [Unicode.isWord, hu.alnum c hascii, hc]
  exact Bool.false_ne_true

theorem Unicode.Documented.not_isWord_equals (hu : u.Documented) : ¬u.isWord (chr '=') :=
  hu.not_isWord (by decide) (by decide)

theorem Unicode.Documented.not_isWord_blank (hu : u.Documented) : ¬u.isWord (chr ' ') :=
  hu.not_isWord (by decide) (by decide)

theorem Unicode.Ascii.not_isDigit (hu : u.Ascii) {c : CodePoint} (hascii : c.val < 0x80) (hc : ¬between '0' '9' c) :
    ¬u.isDigit c := by
  rw [Unicode.isDigit, hu.decimal c hascii, asciiValue, if_neg hc]
  decide

/-- Only letters have a letter as their lower case. -/
theorem Unicode.Documented.isWord_of_lower (hu : u.Documented) {c : CodePoint} (hc : between 'a' 'z' (lower c)) :
    u.isWord c := by
  have hletter : between 'A' 'Z' c ∨ between 'a' 'z' c := by
    unfold lower at hc
    split at hc
    · exact .inl ‹_›
    · exact .inr hc
  have hascii : c.val < 0x80 := by
    unfold between at hletter
    simp at hletter
    rcases hletter with h | h <;> omega
  rw [Unicode.isWord, hu.alnum c hascii]
  rcases hletter with h | h <;> simp [h]

theorem month_word (hu : u.Documented) {month : Str} (h : month.map lower ∈ months) :
    month.length = 3 ∧ ∀ c ∈ month, u.isWord c := by
  have hmonths : ∀ m ∈ months, m.length = 3 ∧ m.all (between 'a' 'z') := by decide
  obtain ⟨hlength, hletters⟩ := hmonths _ h
  refine ⟨by rwa [List.length_map] at hlength, fun c hc => hu.isWord_of_lower ?_⟩
  exact List.all_eq_true.1 hletters _ (List.mem_map_of_mem hc)

theorem isDigit_twoDigits (hu : u.Ascii) {n : Nat} (hn : n < 100) :
    (∀ c ∈ twoDigits n, u.isDigit c) ∧ (twoDigits n).length = 2 := by
  rw [twoDigits_eq hn]
  refine ⟨fun c hc => ?_, rfl⟩
  rcases List.mem_cons.1 hc with rfl | hc
  · exact hu.isDigit_digit (by omega)
  · rw [List.mem_singleton.1 hc]
    exact hu.isDigit_digit (by omega)

theorem length_digits_pos (n : Nat) : 1 ≤ (digits n).length := by
  rw [digits, List.length_map]
  exact Nat.length_toDigits_pos

theorem isDigit_digits (hu : u.Ascii) (n : Nat) : ∀ c ∈ digits n, u.isDigit c := by
  intro c hc
  obtain ⟨k, hk, rfl⟩ := mem_digits hc
  exact hu.isDigit_digit hk

end

/-! ### Pairs -/

section
variable {u : Unicode} {s t v : Str} {kv : Str × Str} {kvs d : List (Str × Str)}

theorem exists_of_keyRe (h : keyRe u s ≠ []) :
    ∃ space key after, s = space :: (key ++ chr '=' :: after) ∧ isSpace space ∧ key ≠ [] ∧ ∀ c ∈ key, u.isWord c := by
  have hsat : (keyRe u).Sat s fun _ _ => ∃ space key after, s = space :: (key ++ chr '=' :: after) ∧ isSpace space ∧
      key ≠ [] ∧ ∀ c ∈ key, u.isWord c := by
    refine sat_bind ((sat_one_class _ s).mono fun _ s₁ ⟨space, hspace, _, hs⟩ => ?_)
    refine sat_bind ((sat_plus_class _ s₁).mono fun key s₂ ⟨hne, hkey, hs₁⟩ => ?_)
    refine sat_bind ((sat_one_class _ s₂).mono fun _ after ⟨equals, hequals, _, hs₂⟩ => sat_pure ?_)
    rw [← hs₁, hs₂, beq_iff_eq.1 hequals] at hs
    exact ⟨space, key, after, hs, hspace, hne, hkey⟩
  obtain ⟨r, rest, hr⟩ := List.exists_cons_of_ne_nil h
  exact hsat r (hr ▸ List.mem_cons_self)

/-- Nothing within a value looks like the next key, not even with the blank after the value. -/
theorem keyRe_eq_nil (hu : u.Documented) (hv : ¬Mentions u v) (hsuffix : t <:+ v) (ht : t ≠ [])
    (hs : ∀ c ∈ s.head?, c = chr ' ') : keyRe u (t ++ s) = [] := by
  by_contra hkey
  obtain ⟨space, key, after, heq, hspace, hne, hword⟩ := exists_of_keyRe hkey
  obtain ⟨before, rfl⟩ := hsuffix
  obtain ⟨c, t, rfl⟩ := List.exists_cons_of_ne_nil ht
  obtain ⟨rfl, htail⟩ := List.cons.inj heq
  rcases List.append_eq_append_iff.1 htail with ⟨w, rfl, rfl⟩ | ⟨w, rfl, hw⟩
  · -- the value would end within the key, and a blank follow it there
    cases w with
    | nil => exact absurd (hs _ rfl) (by decide)
    | cons b w =>
      obtain rfl := hs b rfl
      exact hu.not_isWord_blank (hword _ (by simp))
  · cases w with
    | nil =>
      rw [List.nil_append] at hw
      rw [← hw] at hs
      exact absurd (hs _ rfl) (by decide)
    | cons b w =>
      obtain ⟨rfl, -⟩ := List.cons.inj hw
      exact hv ⟨before, c, key, w, rfl, hspace, hne, hword⟩

/-- A pair that is found again. -/
structure Writable (u : Unicode) (kv : Str × Str) : Prop where
  key : kv.1 ≠ []
  word : ∀ c ∈ kv.1, u.isWord c
  oneLine : chr '\n' ∉ kv.2
  unmentioned : ¬Mentions u kv.2

theorem Writable.first_key (hu : u.Documented) (h : Writable u kv) (s : Str) :
    (plus u.isWord).first (kv.1 ++ chr '=' :: s) = some (kv.1, chr '=' :: s) :=
  first_plus h.key h.word (not_head_cons hu.not_isWord_equals s)

theorem Writable.first_keyRe (hu : u.Documented) (h : Writable u kv) (s : Str) :
    (keyRe u).first (chr ' ' :: (kv.1 ++ chr '=' :: s)) = some ((), s) :=
  first_bind (first_one (show isSpace (chr ' ') by decide) _) <|
    first_bind (h.first_key hu s) <| first_bind (first_one (beq_self_eq_true _) s) (first_pure _ _)

theorem atEnd_eq_nil (ht : t ≠ []) (hline : chr '\n' ∉ t) (s : Str) : atEnd (t ++ s) = [] := by
  obtain ⟨c, t, rfl⟩ := List.exists_cons_of_ne_nil ht
  refine if_neg fun hend => ?_
  rcases Bool.or_eq_true_iff.1 hend with hend | hend
  · exact List.cons_ne_nil _ _ (of_decide_eq_true hend)
  · obtain ⟨rfl, -⟩ := List.cons.inj (of_decide_eq_true hend)
    exact hline List.mem_cons_self

/-- The value of a pair goes on to the end, or to the blank before the next pair. -/
theorem Writable.first_kvRe (hu : u.Documented) (h : Writable u kv) {kv' : Str × Str} (h' : Writable u kv')
    (hs : s = [] ∨ s = chr ' ' :: (kv'.1 ++ chr '=' :: t)) :
    (kvRe u).first (kv.1 ++ chr '=' :: (kv.2 ++ s)) = some (kv, s) := by
  have hblank : ∀ c ∈ s.head?, c = chr ' ' := by
    rcases hs with rfl | rfl
    · exact fun c hc => by cases hc
    · exact fun c hc => (Option.some.inj hc).symm
  have hnext : alt (keyRe u) atEnd s ≠ [] := by
    rcases hs with rfl | rfl
    · exact ne_nil_of_first (first_alt_right (r := ((), [])) rfl rfl)
    · exact ne_nil_of_first (first_alt_left (h'.first_keyRe hu t))
  refine first_bind (h.first_key hu _) (first_bind (first_char '=' _) (first_lazy_bind (fun c hc => ?_)
    (fun v t hvalue ht => bind_eq_nil (ahead_eq_nil (alt_eq_nil ?_ ?_))) (first_bind (first_ahead hnext) (first_pure _ _))))
  · exact bne_iff_ne.2 fun heq => h.oneLine (heq ▸ hc)
  · exact keyRe_eq_nil hu h.unmentioned ⟨v, hvalue.symm⟩ ht hblank
  · exact atEnd_eq_nil ht (fun hmem => h.oneLine (hvalue ▸ List.mem_append_right v hmem)) s

theorem exists_renderPairs (kv : Str × Str) (kvs : List (Str × Str)) :
    ∃ t, renderPairs (kv :: kvs) = kv.1 ++ chr '=' :: t := by
  cases kvs with
  | nil => exact ⟨_, rfl⟩
  | cons kv' kvs => exact ⟨_, rfl⟩

theorem kvRe_blank (hu : u.Documented) (s : Str) : kvRe u (chr ' ' :: s) = [] :=
  bind_eq_nil (if_neg hu.not_isWord_blank)

theorem newline_not_mem_renderPairs (hu : u.Documented) (h : ∀ kv ∈ kvs, Writable u kv) :
    chr '\n' ∉ renderPairs kvs := by
  have hpair : ∀ kv : Str × Str, Writable u kv → chr '\n' ∉ kv.1 ∧ chr '\n' ≠ chr '=' ∧ chr '\n' ∉ kv.2 :=
    fun kv hkv => ⟨fun hmem => hu.not_isSpace (hkv.word _ hmem) (by decide), by decide, hkv.oneLine⟩
  induction kvs with
  | nil => exact List.not_mem_nil
  | cons kv kvs ih =>
    obtain ⟨hkey, hequals, hvalue⟩ := hpair kv (h kv List.mem_cons_self)
    have hrest := ih fun kv hmem => h kv (List.mem_cons_of_mem _ hmem)
    cases kvs with
    | nil => simp [renderPairs, hkey, hequals, hvalue]
    | cons kv' kvs => simp [renderPairs, hkey, hequals, hvalue, hrest, show chr '\n' ≠ chr ' ' by decide]

/-- The pairs are found one by one. -/
theorem findall_renderPairs (hu : u.Documented) (h : ∀ kv ∈ kvs, Writable u kv) :
    findall (kvRe u) (renderPairs kvs) = kvs := by
  induction kvs with
  | nil => rfl
  | cons kv kvs ih =>
    have hkv := h kv List.mem_cons_self
    have hne : ∀ s : Str, kv.1 ++ chr '=' :: s ≠ [] := fun s heq => hkv.key (List.append_eq_nil_iff.1 heq).1
    cases kvs with
    | nil =>
      have hfirst := hkv.first_kvRe hu (t := []) hkv (.inl rfl)
      rw [← List.cons_append, ← List.append_assoc] at hfirst
      have hfound := findall_append (hne kv.2) hfirst
      rw [List.append_nil] at hfound
      exact hfound
    | cons kv' kvs =>
      obtain ⟨t, ht⟩ := exists_renderPairs kv' kvs
      have hfirst := hkv.first_kvRe hu (h kv' (by simp)) (.inr (congrArg (chr ' ' :: ·) ht))
      have hsplit : renderPairs (kv :: kv' :: kvs) = (kv.1 ++ chr '=' :: kv.2) ++ chr ' ' :: renderPairs (kv' :: kvs) := by
        rw [renderPairs, List.append_assoc, List.cons_append]
        exact List.cons_ne_nil _ _
      rw [← List.cons_append, ← List.append_assoc] at hfirst
      rw [hsplit, findall_append (hne kv.2) hfirst, findall_cons (kvRe_blank hu _),
        ih fun kv hmem => h kv (List.mem_cons_of_mem _ hmem)]

theorem setField_of_not_mem (h : kv.1 ∉ d.map (·.1)) : setField d kv = d ++ [kv] := by
  refine if_neg fun hany => h ?_
  obtain ⟨r, hr, heq⟩ := List.any_eq_true.1 hany
  exact List.mem_map.2 ⟨r, hr, beq_iff_eq.1 heq⟩

/-- With distinct keys nothing is overwritten. -/
theorem foldl_setField (h : ((d ++ kvs).map (·.1)).Nodup) : kvs.foldl setField d = d ++ kvs := by
  induction kvs generalizing d with
  | nil => rw [List.foldl_nil, List.append_nil]
  | cons kv kvs ih =>
    have hnew : kv.1 ∉ d.map (·.1) := by
      rw [List.map_append, List.nodup_append] at h
      exact fun hmem => h.2.2 _ hmem _ List.mem_cons_self rfl
    rw [List.foldl_cons, setField_of_not_mem hnew, ih (by rwa [List.append_assoc]), List.append_assoc]
    rfl

theorem parseKv_renderPairs (hu : u.Documented) (h : ∀ kv ∈ kvs, Writable u kv) (hnodup : (kvs.map (·.1)).Nodup) :
    parseKv u (renderPairs kvs) = kvs := by
  rw [parseKv, findall_renderPairs hu h]
  exact foldl_setField hnodup

end

/-! ### The header -/

section
variable {u : Unicode} {l : SyslogLine} {s before after : Str}

theorem head_append {w : Str} (hne : w ≠ []) (hw : ∀ c ∈ w, ¬isSpace c) (s : Str) :
    ∀ c ∈ (w ++ s).head?, ¬isSpace c := by
  obtain ⟨b, w, rfl⟩ := List.exists_cons_of_ne_nil hne
  exact not_head_cons (hw b List.mem_cons_self) _

/-- A padded day is white space and the digits of the day. -/
theorem exists_padded (hu : u.Ascii) {n : Nat} (hn : n < 100) (padding : Padding) :
    ∃ blank day, padding.day n = blank ++ day ∧ (∀ c ∈ blank, isSpace c) ∧ (∀ c ∈ day, ∃ k < 10, c = digit k) ∧
      1 ≤ day.length ∧ day.length ≤ 2 ∧ u.int day = n := by
  have hnone : ∀ c ∈ ([] : Str), isSpace c := fun c hc => absurd hc List.not_mem_nil
  have hlength : (digits n).length ≤ 2 := (length_digits_le_iff (by decide)).2 hn
  have hpos := length_digits_pos n
  cases padding with
  | zero =>
    have htwo := (isDigit_twoDigits hu hn).2
    refine ⟨[], twoDigits n, rfl, hnone, fun c hc => ?_, by omega, by omega, hu.int_twoDigits hn⟩
    rcases List.mem_append.1 hc with hc | hc <;> exact mem_digits hc
  | space =>
    by_cases hten : n < 10
    · refine ⟨[chr ' '], digits n, if_pos hten, fun c hc => ?_, fun c => mem_digits, hpos, hlength, hu.int_digits n⟩
      rw [List.mem_singleton.1 hc]
      decide
    · exact ⟨[], digits n, if_neg hten, hnone, fun c => mem_digits, hpos, hlength, hu.int_digits n⟩

theorem first_two (hu : u.Ascii) {n : Nat} (hn : n < 100) (s : Str) :
    (rep u.isDigit 2 2).first (twoDigits n ++ s) = some (twoDigits n, s) := by
  obtain ⟨hdigits, htwo⟩ := isDigit_twoDigits hu hn
  exact first_rep hdigits (by omega) (by omega) (.inl htwo)

namespace SyslogLine

theorem Renderable.first_time (hu : u.Ascii) (hl : l.Renderable u) (s : Str) :
    (timeRe u).first (l.time ++ s) = some (l.time, s) := by
  have htime : l.time ++ s = twoDigits l.hour ++ chr ':' :: (twoDigits l.minute ++ chr ':' :: (twoDigits l.second ++ s)) := by
    simp [time]
  have hgroup : twoDigits l.hour ++ str ":" ++ twoDigits l.minute ++ str ":" ++ twoDigits l.second = l.time := by
    simp [time, show str ":" = [chr ':'] from rfl]
  rw [htime]
  unfold timeRe
  refine first_bind (first_two hu hl.hour _) ?_
  refine first_bind (first_char ':' _) ?_
  refine first_bind (first_two hu hl.minute _) ?_
  refine first_bind (first_char ':' _) ?_
  refine first_bind (first_two hu hl.second _) ?_
  rw [hgroup]
  exact first_pure _ _

/-- The words of the header are not blank. -/
theorem Renderable.head_time (hl : l.Renderable u) (s : Str) :
    ∀ c ∈ (l.time ++ s).head?, ¬isSpace c := by
  obtain ⟨b, w, htwo, hb⟩ := twoDigits_word hl.hour
  rw [time, htwo]
  exact not_head_cons hb _

theorem Renderable.writable (hl : l.Renderable u) (hkeys : ∀ kv ∈ l.pairs, kv.1 ≠ []) :
    ∀ kv ∈ l.pairs, Writable u kv :=
  fun kv hkv => ⟨hkeys kv hkv, hl.word kv hkv, hl.oneLine kv hkv, hl.unmentioned kv hkv⟩

theorem first_lineRe (l : SyslogLine) (hu : u.Documented) (hl : l.Renderable u) (hhost : l.host ≠ [])
    (hkeys : ∀ kv ∈ l.pairs, kv.1 ≠ []) (padding : Padding) :
    ∃ day, u.int day = l.day ∧ (lineRe u).first (l.render padding) =
      some (⟨digits l.pri, l.month, day, l.time, l.host, renderPairs l.pairs⟩, []) := by
  obtain ⟨blank, day, hpadded, hblank, hday, hpos, htwo, hint⟩ := exists_padded hu.toAscii hl.day padding
  obtain ⟨hthree, hmonth⟩ := month_word hu hl.month
  have hpri : (digits l.pri).length ≤ 3 := (length_digits_le_iff (by decide)).2 (Nat.lt_succ_of_le hl.pri)
  have hdayWord : ∀ c ∈ day, u.isDigit c ∧ ¬isSpace c := by
    intro c hc
    obtain ⟨k, hk, rfl⟩ := hday c hc
    have hdigit : ∀ k < 10, ¬isSpace (digit k) := by decide
    exact ⟨hu.isDigit_digit hk, hdigit k hk⟩
  have hne : day ≠ [] := List.ne_nil_of_length_pos hpos
  have hpairs : ∀ c ∈ (renderPairs l.pairs).head?, ¬isSpace c := by
    obtain ⟨kv, kvs, hkvs⟩ := List.exists_cons_of_ne_nil hl.pairs
    obtain ⟨t, ht⟩ := exists_renderPairs kv kvs
    have hkv : kv ∈ l.pairs := hkvs ▸ List.mem_cons_self
    rw [hkvs, ht]
    exact head_append (hkeys kv hkv) (fun c hc => hu.not_isSpace (hl.word kv hkv c hc)) _
  have hline : ∀ c ∈ renderPairs l.pairs, c != chr '\n' := fun c hc =>
    bne_iff_ne.2 fun heq => newline_not_mem_renderPairs hu (hl.writable hkeys) (heq ▸ hc)
  refine ⟨day, hint, ?_⟩
  rw [render, hpadded, List.append_assoc]
  unfold lineRe
  refine first_bind (first_char '<' _) ?_
  refine first_bind (first_rep (isDigit_digits hu.toAscii l.pri) (length_digits_pos _) hpri
    (.inr (not_head_cons (hu.not_isDigit (by decide) (by decide)) _))) ?_
  refine first_bind (first_char '>' _) ?_
  refine first_bind (first_rep hmonth (Nat.le_of_eq hthree.symm) (Nat.le_of_eq hthree) (.inl hthree)) ?_
  refine first_bind (first_blanks hblank (head_append hne (fun c hc => (hdayWord c hc).2) _)) ?_
  refine first_bind (first_rep (fun c hc => (hdayWord c hc).1) hpos htwo
    (.inr (not_head_cons hu.not_isDigit_space _))) ?_
  refine first_bind (first_blank (hl.head_time _)) ?_
  refine first_bind (hl.first_time hu.toAscii _) ?_
  refine first_bind (first_blank (head_append hhost hl.host _)) ?_
  refine first_bind (first_plus hhost (fun c hc => by simpa using hl.host c hc) (not_head_cons (by decide) _)) ?_
  refine first_bind (first_blank hpairs) ?_
  have hrest := first_many hline (s := []) (fun c hc => by cases hc)
  rw [List.append_nil] at hrest
  exact first_bind hrest (first_bind (first_pure _ _) (first_pure _ _))

end SyslogLine

end

/-! ### Plain lines -/

theorem Mentions.mem {u : Unicode} {s : Str} (h : Mentions u s) : (∃ c ∈ s, isSpace c) ∧ chr '=' ∈ s := by
  obtain ⟨before, space, key, after, rfl, hspace, -, -⟩ := h
  exact ⟨⟨space, by simp, hspace⟩, by simp⟩

/-- A value that has white space or `=`, but not both, mentions no key. -/
def plainPair (u : Unicode) (kv : Str × Str) : Bool :=
  kv.1.all u.isWord && !kv.2.contains (chr '\n') && !(kv.2.any isSpace && kv.2.contains (chr '='))

theorem SyslogLine.renderable_of_plain {u : Unicode} {l : SyslogLine}
    (hheader : l.pri ≤ 999 ∧ l.month.map lower ∈ months ∧ l.host.all fun c => !isSpace c)
    (htime : l.day < 100 ∧ l.hour < 100 ∧ l.minute < 100 ∧ l.second < 100)
    (hpairs : l.pairs ≠ [] ∧ (l.pairs.map (·.1)).Nodup ∧ l.pairs.all (plainPair u))
    (hends : l.pairs.getLast?.all fun kv => kv.2.getLast?.all fun c => !isSpace c) : l.Renderable u := by
  have hplain : ∀ kv ∈ l.pairs, (∀ c ∈ kv.1, u.isWord c) ∧ chr '\n' ∉ kv.2 ∧
      ((∀ c ∈ kv.2, isSpace c = false) ∨ chr '=' ∉ kv.2) := by
    intro kv hkv
    have h := List.all_eq_true.1 hpairs.2.2 kv hkv
    simpa [plainPair, and_assoc] using h
  exact {
    pri := hheader.1
    month := hheader.2.1
    day := htime.1
    hour := htime.2.1
    minute := htime.2.2.1
    second := htime.2.2.2
    host := fun c hc => by simpa using List.all_eq_true.1 hheader.2.2 c hc
    pairs := hpairs.1
    nodup := hpairs.2.1
    word := fun kv hkv => (hplain kv hkv).1
    oneLine := fun kv hkv => (hplain kv hkv).2.1
    unmentioned := fun kv hkv h => by
      obtain ⟨⟨c, hc, hspace⟩, hequals⟩ := h.mem
      rcases (hplain kv hkv).2.2 with hplain | hplain
      · exact absurd hspace (by rw [hplain c hc]; decide)
      · exact hplain hequals
    ends := fun kv hkv c hc => by
      rw [Option.mem_def.1 hkv, Option.all_some, Option.mem_def.1 hc] at hends
      simpa using hends }

theorem Unicode.sample_documented : Unicode.sample.Documented where
  toAscii := Unicode.sample_ascii
  alnum _ _ := rfl
  not_space c hc hspace := by
    unfold Unicode.sample between at hc
    unfold isSpace at hspace
    simp at hc hspace
    omega

/-! ### The line -/

section
variable {u : Unicode} {l : SyslogLine} {s before after : Str} {kvs : List (Str × Str)}

theorem dropWhile_of_head {p : CodePoint → Bool} (h : ∀ c ∈ s.head?, ¬p c) : s.dropWhile p = s := by
  cases s with
  | nil => rfl
  | cons c s => exact List.dropWhile_cons_of_neg (h c rfl)

theorem strip_surrounded (hbefore : ∀ c ∈ before, isSpace c) (hafter : ∀ c ∈ after, isSpace c)
    (hhead : ∀ c ∈ s.head?, ¬isSpace c) (hlast : ∀ c ∈ s.getLast?, ¬isSpace c) (hne : s ≠ []) :
    strip (before ++ s ++ after) = s := by
  obtain ⟨c, s, rfl⟩ := List.exists_cons_of_ne_nil hne
  have hfront : (before ++ c :: s ++ after).dropWhile isSpace = c :: s ++ after := by
    rw [List.append_assoc, List.dropWhile_append_of_pos hbefore]
    exact dropWhile_of_head hhead
  have hback : (c :: s ++ after).reverse.dropWhile isSpace = (c :: s).reverse := by
    rw [List.reverse_append, List.dropWhile_append_of_pos fun c hc => hafter c (List.mem_reverse.1 hc)]
    exact dropWhile_of_head (by rwa [List.head?_reverse])
  rw [strip, hfront, List.rdropWhile, hback, List.reverse_reverse]

theorem getLast?_of_suffix {t : Str} (h : t <:+ s) (ht : t ≠ []) : s.getLast? = t.getLast? := by
  obtain ⟨w, rfl⟩ := h
  rw [List.getLast?_append, List.getLast?_eq_some_getLast ht, Option.some_or]

theorem renderPairs_ne_nil (h : kvs ≠ []) : renderPairs kvs ≠ [] := by
  obtain ⟨kv, kvs, rfl⟩ := List.exists_cons_of_ne_nil h
  obtain ⟨t, ht⟩ := exists_renderPairs kv kvs
  rw [ht]
  simp

theorem last_renderPairs (hends : ∀ kv ∈ kvs.getLast?, ∀ c ∈ kv.2.getLast?, ¬isSpace c) :
    ∀ c ∈ (renderPairs kvs).getLast?, ¬isSpace c := by
  induction kvs with
  | nil => exact fun c hc => by cases hc
  | cons kv kvs ih =>
    cases kvs with
    | nil =>
      intro c hc
      rw [renderPairs, List.getLast?_append, List.getLast?_cons, Option.some_or, Option.mem_some_iff] at hc
      cases hvalue : kv.2.getLast? with
      | none =>
        rw [hvalue] at hc
        rw [← hc]
        decide
      | some b =>
        rw [hvalue] at hc
        exact hends kv rfl c (hvalue.trans (congrArg some hc))
    | cons kv' kvs =>
      have hsuffix : renderPairs (kv' :: kvs) <:+ renderPairs (kv :: kv' :: kvs) :=
        ⟨kv.1 ++ chr '=' :: (kv.2 ++ [chr ' ']), by simp [renderPairs]⟩
      rw [getLast?_of_suffix hsuffix (renderPairs_ne_nil (List.cons_ne_nil _ _))]
      exact ih (by rwa [List.getLast?_cons_cons] at hends)

theorem SyslogLine.Renderable.strip_render (hl : l.Renderable u) (padding : Padding) (hbefore : ∀ c ∈ before, isSpace c)
    (hafter : ∀ c ∈ after, isSpace c) : strip (before ++ l.render padding ++ after) = l.render padding := by
  have hsuffix : renderPairs l.pairs <:+ l.render padding :=
    ⟨chr '<' :: (digits l.pri ++ chr '>' :: (l.month ++ chr ' ' :: (padding.day l.day ++ chr ' ' ::
      (l.time ++ chr ' ' :: (l.host ++ [chr ' ']))))), by simp [SyslogLine.render]⟩
  refine strip_surrounded hbefore hafter (not_head_cons (by decide) _) ?_ (List.cons_ne_nil _ _)
  rw [getLast?_of_suffix hsuffix (renderPairs_ne_nil hl.pairs)]
  exact last_renderPairs hl.ends

/-- A line with a host and no empty key is parsed back, whatever the padding of its day and the white space around it. -/
theorem rendered_line_parsed (hu : u.Documented) (hl : l.Renderable u) (hhost : l.host ≠ [])
    (hkeys : ∀ kv ∈ l.pairs, kv.1 ≠ []) {now t : DateTime} (ht : parseRfc3164 u l.stamp now = .ok t) (padding : Padding)
    (hbefore : ∀ c ∈ before, isSpace c) (hafter : ∀ c ∈ after, isSpace c) :
    ∃ e, parseSyslogLine u (before ++ l.render padding ++ after) now = .ok e ∧ e.facility = l.pri / 8 ∧
      e.syslogSeverity = l.pri % 8 ∧ e.eventTime = t ∧ e.hostname = l.host ∧ e.fields = l.pairs := by
  obtain ⟨day, hday, hmatch⟩ := l.first_lineRe hu hl hhost hkeys padding
  rw [← hl.strip_render padding hbefore hafter] at hmatch
  have hstamp : LineMatch.stamp u ⟨digits l.pri, l.month, day, l.time, l.host, renderPairs l.pairs⟩ = l.stamp := by
    rw [LineMatch.stamp, hday]
    rfl
  rcases parseSyslogLine_of_match hmatch now with ⟨t', e, ht', he, hof⟩ | ⟨exc, herror, -⟩
  · rw [hstamp, ht] at ht'
    obtain rfl := Except.ok.inj ht'
    refine ⟨e, he, ?_, ?_, hof.eventTime, hof.hostname, ?_⟩
    · rw [hof.facility, hu.int_digits]
    · rw [hof.severity, hu.int_digits]
    · rw [hof.fields]
      exact parseKv_renderPairs hu (hl.writable hkeys) hl.nodup
  · rw [hstamp, ht] at herror
    cases herror

end

def SyslogLine.sample : SyslogLine :=
  ⟨134, str "aug", 5, 12, 44, 56, str "fw01",
    [(str "msg", str " DNS blocked "), (str "q", str "a=b"), (str "note", [])]⟩

theorem rendered_line_parsed_sample :
    ∃ e, parseSyslogLine .sample (str "\t" ++ SyslogLine.sample.render .space ++ str " \n") ⟨1757664000000000, some 0⟩ =
        .ok e ∧ e.facility = 134 / 8 ∧ e.syslogSeverity = 134 % 8 ∧ e.eventTime = ⟨1754397896000000, some 0⟩ ∧
      e.hostname = str "fw01" ∧ e.fields = SyslogLine.sample.pairs :=
  rendered_line_parsed (l := SyslogLine.sample) Unicode.sample_documented
    (SyslogLine.renderable_of_plain (by decide) (by decide) (by decide) (by decide)) (by decide) (by decide) (by rfl) .space
    (List.all_eq_true.1 (show (str "\t").all isSpace by decide)) (List.all_eq_true.1 (show (str " \n").all isSpace by decide))

/-! ### Lines without a host -/

/-- With two blanks where the host is missing, the first pair is taken for it. -/
def SyslogLine.hostless : SyslogLine :=
  ⟨0, str "Jan", 1, 0, 0, 0, [], [(str "k", str "v"), (str "j", str "w")]⟩

def SyslogLine.keyless : SyslogLine :=
  ⟨0, str "Jan", 1, 0, 0, 0, str "h", [([], str "v"), (str "j", str "w")]⟩

theorem hostless_line_misread :
    ∃ now t, SyslogLine.hostless.Renderable .sample ∧ SyslogLine.keyless.Renderable .sample ∧
      parseRfc3164 .sample SyslogLine.hostless.stamp now = .ok t ∧
      parseRfc3164 .sample SyslogLine.keyless.stamp now = .ok t ∧
      (¬∃ e, parseSyslogLine .sample (SyslogLine.hostless.render .zero) now = .ok e ∧
        e.hostname = SyslogLine.hostless.host ∧ e.fields = SyslogLine.hostless.pairs) ∧
      ¬∃ e, parseSyslogLine .sample (SyslogLine.keyless.render .zero) now = .ok e ∧
        e.hostname = SyslogLine.keyless.host ∧ e.fields = SyslogLine.keyless.pairs := by
  have hread : ((parseSyslogLine .sample (SyslogLine.hostless.render .zero) ⟨1757664000000000, some 0⟩).toOption.map
      (·.hostname)) = some (str "k=v") := by decide
  have hread' : ((parseSyslogLine .sample (SyslogLine.keyless.render .zero) ⟨1757664000000000, some 0⟩).toOption.map
      (·.fields)) = some [(str "j", str "w")] := by decide
  refine ⟨⟨1757664000000000, some 0⟩, ⟨1735689600000000, some 0⟩,
    SyslogLine.renderable_of_plain (by decide) (by decide) (by decide) (by decide),
    SyslogLine.renderable_of_plain (by decide) (by decide) (by decide) (by decide), by rfl, by rfl, ?_, ?_⟩
  · rintro ⟨e, he, hhost, -⟩
    rw [he] at hread
    exact absurd (hhost.symm.trans (Option.some.inj hread)) (by decide)
  · rintro ⟨e, he, -, hfields⟩
    rw [he] at hread'
    exact absurd (hfields.symm.trans (Option.some.inj hread')) (by decide)

end LogMgmt
