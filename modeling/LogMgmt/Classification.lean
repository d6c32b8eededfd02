import LogMgmt.SyslogServer
import LogMgmt.Dispatcher

/-!
# How a line is classified

`handle_message` from end to end: which lines become firewall and network events, with which values, and that every
other line is kept whole in an event of unknown source.
-/

namespace LogMgmt
open Pattern

/-! ### Fields -/

namespace SyslogEnvelope

/-- The value of a key, if the line has the key. -/
def field (e : SyslogEnvelope) (key : Str) : Option Str := (e.fields.find? fun kv => kv.1 = key).map (·.2)

def address (py : Py) (e : SyslogEnvelope) (key : Str) : Option IPAddress :=
  (e.field key).bind fun s => py.ipAddress (.str s)

def port (py : Py) (e : SyslogEnvelope) (key : Str) : Option Int :=
  ((e.field key).bind py.intOfStr).filter fun i => 0 ≤ i ∧ i ≤ 65535

/-- A firewall line with addresses and ports. -/
structure IsFirewall (py : Py) (e : SyslogEnvelope) : Prop where
  action : (e.field (str "action")).isSome
  src : (e.address py (str "src")).isSome
  dst : (e.address py (str "dst")).isSome
  spt : (e.port py (str "spt")).isSome
  dpt : (e.port py (str "dpt")).isSome

structure IsNetwork (e : SyslogEnvelope) : Prop where
  interface : (e.field (str "if")).isSome
  event : (e.field (str "event")).isSome
  other : ¬((e.field (str "action")).isSome ∧ (e.field (str "src")).isSome)

def traffic (py : Py) (tenant : Str) (e : SyslogEnvelope) : NormalizedEvent where
  tenant := tenant
  eventTime := e.eventTime
  source := str "firewall"
  vendor := e.field (str "vendor")
  product := e.field (str "product")
  eventType := str "traffic"
  severity := some (7 - e.syslogSeverity)
  action := e.field (str "action")
  srcIp := e.address py (str "src")
  srcPort := e.port py (str "spt")
  dstIp := e.address py (str "dst")
  dstPort := e.port py (str "dpt")
  protocol := e.field (str "proto")
  host := some e.hostname
  ruleName := e.field (str "policy")
  raw := e.raw

def network (tenant : Str) (e : SyslogEnvelope) : NormalizedEvent where
  tenant := tenant
  eventTime := e.eventTime
  source := str "network"
  eventType := (e.field (str "event")).getD []
  eventSubtype := e.field (str "reason")
  severity := some (7 - e.syslogSeverity)
  host := some e.hostname
  raw := e.raw

section
variable {py : Py} {e : SyslogEnvelope} {tenant key s : Str} {r : NormalizedEvent}

theorem get_eq (e : SyslogEnvelope) (key : Str) : e.get key = (e.field key).elim .none .str := by
  unfold get field
  cases e.fields.find? fun kv => kv.1 = key <;> rfl

theorem getItem_eq_ok : e.getItem key = .ok s ↔ e.field key = some s := by
  unfold getItem field
  cases e.fields.find? fun kv => kv.1 = key <;> simp

/-- What `fields.get` hands over passes the check of a text. -/
theorem optional_get (e : SyslogEnvelope) (key : Str) :
    EventArgs.optional EventArgs.strField (e.get key) = some (e.field key) := by
  rw [get_eq]
  cases e.field key <;> rfl

theorem address_eq_some {ip : IPAddress} :
    e.address py key = some ip ↔ ∃ s, e.field key = some s ∧ py.ipAddress (.str s) = some ip :=
  Option.bind_eq_some_iff

theorem port_eq_some {i : Int} :
    e.port py key = some i ↔ (∃ s, e.field key = some s ∧ py.intOfStr s = some i) ∧ 0 ≤ i ∧ i ≤ 65535 := by
  unfold port
  rw [Option.filter_eq_some_iff, Option.bind_eq_some_iff, decide_eq_true_eq]

theorem pyInt_str {i : Int} : pyInt py (.str s) = .ok i ↔ py.intOfStr s = some i := by
  unfold pyInt
  cases hs : py.intOfStr s <;> simp [hs]

theorem optional_address {ip : IPAddress} (hip : py.ipAddress (.str s) = some ip) :
    EventArgs.optional py.ipAddress (.str s) = some (some ip) := by
  show (py.ipAddress (.str s)).map some = _
  rw [hip]
  rfl

theorem address_of_optional {o : Option IPAddress} (hs : e.field key = some s)
    (h : EventArgs.optional py.ipAddress (.str s) = some o) : (e.address py key).isSome := by
  obtain ⟨ip, hip, -⟩ := Option.map_eq_some_iff.1 h
  rw [address_eq_some.2 ⟨s, hs, hip⟩]
  rfl

theorem intField_of_range {hi i : Int} (h : 0 ≤ i ∧ i ≤ hi) : EventArgs.intField hi (some i) = some (some i) := if_pos h

theorem port_of_intField {i : Int} {o : Option Int} (hs : e.field key = some s) (hi : pyInt py (.str s) = .ok i)
    (h : EventArgs.intField 65535 (some i) = some o) : (e.port py key).isSome := by
  have hrange : 0 ≤ i ∧ i ≤ 65535 := by
    by_contra hrange
    have hnone : EventArgs.intField 65535 (some i) = none := if_neg hrange
    rw [hnone] at h
    cases h
  rw [port_eq_some.2 ⟨⟨s, hs, pyInt_str.1 hi⟩, hrange⟩]
  rfl

theorem intField_severity (hseverity : e.syslogSeverity < 8) :
    EventArgs.intField 10 (some (7 - e.syslogSeverity)) = some (some (7 - (e.syslogSeverity : Int))) :=
  intField_of_range ⟨by omega, by omega⟩

/-! ### The two normalizers -/

theorem normalizeFirewall_eq (hseverity : e.syslogSeverity < 8) (h : e.IsFirewall py) :
    normalizeFirewall py (.envelope e) (.str tenant) = .ok (e.traffic py tenant) := by
  obtain ⟨action, haction⟩ := Option.isSome_iff_exists.1 h.action
  obtain ⟨srcIp, hsrcIp⟩ := Option.isSome_iff_exists.1 h.src
  obtain ⟨dstIp, hdstIp⟩ := Option.isSome_iff_exists.1 h.dst
  obtain ⟨srcPort, hsrcPort⟩ := Option.isSome_iff_exists.1 h.spt
  obtain ⟨dstPort, hdstPort⟩ := Option.isSome_iff_exists.1 h.dpt
  obtain ⟨src, hsrc, hsrcAddr⟩ := address_eq_some.1 hsrcIp
  obtain ⟨dst, hdst, hdstAddr⟩ := address_eq_some.1 hdstIp
  obtain ⟨⟨spt, hspt, hsptInt⟩, hsptRange⟩ := port_eq_some.1 hsrcPort
  obtain ⟨⟨dpt, hdpt, hdptInt⟩, hdptRange⟩ := port_eq_some.1 hdstPort
  unfold normalizeFirewall traffic
  simp only [Payload.asEnvelope, getItem_eq_ok.2 haction, getItem_eq_ok.2 hsrc, getItem_eq_ok.2 hdst,
    getItem_eq_ok.2 hspt, getItem_eq_ok.2 hdpt, pyInt_str.2 hsptInt, pyInt_str.2 hdptInt, bind, Except.bind]
  simp only [EventArgs.build, EventArgs.validate, optional_get, EventArgs.strField,
    optional_address hsrcAddr, optional_address hdstAddr, intField_of_range hsptRange, intField_of_range hdptRange,
    intField_severity hseverity]
  simp only [EventArgs.optional, EventArgs.strField, haction, hsrcIp, hdstIp, hsrcPort, hdstPort]
  rfl

theorem isFirewall_of_normalize (h : normalizeFirewall py (.envelope e) (.str tenant) = .ok r) : e.IsFirewall py := by
  obtain ⟨e', he, action, haction, src, hsrc, spt, hspt, srcPort, hsrcPort, dst, hdst, dpt, hdpt, dstPort, hdstPort,
      hb⟩ := by
    simpa only [normalizeFirewall, bind_eq_ok] using h
  obtain rfl : e = e' := Payload.envelope.inj (Payload.asEnvelope_eq_ok.1 he)
  have hbuilt := EventArgs.built hb
  refine ⟨?_, ?_, ?_, ?_, ?_⟩
  · rw [getItem_eq_ok.1 haction]
    rfl
  · exact address_of_optional (getItem_eq_ok.1 hsrc) hbuilt.srcIp
  · exact address_of_optional (getItem_eq_ok.1 hdst) hbuilt.dstIp
  · exact port_of_intField (getItem_eq_ok.1 hspt) hsrcPort hbuilt.srcPort
  · exact port_of_intField (getItem_eq_ok.1 hdpt) hdstPort hbuilt.dstPort

theorem normalizeNetwork_eq (hseverity : e.syslogSeverity < 8) (h : e.IsNetwork) :
    normalizeNetwork py (.envelope e) (.str tenant) = .ok (e.network tenant) := by
  obtain ⟨event, hevent⟩ := Option.isSome_iff_exists.1 h.event
  unfold normalizeNetwork network
  simp only [Payload.asEnvelope, getItem_eq_ok.2 hevent, bind, Except.bind]
  simp only [EventArgs.build, EventArgs.validate, optional_get, EventArgs.strField,
    intField_severity hseverity]
  simp only [EventArgs.optional, EventArgs.strField, hevent]
  rfl

/-! ### The dispatcher -/

theorem sourceHint_eq (e : SyslogEnvelope) :
    sourceHintFromFields e.fields =
      if (e.field (str "action")).isSome ∧ (e.field (str "src")).isSome then str "firewall"
      else if (e.field (str "if")).isSome ∧ (e.field (str "event")).isSome then str "network"
      else str "unknown" := by
  have hhas : ∀ key, (e.fields.any fun kv => kv.1 == key) = (e.field key).isSome := by
    intro key
    rw [field, Option.isSome_map, Bool.eq_iff_iff, List.find?_isSome, List.any_eq_true]
    simp
  simp only [sourceHintFromFields, hhas, Bool.and_eq_true]

end

end SyslogEnvelope

section
variable {py : Py} {u : Unicode} {tenant : Str} {hint : PyVal} {payload : Payload} {now : DateTime}

/-- The event that stands for what no normalizer takes. -/
def unparsed (tenant : Str) (now : DateTime) (raw : PyDict) : NormalizedEvent where
  tenant := tenant
  eventTime := now
  source := str "unknown"
  eventType := str "unparsed"
  raw := raw
  tags := [str "fallback"]

theorem fallback_eq (py : Py) (reason : Str) :
    fallback py hint payload (.str tenant) now reason =
      .ok (unparsed tenant now (fallbackRaw hint payload reason)) := rfl

/-- The text stays under its key beside the two keys of the fallback. -/
theorem get_fallbackRaw_envelope (e : SyslogEnvelope) (reason : Str) :
    (fallbackRaw hint (.envelope e) reason).get (str "raw_line") = .str e.rawLine := by
  rfl

theorem get_fallbackRaw_text (line reason : Str) :
    (fallbackRaw hint (.text line) reason).get (str "_raw_text") = .str line := by
  rfl

theorem normalize_key (py : Py) (source : Source) (payload : Payload) (tenant : PyVal) (now : DateTime) :
    normalize py (.str source.key) payload tenant now =
      match source.normalize py payload tenant with
      | .ok r => .ok r
      | .error exc => fallback py (.str source.key) payload tenant now (py.describe exc) := by
  cases source <;> rfl

theorem SyslogEnvelope.IsFirewall.src_field {e : SyslogEnvelope} (h : e.IsFirewall py) :
    (e.field (str "src")).isSome := by
  obtain ⟨ip, hip⟩ := Option.isSome_iff_exists.1 h.src
  obtain ⟨s, hs, -⟩ := SyslogEnvelope.address_eq_some.1 hip
  rw [hs]
  rfl

theorem normalize_envelope (py : Py) (tenant : Str) (now : DateTime) {e : SyslogEnvelope}
    (hseverity : e.syslogSeverity < 8) :
    ∃ r, normalize py (.str (sourceHintFromFields e.fields)) (.envelope e) (.str tenant) now = .ok r ∧
      ((e.IsFirewall py ∧ r = e.traffic py tenant) ∨ (e.IsNetwork ∧ r = e.network tenant) ∨
        ¬e.IsFirewall py ∧ ¬e.IsNetwork ∧
          ∃ raw, raw.get (str "raw_line") = .str e.rawLine ∧ r = unparsed tenant now raw) := by
  have hfallback : ∀ hint reason, ∃ raw, raw.get (str "raw_line") = .str e.rawLine ∧
      fallback py hint (.envelope e) (.str tenant) now reason = .ok (unparsed tenant now raw) := fun hint reason =>
    ⟨_, get_fallbackRaw_envelope e reason, fallback_eq py reason⟩
  rw [SyslogEnvelope.sourceHint_eq]
  split
  · rename_i hboth
    have hnetwork : ¬e.IsNetwork := fun h => h.other hboth
    have hkey := normalize_key py .firewall (.envelope e) (.str tenant) now
    cases hn : normalizeFirewall py (.envelope e) (.str tenant) with
    | ok r =>
      rw [Source.normalize, hn] at hkey
      have hfirewall := SyslogEnvelope.isFirewall_of_normalize hn
      rw [SyslogEnvelope.normalizeFirewall_eq hseverity hfirewall] at hn
      cases hn
      exact ⟨_, hkey, .inl ⟨hfirewall, rfl⟩⟩
    | error exc =>
      rw [Source.normalize, hn] at hkey
      have hfirewall : ¬e.IsFirewall py := by
        intro h
        rw [SyslogEnvelope.normalizeFirewall_eq hseverity h] at hn
        cases hn
      obtain ⟨raw, hraw, hr⟩ := hfallback (.str (str "firewall")) (py.describe exc)
      exact ⟨_, hkey.trans hr, .inr (.inr ⟨hfirewall, hnetwork, raw, hraw, rfl⟩)⟩
  rename_i hother
  have hfirewall : ¬e.IsFirewall py := fun h => hother ⟨h.action, h.src_field⟩
  split
  · rename_i hboth
    have hnetwork : e.IsNetwork := ⟨hboth.1, hboth.2, hother⟩
    have hkey := normalize_key py .network (.envelope e) (.str tenant) now
    rw [Source.normalize, SyslogEnvelope.normalizeNetwork_eq hseverity hnetwork] at hkey
    exact ⟨_, hkey, .inr (.inl ⟨hnetwork, rfl⟩)⟩
  · rename_i hneither
    have hnetwork : ¬e.IsNetwork := fun h => hneither ⟨h.interface, h.event⟩
    obtain ⟨raw, hraw, hr⟩ := hfallback (.str (str "unknown"))
      (str "unrecognized or missing source_hint=" ++ py.repr (.str (str "unknown")))
    exact ⟨_, hr, .inr (.inr ⟨hfirewall, hnetwork, raw, hraw, rfl⟩)⟩

theorem SyslogEnvelope.IsFirewall.not_network {e : SyslogEnvelope} (h : e.IsFirewall py) : ¬e.IsNetwork := fun hn =>
  hn.other ⟨h.action, h.src_field⟩

end

/-! ### The line -/

/-- What `parse_rfc3164` is given. -/
def LineMatch.stamp (u : Unicode) (m : LineMatch) : Str :=
  m.month ++ str " " ++ twoDigits (u.int m.day) ++ str " " ++ m.time

/-- The line has the shape of RFC3164, and its date exists in the current year. -/
def dated (u : Unicode) (line : Str) (now : DateTime) : Bool :=
  match (lineRe u).first (strip line) with
  | some (m, _) => (strptime u (digits now.date.year.toNat ++ str " " ++ m.stamp u)).isOk
  | none => false

/-- The envelope of a line that matches and has this time. -/
structure SyslogEnvelope.Of (u : Unicode) (m : LineMatch) (t : DateTime) (line : Str) (e : SyslogEnvelope) : Prop where
  facility : e.facility = u.int m.pri / 8
  severity : e.syslogSeverity = u.int m.pri % 8
  eventTime : e.eventTime = t
  hostname : e.hostname = m.host
  fields : e.fields = parseKv u m.rest
  rawLine : e.rawLine = line

section
variable {py : Py} {u : Unicode} {tenant line : Str} {now : DateTime} {clock : Clock} {m : LineMatch} {s : Str}
  {e : SyslogEnvelope} {t : DateTime}

theorem SyslogEnvelope.Of.severity_lt (h : e.Of u m t line) : e.syslogSeverity < 8 := by
  rw [h.severity]
  omega

theorem parseSyslogLine_of_match (hm : (lineRe u).first (strip line) = some (m, s)) (now : DateTime) :
    (∃ t e, parseRfc3164 u (m.stamp u) now = .ok t ∧ parseSyslogLine u line now = .ok e ∧ e.Of u m t line) ∨
      ∃ exc, parseRfc3164 u (m.stamp u) now = .error exc ∧ parseSyslogLine u line now = .error exc := by
  unfold parseSyslogLine
  split
  · rename_i hnone
    rw [hm] at hnone
    cases hnone
  · rename_i m' s' hsome
    obtain ⟨rfl, rfl⟩ : m = m' ∧ s = s' := by simpa using hm.symm.trans hsome
    rw [show m.month ++ str " " ++ twoDigits (u.int m.day) ++ str " " ++ m.time = m.stamp u from rfl]
    cases parseRfc3164 u (m.stamp u) now with
    | error exc => exact .inr ⟨exc, rfl, rfl⟩
    | ok t => exact .inl ⟨t, _, rfl, rfl, rfl, rfl, rfl, rfl, rfl, rfl⟩

theorem parseSyslogLine_of_none (hm : (lineRe u).first (strip line) = none) (now : DateTime) :
    parseSyslogLine u line now = .error (.valueError (.str line)) := by
  unfold parseSyslogLine
  split
  · rfl
  · rename_i hsome
    rw [hm] at hsome
    cases hsome

theorem exists_match (h : parseSyslogLine u line now = .ok e) :
    ∃ m s t, (lineRe u).first (strip line) = some (m, s) ∧ parseRfc3164 u (m.stamp u) now = .ok t ∧
      e.Of u m t line := by
  cases hm : (lineRe u).first (strip line) with
  | none =>
    rw [parseSyslogLine_of_none hm] at h
    cases h
  | some r =>
    obtain ⟨m, s⟩ := r
    rcases parseSyslogLine_of_match hm now with ⟨t, e', ht, he', hof⟩ | ⟨exc, -, he⟩
    · obtain rfl : e' = e := Except.ok.inj (he'.symm.trans h)
      exact ⟨m, s, t, rfl, ht, hof⟩
    · rw [he] at h
      cases h

/-- The clock is too late for a limit five minutes later. -/
theorem parseSyslogLine_overflow (hdated : dated u line now) (hlast : DateTime.maxWall < now.wall + seconds 300) :
    parseSyslogLine u line now = .error .overflowError := by
  unfold dated at hdated
  split at hdated
  · rename_i m s hm
    have hoverflow := parseRfc3164_overflow hlast hdated
    rcases parseSyslogLine_of_match hm now with ⟨t, -, ht, -⟩ | ⟨exc, hexc, he⟩
    · rw [hoverflow] at ht
      cases ht
    · obtain rfl : exc = .overflowError := Except.error.inj (hexc.symm.trans hoverflow)
      exact he
  · cases hdated

/-- Before that, every error is a `ValueError`. -/
theorem parseSyslogLine_valueError (hnow : now.Utc)
    (hlast : dated u line now → now.wall + seconds 300 ≤ DateTime.maxWall) {exc : PyExc}
    (h : parseSyslogLine u line now = .error exc) : ∃ arg, exc = .valueError arg := by
  have hvalue : exc.IsValueError := by
    by_cases hdated : dated u line now
    · exact parseSyslogLine_error (hnow.current (hlast hdated)) h
    cases hm : (lineRe u).first (strip line) with
    | none =>
      rw [parseSyslogLine_of_none hm] at h
      cases h
      trivial
    | some r =>
      obtain ⟨m, s⟩ := r
      have hstamp : ¬(strptime u (digits now.date.year.toNat ++ str " " ++ m.stamp u)).isOk := by
        simpa only [dated, hm] using hdated
      obtain ⟨exc', hexc', hvalue⟩ := parseRfc3164_undated hstamp
      rcases parseSyslogLine_of_match hm now with ⟨t, -, ht, -⟩ | ⟨exc'', ht, he⟩
      · rw [hexc'] at ht
        cases ht
      · obtain rfl : exc' = exc'' := Except.error.inj (hexc'.symm.trans ht)
        obtain rfl : exc' = exc := Except.error.inj (he.symm.trans h)
        exact hvalue
  cases exc with
  | valueError arg => exact ⟨arg, rfl⟩
  | _ => cases hvalue

theorem handleMessage_firewall (h : parseSyslogLine u line clock.parsing = .ok e) (hfirewall : e.IsFirewall py) :
    handleMessage py u tenant line clock = .ok (e.traffic py tenant) := by
  obtain ⟨m, s, t, -, -, hof⟩ := exists_match h
  obtain ⟨r, hr, hcases⟩ := normalize_envelope py tenant clock.fallback hof.severity_lt
  have hhandle : handleMessage py u tenant line clock = .ok r := by
    rw [← hr, handleMessage, h]
  rcases hcases with ⟨-, rfl⟩ | ⟨hnetwork, -⟩ | ⟨hnot, -⟩
  · exact hhandle
  · exact absurd hnetwork hfirewall.not_network
  · exact absurd hfirewall hnot

theorem handleMessage_network (h : parseSyslogLine u line clock.parsing = .ok e) (hnetwork : e.IsNetwork) :
    handleMessage py u tenant line clock = .ok (e.network tenant) := by
  obtain ⟨m, s, t, -, -, hof⟩ := exists_match h
  obtain ⟨r, hr, hcases⟩ := normalize_envelope py tenant clock.fallback hof.severity_lt
  have hhandle : handleMessage py u tenant line clock = .ok r := by
    rw [← hr, handleMessage, h]
  rcases hcases with ⟨hfirewall, -⟩ | ⟨-, rfl⟩ | ⟨-, hnot, -⟩
  · exact absurd hnetwork hfirewall.not_network
  · exact hhandle
  · exact absurd hnetwork hnot

/-- Any other line is kept in an event of unknown source. -/
theorem handleMessage_unparsed (tenant : Str)
    (hother : ∀ e, parseSyslogLine u line clock.parsing = .ok e → ¬e.IsFirewall py ∧ ¬e.IsNetwork)
    (herror : ∀ exc, parseSyslogLine u line clock.parsing = .error exc → ∃ arg, exc = .valueError arg) :
    ∃ raw, (raw.get (str "raw_line") = .str line ∨ raw.get (str "_raw_text") = .str line) ∧
      handleMessage py u tenant line clock = .ok (unparsed tenant clock.fallback raw) := by
  cases h : parseSyslogLine u line clock.parsing with
  | error exc =>
    obtain ⟨arg, rfl⟩ := herror exc h
    let reason := str "unrecognized or missing source_hint=" ++ py.repr (.str (str "unknown"))
    have hhandle : handleMessage py u tenant line clock =
        .ok (unparsed tenant clock.fallback (fallbackRaw (.str (str "unknown")) (.text line) reason)) := by
      rw [handleMessage, h]
      exact fallback_eq py reason
    exact ⟨_, .inr (get_fallbackRaw_text line reason), hhandle⟩
  | ok e =>
    obtain ⟨m, s, t, -, -, hof⟩ := exists_match h
    obtain ⟨r, hr, hcases⟩ := normalize_envelope py tenant clock.fallback hof.severity_lt
    rcases hcases with ⟨hfirewall, -⟩ | ⟨hnetwork, -⟩ | ⟨-, -, raw, hraw, rfl⟩
    · exact absurd hfirewall (hother e h).1
    · exact absurd hnetwork (hother e h).2
    · refine ⟨raw, .inl (hof.rawLine ▸ hraw), ?_⟩
      rw [← hr, handleMessage, h]

/-! ### The order of the fields -/

theorem nodup_setField {d : List (Str × Str)} (h : (d.map (·.1)).Nodup) (kv : Str × Str) :
    ((setField d kv).map (·.1)).Nodup := by
  unfold setField
  split
  · have hkeys : (d.map fun r => if r.1 == kv.1 then kv else r).map (·.1) = d.map (·.1) := by
      rw [List.map_map]
      refine List.map_congr_left fun r _ => ?_
      by_cases hr : r.1 = kv.1 <;> simp [hr]
    rw [hkeys]
    exact h
  · rename_i hnone
    rw [List.map_append, List.nodup_append]
    refine ⟨h, List.nodup_singleton _, fun key hkey key' hkey' heq => hnone ?_⟩
    obtain ⟨r, hr, rfl⟩ := List.mem_map.1 hkey
    exact List.any_eq_true.2 ⟨r, hr, beq_iff_eq.2 (heq.trans (List.mem_singleton.1 hkey'))⟩

theorem nodup_parseKv (u : Unicode) (rest : Str) : ((parseKv u rest).map (·.1)).Nodup := by
  have hfold : ∀ (kvs d : List (Str × Str)), (d.map (·.1)).Nodup → ((kvs.foldl setField d).map (·.1)).Nodup := by
    intro kvs
    induction kvs with
    | nil => exact fun d hd => hd
    | cons kv kvs ih => exact fun d hd => ih _ (nodup_setField hd kv)
  exact hfold _ [] List.nodup_nil

theorem field_eq_some_iff (h : (e.fields.map (·.1)).Nodup) {key value : Str} :
    e.field key = some value ↔ (key, value) ∈ e.fields := by
  unfold SyslogEnvelope.field
  rw [Option.map_eq_some_iff]
  constructor
  · rintro ⟨kv, hkv, rfl⟩
    have hkey : kv.1 = key := by simpa using List.find?_some hkv
    rw [← hkey]
    exact List.mem_of_find?_eq_some hkv
  · intro hmem
    have hfound : (e.fields.find? fun kv => kv.1 = key).isSome :=
      List.find?_isSome.2 ⟨_, hmem, by simp⟩
    obtain ⟨kv, hkv⟩ := Option.isSome_iff_exists.1 hfound
    have hkey : kv.1 = key := by simpa using List.find?_some hkv
    obtain rfl : kv = (key, value) := List.inj_on_of_nodup_map h (List.mem_of_find?_eq_some hkv) hmem hkey
    exact ⟨_, hkv, rfl⟩

end

/-- Lines that differ in the order of their fields at most. -/
def Reordered (u : Unicode) (line line' : Str) : Prop :=
  ∃ m m' s s', (lineRe u).first (strip line) = some (m, s) ∧ (lineRe u).first (strip line') = some (m', s') ∧
    m' = { m with rest := m'.rest } ∧ (parseKv u m.rest).Perm (parseKv u m'.rest)

/-- The same line for the normalizers, but for the text itself. -/
structure SyslogEnvelope.Alike (e e' : SyslogEnvelope) : Prop where
  severity : e'.syslogSeverity = e.syslogSeverity
  eventTime : e'.eventTime = e.eventTime
  hostname : e'.hostname = e.hostname
  field : e'.field = e.field

section
variable {py : Py} {u : Unicode} {tenant line line' : Str} {now : DateTime} {e e' : SyslogEnvelope}

theorem Reordered.symm (h : Reordered u line line') : Reordered u line' line := by
  obtain ⟨m, m', s, s', hm, hm', heq, hperm⟩ := h
  exact ⟨m', m, s', s, hm', hm, by rw [heq], hperm.symm⟩

theorem Reordered.dated_eq (h : Reordered u line line') (now : DateTime) : dated u line' now = dated u line now := by
  obtain ⟨m, m', s, s', hm, hm', heq, -⟩ := h
  simp only [dated, hm, hm']
  rw [heq]
  rfl

theorem Reordered.parse (h : Reordered u line line') (he : parseSyslogLine u line now = .ok e) :
    ∃ e', parseSyslogLine u line' now = .ok e' ∧ e.Alike e' := by
  obtain ⟨m, m', s, s', hm, hm', heq, hperm⟩ := h
  obtain ⟨m₀, s₀, t, hm₀, ht, hof⟩ := exists_match he
  obtain ⟨rfl, rfl⟩ : m = m₀ ∧ s = s₀ := by simpa using hm.symm.trans hm₀
  have hstamp : m'.stamp u = m.stamp u := by rw [heq]; rfl
  rcases parseSyslogLine_of_match hm' now with ⟨t', e', ht', he', hof'⟩ | ⟨exc, hexc, -⟩
  · rw [hstamp, ht] at ht'
    obtain rfl : t = t' := Except.ok.inj ht'
    refine ⟨e', he', ?_, ?_, ?_, ?_⟩
    · rw [hof'.severity, hof.severity, heq]
    · rw [hof'.eventTime, hof.eventTime]
    · rw [hof'.hostname, hof.hostname, heq]
    · funext key
      have hnodup : (e.fields.map (·.1)).Nodup := hof.fields ▸ nodup_parseKv u m.rest
      have hnodup' : (e'.fields.map (·.1)).Nodup := hof'.fields ▸ nodup_parseKv u m'.rest
      refine Option.ext fun value => ?_
      rw [field_eq_some_iff hnodup, field_eq_some_iff hnodup', hof.fields, hof'.fields]
      exact hperm.mem_iff.symm
  · rw [hstamp, ht] at hexc
    cases hexc

namespace SyslogEnvelope.Alike

theorem address (py : Py) (h : e.Alike e') (key : Str) : e'.address py key = e.address py key := by
  rw [SyslogEnvelope.address, SyslogEnvelope.address, h.field]

theorem port (py : Py) (h : e.Alike e') (key : Str) : e'.port py key = e.port py key := by
  rw [SyslogEnvelope.port, SyslogEnvelope.port, h.field]

theorem firewall (h : e.Alike e') (hf : e.IsFirewall py) : e'.IsFirewall py where
  action := by rw [h.field]; exact hf.action
  src := by rw [h.address]; exact hf.src
  dst := by rw [h.address]; exact hf.dst
  spt := by rw [h.port]; exact hf.spt
  dpt := by rw [h.port]; exact hf.dpt

theorem network (h : e.Alike e') (hn : e.IsNetwork) : e'.IsNetwork where
  interface := by rw [h.field]; exact hn.interface
  event := by rw [h.field]; exact hn.event
  other := by rw [h.field]; exact hn.other

theorem traffic_eq (h : e.Alike e') : e'.traffic py tenant = { e.traffic py tenant with raw := e'.raw } := by
  simp only [traffic, h.address, h.port, h.field, h.severity, h.eventTime, h.hostname]

theorem network_eq (h : e.Alike e') : e'.network tenant = { e.network tenant with raw := e'.raw } := by
  simp only [SyslogEnvelope.network, h.field, h.severity, h.eventTime, h.hostname]

end SyslogEnvelope.Alike

end

/-! ### The event of a line -/

/-- The event keeps its line, and is of the class of the line with the values of the line. -/
structure Classified (py : Py) (u : Unicode) (tenant line : Str) (clock : Clock) (r : NormalizedEvent) : Prop where
  owner : r.tenant = tenant
  raw : r.raw.get (str "raw_line") = .str line ∨ r.raw.get (str "_raw_text") = .str line
  firewall : r.source = str "firewall" ↔ ∃ e, parseSyslogLine u line clock.parsing = .ok e ∧ e.IsFirewall py
  network : r.source = str "network" ↔ ∃ e, parseSyslogLine u line clock.parsing = .ok e ∧ e.IsNetwork
  unknown : r.source = str "firewall" ∨ r.source = str "network" ∨ r.source = str "unknown"
  header : r.source ≠ str "unknown" → ∃ m s, (lineRe u).first (strip line) = some (m, s) ∧
    r.severity = some (7 - ((u.int m.pri % 8 : Nat) : Int)) ∧ r.host = some m.host
  values : ∀ e, parseSyslogLine u line clock.parsing = .ok e →
    (e.IsFirewall py → r = e.traffic py tenant) ∧ (e.IsNetwork → r = e.network tenant)
  order : ∀ line', Reordered u line line' →
    ∃ r', handleMessage py u tenant line' clock = .ok r' ∧ r' = { r with raw := r'.raw }

section
variable {py : Py} {u : Unicode} {tenant line line' : Str} {clock : Clock} {e : SyslogEnvelope}

theorem classified_firewall (h : parseSyslogLine u line clock.parsing = .ok e) (hfirewall : e.IsFirewall py) :
    Classified py u tenant line clock (e.traffic py tenant) := by
  have hsame : ∀ e', parseSyslogLine u line clock.parsing = .ok e' → e = e' := fun e' he' =>
    Except.ok.inj (h.symm.trans he')
  obtain ⟨m, s, t, hm, -, hof⟩ := exists_match h
  refine ⟨rfl, .inl (hof.rawLine ▸ rfl), iff_of_true rfl ⟨e, h, hfirewall⟩, iff_of_false ?_ ?_, .inl rfl,
    fun _ => ⟨m, s, hm, ?_, ?_⟩, fun e' he' => ?_, fun line' horder => ?_⟩
  · show str "firewall" ≠ str "network"
    decide
  · rintro ⟨e', he', hnetwork⟩
    obtain rfl := hsame e' he'
    exact hfirewall.not_network hnetwork
  · rw [← hof.severity]
    rfl
  · rw [← hof.hostname]
    rfl
  · obtain rfl := hsame e' he'
    exact ⟨fun _ => rfl, fun hnetwork => absurd hnetwork hfirewall.not_network⟩
  · obtain ⟨e', he', halike⟩ := horder.parse h
    exact ⟨_, handleMessage_firewall he' (halike.firewall hfirewall), halike.traffic_eq⟩

theorem classified_network (h : parseSyslogLine u line clock.parsing = .ok e) (hnetwork : e.IsNetwork) :
    Classified py u tenant line clock (e.network tenant) := by
  have hsame : ∀ e', parseSyslogLine u line clock.parsing = .ok e' → e = e' := fun e' he' =>
    Except.ok.inj (h.symm.trans he')
  obtain ⟨m, s, t, hm, -, hof⟩ := exists_match h
  refine ⟨rfl, .inl (hof.rawLine ▸ rfl), iff_of_false ?_ ?_, iff_of_true rfl ⟨e, h, hnetwork⟩, .inr (.inl rfl),
    fun _ => ⟨m, s, hm, ?_, ?_⟩, fun e' he' => ?_, fun line' horder => ?_⟩
  · show str "network" ≠ str "firewall"
    decide
  · rintro ⟨e', he', hfirewall⟩
    obtain rfl := hsame e' he'
    exact hfirewall.not_network hnetwork
  · rw [← hof.severity]
    rfl
  · rw [← hof.hostname]
    rfl
  · obtain rfl := hsame e' he'
    exact ⟨fun hfirewall => absurd hnetwork hfirewall.not_network, fun _ => rfl⟩
  · obtain ⟨e', he', halike⟩ := horder.parse h
    exact ⟨_, handleMessage_network he' (halike.network hnetwork), halike.network_eq⟩

theorem classified_unparsed (hclock : clock.parsing.Utc)
    (hlast : dated u line clock.parsing → clock.parsing.wall + seconds 300 ≤ DateTime.maxWall)
    (hother : ∀ e, parseSyslogLine u line clock.parsing = .ok e → ¬e.IsFirewall py ∧ ¬e.IsNetwork) {raw : PyDict}
    (hraw : raw.get (str "raw_line") = .str line ∨ raw.get (str "_raw_text") = .str line) :
    Classified py u tenant line clock (unparsed tenant clock.fallback raw) := by
  refine ⟨rfl, hraw, iff_of_false ?_ ?_, iff_of_false ?_ ?_, .inr (.inr rfl), fun hne => absurd rfl hne,
    fun e he => ?_, fun line' horder => ?_⟩
  · show str "unknown" ≠ str "firewall"
    decide
  · rintro ⟨e, he, hfirewall⟩
    exact (hother e he).1 hfirewall
  · show str "unknown" ≠ str "network"
    decide
  · rintro ⟨e, he, hnetwork⟩
    exact (hother e he).2 hnetwork
  · exact ⟨fun hfirewall => absurd hfirewall (hother e he).1, fun hnetwork => absurd hnetwork (hother e he).2⟩
  · have hother' : ∀ e', parseSyslogLine u line' clock.parsing = .ok e' → ¬e'.IsFirewall py ∧ ¬e'.IsNetwork := by
      intro e' he'
      obtain ⟨e, he, halike⟩ := horder.symm.parse he'
      exact ⟨fun h => (hother e he).1 (halike.firewall h), fun h => (hother e he).2 (halike.network h)⟩
    have herror' : ∀ exc, parseSyslogLine u line' clock.parsing = .error exc → ∃ arg, exc = .valueError arg :=
      fun exc => parseSyslogLine_valueError hclock (by rwa [horder.dated_eq])
    obtain ⟨raw', -, hhandle⟩ := handleMessage_unparsed tenant hother' herror'
    exact ⟨_, hhandle, rfl⟩

/-- A line is reported as what it is exactly when the clock leaves room for the five minutes by which a timestamp may
be ahead, if the line has a timestamp. -/
theorem line_classified_iff (py : Py) (u : Unicode) (tenant line : Str) {clock : Clock} (hclock : clock.parsing.Utc) :
    (∃ r, handleMessage py u tenant line clock = .ok r ∧ Classified py u tenant line clock r) ↔
      (dated u line clock.parsing → clock.parsing.wall + seconds 300 ≤ DateTime.maxWall) := by
  constructor
  · rintro ⟨r, hr, -⟩ hdated
    by_contra hlast
    rw [handleMessage, parseSyslogLine_overflow hdated (not_le.1 hlast)] at hr
    cases hr
  · intro hlast
    by_cases hfirewall : ∃ e, parseSyslogLine u line clock.parsing = .ok e ∧ e.IsFirewall py
    · obtain ⟨e, he, hfirewall⟩ := hfirewall
      exact ⟨_, handleMessage_firewall he hfirewall, classified_firewall he hfirewall⟩
    by_cases hnetwork : ∃ e, parseSyslogLine u line clock.parsing = .ok e ∧ e.IsNetwork
    · obtain ⟨e, he, hnetwork⟩ := hnetwork
      exact ⟨_, handleMessage_network he hnetwork, classified_network he hnetwork⟩
    have hother : ∀ e, parseSyslogLine u line clock.parsing = .ok e → ¬e.IsFirewall py ∧ ¬e.IsNetwork := fun e he =>
      ⟨fun h => hfirewall ⟨e, he, h⟩, fun h => hnetwork ⟨e, he, h⟩⟩
    obtain ⟨raw, hraw, hhandle⟩ := handleMessage_unparsed tenant hother fun exc =>
      parseSyslogLine_valueError hclock hlast
    exact ⟨_, hhandle, classified_unparsed hclock hlast hother hraw⟩

end

/-- Four minutes before the end of the year 9999. -/
def Clock.lastMinutes : Clock := ⟨⟨253402300560000000, some 0⟩, ⟨253402300560000000, some 0⟩⟩

/-- A line that is too late: `now + timedelta(minutes=5)` raises an `OverflowError`, which nothing catches. -/
theorem line_lost_at_the_end :
    let line := str "<134>Dec 31 23:55:00 fw01 action=deny src=10.0.1.10"
    Clock.lastMinutes.parsing.Utc ∧
      ¬∃ r, handleMessage .sample .sample (str "demoA") line .lastMinutes = .ok r ∧
        Classified .sample .sample (str "demoA") line .lastMinutes r := by
  intro line
  refine ⟨⟨rfl, by decide, by decide⟩, ?_⟩
  rintro ⟨r, hr, -⟩
  have herror : (handleMessage .sample .sample (str "demoA") line .lastMinutes).isOk = false := by decide +kernel
  rw [hr] at herror
  cases herror

/-- A line, and a datagram with an encoded surrogate in it. -/
theorem line_classified_sample :
    let line := str "<134>Aug 20 12:44:56 fw01 src=10.0.1.10 dst=8.8.8.8 spt=5353 dpt=53 action=deny policy=Block-DNS"
    let data : List Utf8.Byte := [0x61, 0xED, 0xA0, 0x80, 0x0A]
    (∃ r, handleMessage .sample .sample (str "demoA") line .sample = .ok r ∧
      Classified .sample .sample (str "demoA") line .sample r) ∧
    ∃ r, udpMessage .sample .sample (str "demoA") data .sample = .ok r ∧
      Classified .sample .sample (str "demoA") (decodeLine data) .sample r :=
  have hclock : Clock.sample.parsing.Utc := ⟨rfl, by decide, by decide⟩
  ⟨(line_classified_iff .sample .sample (str "demoA") _ hclock).2 fun _ => by decide,
    (line_classified_iff .sample .sample (str "demoA") _ hclock).2 fun _ => by decide⟩

end LogMgmt
