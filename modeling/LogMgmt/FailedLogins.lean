import LogMgmt.Columns
import LogMgmt.Commits
import LogMgmt.Timeutil

/-!
# Failed logins of the sources

`DETECT_SQL` looks for words in `event_type` and `action`; the normalizers copy them from what their source writes.
A failed login of `api` or `ad` has the words. One of `m365` is a `UserLoggedIn` with a status, and `loggedin` contains
neither `login` nor `logon`: it is never counted (`failed_logins_seen_iff`).
-/

namespace LogMgmt
open Prog

/-- `lower()` turns the ASCII letters of an ASCII text to lower case. -/
def Pg.LowersAscii (pg : Pg) : Prop := ∀ s : Str, (∀ c ∈ s, c.val < 128) → pg.lower s = s.map LogMgmt.lower

/-! ### Records -/

/-- A login failed, in the words of the source; the others do not record an address. -/
def Source.LoginFailed : Source → PyDict → Prop
  | api, d => d.get (str "event_type") = .str (str "app_login_failed")
  | ad, d => d.get (str "event_type") = .str (str "LogonFailed")
  | m365, d => d.get (str "event_type") = .str (str "UserLoggedIn") ∧
      ∃ status, d.get (str "status") = .str status ∧ str "fail" <:+: status.map lower
  | _, _ => False

/-- The record of a failed login, which has gone through `normalize` and `write_event`. -/
structure LoginFailure (w : World) (tenant : Str) (ip : Inet) where
  source : Source
  payload : PyDict
  now : DateTime
  event : NormalizedEvent
  row : EventRow
  failed : source.LoginFailed payload
  hasAddress : (payload.get (str "ip")).isNone = false
  address : (w.py.ipAddress (payload.get (str "ip"))).map IPAddress.toInet = some ip
  accepted : accepting w.py (.str source.key) (.dict payload) (.str tenant) = some source
  normalized : normalize w.py (.str source.key) (.dict payload) (.str tenant) now = .ok event
  written : ∃ s s' : Session, (writeEvent event).run (handleAdded w.pg) (s, []) = (.ok (), s', [row])

namespace Source
variable {py : Py} {source : Source} {tenant : PyVal} {e : NormalizedEvent} {d : PyDict}

/-- What an event has from a record that gives an address. -/
theorem words_of_normalize (hsource : source = api ∨ source = ad ∨ source = m365)
    (h : source.normalize py (.dict d) tenant = .ok e) :
    EventArgs.strField (d.get (str "event_type")) = some e.eventType ∧
      EventArgs.optional py.ipAddress (d.get (str "ip")) = some e.srcIp := by
  have hread : ∀ {d' : PyDict} {exc : PyExc} {v : PyVal} {a : EventArgs},
      (Payload.dict d).asDict exc = .ok d' → d'.getItem (str "event_type") = .ok v → a.build py = .ok e →
      a.eventType = v → a.srcIp = d'.get (str "ip") →
      EventArgs.strField (d.get (str "event_type")) = some e.eventType ∧
        EventArgs.optional py.ipAddress (d.get (str "ip")) = some e.srcIp := by
    intro d' exc v a hd hv hb htype hip
    obtain rfl := Payload.dict.inj (Payload.asDict_eq_ok.1 hd)
    have hbuilt := EventArgs.built hb
    rw [PyDict.get, PyDict.get?_of_getItem hv, ← hip]
    exact ⟨htype ▸ hbuilt.eventType, hbuilt.srcIp⟩
  rcases hsource with rfl | rfl | rfl
  · obtain ⟨d', hd, ts, -, t, -, et, het, hb⟩ := by simpa only [normalize, normalizeApi, bind_eq_ok] using h
    exact hread hd het hb rfl rfl
  · obtain ⟨d', hd, ts, -, t, -, et, het, hb⟩ := by simpa only [normalize, normalizeAd, bind_eq_ok] using h
    exact hread hd het hb rfl rfl
  · obtain ⟨d', hd, ts, -, t, -, et, het, hb⟩ := by simpa only [normalize, normalizeM365, bind_eq_ok] using h
    exact hread hd het hb rfl rfl

end Source

/-! ### Words -/

section
variable {pg : Pg} {row : EventRow}

theorem contains_ascii (hlower : pg.LowersAscii) (pattern text : String)
    (hascii : (str pattern ++ str text).all fun c => c.val < 128) :
    Contains pg pattern (str text) ↔ (str pattern).map lower <:+: (str text).map lower := by
  simp only [List.all_eq_true, decide_eq_true_eq] at hascii
  rw [Contains, hlower _ fun c hc => hascii c (List.mem_append_left _ hc),
    hlower _ fun c hc => hascii c (List.mem_append_right _ hc)]

theorem failedLogin_api (hlower : pg.LowersAscii) (h : row.eventType = str "app_login_failed") :
    FailedLogin pg row := by
  have hlogin := (contains_ascii hlower "login" "app_login_failed" (by decide +kernel)).2 (by decide +kernel)
  have hfail := (contains_ascii hlower "fail" "app_login_failed" (by decide +kernel)).2 (by decide +kernel)
  rw [← h] at hlogin hfail
  exact ⟨.inl hlogin, .inl hfail⟩

theorem failedLogin_ad (hlower : pg.LowersAscii) (h : row.eventType = str "LogonFailed") : FailedLogin pg row := by
  have hlogon := (contains_ascii hlower "logon" "LogonFailed" (by decide +kernel)).2 (by decide +kernel)
  have hfail := (contains_ascii hlower "fail" "LogonFailed" (by decide +kernel)).2 (by decide +kernel)
  rw [← h] at hlogon hfail
  exact ⟨.inr hlogon, .inl hfail⟩

/-- Whatever the status. -/
theorem not_failedLogin_m365 (hlower : pg.LowersAscii) (h : row.eventType = str "UserLoggedIn") :
    ¬FailedLogin pg row := by
  have hlogin := (contains_ascii hlower "login" "UserLoggedIn" (by decide +kernel)).not.2 (by decide +kernel)
  have hlogon := (contains_ascii hlower "logon" "UserLoggedIn" (by decide +kernel)).not.2 (by decide +kernel)
  rw [← h] at hlogin hlogon
  exact fun hrow => hrow.login.elim hlogin hlogon

end

namespace LoginFailure
variable {w : World} {tenant : Str} {ip : Inet} (r : LoginFailure w tenant ip)

theorem source_cases : r.source = .api ∨ r.source = .ad ∨ r.source = .m365 := by
  have h := r.failed
  revert h
  cases r.source <;> simp [Source.LoginFailed]

theorem source_normalize : r.source.normalize w.py (.dict r.payload) (.str tenant) = .ok r.event := by
  rcases normalize_cases w.py (.str r.source.key) (.dict r.payload) (.str tenant) r.now with
    ⟨source, ha, hn, -, -⟩ | ⟨ha, -⟩ | ⟨ha, -⟩
  · obtain rfl := Option.some.inj (r.accepted.symm.trans ha)
    exact hn.symm.trans r.normalized
  · cases r.accepted.symm.trans ha
  · cases r.accepted.symm.trans ha

theorem event_tenant : r.event.tenant = tenant := by
  have h := EventArgs.strField_eq_some.1 (normalize_tenant r.normalized)
  exact (PyVal.str.inj h).symm

theorem event_address : r.event.srcIp.map IPAddress.toInet = some ip := by
  have h := (Source.words_of_normalize r.source_cases r.source_normalize).2
  have haddress := r.address
  have hgiven := r.hasAddress
  revert h haddress hgiven
  generalize r.payload.get (str "ip") = v
  intro h haddress hgiven
  have hsome : (w.py.ipAddress v).map some = some r.event.srcIp := by
    cases v with
    | none => cases hgiven
    | _ => exact h
  obtain ⟨a, ha, hsrc⟩ := Option.map_eq_some_iff.1 hsome
  rw [← hsrc]
  rw [ha] at haddress
  exact haddress

theorem row_spec : Bound r.event r.row.toEventFields ∧ r.event.accepted := by
  obtain ⟨s, s', hrun⟩ := r.written
  have hwp := wp_writeEvent_added w.pg r.event s []
  rw [wp, hrun] at hwp
  obtain ⟨-, -, -, row, hrow, hchecked, -, hrows⟩ := hwp
  obtain rfl : r.row = row := by simpa using hrows
  exact ⟨bound_of_ofParams hrow, EventFields.accepted_iff.2 ⟨_, hrow, hchecked⟩⟩

theorem row_tenant : r.row.tenant = tenant := (congrArg EventFields.tenant r.row_spec.1.eq).trans r.event_tenant

theorem row_srcIp : r.row.srcIp = some ip := 
  (congrArg EventFields.srcIp r.row_spec.1.eq).trans r.event_address

theorem row_eventType {words : String} (h : r.payload.get (str "event_type") = .str (str words)) :
    r.row.eventType = str words := by
  have hevent := (Source.words_of_normalize r.source_cases r.source_normalize).1
  rw [h] at hevent
  exact (congrArg EventFields.eventType r.row_spec.1.eq).trans
    (PyVal.str.inj (EventArgs.strField_eq_some.1 hevent)).symm

/-- The engine takes it for a failed login exactly if it is not from `m365`. -/
theorem failedLogin_iff (hlower : w.pg.LowersAscii) : FailedLogin w.pg r.row ↔ r.source ≠ .m365 := by
  have hfailed := r.failed
  rcases r.source_cases with h | h | h <;> rw [h] at hfailed ⊢
  · exact iff_of_true (failedLogin_api hlower (r.row_eventType hfailed)) (by simp)
  · exact iff_of_true (failedLogin_ad hlower (r.row_eventType hfailed)) (by simp)
  · exact iff_of_false (not_failedLogin_m365 hlower (r.row_eventType hfailed.1)) (by simp)

end LoginFailure

/-! ### What is seen -/

section
variable {w : World} {url : Option Str} {ip : Inet} {s : Session} {rule : AlertRule}

/-- The failed logins of the address are the records that are not from `m365`, and what else is stored. -/
theorem length_failures (hlower : w.pg.LowersAscii) {db : Db} {now : Time}
    {records : List (LoginFailure w rule.tenant ip)}
    {others : List EventRow} (hevents : db.events.Perm (records.map (·.row) ++ others))
    (hwindow : ∀ r ∈ records, now - seconds rule.windowSeconds ≤ r.row.ingestedAt) :
    (db.failures w.pg rule now ip).length =
      records.countP (fun r => r.source ≠ .m365) + (({ events := others } : Db).failures w.pg rule now ip).length := by
  unfold Db.failures
  rw [(hevents.filter _).length_eq, List.filter_append, List.length_append, ← List.countP_eq_length_filter,
    List.countP_map]
  congr 1
  refine List.countP_congr fun r hr => ?_
  simp only [Function.comp_apply, decide_eq_true_eq]
  rw [r.failedLogin_iff hlower]
  exact ⟨fun h => h.2.2.2, fun h => ⟨r.row_tenant, r.row_srcIp, hwindow r hr, h⟩⟩

/-- Failed logins of an address, as many as the rule asks for and all in its window: an evaluation past the cooldown
inserts an alert exactly when as many of them are not from `m365`, counting what else is stored, and nothing makes the
evaluation raise: no address has failed logins enough and one whose time psycopg cannot load, and no alert is due whose
count is too large for its column. -/
theorem failed_logins_seen_iff (hlower : w.pg.LowersAscii) (hcalm : s.Calm) (halone : s.Alone) (hdb : s.db.Constrained)
    (hrule : rule ∈ s.db.alertRules) (henabled : rule.enabled) (records : List (LoginFailure w rule.tenant ip))
    (hlength : rule.threshold ≤ records.length) {others : List EventRow}
    (hevents : s.db.events.Perm (records.map (·.row) ++ others))
    (hwindow : ∀ r ∈ records, (s.nature 0).now - seconds rule.windowSeconds ≤ r.row.ingestedAt)
    (hcool : ∀ a ∈ s.db.alerts, a.tenant = rule.tenant → a.ruleId = rule.id → a.srcIp = ip →
      a.triggeredAt ≤ (s.nature 0).now - seconds rule.cooldownSeconds) :
    s.Alerts w.pg url rule.tenant ip ↔
      rule.threshold ≤ (records.countP (fun r => r.source ≠ .m365) +
        (({ events := others } : Db).failures w.pg rule (s.nature 0).now ip).length : Nat) ∧
      (∀ ip', rule.threshold ≤ (s.db.failures w.pg rule (s.nature 0).now ip').length →
        ∀ e ∈ s.db.failures w.pg rule (s.nature 0).now ip', timeOk e.eventTime) ∧
      ∀ ip', Due rule (s.nature 0).now (s.db.failures w.pg rule (s.nature 0).now ip') s.db.alerts ip' →
        int4Ok (s.db.failures w.pg rule (s.nature 0).now ip').length := by
  have hpos : 0 < rule.threshold := ((AlertRule.checked_iff rule).1 (hdb.rules rule hrule)).2.1
  have hne : records ≠ [] := fun hnil => by
    rw [hnil] at hlength
    exact hpos.not_ge hlength
  obtain ⟨r, hr⟩ := List.exists_mem_of_ne_nil _ hne
  have htext : textOk rule.tenant := r.event_tenant ▸ EventFields.textOk_of_accepted r.row_spec.2
  rw [alerts_iff hcalm halone hdb hrule henabled htext, ← length_failures hlower hevents hwindow]
  exact and_congr_left fun _ => ⟨fun h => h.enough, fun h => ⟨h, hcool⟩⟩

end

/-! ### One record -/

/-- A server that folds the case of ASCII, and knows one address. -/
def World.ascii : World where
  pg := { lower := List.map lower, inetIn := fun _ => none, inetText := fun _ => [] }
  py := { Py.sample with ipAddress := fun _ => some (.v4 0x0A000001) }
  bcrypt := .sample

theorem lowersAscii_ascii : World.ascii.pg.LowersAscii := fun _ _ => rfl

def loginPayload (eventType status : String) : PyDict :=
  [(some (str "@timestamp"), .str (str "2025-08-20T07:20:00Z")), (some (str "event_type"), .str (str eventType)),
    (some (str "ip"), .str (str "10.0.0.1")), (some (str "status"), .str (str status))]

def loginEvent (source : Source) (eventType status : String) : NormalizedEvent where
  tenant := str "demoA"
  eventTime := ⟨1755674400000000, some 0⟩
  source := source.key
  eventType := str eventType
  action := if source = .m365 then some (str status) else none
  srcIp := some (.v4 0x0A000001)
  raw := loginPayload eventType status

def loginRow (source : Source) (eventType status : String) : EventRow :=
  { loginEvent source eventType status with
    eventTime := 1755674400000000, srcIp := some (.v4 0x0A000001 32), dstIp := none, id := 1, ingestedAt := 0 }

def LoginFailure.m365 : LoginFailure .ascii AlertRule.strict.tenant (.v4 0x0A000001 32) where
  source := .m365
  payload := loginPayload "UserLoggedIn" "Failed"
  now := ⟨0, some 0⟩
  event := loginEvent .m365 "UserLoggedIn" "Failed"
  row := loginRow .m365 "UserLoggedIn" "Failed"
  failed := ⟨rfl, str "Failed", rfl, by decide⟩
  hasAddress := rfl
  address := rfl
  accepted := rfl
  normalized := rfl
  written := ⟨.fresh, _, rfl⟩

def LoginFailure.ad : LoginFailure .ascii AlertRule.strict.tenant (.v4 0x0A000001 32) where
  source := .ad
  payload := loginPayload "LogonFailed" "0xC000006A"
  now := ⟨0, some 0⟩
  event := loginEvent .ad "LogonFailed" "0xC000006A"
  row := loginRow .ad "LogonFailed" "0xC000006A"
  failed := rfl
  hasAddress := rfl
  address := rfl
  accepted := rfl
  normalized := rfl
  written := ⟨.fresh, _, rfl⟩

/-- The engine after one event, for whose tenant one failed login is enough. -/
def Session.oneEvent (row : EventRow) : Session where
  db := { alertRules := [.strict], events := [row] }
  conn := { autocommit := true }
  nature _ := {}

theorem constrained_oneEvent (row : EventRow) : (Session.oneEvent row).db.Constrained where
  rules r hr := by
    rw [List.mem_singleton.1 hr]
    decide
  integers r hr := by
    rw [List.mem_singleton.1 hr]
    decide
  one_rule r hr r' hr' _ _ := (List.mem_singleton.1 hr).trans (List.mem_singleton.1 hr').symm
  counts a ha := by cases ha
  ids a ha := by cases ha

/-- The failed login of `m365` is stored within the window of a rule that asks for one, and no alert is inserted. -/
theorem m365_failure_unseen :
    (Session.oneEvent LoginFailure.m365.row).db.events = [LoginFailure.m365.row] ∧
      AlertRule.strict.threshold ≤ [LoginFailure.m365].length ∧
      0 - seconds AlertRule.strict.windowSeconds ≤ LoginFailure.m365.row.ingestedAt ∧
      (Session.oneEvent LoginFailure.m365.row).db.alerts = [] ∧
      ((evaluateTenant none AlertRule.strict.tenant).run (handle World.ascii.pg)
        (.oneEvent LoginFailure.m365.row)).1 = .ok () ∧
      ¬(Session.oneEvent LoginFailure.m365.row).Alerts World.ascii.pg none AlertRule.strict.tenant
        (.v4 0x0A000001 32) := by
  refine ⟨rfl, by decide, by decide, rfl, by decide +kernel, fun h => ?_⟩
  have hdue := (alerts_iff (fun _ => rfl) (fun _ => rfl) (constrained_oneEvent _) (List.mem_singleton_self _) rfl
    (by decide) _).1 h
  exact absurd hdue.1.enough (by decide +kernel)

theorem failed_logins_seen_ad :
    (Session.oneEvent LoginFailure.ad.row).Alerts World.ascii.pg none AlertRule.strict.tenant (.v4 0x0A000001 32) := by
  refine (failed_logins_seen_iff lowersAscii_ascii (fun _ => rfl) (fun _ => rfl) (constrained_oneEvent _)
    (List.mem_singleton_self _) rfl [.ad] (by decide) (List.Perm.refl _) (by decide) (fun a ha => by cases ha)).2
    ⟨by decide +kernel, fun ip' _ e he => ?_, fun ip' _ => ?_⟩
  · rw [List.mem_singleton.1 (List.mem_of_mem_filter he)]
    decide
  have hle : ∀ now, ((Session.oneEvent LoginFailure.ad.row).db.failures World.ascii.pg .strict now ip').length ≤ 1 :=
    fun now => List.length_filter_le _ _
  have := hle ((Session.oneEvent LoginFailure.ad.row).nature 0).now
  simp only [int4Ok, Bool.and_eq_true, decide_eq_true_eq]
  omega

end LogMgmt
