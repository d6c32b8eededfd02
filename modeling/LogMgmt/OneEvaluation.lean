import LogMgmt.Detection
import LogMgmt.OtherTenants
import Mathlib.Order.Bounds.Defs

/-!
# What one evaluation inserts

`evaluate_tenant` against its purpose, without the queries: which addresses an alert is due for (`Due`), what the
alert says (`Alert.Reports`), and that nothing else changes (`Session.Adds`). Other sessions may commit between
its statements: `s.seenAt n` are the rows committed when it sends command `n`.
-/

namespace LogMgmt
open Prog

/-! ### What is due -/

/-- `s` contains `pattern`, in any case. -/
def Contains (pg : Pg) (pattern : String) (s : Str) : Prop := pg.lower (str pattern) <:+: pg.lower s

/-- A failed login by its wording. -/
structure FailedLogin (pg : Pg) (e : EventRow) : Prop where
  login : Contains pg "login" e.eventType ∨ Contains pg "logon" e.eventType
  fail : Contains pg "fail" e.eventType ∨ ∃ action ∈ e.action, Contains pg "fail" action

instance (pg : Pg) (pattern : String) (s : Str) : Decidable (Contains pg pattern s) :=
  inferInstanceAs (Decidable (_ <:+: _))

theorem failedLogin_iff (pg : Pg) (e : EventRow) : failedLogin pg e ↔ FailedLogin pg e := by
  simp only [failedLogin, ilike, Bool.and_eq_true, Bool.or_eq_true, decide_eq_true_eq, Option.any_eq_true]
  exact ⟨fun h => ⟨h.1, h.2⟩, fun h => ⟨h.1, h.2⟩⟩

instance (pg : Pg) : DecidablePred (FailedLogin pg) := fun e => decidable_of_iff _ (failedLogin_iff pg e)

/-- The events that the rule counts for an address at `now`. -/
def Db.failures (pg : Pg) (db : Db) (rule : AlertRule) (now : Time) (ip : Inet) : List EventRow :=
  db.events.filter fun e => e.tenant = rule.tenant ∧ e.srcIp = some ip ∧
    now - seconds rule.windowSeconds ≤ e.ingestedAt ∧ FailedLogin pg e

/-- An alert is due for the address: enough failures, and no alert of it within the cooldown. -/
structure Due (rule : AlertRule) (now : Time) (failures : List EventRow) (alerts : List Alert) (ip : Inet) : Prop where
  enough : rule.threshold ≤ failures.length
  cool : ∀ a ∈ alerts, a.tenant = rule.tenant → a.ruleId = rule.id → a.srcIp = ip →
    a.triggeredAt ≤ now - seconds rule.cooldownSeconds

/-- The alert says what has been counted. -/
structure Alert.Reports (rule : AlertRule) (now : Time) (failures : List EventRow) (a : Alert) : Prop where
  tenant : a.tenant = rule.tenant
  ruleId : a.ruleId = rule.id
  triggeredAt : a.triggeredAt = now
  eventCount : a.eventCount = failures.length
  threshold : a.threshold = rule.threshold
  windowSeconds : a.windowSeconds = rule.windowSeconds
  windowStart : IsLeast { t | ∃ e ∈ failures, e.eventTime = t } a.windowStart
  windowEnd : IsGreatest { t | ∃ e ∈ failures, e.eventTime = t } a.windowEnd

/-- Other sessions leave `part` of the rows as it is. -/
def Session.Leaves {α : Type} (s : Session) (part : Db → α) : Prop := ∀ n db, part (s.others n db) = part db

/-- The session has added the alerts `news`, and changed nothing else. -/
structure Session.Adds (s s' : Session) (news : List Alert) : Prop where
  alerts : s'.db.alerts = s.db.alerts ++ news
  users : s.Leaves (·.users) → s'.db.users = s.db.users
  events : s.Leaves (·.events) → s'.db.events = s.db.events
  alertRules : s.Leaves (·.alertRules) → s'.db.alertRules = s.db.alertRules
  alone : s.Alone → s'.db = { s.db with
    alerts := s.db.alerts ++ news
    sequences := { s.db.sequences with alert := s.db.sequences.alert + news.length } }

/-! ### The queries -/

section
variable {pg : Pg} {db : Db} {rule : AlertRule} {now : Time} {ip : Inet}

/-- The columns of `SELECT_RULE_SQL` -/
def AlertRule.config (r : AlertRule) : RuleConfig := ⟨r.id, r.threshold, r.windowSeconds, r.cooldownSeconds⟩

theorem fromIp_failedLogins (pg : Pg) (db : Db) (rule : AlertRule) (now : Time) (ip : Inet) :
    fromIp ip (db.failedLogins (some rule.tenant) pg (now - seconds rule.windowSeconds)) = db.failures pg rule now ip := by
  rw [fromIp, Db.failedLogins, Db.visibleEvents, List.filter_filter, List.filter_filter, Db.failures]
  refine List.filter_congr fun e _ => ?_
  rw [Bool.eq_iff_iff]
  simp only [rls, Bool.and_eq_true, decide_eq_true_eq, beq_iff_eq, Option.some.injEq, failedLogin_iff]
  constructor
  · rintro ⟨⟨hip, ⟨hsince, -⟩, hfailed⟩, htenant⟩
    exact ⟨htenant.symm, hip, hsince, hfailed⟩
  · rintro ⟨htenant, hip, hsince, hfailed⟩
    exact ⟨⟨hip, ⟨hsince, by rw [hip]; rfl⟩, hfailed⟩, htenant.symm⟩

theorem isLeast_min? {l : List Int} {m : Int} (h : l.min? = some m) : IsLeast { t | t ∈ l } m := by
  obtain ⟨hmem, hle⟩ := List.min?_eq_some_iff.1 h
  exact ⟨hmem, fun t ht => hle t ht⟩

theorem isGreatest_max? {l : List Int} {m : Int} (h : l.max? = some m) : IsGreatest { t | t ∈ l } m := by
  obtain ⟨hmem, hle⟩ := List.max?_eq_some_iff.1 h
  exact ⟨hmem, fun t ht => hle t ht⟩

/-- The first and the last of the event times. -/
theorem window_of_rows {rows : List EventRow} (hne : fromIp ip rows ≠ []) :
    IsLeast { t | ∃ e ∈ fromIp ip rows, e.eventTime = t } (Candidate.ofRows rows ip).windowStart ∧
      IsGreatest { t | ∃ e ∈ fromIp ip rows, e.eventTime = t } (Candidate.ofRows rows ip).windowEnd := by
  have hset : { t | ∃ e ∈ fromIp ip rows, e.eventTime = t } = { t | t ∈ (fromIp ip rows).map (·.eventTime) } := by
    simp only [List.mem_map]
  have hmap : (fromIp ip rows).map (·.eventTime) ≠ [] := by simpa using hne
  rw [hset]
  constructor
  · cases h : ((fromIp ip rows).map (·.eventTime)).min? with
    | none => exact absurd (List.min?_eq_none_iff.1 h) hmap
    | some m =>
      rw [Candidate.ofRows, h]
      exact isLeast_min? h
  · cases h : ((fromIp ip rows).map (·.eventTime)).max? with
    | none => exact absurd (List.max?_eq_none_iff.1 h) hmap
    | some m =>
      rw [Candidate.ofRows, h]
      exact isGreatest_max? h

theorem mem_detected (hpos : 0 < rule.threshold) :
    ip ∈ (db.detected rule.tenant pg rule.config now).map (·.srcIp) ↔
      rule.threshold ≤ (db.failures pg rule now ip).length := by
  rw [← fromIp_failedLogins]
  exact mem_candidates_srcIp hpos _

theorem eq_of_mem_detected {c : Candidate} (hc : c ∈ db.detected rule.tenant pg rule.config now) :
    c = .ofRows (db.failedLogins (some rule.tenant) pg (now - seconds rule.windowSeconds)) c.srcIp := by
  obtain ⟨ip, -, rfl⟩ := List.mem_map.1 (List.mem_filter.1 hc).1
  rfl

theorem reports_of_detected (hpos : 0 < rule.threshold) {o : Outcome}
    (hc : o.candidate ∈ db.detected rule.tenant pg rule.config now) :
    (o.alert rule.tenant rule.config now).Reports rule now (db.failures pg rule now o.candidate.srcIp) := by
  have hfailures := fromIp_failedLogins pg db rule now o.candidate.srcIp
  have hlength := (mem_detected hpos).1 (List.mem_map_of_mem (f := (·.srcIp)) hc)
  have hcand := eq_of_mem_detected hc
  set rows := db.failedLogins (some rule.tenant) pg (now - seconds rule.windowSeconds)
  rw [← hfailures] at hlength ⊢
  have hne : fromIp o.candidate.srcIp rows ≠ [] := by
    intro hnil
    rw [hnil] at hlength
    exact hpos.not_ge hlength
  obtain ⟨hstart, hend⟩ := window_of_rows hne
  rw [← hcand] at hstart hend
  exact {
    tenant := rfl
    ruleId := rfl
    triggeredAt := rfl
    eventCount := congrArg Candidate.eventCount hcand
    threshold := rfl
    windowSeconds := rfl
    windowStart := hstart
    windowEnd := hend }

theorem cool_iff (alerts : List Alert) :
    pastCooldown alerts rule.tenant rule.config now ip ↔ ∀ a ∈ alerts, a.tenant = rule.tenant → a.ruleId = rule.id →
      a.srcIp = ip → a.triggeredAt ≤ now - seconds rule.cooldownSeconds := by
  rw [pastCooldown, List.all_eq_true]
  simp only [List.mem_filter, decide_eq_true_eq]
  exact ⟨fun h a ha ht hr hi => h a ⟨ha, ht, hr, hi⟩, fun h a ha => h a ha.1 ha.2.1 ha.2.2.1 ha.2.2.2⟩

theorem ruleOf_some {tenant : Str} {config : RuleConfig} (h : db.ruleOf tenant = some config) :
    ∃ rule ∈ db.alertRules, rule.tenant = tenant ∧ rule.enabled ∧ rule.config = config := by
  obtain ⟨rule, hfind, hconfig⟩ := Option.map_eq_some_iff.1 h
  obtain ⟨hmem, hvisible⟩ := List.mem_filter.1 (List.mem_of_find?_eq_some hfind)
  have hfound := List.find?_some hfind
  rw [rls, beq_iff_eq, Option.some.injEq] at hvisible
  rw [decide_eq_true_eq] at hfound
  exact ⟨rule, hmem, hvisible.symm, hfound.2, hconfig⟩

theorem ruleOf_none {tenant : Str} (h : db.ruleOf tenant = none) :
    ¬∃ rule ∈ db.alertRules, rule.tenant = tenant ∧ rule.enabled := by
  rintro ⟨rule, hmem, rfl, henabled⟩
  have hvisible : rule ∈ db.visibleRules (some rule.tenant) := List.mem_filter.2 ⟨hmem, beq_self_eq_true _⟩
  have hnot := List.find?_eq_none.1 (Option.map_eq_none_iff.1 h) rule hvisible
  have htype : rule.ruleType = .failedLoginBurst := rfl
  simp [htype, henabled] at hnot

end

/-! ### The rest of the rows -/

section
variable {pg : Pg} {s s' : Session}

/-- The engine keeps what neither its rows nor their ids are part of. -/
theorem kept_part {α : Type} (pg : Pg) {part : Db → α}
    (hwrite : ∀ db (w : Write), w.sparesAlerts = false → part (db.apply w) = part db)
    (hnext : ∀ db (stmt : Stmt), stmt.reads ∨ stmt.sparesAlerts = false →
      part { db with sequences := stmt.nextval db.sequences } = part db) (db₀ : Db) :
    Kept pg (fun _ stmt => stmt.reads ∨ stmt.sparesAlerts = false) (fun db => part db = part db₀)
      (fun w => w.sparesAlerts = false) where
  apply db w hdb hw := (hwrite db w hw).trans hdb
  nextval _ stmt db hok hdb := (hnext db stmt hok).trans hdb
  writes stmt ctx db r ws hok _ hx w hw := by
    cases Stmt.exec_writes hx with
    | none => cases hw
    | insertAlert _ _ | markWebhookSent _ _ =>
      rw [List.mem_singleton.1 hw]
      rfl
    | _ => rcases hok with hok | hok <;> cases hok

theorem evaluateTenant_leaves {α : Type} (pg : Pg) (url : Option Str) (tenant : Str) {part : Db → α}
    (hothers : s.Leaves part) (hwrite : ∀ db (w : Write), w.sparesAlerts = false → part (db.apply w) = part db)
    (hnext : ∀ db (stmt : Stmt), stmt.reads ∨ stmt.sparesAlerts = false →
      part { db with sequences := stmt.nextval db.sequences } = part db) :
    part ((evaluateTenant url tenant).run (handle pg) s).2.db = part s.db :=
  (kept_part pg hwrite hnext s.db).transaction (sends_evaluateTenant url tenant) rfl
    fun n db hdb => (hothers n db).trans hdb

theorem Session.Alone.leaves {α : Type} (h : s.Alone) (part : Db → α) : s.Leaves part := fun n db => by rw [h n]; rfl

theorem Session.Alone.seenAt (h : s.Alone) (n : Nat) : s.seenAt n = s.db := by
  induction n with
  | zero => exact congrFun (h 0) _
  | succ n ih => exact (congrFun (h (n + 1)) _).trans ih

/-- The ids of users, events and rules. -/
def Db.otherIds (db : Db) : Nat × Nat × Nat := (db.sequences.user, db.sequences.event, db.sequences.rule)

theorem adds_of_alerts {url : Option Str} {tenant : Str} {news : List Alert}
    (hrun : (evaluateTenant url tenant).run (handle pg) s = (.ok (), s')) (halerts : s'.db.alerts = s.db.alerts ++ news)
    (hnext : s'.db.sequences.alert = s.db.sequences.alert + news.length) : s.Adds s' news := by
  have hwrite : ∀ {db : Db} {w : Write}, w.sparesAlerts = false → (db.apply w).users = db.users ∧
      (db.apply w).events = db.events ∧ (db.apply w).alertRules = db.alertRules ∧
      (db.apply w).otherIds = db.otherIds := by
    intro db w hw
    cases w with
    | insertAlert _ | markWebhookSent _ _ _ => exact ⟨rfl, rfl, rfl, rfl⟩
    | _ => cases hw
  have hids : ∀ {db : Db} {stmt : Stmt}, stmt.reads ∨ stmt.sparesAlerts = false →
      ({ db with sequences := stmt.nextval db.sequences } : Db).otherIds = db.otherIds := by
    intro db stmt hstmt
    cases stmt <;> first | rfl | (rcases hstmt with h | h <;> cases h)
  have hdb : s'.db = ((evaluateTenant url tenant).run (handle pg) s).2.db := by rw [hrun]
  have husers : s.Leaves (·.users) → s'.db.users = s.db.users := fun h => hdb ▸
    evaluateTenant_leaves pg url tenant h (fun _ _ hw => (hwrite hw).1) fun _ _ _ => rfl
  have hevents : s.Leaves (·.events) → s'.db.events = s.db.events := fun h => hdb ▸
    evaluateTenant_leaves pg url tenant h (fun _ _ hw => (hwrite hw).2.1) fun _ _ _ => rfl
  have hrules : s.Leaves (·.alertRules) → s'.db.alertRules = s.db.alertRules := fun h => hdb ▸
    evaluateTenant_leaves pg url tenant h (fun _ _ hw => (hwrite hw).2.2.1) fun _ _ _ => rfl
  refine ⟨halerts, husers, hevents, hrules, fun halone => ?_⟩
  have hother : s'.db.otherIds = s.db.otherIds := hdb ▸
    evaluateTenant_leaves pg url tenant (halone.leaves _) (fun _ _ hw => (hwrite hw).2.2.2) fun _ _ => hids
  simp only [Db.otherIds, Prod.mk.injEq] at hother
  have h₁ := husers (halone.leaves _)
  have h₂ := hevents (halone.leaves _)
  have h₃ := hrules (halone.leaves _)
  rcases hd : s'.db with ⟨users, rules, alerts, events, ⟨event, rule, alert, user⟩⟩
  rw [hd] at h₁ h₂ h₃ hother halerts hnext
  dsimp only at h₁ h₂ h₃ hother halerts hnext
  obtain ⟨rfl, rfl, rfl⟩ := hother
  rw [h₁, h₂, h₃, halerts, hnext]

/-- The news of a rule: one alert for each address for which one is due, saying what was counted. -/
structure AlertRule.Exact (pg : Pg) (rule : AlertRule) (now : Time) (db : Db) (alerts news : List Alert) : Prop where
  nodup : (news.map (·.srcIp)).Nodup
  due : ∀ ip, ip ∈ news.map (·.srcIp) ↔ Due rule now (db.failures pg rule now ip) alerts ip
  reports : ∀ a ∈ news, a.Reports rule now (db.failures pg rule now a.srcIp)

theorem exact_of_inserted {rule : AlertRule} {found : List Candidate} {outs : List Outcome} (hpos : 0 < rule.threshold)
    (hfound : found.Perm ((s.seenAt 3).detected rule.tenant pg rule.config (s.nature 0).now))
    (hinserted : Inserted rule.tenant rule.config s (s.nature 0).now found outs s') :
    rule.Exact pg (s.nature 0).now (s.seenAt 3) s.db.alerts
      (outs.map (·.alert rule.tenant rule.config (s.nature 0).now)) := by
  have hmap : (outs.map (·.alert rule.tenant rule.config (s.nature 0).now)).map (·.srcIp) =
      (outs.map (·.candidate)).map (·.srcIp) := by
    rw [List.map_map, List.map_map]
    rfl
  refine ⟨?_, fun ip => ?_, fun a ha => ?_⟩
  · rw [hmap, hinserted.past]
    exact (nodup_of_detected hfound).sublist (List.filter_sublist.map _)
  · rw [hmap, hinserted.past]
    have hdetected : ip ∈ found.map (·.srcIp) ↔ _ := ((hfound.map (·.srcIp)).mem_iff).trans (mem_detected hpos)
    constructor
    · intro h
      obtain ⟨c, hc, rfl⟩ := List.mem_map.1 h
      obtain ⟨hc, hpast⟩ := List.mem_filter.1 hc
      exact ⟨hdetected.1 (List.mem_map_of_mem hc), (cool_iff _).1 hpast⟩
    · rintro ⟨henough, hcool⟩
      obtain ⟨c, hc, rfl⟩ := List.mem_map.1 (hdetected.2 henough)
      exact List.mem_map_of_mem (List.mem_filter.2 ⟨hc, (cool_iff _).2 hcool⟩)
  · obtain ⟨o, ho, rfl⟩ := List.mem_map.1 ha
    have hc : o.candidate ∈ outs.map (·.candidate) := List.mem_map_of_mem ho
    rw [hinserted.past] at hc
    exact reports_of_detected hpos (hfound.mem_iff.1 (List.mem_filter.1 hc).1)

/-- An evaluation that commits has added one alert for each address for which one is due, saying what was counted;
without an enabled rule it has added nothing. The rules satisfy their CHECK constraints and the ids of alerts come from
their sequence, as in every state of the system (`System.Inv`). -/
theorem evaluation_exact (pg : Pg) (url : Option Str) {tenant : Str} {s s' : Session} (howner : s.Owner)
    (hrules : (s.seenAt 2).RulesChecked) (hids : ∀ a ∈ s.db.alerts, a.id < s.db.sequences.alert)
    (hrun : (evaluateTenant url tenant).run (handle pg) s = (.ok (), s')) :
    ∃ news, s.Adds s' news ∧
      ((¬∃ rule ∈ (s.seenAt 2).alertRules, rule.tenant = tenant ∧ rule.enabled) ∧ news = [] ∨
        ∃ rule ∈ (s.seenAt 2).alertRules, rule.tenant = tenant ∧ rule.enabled ∧ (news.map (·.srcIp)).Nodup ∧
          (∀ ip, ip ∈ news.map (·.srcIp) ↔
            Due rule (s.nature 0).now ((s.seenAt 3).failures pg rule (s.nature 0).now ip) s.db.alerts ip) ∧
          ∀ a ∈ news,
            a.Reports rule (s.nature 0).now ((s.seenAt 3).failures pg rule (s.nature 0).now a.srcIp)) := by
  have hwp := wp_evaluateTenant pg url tenant howner hids
  rw [wp, hrun] at hwp
  cases hwp with
  | noRule hrule halerts hnext =>
    exact ⟨[], adds_of_alerts hrun (by rw [halerts, List.append_nil]) hnext, .inl ⟨ruleOf_none hrule, rfl⟩⟩
  | rule config found outs hrule hfound _ hinserted =>
    obtain ⟨rule, hmem, rfl, henabled, rfl⟩ := ruleOf_some hrule
    have hpos : 0 < rule.threshold := ((AlertRule.checked_iff rule).1 (hrules rule hmem)).2.1
    have hexact := exact_of_inserted hpos hfound hinserted
    exact ⟨_, adds_of_alerts hrun hinserted.alerts (by rw [hinserted.next, List.length_map]),
      .inr ⟨rule, hmem, rfl, henabled, hexact.nodup, hexact.due, hexact.reports⟩⟩

end

/-- A rule of the tenant `demoA` that one failed login is enough for. -/
def AlertRule.strict : AlertRule := ⟨1, str "demoA", .failedLoginBurst, 1, 300, 900, true, 0, 0⟩

/-- A failed login of the tenant `demoA`. -/
def EventRow.loginFailed : EventRow where
  tenant := str "demoA"
  eventTime := 0
  source := str "api"
  eventType := str "app_login_failed"
  srcIp := some (.v4 0x0A000001 32)
  id := 1
  ingestedAt := 0

/-- The engine before it has seen it. -/
def Session.oneFailure : Session where
  db := { alertRules := [.strict], events := [.loginFailed] }
  conn := { autocommit := true }
  nature _ := {}

/-- It fires once, for the address of the failed login. -/
theorem evaluation_exact_oneFailure :
    ∃ s' news, (evaluateTenant none (str "demoA")).run (handle World.sample.pg) .oneFailure = (.ok (), s') ∧
      s'.db = { Session.oneFailure.db with alerts := news, sequences := { alert := 1 + news.length } } ∧
      .v4 0x0A000001 32 ∈ news.map (·.srcIp) := by
  have halone : Session.oneFailure.Alone := fun _ => rfl
  have hok : ((evaluateTenant none (str "demoA")).run (handle World.sample.pg) .oneFailure).1 = .ok () := by decide
  obtain ⟨s', hrun⟩ : ∃ s', (evaluateTenant none (str "demoA")).run (handle World.sample.pg) .oneFailure =
      (.ok (), s') := ⟨_, Prod.ext hok rfl⟩
  have hrules : (Session.oneFailure.seenAt 2).RulesChecked := by
    rw [halone.seenAt]
    intro rule hrule
    rw [List.mem_singleton.1 hrule]
    decide
  obtain ⟨news, hadds, hnews⟩ := evaluation_exact World.sample.pg none (fun _ _ => ⟨rfl, rfl⟩) hrules (by decide) hrun
  refine ⟨s', news, hrun, hadds.alone halone, ?_⟩
  rw [halone.seenAt, halone.seenAt] at hnews
  rcases hnews with ⟨hnone, -⟩ | ⟨rule, hrule, -, -, -, hdue, -⟩
  · exact absurd ⟨.strict, List.mem_singleton_self _, by decide⟩ hnone
  · obtain rfl : rule = .strict := List.mem_singleton.1 hrule
    exact (hdue _).2 ⟨by decide, fun a ha => by cases ha⟩

end LogMgmt
