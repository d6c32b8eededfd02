import LogMgmt.AlertsPage
import LogMgmt.Authority
import LogMgmt.Cooldown
import LogMgmt.Evidence
import LogMgmt.FailedLogins
import LogMgmt.Integrity

/-!
# From failed logins to an alert

What the parts are for together. Records of failed logins come in by `POST /ingest` or the batch loader, in between
anything else; if as many as the rule asks for have come within its window when the engine evaluates the tenant, there is
an alert for their address that is no older than the cooldown, and the users of the tenant find it under `GET /alerts`
from then on (`burst_alerted`).
-/

namespace LogMgmt
open Prog

/-! ### Reports -/

/-- The record of a failed login, with the address, in the format of its source and in words that the engine looks for. -/
structure FailureRecord (w : World) (tenant : Str) (ip : Inet) (source : Source) (d : PyDict) : Prop where
  failed : source.LoginFailed d
  seen : source ≠ .m365
  hasAddress : (d.get (str "ip")).isNone = false
  address : (w.py.ipAddress (d.get (str "ip"))).map IPAddress.toInet = some ip
  accepted : accepting w.py (.str source.key) (.dict d) (.str tenant) = some source

/-- The call brings the record of a failed login. -/
inductive Call.Reports (w : World) (tenant : Str) (ip : Inet) : Call → Prop where
  | ingest (body : PyDict) (now : DateTime) (claims : TokenClaims) (source : Source) (htenant : claims.tenant = tenant)
      (hsource : body.get (str "source") = .str source.key)
      (h : FailureRecord w tenant ip source (body.without (str "tenant"))) : Reports w tenant ip (.ingest body now claims)
  /-- a write of the batch loader, which may have moved the event to another time -/
  | load (d : PyDict) (now : DateTime) (source : Source) (e : NormalizedEvent) (eventTime : DateTime)
      (h : FailureRecord w tenant ip source d)
      (he : normalize w.py (.str source.key) (.dict d) (.str tenant) now = .ok e) :
      Reports w tenant ip (.writeEvent { e with eventTime })

/-- Of the requests of the run, `n` have brought such a record since a time and returned. -/
inductive System.Reported (w : World) (url : Option Str) (tenant : Str) (ip : Inet) (since : Time) :
    System → List Action → Nat → Prop where
  | nil (s : System) : Reported w url tenant ip since s [] 0
  | other (s : System) (a : Action) (actions : List Action) (n : Nat)
      (h : Reported w url tenant ip since (s.step w url a) actions n) : Reported w url tenant ip since s (a :: actions) n
  | report (s : System) (r : Request) (actions : List Action) (n : Nat) (hcall : r.call.Reports w tenant ip)
      (hsince : since ≤ (r.nature 0).now) (resp : Response) (hanswer : (r.run w s.db).1 = .ok resp)
      (h : Reported w url tenant ip since (s.step w url (.request r)) actions n) :
    Reported w url tenant ip since s (.request r :: actions) (n + 1)

/-! ### What a report stores -/

section
variable {w : World} {tenant : Str} {ip : Inet} {source : Source} {d : PyDict} {e : NormalizedEvent} {row : EventRow}

theorem FailureRecord.counted (hlower : w.pg.LowersAscii) (h : FailureRecord w tenant ip source d) {now : DateTime}
    (he : normalize w.py (.str source.key) (.dict d) (.str tenant) now = .ok e) {eventTime : DateTime}
    (hrow : EventColumns.ofParams { e with eventTime } = .ok row.toEventFields) :
    row.tenant = tenant ∧ row.srcIp = some ip ∧ FailedLogin w.pg row := by
  have hsource : source = .api ∨ source = .ad := by
    have hfailed := h.failed
    have hseen := h.seen
    revert hfailed hseen
    cases source <;> simp [Source.LoginFailed]
  have hnormal : source.normalize w.py (.dict d) (.str tenant) = .ok e := by
    rcases normalize_cases w.py (.str source.key) (.dict d) (.str tenant) now with
      ⟨source', ha, hn, -, -⟩ | ⟨ha, -⟩ | ⟨ha, -⟩
    · obtain rfl := Option.some.inj (h.accepted.symm.trans ha)
      exact hn.symm.trans he
    · cases h.accepted.symm.trans ha
    · cases h.accepted.symm.trans ha
  obtain ⟨htype, haddress⟩ := Source.words_of_normalize (hsource.imp_right .inl) hnormal
  have hbound := bound_of_ofParams hrow
  have htenant : e.tenant = tenant := (PyVal.str.inj (EventArgs.strField_eq_some.1 (normalize_tenant he))).symm
  have hip : e.srcIp.map IPAddress.toInet = some ip := by
    have hgiven := h.hasAddress
    have hparsed := h.address
    revert haddress hgiven hparsed
    generalize d.get (str "ip") = v
    intro haddress hgiven hparsed
    have hsome : (w.py.ipAddress v).map some = some e.srcIp := by
      cases v with
      | none => cases hgiven
      | _ => exact haddress
    obtain ⟨a, ha, hsrc⟩ := Option.map_eq_some_iff.1 hsome
    rw [← hsrc]
    rw [ha] at hparsed
    exact hparsed
  have heventType : ∀ {words : String}, d.get (str "event_type") = .str (str words) → row.eventType = str words := by
    intro words hwords
    rw [hwords] at htype
    exact (congrArg EventFields.eventType hbound.eq).trans (PyVal.str.inj (EventArgs.strField_eq_some.1 htype)).symm
  refine ⟨(congrArg EventFields.tenant hbound.eq).trans htenant, (congrArg EventFields.srcIp hbound.eq).trans hip, ?_⟩
  have hfailed := h.failed
  rcases hsource with rfl | rfl
  · exact failedLogin_api hlower (heventType hfailed)
  · exact failedLogin_ad hlower (heventType hfailed)

theorem exec_insertEvent_clock {pg : Pg} {ctx : Ctx} {db : Db} {ws : List Write}
    (h : (Stmt.insertEvent e).exec pg ctx db = .ok ((), ws)) :
    ∃ row : EventRow, ws = [.insertEvent row] ∧ row.ingestedAt = ctx.now := by
  simp only [Stmt.exec] at h
  split at h
  · cases h
  · split_ifs at h
    cases h
    exact ⟨_, rfl, rfl⟩

/-- The row arrives when its transaction begins. -/
theorem wp_writeEvent_clock (pg : Pg) (e : NormalizedEvent) {s : Session} (halone : s.Alone) :
    wp (handle pg) (writeEvent e)
      (fun _ s' => s'.conn.status = .idle ∧
        ∃ row : EventRow, s'.db.events = s.db.events ++ [row] ∧ row.ingestedAt = (s.nature 0).now)
      (fun _ _ => True) s := by
  unfold writeEvent
  rw [wp_transaction]
  cases hf₀ : (s.nature 0).fault with
  | true =>
    rw [Session.handle_begin_fault pg hf₀]
    trivial
  | false =>
  rw [Session.handle_begin pg hf₀, ends_ok, wp_withConn, wp_bind, wp_sql]
  rcases Session.handle_sql_cases pg (s := s.opened) rfl (.setTenant e.tenant) with ⟨r, ws, -, hx, hh⟩ | ⟨err, s', hh, -⟩
  swap
  · rw [hh]
    trivial
  obtain rfl : ws = [] := by
    cases Stmt.exec_writes hx
    rfl
  rw [hh, ends_ok, wp_sql]
  rcases Session.handle_sql_cases pg (s := s.opened.ran (.setTenant e.tenant) r []) rfl (.insertEvent e) with
    ⟨r', ws, -, hx, hh⟩ | ⟨err, s', hh, -⟩
  swap
  · rw [hh]
    trivial
  obtain ⟨row, rfl, hclock⟩ := exec_insertEvent_clock hx
  rw [hh, ends_ok]
  set t := (s.opened.ran (.setTenant e.tenant) r []).ran (.insertEvent e) r' [.insertEvent row] with ht
  have hin : t.conn.status = .inTx := rfl
  cases hf : (t.nature 0).fault with
  | true =>
    rw [Session.handle_commit_fault pg hf hin]
    trivial
  | false =>
    rw [Session.handle_commit pg hf hin, ends_ok]
    refine ⟨rfl, row, ?_, hclock⟩
    show (s.others 3 { s.others 2 (s.others 1 (s.others 0 s.db)) with sequences := _ }).events ++ [row] = _
    rw [halone, halone, halone, halone]
    rfl

theorem wp_ingest_clock (py : Py) (pg : Pg) (body : PyDict) (now : DateTime) (claims : TokenClaims) {s : Session}
    (halone : s.Alone) :
    wp (handle pg) (ingest py body now claims)
      (fun _ s' => ∃ row : EventRow, s'.db.events = s.db.events ++ [row] ∧ row.ingestedAt = (s.nature 0).now)
      (fun _ _ => True) s := by
  unfold ingest requireAdmin
  split
  swap
  · trivial
  unfold pooledConn
  rw [wp_bind, wp_pure, wp_withConn]
  split
  swap
  · trivial
  rename_i e he
  rw [wp_bind]
  refine wp_mono (wp_and (wp_writeEvent_clock pg e halone) (halone.wp pg (writeEvent e))) ?_ fun _ _ _ => trivial
  rintro _ s' ⟨⟨hidle, row, hevents, hclock⟩, halone'⟩
  have hcommit : handle pg .commit s' = (.ok (), s'.interfere.answered .commit (.ok ())) := if_pos hidle
  rw [wp_pure, hcommit, ends_ok, halone'.interfere]
  exact ⟨row, hevents, hclock⟩

/-- A report that is answered has added the row of a failed login, which arrived when it was made. -/
theorem Call.Reports.stored (hlower : w.pg.LowersAscii) {r : Request} {db : Db} {resp : Response}
    (h : r.call.Reports w tenant ip) (hanswer : (r.run w db).1 = .ok resp) :
    ∃ row : EventRow, (r.commits w db).events = db.events ++ [row] ∧ row.ingestedAt = (r.nature 0).now ∧
      row.tenant = tenant ∧ row.srcIp = some ip ∧ FailedLogin w.pg row := by
  obtain ⟨call, conn, nature⟩ := r
  have halone : ({ db, conn, nature } : Session).Alone := fun _ => rfl
  have hrun : ((call.app w).run (handle w.pg) { db, conn, nature }).1 = .ok resp := hanswer
  show ∃ row : EventRow, ((call.app w).run (handle w.pg) { db, conn, nature }).2.db.events = _ ∧ _
  cases h with
  | ingest body now claims source htenant hsource h =>
    subst htenant
    have hwp := wp_and (wp_ingest (s := { db, conn, nature }) w.py w.pg body now claims halone)
      (wp_ingest_clock w.py w.pg body now claims halone)
    obtain ⟨⟨-, e, he, row, hrow, -, hevents⟩, row', hevents', hclock⟩ := wp_of_ok hwp hrun
    obtain rfl : row = row' := by simpa using hevents.symm.trans hevents'
    rw [ingested, hsource] at he
    exact ⟨row, hevents, hclock, h.counted hlower he hrow⟩
  | load d now source e eventTime h he =>
    have hwp : wp (handle w.pg) (Call.app w (.writeEvent { e with eventTime })) (fun _ s' => ∃ row : EventRow,
        EventColumns.ofParams { e with eventTime } = .ok row.toEventFields ∧ row.ingestedAt = (nature 0).now ∧
          s'.db.events = db.events ++ [row]) (fun _ _ => True) { db, conn, nature } := by
      show wp (handle w.pg) (LogMgmt.writeEvent _ >>= fun _ => Pure.pure Response.done) _ _ _
      rw [wp_bind]
      refine wp_mono (wp_and (wp_writeEvent w.pg _ { db, conn, nature }) (wp_writeEvent_clock w.pg _ halone)) ?_
        fun _ _ _ => trivial
      rintro _ s' ⟨⟨-, row, hrow, -, -, hevents⟩, -, row', hevents', hclock⟩
      obtain rfl : row = row' := by simpa using (hevents halone).symm.trans hevents'
      exact ⟨row, hrow, hclock, hevents'⟩
    obtain ⟨row, hrow, hclock, hevents⟩ := wp_of_ok hwp hrun
    exact ⟨row, hevents, hclock, h.counted hlower he hrow⟩

/-! ### Along a run -/

variable {url : Option Str} {rule : AlertRule} {now : Time}

theorem failures_mono (pg : Pg) {db db' : Db} (h : db.events <+: db'.events) (rule : AlertRule) (now : Time) (ip : Inet) :
    (db.failures pg rule now ip).length ≤ (db'.failures pg rule now ip).length :=
  (h.sublist.filter _).length_le

/-- Every report is counted, whatever the steps in between. -/
theorem System.Reported.counted (hlower : w.pg.LowersAscii) {s : System} {actions : List Action} {n : Nat}
    (h : Reported w url rule.tenant ip (now - seconds rule.windowSeconds) s actions n) :
    (s.db.failures w.pg rule now ip).length + n ≤ ((s.run w url actions).db.failures w.pg rule now ip).length := by
  induction h with
  | nil s => exact Nat.le_refl _
  | other s a actions n _ ih =>
    have hstep := failures_mono w.pg (step_extends w url s a).events rule now ip
    exact (Nat.add_le_add_right hstep n).trans ih
  | report s r actions n hcall hsince resp hanswer _ ih =>
    obtain ⟨row, hevents, hclock, htenant, hip, hfailed⟩ := hcall.stored hlower hanswer
    have hadded : ((s.step w url (.request r)).db.failures w.pg rule now ip).length =
        (s.db.failures w.pg rule now ip).length + 1 := by
      show ((r.commits w s.db).failures w.pg rule now ip).length = _
      unfold Db.failures
      rw [hevents, List.filter_append, List.length_append, List.filter_cons_of_pos]
      · rfl
      · exact decide_eq_true ⟨htenant, hip, hclock ▸ hsince, hfailed⟩
    rw [hadded] at ih
    show _ ≤ (((s.step w url (.request r)).run w url actions).db.failures w.pg rule now ip).length
    omega

theorem seenAt_extends_db (w : World) (s : System) (ν : Nat → Choice) (between : Nat → List Request) (n : Nat) :
    s.db.Extends ((s.session w ν between).seenAt n) := by
  induction n with
  | zero => exact commits_extends w (between 0) s.db
  | succ n ih => exact ih.trans (commits_extends w (between (n + 1)) _)

theorem seenAt_sound {s : System} (h : s.db.Sound) (ν : Nat → Choice) (between : Nat → List Request) (n : Nat) :
    ((s.session w ν between).seenAt n).Sound := by
  induction n with
  | zero => exact commits_sound w (between 0) h
  | succ n ih => exact commits_sound w (between (n + 1)) ih

theorem Db.Sound.textOk_tenant {db : Db} (h : db.Sound) {e : EventRow} (he : e ∈ db.events) : textOk e.tenant := by
  obtain ⟨event, hcols⟩ := h.eventColumns e he
  have hevent : e.tenant = event.tenant := EventColumns.ofParams_tenant hcols
  rw [hevent]
  exact EventFields.textOk_of_accepted (EventFields.accepted_iff.2 ⟨_, hcols, h.eventChecks e he⟩)

/-- The clock of an evaluation shows a year that psycopg can load. -/
def Action.clockOk : Action → Bool
  | .evaluate ν _ => timeOk (ν 0).now
  | _ => true

/-- The engine writes no time into an alert that `GET /alerts` could not load. -/
theorem System.step_timesOk {s : System} (hid : ∀ a ∈ s.db.alerts, a.id < s.db.sequences.alert) {action : Action}
    (hclock : action.clockOk) (h : ∀ a ∈ s.db.alerts, a.timesOk) : ∀ a ∈ (s.step w url action).db.alerts, a.timesOk := by
  cases System.step_cases w url hid action with
  | quiet _ hquiet =>
    rw [hquiet.alerts]
    exact h
  | evaluate tenant queue ν between s' ha _ _ hdb _ hcase =>
    subst ha
    rw [hdb]
    cases hcase with
    | undone _ hundone =>
      rw [hundone.alerts]
      exact h
    | committed _ hcase =>
      cases hcase with
      | noRule _ halerts _ _ _ =>
        rw [halerts]
        exact h
      | rule config found outs _ _ htimes hinserted =>
        rw [hinserted.alerts, List.forall_mem_append]
        refine ⟨h, List.forall_mem_map.2 fun o ho => ?_⟩
        have hfound : o.candidate ∈ found :=
          List.mem_of_mem_filter (hinserted.past ▸ List.mem_map_of_mem (f := Outcome.candidate) ho)
        have hnow : timeOk (ν 0).now := hclock
        have hwindow := htimes o.candidate hfound
        rw [Candidate.timesOk, Bool.and_eq_true] at hwindow
        cases hsent : o.delivered <;> simp [Alert.timesOk, Outcome.alert, hsent, hwindow, System.session, hnow]

theorem System.Inv.run_timesOk {s : System} (hs : s.Inv) {actions : List Action}
    (hclocks : ∀ a ∈ actions, a.clockOk) (h : ∀ a ∈ s.db.alerts, a.timesOk) :
    ∀ a ∈ (s.run w url actions).db.alerts, a.timesOk := by
  induction actions generalizing s with
  | nil => exact h
  | cons a actions ih =>
    rw [List.forall_mem_cons] at hclocks
    exact ih (hs.step a) hclocks.2 (step_timesOk hs.ids hclocks.1 h)

/-- An alert that a client may see is on a page that it can ask for, in whatever order PostgreSQL returns them. -/
theorem listed {claims : TokenClaims} {db : Db} {req : AlertsRequest} {a : Alert}
    (hlength : db.alerts.length ≤ 9223372036854775808) (htimes : ∀ a ∈ db.alerts, a.timesOk)
    (hparams : req.filter.paramsOk w claims) (ha : a ∈ matchingAlerts w claims db req.filter) {ν : Nat → Choice}
    (hν : ∀ n, (ν n).fault = false) :
    ∃ k items hasMore, alertsPage w claims db req (fun _ => ν) k = some (items, hasMore) ∧ a ∈ items := by
  have hlim : 0 < req.limit := req.le_limit
  have hmem : a ∈ (ν 2).order.arrange (fun a : Alert => -a.triggeredAt) (matchingAlerts w claims db req.filter) :=
    RowOrder.mem_arrange.2 ha
  obtain ⟨i, hi⟩ := List.mem_iff_getElem?.1 hmem
  have hlt : i < 9223372036854775808 := by
    have hi' := (List.getElem?_eq_some_iff.1 hi).1
    rw [RowOrder.length_arrange] at hi'
    exact hi'.trans_le ((matchingAlerts_sublist w claims db req.filter).length_le.trans hlength)
  have hle : i / req.limit * req.limit ≤ i := Nat.div_mul_le_self i req.limit
  have hnext : i < (i / req.limit + 1) * req.limit := Nat.lt_mul_of_div_lt (Nat.lt_succ_self _) hlim
  have hoff : int8Ok (i / req.limit * req.limit : Nat) := by
    simp only [int8Ok, Bool.and_eq_true, decide_eq_true_eq]
    omega
  have hpage : alertsPage w claims db req (fun _ => ν) (i / req.limit) = _ := alertsPage_of_ok req (fun _ => hν) hparams
    (fun a ha => htimes a ((matchingAlerts_sublist w claims db req.filter).subset ha)) hoff
  exact ⟨_, _, _, hpage, Pages.mem_page_of_getElem? hle hnext hi⟩

/-- With enough failed logins there is a young alert after the evaluation: one is due, or was not for there is one. -/
theorem AlertRule.Exact.young {pg : Pg} {db : Db} {alerts news : List Alert} (h : rule.Exact pg now db alerts news)
    (hcooldown : 0 < rule.cooldownSeconds) (henough : rule.threshold ≤ (db.failures pg rule now ip).length) :
    ∃ a ∈ alerts ++ news, a.tenant = rule.tenant ∧ a.ruleId = rule.id ∧ a.srcIp = ip ∧
      now - seconds rule.cooldownSeconds < a.triggeredAt := by
  by_cases hcool : ∀ a ∈ alerts, a.tenant = rule.tenant → a.ruleId = rule.id → a.srcIp = ip →
      a.triggeredAt ≤ now - seconds rule.cooldownSeconds
  · obtain ⟨a, ha, rfl⟩ := List.mem_map.1 ((h.due ip).2 ⟨henough, hcool⟩)
    have hreports := h.reports a ha
    refine ⟨a, List.mem_append_right _ ha, hreports.tenant, hreports.ruleId, rfl, ?_⟩
    rw [hreports.triggeredAt]
    exact Int.sub_lt_self now (Int.mul_pos hcooldown (by decide))
  · push Not at hcool
    obtain ⟨a, ha, htenant, hid, hip, hyoung⟩ := hcool
    exact ⟨a, List.mem_append_left _ ha, htenant, hid, hip, hyoung⟩

/-- An evaluation that commits leaves a young alert if enough of the failed logins were there before it. -/
theorem System.Integrity.young_of_failures {s : System} (hs : s.Integrity) {tenant : Str} {ν : Nat → Choice}
    {between : Nat → List Request} (hqueue : s.queue.head? = some tenant)
    (hcommits : Commits w.pg url tenant (s.session w ν between) = true)
    (hrule : rule ∈ ((s.session w ν between).seenAt 2).alertRules) (htenant : rule.tenant = tenant) (henabled : rule.enabled)
    (henough : rule.threshold ≤ (s.db.failures w.pg rule (ν 0).now ip).length) :
    ∃ a ∈ (s.step w url (.evaluate ν between)).db.alerts, a.tenant = rule.tenant ∧ a.ruleId = rule.id ∧ a.srcIp = ip ∧
      (ν 0).now - seconds rule.cooldownSeconds < a.triggeredAt := by
  have hsound : ((s.session w ν between).seenAt 2).Sound := seenAt_sound hs.sound ν between 2
  obtain ⟨-, hthreshold, -, hcooldown⟩ := (AlertRule.checked_iff rule).1 (hsound.ruleChecks rule hrule)
  cases System.step_cases w url hs.inv.ids (.evaluate ν between) with
  | quiet hnone _ =>
    obtain ⟨queue, hq⟩ := List.head?_eq_some_iff.1 hqueue
    exact absurd hq (hnone ν between tenant queue rfl)
  | evaluate tenant' queue ν' between' s' ha hq hs' hdb _ hcase =>
    cases ha
    obtain rfl : tenant' = tenant := by
      rw [hq] at hqueue
      exact Option.some.inj hqueue
    cases hcase with
    | undone hc _ => cases hc.symm.trans hcommits
    | committed _ hcase =>
      cases hcase with
      | noRule hnone _ _ _ _ => exact absurd ⟨rule, hrule, htenant, henabled⟩ (ruleOf_none hnone)
      | rule config found outs hread hfound _ hinserted =>
        obtain ⟨rule', hrule', htenant', -, rfl⟩ := ruleOf_some hread
        obtain rfl : rule = rule' := hsound.rules.one_rule hrule hrule' (htenant.trans htenant'.symm)
        subst htenant
        have hseen := failures_mono w.pg (seenAt_extends_db w s ν between 3).events rule (ν 0).now ip
        rw [hdb, hinserted.alerts]
        exact (exact_of_inserted hthreshold hfound hinserted).young hcooldown (henough.trans (Int.ofNat_le.2 hseen))

/-- Failed logins of an address, as many as the enabled rule of the tenant asks for, have been reported within its window,
in whatever run of requests, `create_user` calls and engine steps. Once an evaluation of the tenant has committed, there is
an alert for the address that is younger than the cooldown, and whenever a user of the tenant asks for the alerts from then
on, it is on one of the pages. -/
theorem burst_alerted (w : World) (hlower : w.pg.LowersAscii) (url : Option Str) (before : List Action) {s : System}
    (hs : s = System.run w url {} before) {tenant : Str} {ν : Nat → Choice} {between : Nat → List Request}
    (hqueue : s.queue.head? = some tenant) (hcommits : Commits w.pg url tenant (s.session w ν between) = true)
    {rule : AlertRule} (hrule : rule ∈ ((s.session w ν between).seenAt 2).alertRules) (htenant : rule.tenant = tenant)
    (henabled : rule.enabled) {ip : Inet} {n : Nat} (henough : rule.threshold ≤ n)
    (hreported : System.Reported w url tenant ip ((ν 0).now - seconds rule.windowSeconds) {} before n)
    (hclocks : ∀ a ∈ before ++ [.evaluate ν between], a.clockOk) :
    ∃ a ∈ (s.step w url (.evaluate ν between)).db.alerts, a.tenant = tenant ∧ a.ruleId = rule.id ∧ a.srcIp = ip ∧
      (ν 0).now - seconds rule.cooldownSeconds < a.triggeredAt ∧
      ∀ (after : List Action) (claims : TokenClaims) (req : AlertsRequest) (ν' : Nat → Choice), claims.tenant = tenant →
        req.filter = {} → (∀ n, (ν' n).fault = false) → (∀ a ∈ after, a.clockOk) →
        ((s.step w url (.evaluate ν between)).run w url after).db.alerts.length ≤ 9223372036854775808 →
        ∃ k items hasMore, alertsPage w claims ((s.step w url (.evaluate ν between)).run w url after).db req (fun _ => ν') k =
          some (items, hasMore) ∧ a ∈ items := by
  subst htenant
  have hintegrity : s.Integrity := hs ▸ System.Integrity.init.run before
  have hcounted : n ≤ (s.db.failures w.pg rule (ν 0).now ip).length := by
    have hrun := hreported.counted hlower
    rw [← hs] at hrun
    omega
  have hpos : 0 < n := by
    have hchecks := (seenAt_sound hintegrity.sound ν between 2).ruleChecks rule hrule
    have hthreshold := ((AlertRule.checked_iff rule).1 hchecks).2.1
    omega
  obtain ⟨a, ha, hatenant, hid, hip, hyoung⟩ := hintegrity.young_of_failures hqueue hcommits hrule rfl henabled
    (henough.trans (Int.ofNat_le.2 hcounted))
  refine ⟨a, ha, hatenant, hid, hip, hyoung, fun after claims req ν' hclaims hfilter hν' hafter hlength => ?_⟩
  -- the tenant is a value of its column, for there is an event of it
  obtain ⟨e, he⟩ := List.exists_mem_of_length_pos (hpos.trans_le hcounted)
  obtain ⟨he, hfailed⟩ := List.mem_filter.1 he
  have htext : textOk claims.tenant := by
    rw [hclaims, ← (of_decide_eq_true hfailed).1]
    exact hintegrity.sound.textOk_tenant he
  rw [List.forall_mem_append, List.forall_mem_singleton] at hclocks
  have htimes : ∀ a ∈ s.db.alerts, a.timesOk := hs ▸ System.Inv.init.run_timesOk hclocks.1 (by simp)
  have hstep : ∀ a ∈ (s.step w url (.evaluate ν between)).db.alerts, a.timesOk :=
    System.step_timesOk hintegrity.inv.ids hclocks.2 htimes
  have hlater : ∀ a ∈ ((s.step w url (.evaluate ν between)).run w url after).db.alerts, a.timesOk :=
    (hintegrity.inv.step _).run_timesOk hafter hstep
  refine listed hlength hlater ?_ ?_ hν'
  · rw [hfilter, AlertFilter.paramsOk, htext]
    rfl
  · have hlater : a ∈ ((s.step w url (.evaluate ν between)).run w url after).db.alerts :=
      (System.run_alerts (hintegrity.inv.step (.evaluate ν between)) after).subset ha
    have hvisible : rls (some claims.tenant) a.tenant := by rw [hclaims, hatenant, rls, beq_iff_eq]
    rw [hfilter]
    exact List.mem_filter.2 ⟨List.mem_filter.2 ⟨hlater, hvisible⟩, rfl⟩

end

/-- Two failed logins, over `POST /ingest` and by the batch loader, which has rebased it, in a tenant with a rule; then a
tick begins. -/
def burstRun (body : AlertRuleCreate) : List Action :=
  [requestAt 0 (.createUser (str "admin_a") (str "x") .admin (str "demoA")), requestAt 0 (.createAlertRule body .admin),
    requestAt 0 (.ingest ((some (str "source"), .str (str "ad")) :: loginPayload "LogonFailed" "0xC000006A") ⟨0, some 0⟩
      .admin),
    requestAt (seconds 60) (.writeEvent
      { loginEvent .api "app_login_failed" "401" with eventTime := ⟨seconds 50, some 0⟩ }),
    .discover (fun _ => { now := seconds 120 }) fun _ => []]

/-- They are as many as the rule asks for. -/
theorem burst_alerted_sample :
    let s := (System.run .ascii none {} (burstRun { threshold := 2 })).step .ascii none
      (.evaluate (fun _ => { now := seconds 120 }) fun _ => [])
    ∃ a ∈ s.db.alerts, a.ruleId = 1 ∧ a.srcIp = .v4 0x0A000001 32 ∧ -seconds 780 < a.triggeredAt ∧
      ∃ k items hasMore, alertsPage .ascii .admin s.db {} (fun _ _ => {}) k = some (items, hasMore) ∧ a ∈ items := by
  intro s
  have hreported :
      System.Reported .ascii none (str "demoA") (.v4 0x0A000001 32) (-seconds 180) {} (burstRun { threshold := 2 }) 2 := by
    refine .other _ _ _ _ (.other _ _ _ _ (.report _ _ _ _ ?_ (by decide) _ rfl
      (.report _ _ _ _ ?_ (by decide) _ rfl (.other _ _ _ _ (.nil _)))))
    · exact .ingest _ _ _ .ad rfl rfl ⟨rfl, by decide, rfl, rfl, rfl⟩
    · exact .load (loginPayload "app_login_failed" "401") ⟨0, some 0⟩ .api (loginEvent .api "app_login_failed" "401")
        ⟨seconds 50, some 0⟩ ⟨rfl, by decide, rfl, rfl, rfl⟩ rfl
  have hcommits : Commits World.ascii.pg none (str "demoA") ((System.run .ascii none {} (burstRun { threshold := 2 })).session
      .ascii (fun _ => { now := seconds 120 }) fun _ => []) := by
    decide +kernel
  have hrule : ⟨1, str "demoA", .failedLoginBurst, 2, 300, 900, true, 0, 0⟩ ∈
      (((System.run .ascii none {} (burstRun { threshold := 2 })).session .ascii (fun _ => { now := seconds 120 })
        fun _ => []).seenAt 2).alertRules := by
    decide +kernel
  obtain ⟨a, ha, -, hid, hip, hyoung, hlisted⟩ := burst_alerted .ascii lowersAscii_ascii none (burstRun { threshold := 2 })
    rfl (by decide +kernel) hcommits hrule rfl rfl (by decide) hreported (by decide)
  exact ⟨a, ha, hid, hip, hyoung, hlisted [] .admin {} (fun _ => {}) rfl rfl (fun _ => rfl) (by simp) (by decide +kernel)⟩

end LogMgmt
