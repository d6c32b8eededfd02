import LogMgmt.Engine

/-!
# One evaluation of a tenant

What `evaluate_tenant` leaves behind. `Evaluating` is the invariant of its loop over the candidates; a
transaction that commits has inserted the alerts of the candidates past their cooldown (`Evaluated`), one
that does not has inserted none, but what it POSTed has left (`Undone`).
-/

namespace LogMgmt
open Prog

/-! ### What an evaluation reads -/

namespace Db
variable (db : Db) (tenant : Str)

/-- The rule that `SELECT_RULE_SQL` finds. -/
def ruleOf : Option RuleConfig :=
  ((db.visibleRules (some tenant)).find? fun r => r.ruleType = .failedLoginBurst ∧ r.enabled).map fun r =>
    ⟨r.id, r.threshold, r.windowSeconds, r.cooldownSeconds⟩

/-- The rows that `DETECT_SQL` finds for the rule. -/
def detected (pg : Pg) (rule : RuleConfig) (now : Time) : List Candidate :=
  candidates rule.threshold (db.failedLogins (some tenant) pg (now - seconds rule.windowSeconds))

end Db

/-- `PAST_COOLDOWN_SQL`: no alert of the address is younger than the cooldown. -/
def pastCooldown (alerts : List Alert) (tenant : Str) (rule : RuleConfig) (now : Time) (ip : Inet) : Bool :=
  (alerts.filter fun a => a.tenant = tenant ∧ a.ruleId = rule.id ∧ a.srcIp = ip).all
    fun a => decide (a.triggeredAt ≤ now - seconds rule.cooldownSeconds)

theorem max?_all_le (l : List Int) (x : Int) : (l.max?.all fun t => decide (t ≤ x)) = l.all fun t => decide (t ≤ x) := by
  cases h : l.max? with
  | none => rw [List.max?_eq_none_iff.1 h]; rfl
  | some m =>
    rw [Bool.eq_iff_iff]
    simpa using List.max?_le_iff h

theorem exec_pastCooldown {pg : Pg} {ctx : Ctx} {db : Db} {tenant : Str} (rule : RuleConfig) (ip : Inet)
    (ht : ctx.tenant = some tenant) :
    (Stmt.pastCooldown tenant rule.id ip rule.cooldownSeconds).exec pg ctx db =
      .ok (pastCooldown db.alerts tenant rule ctx.now ip, []) := by
  have hvis : db.alertsOf ctx.tenant tenant rule.id ip =
      db.alerts.filter fun a => a.tenant = tenant ∧ a.ruleId = rule.id ∧ a.srcIp = ip := by
    rw [Db.alertsOf, Db.visibleAlerts, List.filter_filter, ht]
    refine List.filter_congr fun a _ => ?_
    rw [Bool.eq_iff_iff]
    simp only [rls, Bool.and_eq_true, decide_eq_true_eq, beq_iff_eq, Option.some.injEq]
    exact ⟨fun h => h.1, fun h => ⟨h, h.1.symm⟩⟩
  show Except.ok (_, []) = _
  rw [hvis, max?_all_le, List.all_map]
  rfl

theorem pastCooldown_append {alerts news : List Alert} {tenant : Str} {rule : RuleConfig} {now : Time} {ip : Inet}
    (h : ∀ a ∈ news, a.srcIp ≠ ip) :
    pastCooldown (alerts ++ news) tenant rule now ip = pastCooldown alerts tenant rule now ip := by
  have hnil : (news.filter fun a => a.tenant = tenant ∧ a.ruleId = rule.id ∧ a.srcIp = ip) = [] :=
    List.filter_eq_nil_iff.2 fun a ha => by simp [h a ha]
  rw [pastCooldown, List.filter_append, hnil, List.append_nil, pastCooldown]

theorem candidates_nodup (threshold : Int) (rows : List EventRow) :
    ((candidates threshold rows).map (·.srcIp)).Nodup := by
  have hmap : ((rows.filterMap (·.srcIp)).dedup.map (Candidate.ofRows rows)).map (·.srcIp) =
      (rows.filterMap (·.srcIp)).dedup := by
    simp [Function.comp_def, Candidate.ofRows]
  refine List.Nodup.sublist ((List.filter_sublist).map _) ?_
  rw [hmap]
  exact List.nodup_dedup _

theorem nodup_of_detected {pg : Pg} {db : Db} {tenant : Str} {rule : RuleConfig} {now : Time} {found : List Candidate}
    (h : found.Perm (db.detected tenant pg rule now)) : (found.map (·.srcIp)).Nodup :=
  (h.map _).nodup_iff.2 (candidates_nodup _ _)

/-- The next candidate is none of those evaluated before. -/
theorem next_candidate_fresh {found done rest : List Candidate} {c : Candidate} (hnodup : (found.map (·.srcIp)).Nodup)
    (hsplit : found = done ++ c :: rest) : c.srcIp ∉ done.map (·.srcIp) := by
  intro hc
  rw [hsplit, List.map_append, List.map_cons] at hnodup
  exact List.disjoint_of_nodup_append hnodup hc List.mem_cons_self

/-! ### Alerts of the open transaction -/

namespace Db

theorem apply_alerts_congr {db db' : Db} (h : db.alerts = db'.alerts) (w : Write) :
    (db.apply w).alerts = (db'.apply w).alerts := by
  cases w <;> simp [apply, h]

theorem applyAll_alerts_congr {db db' : Db} (h : db.alerts = db'.alerts) (ws : List Write) :
    (db.applyAll ws).alerts = (db'.applyAll ws).alerts := by
  induction ws generalizing db db' with
  | nil => exact h
  | cons w ws ih => exact ih (apply_alerts_congr h w)

theorem applyAll_append (db : Db) (ws ws' : List Write) :
    db.applyAll (ws ++ ws') = (db.applyAll ws).applyAll ws' := List.foldl_append

@[simp] theorem apply_sequences (db : Db) (w : Write) : (db.apply w).sequences = db.sequences := by
  cases w <;> rfl

@[simp] theorem applyAll_sequences (db : Db) (ws : List Write) : (db.applyAll ws).sequences = db.sequences := by
  induction ws generalizing db with
  | nil => rfl
  | cons w ws ih => exact (ih _).trans (apply_sequences db w)

end Db

theorem Stmt.le_nextval (stmt : Stmt) (q : Sequences) : q.alert ≤ (stmt.nextval q).alert := by
  cases stmt <;> simp [nextval]

/-- No other session writes alerts. -/
def Session.Owner (s : Session) : Prop :=
  ∀ n db, (s.others n db).alerts = db.alerts ∧ (s.others n db).sequences.alert = db.sequences.alert

namespace Session
variable {s s' : Session} {stmt : Stmt} {r : stmt.Resp} {ws : List Write}

theorem Owner.interfere_alerts (h : s.Owner) : s.interfere.db.alerts = s.db.alerts := (h 0 _).1

theorem Owner.interfere_alert (h : s.Owner) : s.interfere.db.sequences.alert = s.db.sequences.alert := (h 0 _).2

theorem Owner.interfere_view (h : s.Owner) : s.interfere.view.alerts = s.view.alerts :=
  Db.applyAll_alerts_congr h.interfere_alerts _

theorem Owner.shift (h : s.Owner) (ho : s'.others = fun n => s.others (n + 1)) : s'.Owner := fun n db => by
  rw [ho]
  exact h (n + 1) db

theorem Owner.ran (h : s.Owner) : (s.ran stmt r ws).Owner := h.shift rfl

theorem Owner.ran_view (h : s.Owner) : (s.ran stmt r ws).view.alerts = (s.view.applyAll ws).alerts := by
  have hdb : (s.ran stmt r ws).db.alerts = s.db.alerts := h.interfere_alerts
  show ((s.ran stmt r ws).db.applyAll (s.pending ++ ws)).alerts = _
  rw [Db.applyAll_append]
  exact Db.applyAll_alerts_congr (Db.applyAll_alerts_congr hdb _) _

end Session

/-! ### The loop -/

/-- A candidate past its cooldown: the id of its alert, and whether a webhook was delivered for it. -/
structure Outcome where
  candidate : Candidate
  alertId : Nat
  delivered : Bool

namespace Outcome
variable (tenant : Str) (rule : RuleConfig) (now : Time) (o : Outcome)

def alert : Alert where
  id := o.alertId
  tenant
  ruleId := rule.id
  triggeredAt := now
  srcIp := o.candidate.srcIp
  eventCount := o.candidate.eventCount
  threshold := rule.threshold
  windowSeconds := rule.windowSeconds
  windowStart := o.candidate.windowStart
  windowEnd := o.candidate.windowEnd
  webhookSentAt := if o.delivered then some now else none

def firing : Firing := ⟨o.alertId, tenant, rule.id, o.candidate.srcIp, now, rule.cooldownSeconds⟩

def delivery : Delivery :=
  ⟨webhookPayload tenant rule o.candidate o.alertId, rule.id, now, rule.cooldownSeconds⟩

end Outcome

theorem Log.deliver_eq {log : Log} {rule : RuleConfig} (h : log.rule = some rule) (now : Time)
    (payload : WebhookPayload) : log.deliver now payload =
      { log with delivered := log.delivered ++ [⟨payload, rule.id, now, rule.cooldownSeconds⟩] } := by
  simp [deliver, h]

/-- The deliveries of an evaluation. -/
def deliveries (tenant : Str) (rule : RuleConfig) (now : Time) (outs : List Outcome) : List Delivery :=
  (outs.filter (·.delivered)).map (·.delivery tenant rule now)

/-- `MARK_WEBHOOK_SENT_SQL` finds the newest row. -/
theorem exec_markWebhookSent (pg : Pg) {ctx : Ctx} {db : Db} {tenant : Str} {olds : List Alert} {a : Alert}
    (hctx : ctx.tenant = some tenant) (hdb : db.alerts = olds ++ [a]) (ha : a.tenant = tenant)
    (holds : ∀ b ∈ olds, b.id ≠ a.id) :
    (Stmt.markWebhookSent a.id).exec pg ctx db = .ok ((), [.markWebhookSent tenant a.id ctx.now]) := by
  have hvis : rls ctx.tenant a.tenant = true := by rw [hctx, ha]; exact beq_self_eq_true _
  have hfind : (db.visibleAlerts ctx.tenant).find? (fun b => b.id = a.id) = some a := by
    rw [Db.visibleAlerts, hdb, List.filter_append, List.find?_append, List.find?_eq_none.2, Option.none_or]
    · simp [hvis]
    · intro b hb
      simpa using holds b (List.mem_of_mem_filter hb)
  simp only [Stmt.exec, hfind, ha]

theorem apply_markWebhookSent {db : Db} {tenant : Str} {olds : List Alert} {a : Alert} (now : Time)
    (hdb : db.alerts = olds ++ [a]) (ha : a.tenant = tenant) (holds : ∀ b ∈ olds, b.id ≠ a.id) :
    (db.apply (.markWebhookSent tenant a.id now)).alerts = olds ++ [{ a with webhookSentAt := some now }] := by
  show db.alerts.map _ = _
  rw [hdb, List.map_append]
  congr 1
  · refine (List.map_congr_left fun b hb => ?_).trans (List.map_id _)
    simp [holds b hb]
  · simp [ha]

/-- The transaction of `s₀` may be lost from here on, but not what it has POSTed. -/
structure Undone (s₀ s : Session) : Prop where
  alerts : s.db.alerts = s₀.db.alerts
  next : s₀.db.sequences.alert ≤ s.db.sequences.alert
  fired : s.log.fired = s₀.log.fired
  delivered : ∃ ds, s.log.delivered = s₀.log.delivered ++ ds ∧
    ∀ d ∈ ds, s₀.db.sequences.alert ≤ d.payload.alertId ∧ d.payload.alertId < s.db.sequences.alert
  owner : s.Owner

/-- The loop of `evaluate_tenant` has treated the candidates `done`. -/
structure Evaluating (tenant : Str) (rule : RuleConfig) (s₀ : Session) (now : Time) (done : List Candidate)
    (outs : List Outcome) (s : Session) : Prop where
  status : s.conn.status = .inTx
  setting : s.conn.localTenant = some tenant
  startedAt : s.startedAt = now
  owner : s.Owner
  alerts : s.db.alerts = s₀.db.alerts
  next : s.db.sequences.alert = s₀.db.sequences.alert + outs.length
  view : s.view.alerts = s₀.db.alerts ++ outs.map (·.alert tenant rule now)
  selected : s.log.rule = some rule
  fired : s.log.fired = s₀.log.fired
  firing : s.log.firing = outs.map (·.firing tenant rule now)
  delivered : s.log.delivered = s₀.log.delivered ++ deliveries tenant rule now outs
  past : outs.map (·.candidate) = done.filter fun c => pastCooldown s₀.db.alerts tenant rule now c.srcIp
  ids : outs.map (·.alertId) = List.range' s₀.db.sequences.alert outs.length

section
variable {pg : Pg} {url tenant : Str} {rule : RuleConfig} {s₀ s s' : Session} {now : Time} {c : Candidate}
  {done : List Candidate} {outs : List Outcome} {r : Nat} {b : Bool}

theorem deliveries_append (outs : List Outcome) (o : Outcome) :
    deliveries tenant rule now (outs ++ [o]) =
      deliveries tenant rule now outs ++ if o.delivered then [o.delivery tenant rule now] else [] := by
  cases ho : o.delivered <;> simp [deliveries, ho]

namespace Undone

theorem init (h : s₀.Owner) : Undone s₀ s₀ where
  alerts := rfl
  next := Nat.le_refl _
  fired := rfl
  delivered := ⟨[], (List.append_nil _).symm, by simp⟩
  owner := h

/-- Nothing is inserted or POSTed. -/
theorem of_le (h : Undone s₀ s) (halerts : s'.db.alerts = s.db.alerts)
    (hnext : s.db.sequences.alert ≤ s'.db.sequences.alert) (hfired : s'.log.fired = s.log.fired)
    (hdelivered : s'.log.delivered = s.log.delivered) (howner : s'.Owner) : Undone s₀ s' where
  alerts := halerts.trans h.alerts
  next := h.next.trans hnext
  fired := hfired.trans h.fired
  delivered := by
    obtain ⟨ds, hds, hlt⟩ := h.delivered
    exact ⟨ds, hdelivered.trans hds, fun d hd => ⟨(hlt d hd).1, (hlt d hd).2.trans_le hnext⟩⟩
  owner := howner

theorem interfere (h : Undone s₀ s) : Undone s₀ s.interfere :=
  h.of_le h.owner.interfere_alerts h.owner.interfere_alert.ge rfl rfl h.owner

/-- Other sessions have had their turn, and the transaction is over. -/
theorem after (h : Undone s₀ s) (hdb : s'.db = s.interfere.db) (hlog : s'.log = s.log.endTx false ∨ s'.log = s.log)
    (hothers : s'.others = fun n => s.others (n + 1)) : Undone s₀ s' := by
  have hlog : s'.log.fired = s.log.fired ∧ s'.log.delivered = s.log.delivered := by
    rcases hlog with hlog | hlog <;> rw [hlog] <;> exact ⟨rfl, rfl⟩
  exact h.interfere.of_le (congrArg Db.alerts hdb) (congrArg (·.sequences.alert) hdb).ge hlog.1 hlog.2
    (h.owner.shift hothers)

theorem ran (h : Undone s₀ s) (stmt : Stmt) (r : stmt.Resp) (ws : List Write) : Undone s₀ (s.ran stmt r ws) := by
  have hlog : (s.record stmt r).fired = s.log.fired ∧ (s.record stmt r).delivered = s.log.delivered := by
    cases stmt <;> exact ⟨rfl, rfl⟩
  exact h.interfere.of_le rfl (stmt.le_nextval _) hlog.1 hlog.2 h.owner.ran

/-- A command that raises undoes nothing that is not undone. -/
theorem raised {stmt : Stmt} {e : Exn} (h : Undone s₀ s) (hr : s.Raised stmt e s') : Undone s₀ s' := by
  have hdb : s'.db.alerts = s.interfere.db.alerts ∧ s.interfere.db.sequences.alert ≤ s'.db.sequences.alert := by
    rcases hr.db with hd | hd <;> rw [hd]
    · exact ⟨rfl, Nat.le_refl _⟩
    · exact ⟨rfl, stmt.le_nextval _⟩
  exact h.interfere.of_le hdb.1 hdb.2 (congrArg Log.fired hr.log) (congrArg Log.delivered hr.log)
    (h.owner.shift hr.others)

theorem rollback (pg : Pg) (h : Undone s₀ s) : Undone s₀ (handle pg .rollback s).2 :=
  h.after rfl (.inl rfl) rfl

end Undone

namespace Evaluating

theorem undone (h : Evaluating tenant rule s₀ now done outs s) : Undone s₀ s where
  alerts := h.alerts
  next := by rw [h.next]; exact Nat.le_add_right _ _
  fired := h.fired
  delivered := by
    refine ⟨_, h.delivered, fun d hd => ?_⟩
    obtain ⟨o, ho, rfl⟩ := List.mem_map.1 hd
    have hid : o.alertId ∈ outs.map (·.alertId) := List.mem_map_of_mem (List.mem_of_mem_filter ho)
    rw [h.ids] at hid
    rw [h.next]
    exact List.mem_range'_1.1 hid
  owner := h.owner

theorem ctx (h : Evaluating tenant rule s₀ now done outs s) :
    s.interfere.ctx.tenant = some tenant ∧ s.interfere.ctx.now = now := by
  refine ⟨?_, ?_⟩
  · show s.conn.tenant = some tenant
    rw [Conn.tenant, h.setting]
    rfl
  · exact (Session.now_inTx h.status).trans h.startedAt

theorem outs_ne (h : Evaluating tenant rule s₀ now done outs s) (hc : c.srcIp ∉ done.map (·.srcIp)) :
    ∀ a ∈ outs.map (·.alert tenant rule now), a.srcIp ≠ c.srcIp := by
  intro a ha heq
  obtain ⟨o, ho, rfl⟩ := List.mem_map.1 ha
  have hmem : o.candidate ∈ outs.map (·.candidate) := List.mem_map_of_mem ho
  rw [h.past] at hmem
  exact hc (heq ▸ List.mem_map_of_mem (List.mem_of_mem_filter hmem))

theorem exec_pastCooldown (h : Evaluating tenant rule s₀ now done outs s) (hc : c.srcIp ∉ done.map (·.srcIp)) :
    (Stmt.pastCooldown tenant rule.id c.srcIp rule.cooldownSeconds).exec pg s.interfere.ctx s.interfere.view =
      .ok (pastCooldown s₀.db.alerts tenant rule now c.srcIp, []) := by
  rw [LogMgmt.exec_pastCooldown rule c.srcIp h.ctx.1, h.owner.interfere_view, h.view, h.ctx.2,
    pastCooldown_append (h.outs_ne hc)]

theorem read (h : Evaluating tenant rule s₀ now done outs s) (stmt : Stmt) (r : stmt.Resp)
    (ht : stmt.tenantTable) (hnext : ∀ q, stmt.nextval q = q) (hlog : s.record stmt r = s.log) :
    Evaluating tenant rule s₀ now done outs (s.ran stmt r []) where
  status := by rw [Session.ran_conn h.status stmt ht]; exact h.status
  setting := by rw [Session.ran_conn h.status stmt ht]; exact h.setting
  startedAt := h.ctx.2
  owner := h.owner.ran
  alerts := h.owner.interfere_alerts.trans h.alerts
  next := by
    show (stmt.nextval _).alert = _
    rw [hnext]
    exact h.owner.interfere_alert.trans h.next
  view := h.owner.ran_view.trans h.view
  selected := (congrArg Log.rule hlog).trans h.selected
  fired := (congrArg Log.fired hlog).trans h.fired
  firing := (congrArg Log.firing hlog).trans h.firing
  delivered := (congrArg Log.delivered hlog).trans h.delivered
  past := h.past
  ids := h.ids

theorem skip (h : Evaluating tenant rule s₀ now done outs s)
    (hp : pastCooldown s₀.db.alerts tenant rule now c.srcIp = false) :
    Evaluating tenant rule s₀ now (done ++ [c]) outs s :=
  { h with past := by rw [h.past, List.filter_append]; simp [hp] }

theorem insert (h : Evaluating tenant rule s₀ now done outs s)
    (hp : pastCooldown s₀.db.alerts tenant rule now c.srcIp = true) {a : NewAlert} {r : Nat} {ws : List Write}
    (ha : a = ⟨tenant, rule.id, c.srcIp, c.eventCount, rule.threshold, rule.windowSeconds, c.windowStart, c.windowEnd⟩)
    (hx : (Stmt.insertAlert a).exec pg s.interfere.ctx s.interfere.view = .ok (r, ws)) :
    Evaluating tenant rule s₀ now (done ++ [c]) (outs ++ [⟨c, r, false⟩]) (s.ran (.insertAlert a) r ws) := by
  have hseq : s.interfere.view.sequences.alert = s₀.db.sequences.alert + outs.length := by
    rw [Session.view, Db.applyAll_sequences, h.owner.interfere_alert, h.next]
  have hnew : r = s₀.db.sequences.alert + outs.length ∧
      ws = [.insertAlert ((Outcome.mk c r false).alert tenant rule now)] := by
    subst ha
    simp only [Stmt.exec, h.ctx.2, hseq] at hx
    split_ifs at hx
    obtain ⟨rfl, rfl⟩ := Prod.mk.inj (Except.ok.inj hx)
    exact ⟨rfl, rfl⟩
  obtain ⟨hr, rfl⟩ := hnew
  have hlog : s.record (.insertAlert a) r = s.log.fire now a r := by
    rw [← h.startedAt, ← Session.now_inTx h.status]
    rfl
  exact {
    status := by rw [Session.ran_conn h.status _ rfl]; exact h.status
    setting := by rw [Session.ran_conn h.status _ rfl]; exact h.setting
    startedAt := h.ctx.2
    owner := h.owner.ran
    alerts := h.owner.interfere_alerts.trans h.alerts
    next := by
      show s.interfere.db.sequences.alert + 1 = _
      rw [h.owner.interfere_alert, h.next, List.length_append]
      rfl
    view := by
      rw [h.owner.ran_view]
      show s.view.alerts ++ [_] = _
      rw [h.view, List.map_append, List.append_assoc]
      rfl
    selected := h.selected
    fired := h.fired
    firing := by
      show (s.record (.insertAlert a) r).firing = _
      rw [hlog, Log.fire, h.selected, h.firing, List.map_append, ha]
      rfl
    delivered := by
      rw [deliveries_append]
      exact h.delivered.trans (by simp)
    past := by
      rw [List.map_append, h.past, List.filter_append]
      simp [hp]
    ids := by
      rw [List.map_append, h.ids, List.length_append, List.range'_append_1.symm]
      simp [hr] }

/-- A POST that is not answered with 2xx. -/
theorem unsent (h : Evaluating tenant rule s₀ now done outs s) (cmd : Cmd) (r : cmd.Answer)
    (hcmd : s.conn.next cmd r = s.conn) :
    Evaluating tenant rule s₀ now done outs (s.interfere.answered cmd r) where
  status := by
    show (s.conn.next cmd r).status = _
    rw [hcmd]
    exact h.status
  setting := by
    show (s.conn.next cmd r).localTenant = _
    rw [hcmd]
    exact h.setting
  startedAt := h.startedAt
  owner := h.owner.shift rfl
  alerts := h.owner.interfere_alerts.trans h.alerts
  next := h.owner.interfere_alert.trans h.next
  view := h.owner.interfere_view.trans h.view
  selected := h.selected
  fired := h.fired
  firing := h.firing
  delivered := h.delivered
  past := h.past
  ids := h.ids

theorem alertId_eq (h : Evaluating tenant rule s₀ now done (outs ++ [⟨c, r, b⟩]) s) :
    outs.map (·.alertId) = List.range' s₀.db.sequences.alert outs.length ∧
      r = s₀.db.sequences.alert + outs.length := by
  have hids := h.ids
  rw [List.map_append, List.length_append, List.length_singleton, ← List.range'_append_1] at hids
  obtain ⟨ho, hr⟩ := List.append_inj hids (by simp)
  exact ⟨ho, by simpa using hr⟩

/-- No row before that of the last outcome has its id. -/
theorem id_ne (h : Evaluating tenant rule s₀ now done (outs ++ [⟨c, r, b⟩]) s)
    (hid : ∀ a ∈ s₀.db.alerts, a.id < s₀.db.sequences.alert) :
    ∀ a ∈ s₀.db.alerts ++ outs.map (·.alert tenant rule now), a.id ≠ r := by
  intro a ha
  obtain ⟨hids, hr⟩ := h.alertId_eq
  rcases List.mem_append.1 ha with ha | ha
  · have hlt := hid a ha
    omega
  · obtain ⟨o, ho, rfl⟩ := List.mem_map.1 ha
    have hmem : o.alertId ∈ outs.map (·.alertId) := List.mem_map_of_mem ho
    rw [hids] at hmem
    have hlt := (List.mem_range'_1.1 hmem).2
    show o.alertId ≠ r
    omega

theorem deliver_eq (h : Evaluating tenant rule s₀ now done outs s) (c : Candidate) (r : Nat) :
    s.log.deliver now (webhookPayload tenant rule c r) =
      { s.log with delivered := s.log.delivered ++ [(Outcome.mk c r true).delivery tenant rule now] } := by
  rw [Log.deliver_eq h.selected]
  rfl

/-- The POST has been answered with 2xx; the row is not marked yet. -/
theorem sent (h : Evaluating tenant rule s₀ now done (outs ++ [⟨c, r, false⟩]) s) :
    Undone s₀ { s with log := s.log.deliver now (webhookPayload tenant rule c r) } := by
  have hu := h.undone
  obtain ⟨ds, hds, hle⟩ := hu.delivered
  have hlog := h.deliver_eq c r
  refine ⟨hu.alerts, hu.next, hlog ▸ hu.fired,
    ⟨ds ++ [(Outcome.mk c r true).delivery tenant rule now], ?_, fun d hd => ?_⟩, hu.owner⟩
  · rw [hlog]
    show s.log.delivered ++ [_] = _
    rw [hds, List.append_assoc]
  · rcases List.mem_append.1 hd with hd | hd
    · exact hle d hd
    · rw [List.mem_singleton.1 hd]
      show _ ≤ r ∧ r < s.db.sequences.alert
      rw [h.next, h.alertId_eq.2, List.length_append]
      exact ⟨Nat.le_add_right _ _, Nat.lt_succ_self _⟩

theorem mark (h : Evaluating tenant rule s₀ now done (outs ++ [⟨c, r, false⟩]) s)
    (hid : ∀ a ∈ s₀.db.alerts, a.id < s₀.db.sequences.alert) {log : Log} {u : Unit} {ws : List Write}
    (hlog : log = s.log.deliver now (webhookPayload tenant rule c r))
    (hx : (Stmt.markWebhookSent r).exec pg s.interfere.ctx s.interfere.view = .ok (u, ws)) :
    Evaluating tenant rule s₀ now done (outs ++ [⟨c, r, true⟩])
      (Session.ran { s with log } (.markWebhookSent r) u ws) := by
  set a := (Outcome.mk c r false).alert tenant rule now
  have hview : s.view.alerts = (s₀.db.alerts ++ outs.map (·.alert tenant rule now)) ++ [a] := by
    rw [h.view, List.map_append, List.append_assoc]
    rfl
  have holds : ∀ b ∈ s₀.db.alerts ++ outs.map (·.alert tenant rule now), b.id ≠ a.id := h.id_ne hid
  have hws : ws = [.markWebhookSent tenant a.id now] := by
    have := exec_markWebhookSent pg h.ctx.1 (h.owner.interfere_view.trans hview) rfl holds
    rw [h.ctx.2] at this
    exact (Prod.mk.inj (Except.ok.inj (hx.symm.trans this))).2
  subst hws
  have hdeliver := hlog.trans (h.deliver_eq c r)
  have howner : Session.Owner { s with log } := h.owner
  have hconn := Session.ran_conn (s := { s with log }) h.status (.markWebhookSent r) rfl u
    [.markWebhookSent tenant a.id now]
  exact {
    status := by rw [hconn]; exact h.status
    setting := by rw [hconn]; exact h.setting
    startedAt := h.ctx.2
    owner := howner.ran
    alerts := h.owner.interfere_alerts.trans h.alerts
    next := by
      rw [List.length_append]
      exact (h.owner.interfere_alert.trans h.next).trans (by rw [List.length_append]; rfl)
    view := by
      refine howner.ran_view.trans ((apply_markWebhookSent now hview rfl holds).trans ?_)
      rw [List.map_append, List.append_assoc]
      rfl
    selected := by
      show log.rule = _
      rw [hdeliver]
      exact h.selected
    fired := by
      show log.fired = _
      rw [hdeliver]
      exact h.fired
    firing := by
      show log.firing = _
      rw [hdeliver, List.map_append]
      exact h.firing.trans (by rw [List.map_append]; rfl)
    delivered := by
      show log.delivered = _
      rw [hdeliver, deliveries_append]
      show s.log.delivered ++ [_] = _
      rw [h.delivered, deliveries_append]
      simp
    past := by
      rw [List.map_append, ← h.past, List.map_append]
      rfl
    ids := by
      have := h.ids
      rw [List.map_append, List.length_append] at this ⊢
      exact this }

end Evaluating

theorem wp_markWebhookSent (h : Evaluating tenant rule s₀ now done (outs ++ [⟨c, r, false⟩]) s)
    (hid : ∀ a ∈ s₀.db.alerts, a.id < s₀.db.sequences.alert) {log : Log}
    (hlog : log = s.log.deliver now (webhookPayload tenant rule c r)) :
    wp (handle pg) (sql (.markWebhookSent r))
      (fun _ s' => ∃ outs', Evaluating tenant rule s₀ now done outs' s') (fun _ => Undone s₀) { s with log } := by
  rw [wp_sql]
  rcases Session.handle_sql_cases pg (s := { s with log }) h.status (.markWebhookSent r) with
    ⟨u, ws, -, hx, hh⟩ | ⟨e, s', hh, hr⟩
  · rw [hh]
    exact ⟨_, h.mark hid hlog hx⟩
  · rw [hh]
    exact Undone.raised (hlog ▸ h.sent) hr

theorem wp_notify {url : Option Str} (h : Evaluating tenant rule s₀ now done (outs ++ [⟨c, r, false⟩]) s)
    (hid : ∀ a ∈ s₀.db.alerts, a.id < s₀.db.sequences.alert) :
    wp (handle pg) (notify url tenant rule c r)
      (fun _ s' => ∃ outs', Evaluating tenant rule s₀ now done outs' s') (fun _ => Undone s₀) s := by
  unfold notify
  split
  · exact ⟨_, h⟩
  · exact ⟨_, h⟩
  rename_i url hurl
  rw [wp_bind, wp_exec]
  have hnow : s.now = now := (Session.now_inTx h.status).trans h.startedAt
  have h₁ := h.unsent (.sendWebhook url (webhookPayload tenant rule c r)) (.ok (s.nature 0).accepted) rfl
  cases hacc : (s.nature 0).accepted with
  | false =>
    rw [hacc] at h₁
    rw [Session.handle_rejected pg hacc, ends_ok]
    exact ⟨_, h₁⟩
  | true =>
    rw [hacc] at h₁
    rw [Session.handle_accepted pg hacc, ends_ok, hnow]
    simp only [↓reduceIte]
    exact wp_markWebhookSent h₁ hid rfl

theorem wp_evaluateCandidate {url : Option Str} (h : Evaluating tenant rule s₀ now done outs s)
    (hc : c.srcIp ∉ done.map (·.srcIp)) (hid : ∀ a ∈ s₀.db.alerts, a.id < s₀.db.sequences.alert) :
    wp (handle pg) (evaluateCandidate url tenant rule c)
      (fun _ s' => ∃ outs', Evaluating tenant rule s₀ now (done ++ [c]) outs' s') (fun _ => Undone s₀) s := by
  unfold evaluateCandidate
  rw [wp_bind, wp_sql]
  rcases Session.handle_sql_cases pg h.status (.pastCooldown tenant rule.id c.srcIp rule.cooldownSeconds) with
    ⟨r, ws, -, hx, hh⟩ | ⟨e, s', hh, hr⟩
  swap
  · rw [hh]
    exact h.undone.raised hr
  obtain ⟨rfl, rfl⟩ := Prod.mk.inj (Except.ok.inj ((h.exec_pastCooldown hc).symm.trans hx))
  rw [hh, ends_ok]
  have h₁ := h.read (.pastCooldown tenant rule.id c.srcIp rule.cooldownSeconds)
    (pastCooldown s₀.db.alerts tenant rule now c.srcIp) rfl (fun _ => rfl) rfl
  cases hp : pastCooldown s₀.db.alerts tenant rule now c.srcIp with
  | false =>
    rw [hp] at h₁
    exact ⟨outs, h₁.skip hp⟩
  | true =>
    rw [hp] at h₁
    simp only [↓reduceIte]
    rw [wp_bind, wp_sql]
    rcases Session.handle_sql_cases pg h₁.status (.insertAlert
      ⟨tenant, rule.id, c.srcIp, c.eventCount, rule.threshold, rule.windowSeconds, c.windowStart, c.windowEnd⟩) with
      ⟨r, ws, -, hx, hh⟩ | ⟨e, s', hh, hr⟩
    swap
    · rw [hh]
      exact h₁.undone.raised hr
    rw [hh, ends_ok]
    exact wp_notify (h₁.insert hp rfl hx) hid

theorem wp_candidates {url : Option Str} (h : Evaluating tenant rule s₀ now [] [] s)
    (hid : ∀ a ∈ s₀.db.alerts, a.id < s₀.db.sequences.alert) :
    wp (handle pg)
      (do let candidates ← sql (.detect rule.windowSeconds rule.threshold)
          candidates.forM (evaluateCandidate url tenant rule))
      (fun _ s' => ∃ found outs, found.Perm (s.interfere.view.detected tenant pg rule now) ∧ (∀ c ∈ found, c.timesOk) ∧
        Evaluating tenant rule s₀ now found outs s')
      (fun _ => Undone s₀) s := by
  rw [wp_bind, wp_sql]
  rcases Session.handle_sql_cases pg h.status (.detect rule.windowSeconds rule.threshold) with
    ⟨found, ws, -, hx, hh⟩ | ⟨e, s', hh, hr⟩
  swap
  · rw [hh]
    exact h.undone.raised hr
  rw [hh, ends_ok]
  simp only [Stmt.exec, h.ctx.1, h.ctx.2] at hx
  obtain ⟨htimes, hfound, rfl⟩ := loaded_eq_ok.1 hx
  have hperm : found.Perm (s.interfere.view.detected tenant pg rule now) := hfound ▸ RowOrder.arrange_perm _ _ _
  have h₁ := h.read (.detect rule.windowSeconds rule.threshold) found rfl (fun _ => rfl) rfl
  refine wp_mono (wp_forM (I := fun done s => ∃ outs, Evaluating tenant rule s₀ now done outs s) found _ ?_ ⟨[], h₁⟩)
    (fun _ s' hs' => ⟨found, hs'.choose, hperm, hfound ▸ htimes, hs'.choose_spec⟩) fun _ _ hu => hu
  rintro done c rest hsplit s ⟨outs, hs⟩
  exact wp_evaluateCandidate hs (next_candidate_fresh (nodup_of_detected hperm) hsplit) hid

/-! ### The transaction -/

/-- What a session sees when it issues command `n`, if it writes nothing. -/
def Session.seenAt (s : Session) : Nat → Db
  | 0 => s.others 0 s.db
  | n + 1 => s.others (n + 1) (s.seenAt n)

/-- The transaction has committed the alerts of the candidates past their cooldown. -/
structure Inserted (tenant : Str) (rule : RuleConfig) (s₀ : Session) (now : Time) (found : List Candidate)
    (outs : List Outcome) (s : Session) : Prop where
  alerts : s.db.alerts = s₀.db.alerts ++ outs.map (·.alert tenant rule now)
  next : s.db.sequences.alert = s₀.db.sequences.alert + outs.length
  fired : s.log.fired = s₀.log.fired ++ outs.map (·.firing tenant rule now)
  delivered : s.log.delivered = s₀.log.delivered ++ deliveries tenant rule now outs
  past : outs.map (·.candidate) = found.filter fun c => pastCooldown s₀.db.alerts tenant rule now c.srcIp
  ids : outs.map (·.alertId) = List.range' s₀.db.sequences.alert outs.length

theorem Inserted.id_mem {found : List Candidate} (h : Inserted tenant rule s₀ now found outs s) {o : Outcome}
    (ho : o ∈ outs) :
    s₀.db.sequences.alert ≤ o.alertId ∧ o.alertId < s₀.db.sequences.alert + outs.length := by
  have hid : o.alertId ∈ outs.map (·.alertId) := List.mem_map_of_mem ho
  rw [h.ids] at hid
  exact List.mem_range'_1.1 hid

/-- A transaction of `evaluate_tenant` that committed. -/
inductive Evaluated (pg : Pg) (tenant : Str) (s₀ s : Session) : Prop where
  | noRule (hrule : (s₀.seenAt 2).ruleOf tenant = none) (alerts : s.db.alerts = s₀.db.alerts)
      (next : s.db.sequences.alert = s₀.db.sequences.alert) (fired : s.log.fired = s₀.log.fired)
      (delivered : s.log.delivered = s₀.log.delivered)
  | rule (rule : RuleConfig) (found : List Candidate) (outs : List Outcome)
      (hrule : (s₀.seenAt 2).ruleOf tenant = some rule)
      (hfound : found.Perm ((s₀.seenAt 3).detected tenant pg rule (s₀.nature 0).now))
      (htimes : ∀ c ∈ found, c.timesOk)
      (inserted : Inserted tenant rule s₀ (s₀.nature 0).now found outs s)

theorem Evaluating.commit (pg : Pg) (h : Evaluating tenant rule s₀ now done outs s) :
    Ends (fun _ => Inserted tenant rule s₀ now done outs) (fun _ => Undone s₀) (handle pg .commit s) := by
  have hu := h.undone
  cases hν : (s.nature 0).fault with
  | true =>
    rw [Session.handle_commit_fault pg hν h.status]
    exact hu.after rfl (.inl rfl) rfl
  | false =>
    rw [Session.handle_commit pg hν h.status]
    exact {
      alerts := h.owner.interfere_view.trans h.view
      next := by
        show s.interfere.view.sequences.alert = _
        rw [Session.view, Db.applyAll_sequences, h.owner.interfere_alert, h.next]
      fired := by
        show s.log.fired ++ s.log.firing = _
        rw [h.fired, h.firing]
      delivered := h.delivered
      past := h.past
      ids := h.ids }

/-- The rule has been read. -/
theorem Evaluating.start (howner : s₀.Owner) (tenant : Str) (rule : RuleConfig) :
    Evaluating tenant rule s₀ (s₀.nature 0).now [] []
      ((s₀.opened.ran (.setTenant tenant) () []).ran (.selectRule .failedLoginBurst) (some rule) []) := by
  have h₁ : Undone s₀ s₀.opened := (Undone.init howner).after rfl (.inl rfl) rfl
  have h₂ := h₁.ran (.setTenant tenant) () []
  have h₃ := h₂.ran (.selectRule .failedLoginBurst) (some rule) []
  exact {
    status := rfl
    setting := rfl
    startedAt := rfl
    owner := h₃.owner
    alerts := h₃.alerts
    next := h₂.owner.interfere_alert.trans (h₁.owner.interfere_alert.trans howner.interfere_alert)
    view := h₃.alerts.trans (List.append_nil _).symm
    selected := rfl
    fired := rfl
    firing := rfl
    delivered := (List.append_nil _).symm
    past := rfl
    ids := rfl }

theorem wp_evaluateTenant (pg : Pg) (url : Option Str) (tenant : Str) (howner : s₀.Owner)
    (hid : ∀ a ∈ s₀.db.alerts, a.id < s₀.db.sequences.alert) :
    wp (handle pg) (evaluateTenant url tenant) (fun _ => Evaluated pg tenant s₀) (fun _ => Undone s₀) s₀ := by
  unfold evaluateTenant
  rw [wp_transaction]
  cases hν : (s₀.nature 0).fault with
  | true =>
    rw [Session.handle_begin_fault pg hν]
    exact (Undone.init howner).after rfl (.inr rfl) rfl
  | false =>
    rw [Session.handle_begin pg hν, ends_ok, wp_withConn]
    have h₁ : Undone s₀ s₀.opened := (Undone.init howner).after rfl (.inl rfl) rfl
    have hopen : s₀.opened.conn.status = .inTx := rfl
    rw [wp_bind, wp_sql]
    rcases Session.handle_sql_cases pg hopen (.setTenant tenant) with ⟨u, ws, -, hx, hh⟩ | ⟨e, s', hh, hr⟩
    swap
    · rw [hh]
      exact (h₁.raised hr).rollback pg
    rw [hh, ends_ok]
    obtain rfl : ws = [] := by
      simp only [Stmt.exec] at hx
      split at hx
      · exact (Prod.mk.inj (Except.ok.inj hx)).2.symm
      · cases hx
    have h₂ := h₁.ran (.setTenant tenant) u []
    set s₂ := s₀.opened.ran (.setTenant tenant) u [] with hs₂
    have hstatus : s₂.conn.status = .inTx := rfl
    rw [wp_bind, wp_sql]
    rcases Session.handle_sql_cases pg hstatus (.selectRule .failedLoginBurst) with
      ⟨rule, ws, -, hx, hh⟩ | ⟨e, s', hh, hr⟩
    swap
    · rw [hh]
      exact (h₂.raised hr).rollback pg
    rw [hh, ends_ok]
    have hrule : (.ok ((s₀.seenAt 2).ruleOf tenant, []) : Except SqlError _) = .ok (rule, ws) := hx
    obtain ⟨rfl, rfl⟩ := Prod.mk.inj (Except.ok.inj hrule)
    have h₃ := h₂.ran (.selectRule .failedLoginBurst) ((s₀.seenAt 2).ruleOf tenant) []
    set s₃ := s₂.ran (.selectRule .failedLoginBurst) ((s₀.seenAt 2).ruleOf tenant) [] with hs₃
    have hnext : s₃.db.sequences.alert = s₀.db.sequences.alert :=
      h₂.owner.interfere_alert.trans (h₁.owner.interfere_alert.trans howner.interfere_alert)
    cases hrule : (s₀.seenAt 2).ruleOf tenant with
    | none =>
      rw [hrule] at hs₃
      cases hν : (s₃.nature 0).fault with
      | true =>
        rw [wp_pure, Session.handle_commit_fault pg hν rfl]
        exact h₃.after rfl (.inl rfl) rfl
      | false =>
        rw [wp_pure, Session.handle_commit pg hν rfl]
        refine .noRule hrule h₃.interfere.alerts (h₃.owner.interfere_alert.trans hnext) ?_ rfl
        exact List.append_nil _
    | some rule =>
      rw [hrule] at hs₃
      have h₄ : Evaluating tenant rule s₀ (s₀.nature 0).now [] [] s₃ := hs₃ ▸ .start howner tenant rule
      refine wp_mono (wp_candidates h₄ hid) (fun _ s hdone => ?_) fun _ _ hu => hu.rollback pg
      obtain ⟨found, outs, hfound, htimes, hs⟩ := hdone
      have := hs.commit pg
      revert this
      rcases handle pg .commit s with ⟨_ | _, s'⟩
      · exact id
      · exact .rule rule found outs hrule hfound htimes

end

/-- Whether the transaction of an evaluation commits. -/
def Commits (pg : Pg) (url : Option Str) (tenant : Str) (s : Session) : Bool :=
  ((evaluateTenant url tenant).run (handle pg) s).1.isOk

/-- How an evaluation ends. -/
inductive Evaluation (pg : Pg) (url : Option Str) (tenant : Str) (s s' : Session) : Prop where
  | committed (hc : Commits pg url tenant s = true) (h : Evaluated pg tenant s s')
  | undone (hc : Commits pg url tenant s = false) (h : Undone s s')

/-- An evaluation adds alerts of its tenant, and none if it does not commit. -/
theorem Evaluation.alerts {pg : Pg} {url : Option Str} {tenant : Str} {s s' : Session} (h : Evaluation pg url tenant s s') :
    ∃ news, s'.db.alerts = s.db.alerts ++ news ∧ (∀ a ∈ news, a.tenant = tenant ∧ a.id < s'.db.sequences.alert) ∧
      s.db.sequences.alert ≤ s'.db.sequences.alert ∧ (Commits pg url tenant s = false → news = []) := by
  cases h with
  | undone _ h => exact ⟨[], by simp [h.alerts], by simp, h.next, fun _ => rfl⟩
  | committed hc h =>
    cases h with
    | noRule _ halerts hnext _ _ => exact ⟨[], by simp [halerts], by simp, hnext.ge, fun _ => rfl⟩
    | rule rule found outs _ _ _ hi =>
      refine ⟨_, hi.alerts, fun a ha => ?_, by rw [hi.next]; exact Nat.le_add_right _ _, fun hnot => ?_⟩
      · obtain ⟨o, ho, rfl⟩ := List.mem_map.1 ha
        rw [hi.next]
        exact ⟨rfl, (hi.id_mem ho).2⟩
      · rw [hc] at hnot
        cases hnot

theorem Evaluation.ids {pg : Pg} {url : Option Str} {tenant : Str} {s s' : Session} (h : Evaluation pg url tenant s s')
    (hid : ∀ a ∈ s.db.alerts, a.id < s.db.sequences.alert) : ∀ a ∈ s'.db.alerts, a.id < s'.db.sequences.alert := by
  obtain ⟨news, halerts, hnews, hnext, -⟩ := h.alerts
  intro a ha
  rw [halerts] at ha
  rcases List.mem_append.1 ha with ha | ha
  · exact (hid a ha).trans_le hnext
  · exact (hnews a ha).2

theorem run_tryEvaluateTenant (pg : Pg) (url : Option Str) (tenant : Str) {s : Session} (howner : s.Owner)
    (hid : ∀ a ∈ s.db.alerts, a.id < s.db.sequences.alert) :
    Evaluation pg url tenant s ((tryEvaluateTenant url tenant).run (handle pg) s).2 := by
  have h := wp_evaluateTenant pg url tenant howner hid
  unfold Prog.wp at h
  unfold tryEvaluateTenant
  rw [run_tryCatch]
  rcases hrun : (evaluateTenant url tenant).run (handle pg) s with ⟨e | u, s'⟩ <;> rw [hrun] at h
  · dsimp only
    rw [run_exec]
    exact .undone (by simp [Commits, hrun, Except.isOk, Except.toBool]) (Undone.rollback pg h)
  · exact .committed (by simp [Commits, hrun, Except.isOk, Except.toBool]) h

end LogMgmt
