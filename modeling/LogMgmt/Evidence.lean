import LogMgmt.History
import LogMgmt.OneEvaluation
import LogMgmt.Webhooks

/-!
# What an alert stands for

As long as no old partition is dropped, an alert is backed by events that are still in the table (`Alert.Evidenced`).
Its `webhook_sent_at` is a receipt: it is set exactly if one webhook with the id of the alert was accepted, which said
what the row says (`Alert.Receipted`). No id is ever delivered twice, also if its evaluation was rolled back.
-/

namespace LogMgmt
open Prog

/-! ### Events behind an alert -/

/-- The events `rows` are failed logins of the address of the alert, from its window. -/
structure Alert.Counts (pg : Pg) (a : Alert) (rows : List EventRow) : Prop where
  eventCount : a.eventCount = rows.length
  tenant : ∀ e ∈ rows, e.tenant = a.tenant
  srcIp : ∀ e ∈ rows, e.srcIp = some a.srcIp
  failed : ∀ e ∈ rows, FailedLogin pg e
  ingestedAt : ∀ e ∈ rows, a.triggeredAt - seconds a.windowSeconds ≤ e.ingestedAt
  windowStart : IsLeast { t | ∃ e ∈ rows, e.eventTime = t } a.windowStart
  windowEnd : IsGreatest { t | ∃ e ∈ rows, e.eventTime = t } a.windowEnd

/-- The table has the events that the alert has counted, at least as many as its threshold. -/
structure Alert.Evidenced (pg : Pg) (db : Db) (a : Alert) : Prop where
  threshold_pos : 0 < a.threshold
  windowSeconds_pos : 0 < a.windowSeconds
  enough : a.threshold ≤ a.eventCount
  rows : ∃ rows : List EventRow, rows.Sublist db.events ∧ a.Counts pg rows

theorem Alert.Evidenced.extends {pg : Pg} {db db' : Db} {a : Alert} (h : a.Evidenced pg db)
    (hdb : db.events <+: db'.events) : a.Evidenced pg db' := by
  obtain ⟨rows, hsub, hcounts⟩ := h.rows
  exact ⟨h.threshold_pos, h.windowSeconds_pos, h.enough, rows, hsub.trans hdb.sublist, hcounts⟩

/-- What an alert reports of a rule is in the rows that were read. -/
theorem Alert.Reports.evidenced {pg : Pg} {db : Db} {rule : AlertRule} {now : Time} {a : Alert} (hrule : rule.checked)
    (h : a.Reports rule now (db.failures pg rule now a.srcIp))
    (henough : rule.threshold ≤ (db.failures pg rule now a.srcIp).length) : a.Evidenced pg db := by
  obtain ⟨-, hthreshold, hwindow, -⟩ := (AlertRule.checked_iff rule).1 hrule
  have hmem : ∀ e ∈ db.failures pg rule now a.srcIp, e.tenant = rule.tenant ∧ e.srcIp = some a.srcIp ∧
      now - seconds rule.windowSeconds ≤ e.ingestedAt ∧ FailedLogin pg e := fun e he => by
    simpa using (List.mem_filter.1 he).2
  refine ⟨h.threshold ▸ hthreshold, h.windowSeconds ▸ hwindow, ?_, _, List.filter_sublist, h.eventCount, ?_, ?_, ?_, ?_,
    h.windowStart, h.windowEnd⟩
  · rw [h.threshold, h.eventCount]
    exact henough
  · exact fun e he => (hmem e he).1.trans h.tenant.symm
  · exact fun e he => (hmem e he).2.1
  · exact fun e he => (hmem e he).2.2.2
  · rw [h.triggeredAt, h.windowSeconds]
    exact fun e he => (hmem e he).2.2.1

namespace System
variable {w : World} {url : Option Str} {s : System}

theorem step_evidenced (h : s.Inv) (hold : ∀ a ∈ s.db.alerts, a.Evidenced w.pg s.db) (a : Action) :
    ∀ b ∈ (s.step w url a).db.alerts, b.Evidenced w.pg (s.step w url a).db := by
  have hkept : ∀ b ∈ s.db.alerts, b.Evidenced w.pg (s.step w url a).db :=
    fun b hb => (hold b hb).extends (step_extends w url s a).events
  cases step_cases w url h.ids a with
  | quiet _ hq => exact fun b hb => hkept b (hq.alerts ▸ hb)
  | evaluate tenant queue ν between s' _ _ hs' hdb _ hcase =>
    cases hcase with
    | undone _ hu => exact fun b hb => hkept b (hu.alerts ▸ hdb ▸ hb)
    | committed hc hcase =>
      cases hcase with
      | noRule _ halerts => exact fun b hb => hkept b (halerts ▸ hdb ▸ hb)
      | rule config found outs hrule hfound _ hi =>
        intro b hb
        rw [hdb, hi.alerts] at hb
        rcases List.mem_append.1 hb with hb | hb
        · exact hkept b hb
        obtain ⟨rule, hmem, rfl, -, rfl⟩ := ruleOf_some hrule
        have hchecked := seenAt_rules h.rules ν between 2 rule hmem
        have hexact := exact_of_inserted ((AlertRule.checked_iff rule).1 hchecked).2.1 hfound hi
        have hseen := (seenAt_extends w url s hc hs').2 (by rw [hrule]; exact Option.some_ne_none _)
        have hdue := (hexact.due b.srcIp).1 (List.mem_map_of_mem hb)
        rw [hdb]
        exact ((hexact.reports b hb).evidenced hchecked hdue.enough).extends hseen.events

theorem run_evidenced (h : s.Inv) (hold : ∀ a ∈ s.db.alerts, a.Evidenced w.pg s.db) (actions : List Action) :
    ∀ a ∈ (s.run w url actions).db.alerts, a.Evidenced w.pg (s.run w url actions).db := by
  induction actions generalizing s with
  | nil => exact hold
  | cons a actions ih => exact ih (h.step a) (step_evidenced h hold a)

end System

/-- In every state that a run of requests, `create_user` calls and engine steps reaches, whatever was ingested or edited
since it fired, an alert is backed by the events that it has counted: they are still in the table, at least as many as its
threshold, all failed logins of its tenant and address that arrived within its window, and their times span the window
that it shows. -/
theorem alerts_evidenced (w : World) (url : Option Str) (actions : List Action) :
    ∀ a ∈ (System.run w url {} actions).db.alerts, a.Evidenced w.pg (System.run w url {} actions).db :=
  System.run_evidenced .init (fun _ h => nomatch h) actions

/-- The first alert of `sampleRun`, after two more ticks and another failed login. -/
theorem alerts_evidenced_sample : (Alert.sample 1 0).Evidenced World.sample.pg (System.run .sample none {} sampleRun).db :=
  alerts_evidenced .sample none sampleRun (.sample 1 0) (by decide)

/-! ### What a session delivers -/

/-- The deliveries between two moments of a session have ids that the sequence gave out between them, each its own. -/
structure Session.Delivers (s s' : Session) : Prop where
  next : s.db.sequences.alert ≤ s'.db.sequences.alert
  delivered : ∃ ds, s'.log.delivered = s.log.delivered ++ ds ∧ (ds.map (·.payload.alertId)).Nodup ∧
    ∀ d ∈ ds, s.db.sequences.alert ≤ d.payload.alertId ∧ d.payload.alertId < s'.db.sequences.alert

namespace Session.Delivers
variable {s s' s'' : Session}

theorem of_eq (hnext : s.db.sequences.alert ≤ s'.db.sequences.alert) (h : s'.log.delivered = s.log.delivered) :
    s.Delivers s' :=
  ⟨hnext, [], by rw [h, List.append_nil], List.nodup_nil, fun _ hd => nomatch hd⟩

theorem refl (s : Session) : s.Delivers s := of_eq (Nat.le_refl _) rfl

theorem trans (h : s.Delivers s') (h' : s'.Delivers s'') : s.Delivers s'' := by
  obtain ⟨ds, hds, hnodup, hlt⟩ := h.delivered
  obtain ⟨ds', hds', hnodup', hlt'⟩ := h'.delivered
  refine ⟨h.next.trans h'.next, ds ++ ds', by rw [hds', hds, List.append_assoc], ?_, ?_⟩
  · rw [List.map_append]
    refine hnodup.append hnodup' fun i hi hi' => ?_
    obtain ⟨d, hd, rfl⟩ := List.mem_map.1 hi
    obtain ⟨d', hd', heq⟩ := List.mem_map.1 hi'
    exact (hlt d hd).2.not_ge (heq ▸ (hlt' d' hd').1)
  · intro d hd
    rcases List.mem_append.1 hd with hd | hd
    · exact ⟨(hlt d hd).1, (hlt d hd).2.trans_le h'.next⟩
    · exact ⟨h.next.trans (hlt' d hd).1, (hlt' d hd).2⟩

end Session.Delivers

section
variable {pg : Pg} {s s' : Session}

theorem Session.Owner.handle (h : s.Owner) (pg : Pg) (c : Cmd) : (handle pg c s).2.Owner := h.shift (handle_others pg c s)

theorem handle_alert_le (pg : Pg) (c : Cmd) (h : s.Owner) :
    s.db.sequences.alert ≤ (handle pg c s).2.db.sequences.alert := by
  have hi : s.interfere.db.sequences.alert = s.db.sequences.alert := h.interfere_alert
  have hself : s.db.sequences.alert ≤ s.interfere.db.sequences.alert := hi.ge
  cases c with
  | begin =>
    show _ ≤ s.interfere.doBegin.2.db.sequences.alert
    unfold Session.doBegin
    split <;> exact hself
  | commit =>
    show _ ≤ s.interfere.doCommit.2.db.sequences.alert
    unfold Session.doCommit
    repeat' split
    · exact hself
    · exact hself
    · exact hself
    · show _ ≤ s.interfere.view.sequences.alert
      rw [Session.view, Db.applyAll_sequences]
      exact hself
  | rollback => exact hself
  | sql stmt =>
    have htake : s.db.sequences.alert ≤ (stmt.nextval s.interfere.db.sequences).alert :=
      hself.trans (Stmt.le_nextval stmt _)
    show _ ≤ (s.interfere.doSql pg stmt).2.db.sequences.alert
    unfold Session.doSql
    split
    · exact hself
    split
    · exact hself
    split
    · exact htake
    · dsimp only
      split
      · rw [Db.applyAll_sequences]
        exact htake
      · exact htake
  | sendWebhook url payload =>
    show _ ≤ (s.interfere.doSendWebhook url payload).2.db.sequences.alert
    unfold Session.doSendWebhook
    dsimp only
    split <;> exact hself

/-- INSERT answers with the next id, and takes it. -/
theorem handle_insertAlert {a : NewAlert} {r : Nat} (h : s.Owner)
    (hh : handle pg (.sql (.insertAlert a)) s = (.ok r, s')) :
    r = s.db.sequences.alert ∧ s'.db.sequences.alert = r + 1 := by
  have hi : s.interfere.db.sequences.alert = s.db.sequences.alert := h.interfere_alert
  have hdo : s.interfere.doSql pg (.insertAlert a) = (.ok r, s') := hh
  unfold Session.doSql at hdo
  split at hdo
  · cases hdo
  split at hdo
  · cases hdo
  split at hdo
  · cases hdo
  · rename_i r' ws hx
    simp only [Stmt.exec] at hx
    split_ifs at hx
    cases hx
    obtain ⟨hr, hs'⟩ := Prod.mk.inj hdo
    obtain rfl : s.interfere.view.sequences.alert = r := Except.ok.inj hr
    have hview : s.interfere.view.sequences = s.interfere.db.sequences := Db.applyAll_sequences _ _
    rw [hview, ← hs']
    refine ⟨hi, ?_⟩
    split
    · exact congrArg Sequences.alert (Db.applyAll_sequences (s.interfere.takeId (.insertAlert a)).db _)
    · rfl

/-- Whatever happens, the program delivers under ids of its own. -/
def DeliversOnce (pg : Pg) {α : Type} (p : App α) : Prop :=
  ∀ s : Session, s.Owner → (p.run (handle pg) s).2.Owner ∧ s.Delivers (p.run (handle pg) s).2

namespace DeliversOnce
variable {α β : Type} {p : App α}

theorem pure (a : α) : DeliversOnce pg (pure a : App α) := fun s hs => ⟨hs, .refl s⟩

theorem exec {c : Cmd} (hc : c.sends = false) : DeliversOnce pg (exec c) := by
  intro s hs
  rw [run_exec]
  exact ⟨hs.handle pg c, .of_eq (handle_alert_le pg c hs) (handle_delivered pg s hc)⟩

theorem bind {f : α → App β} (hp : DeliversOnce pg p) (hf : ∀ a, DeliversOnce pg (f a)) : DeliversOnce pg (p >>= f) := by
  intro s hs
  obtain ⟨howner, hdelivers⟩ := hp s hs
  rw [run_bind]
  rcases hr : p.run (handle pg) s with ⟨e | a, s'⟩ <;> rw [hr] at howner hdelivers
  · exact ⟨howner, hdelivers⟩
  · exact ⟨(hf a s' howner).1, hdelivers.trans (hf a s' howner).2⟩

theorem tryCatch {f : Exn → App α} (hp : DeliversOnce pg p) (hf : ∀ e, DeliversOnce pg (f e)) :
    DeliversOnce pg (tryCatch p f) := by
  intro s hs
  obtain ⟨howner, hdelivers⟩ := hp s hs
  rw [run_tryCatch]
  rcases hr : p.run (handle pg) s with ⟨e | a, s'⟩ <;> rw [hr] at howner hdelivers
  · exact ⟨(hf e s' howner).1, hdelivers.trans (hf e s' howner).2⟩
  · exact ⟨howner, hdelivers⟩

theorem forM {l : List β} {f : β → App PUnit} (hf : ∀ b, DeliversOnce pg (f b)) : DeliversOnce pg (l.forM f) := by
  induction l with
  | nil => exact pure _
  | cons b l ih => exact (hf b).bind fun _ => ih

theorem withConn (hp : DeliversOnce pg p) : DeliversOnce pg (withConn p) := by
  refine bind (tryCatch hp fun e => ?_) fun a => bind (exec rfl) fun _ => pure a
  refine bind (fun s hs => ?_) fun _ s hs => ⟨hs, .refl s⟩
  exact ⟨hs.handle pg .rollback, .of_eq (handle_alert_le pg .rollback hs) (handle_delivered pg s rfl)⟩

theorem transaction (hp : DeliversOnce pg p) : DeliversOnce pg (transaction p) := bind (exec rfl) fun _ => hp.withConn

/-- The webhook of an alert has the id that INSERT has just answered with. -/
theorem insertAlert (a : NewAlert) (url : Option Str) (tenant : Str) (rule : RuleConfig) (c : Candidate) :
    DeliversOnce pg (do
      let alertId ← sql (.insertAlert a)
      notify url tenant rule c alertId) := by
  intro s hs
  rw [run_bind]
  unfold sql
  rw [run_exec]
  rcases hh : handle pg (.sql (.insertAlert a)) s with ⟨e | r, s₁⟩
  · have hexec : DeliversOnce pg (sql (.insertAlert a)) := exec rfl
    have h := hexec s hs
    unfold sql at h
    rw [run_exec, hh] at h
    exact h
  obtain ⟨rfl, hnext⟩ := handle_insertAlert hs hh
  have howner : s₁.Owner := by
    have := hs.handle pg (.sql (.insertAlert a))
    rwa [hh] at this
  have hdelivered : s₁.log.delivered = s.log.delivered := by
    have := handle_delivered pg s (c := .sql (.insertAlert a)) rfl
    rwa [hh] at this
  have h₁ : s.Delivers s₁ := .of_eq (by omega) hdelivered
  dsimp only
  unfold notify
  split
  · exact ⟨howner, h₁⟩
  · exact ⟨howner, h₁⟩
  rename_i url _
  have hmark : DeliversOnce pg (sql (.markWebhookSent s.db.sequences.alert)) := exec rfl
  have hid : (webhookPayload tenant rule c s.db.sequences.alert).alertId = s.db.sequences.alert := rfl
  revert hid
  generalize webhookPayload tenant rule c s.db.sequences.alert = payload
  intro hid
  rw [run_bind, run_exec]
  have howner₂ := howner.handle pg (.sendWebhook url payload)
  cases hacc : (s₁.nature 0).accepted with
  | false =>
    rw [Session.handle_rejected pg hacc] at howner₂ ⊢
    exact ⟨howner₂, h₁.trans (.of_eq howner.interfere_alert.ge rfl)⟩
  | true =>
    rw [Session.handle_accepted pg hacc] at howner₂ ⊢
    have h₂ : s.Delivers { s₁.interfere.answered (.sendWebhook url payload) (.ok true) with
        log := s₁.log.deliver s₁.now payload } := by
      refine ⟨h₁.next.trans howner.interfere_alert.ge, s₁.log.rule.toList.map fun r =>
        ⟨payload, r.id, s₁.now, r.cooldownSeconds⟩, congrArg (· ++ _) hdelivered, ?_, fun d hd => ?_⟩
      · cases s₁.log.rule with
        | none => exact List.nodup_nil
        | some r => exact List.nodup_singleton _
      · obtain ⟨r, -, rfl⟩ := List.mem_map.1 hd
        rw [hid]
        refine ⟨Nat.le_refl _, ?_⟩
        show s.db.sequences.alert < s₁.interfere.db.sequences.alert
        rw [howner.interfere_alert, hnext]
        exact Nat.lt_succ_self _
    exact ⟨(hmark _ howner₂).1, h₂.trans (hmark _ howner₂).2⟩

theorem evaluateCandidate (url : Option Str) (tenant : Str) (rule : RuleConfig) (c : Candidate) :
    DeliversOnce pg (evaluateCandidate url tenant rule c) := by
  refine bind (exec rfl) fun past => ?_
  split
  · exact insertAlert _ url tenant rule c
  · exact pure _

theorem tryEvaluateTenant (url : Option Str) (tenant : Str) : DeliversOnce pg (tryEvaluateTenant url tenant) := by
  refine tryCatch (transaction (bind (exec rfl) fun _ => bind (exec rfl) fun rule => ?_)) fun _ => exec rfl
  split
  · exact pure _
  · exact bind (exec rfl) fun candidates => forM fun c => evaluateCandidate url tenant _ c

end DeliversOnce

end

/-! ### Receipts -/

/-- What a webhook of the alert says. -/
def Alert.payload (a : Alert) : WebhookPayload where
  alertId := a.id
  tenant := a.tenant
  ruleType := .failedLoginBurst
  srcIp := a.srcIp
  eventCount := a.eventCount
  threshold := a.threshold
  windowSeconds := a.windowSeconds
  windowStart := a.windowStart
  windowEnd := a.windowEnd

/-- `webhook_sent_at` says whether a webhook was delivered under the id of the alert, and it said what the row says. -/
structure Alert.Receipted (ds : List Delivery) (a : Alert) : Prop where
  unsent : a.webhookSentAt = none → ∀ d ∈ ds, d.payload.alertId ≠ a.id
  sent : ∀ t ∈ a.webhookSentAt, t = a.triggeredAt ∧ ∃ d ∈ ds, d.payload = a.payload ∧ d.ruleId = a.ruleId ∧ d.sentAt = t

/-- Later deliveries are under other ids. -/
theorem Alert.Receipted.append {a : Alert} {ds ds' : List Delivery} (h : a.Receipted ds)
    (hnew : ∀ d ∈ ds', d.payload.alertId ≠ a.id) : a.Receipted (ds ++ ds') where
  unsent hnone := List.forall_mem_append.2 ⟨h.unsent hnone, hnew⟩
  sent t ht := by
    obtain ⟨htime, d, hd, hpayload⟩ := h.sent t ht
    exact ⟨htime, d, List.mem_append_left _ hd, hpayload⟩

/-- The alerts of an evaluation that commits are receipts of its deliveries. -/
theorem receipted_of_inserted {tenant : Str} {rule : RuleConfig} {t t' : Session} {now : Time} {found : List Candidate}
    {outs : List Outcome} (h : Inserted tenant rule t now found outs t')
    (hold : ∀ d ∈ t.log.delivered, d.payload.alertId < t.db.sequences.alert) {o : Outcome} (ho : o ∈ outs) :
    (o.alert tenant rule now).Receipted t'.log.delivered := by
  have hnodup : (outs.map (·.alertId)).Nodup := h.ids ▸ List.nodup_range'
  rw [h.delivered]
  cases hsent : o.delivered with
  | false =>
    refine ⟨fun _ => List.forall_mem_append.2 ⟨fun d hd => ?_, fun d hd heq => ?_⟩, fun time htime => ?_⟩
    · exact ((hold d hd).trans_le (h.id_mem ho).1).ne
    · obtain ⟨o', ho', rfl⟩ := List.mem_map.1 hd
      obtain ⟨ho', hsent'⟩ := List.mem_filter.1 ho'
      obtain rfl : o' = o := List.inj_on_of_nodup_map hnodup ho' ho heq
      rw [hsent] at hsent'
      cases hsent'
    · simp [Outcome.alert, hsent] at htime
  | true =>
    refine ⟨fun hnone => ?_, fun time htime => ?_⟩
    · simp [Outcome.alert, hsent] at hnone
    · obtain rfl : now = time := by simpa [Outcome.alert, hsent] using htime
      refine ⟨rfl, o.delivery tenant rule now, List.mem_append_right _ ?_, rfl, rfl, rfl⟩
      exact List.mem_map_of_mem (List.mem_filter.2 ⟨ho, hsent⟩)

namespace System
variable {w : World} {url : Option Str} {s : System}

structure Receipts (s : System) : Prop where
  once : (s.log.delivered.map (·.payload.alertId)).Nodup
  accounted : s.Accounted
  receipted : ∀ a ∈ s.db.alerts, a.Receipted s.log.delivered

theorem Receipts.init : Receipts {} := ⟨List.nodup_nil, ⟨by simp, by simp⟩, by simp⟩

theorem Receipts.step (h : s.Receipts) (a : Action) : (s.step w url a).Receipts := by
  obtain ⟨_, _, hgrown, -⟩ := step_backs w url h.accounted a
  have haccounted := hgrown.accounted h.accounted
  cases step_cases w url h.accounted.alerts a with
  | quiet _ hq =>
    refine ⟨hq.delivered ▸ h.once, haccounted, fun b hb => ?_⟩
    rw [hq.delivered]
    exact h.receipted b (hq.alerts ▸ hb)
  | evaluate tenant queue ν between s' _ _ hs' hdb hlog hcase =>
    have hdelivers : (s.session w ν between).Delivers s' :=
      hs' ▸ (DeliversOnce.tryEvaluateTenant url tenant _ (session_owner w s ν between)).2
    obtain ⟨ds, hds, hnodup, hlt⟩ := hdelivers.delivered
    have hdelivered : (s.step w url a).log.delivered = s.log.delivered ++ ds := by
      rw [hlog, hds]
      rfl
    have hold : ∀ b ∈ s.db.alerts, b.Receipted (s.step w url a).log.delivered := fun b hb => by
      rw [hdelivered]
      refine (h.receipted b hb).append fun d hd => ?_
      exact ((h.accounted.alerts b hb).trans_le (hlt d hd).1).ne'
    refine ⟨?_, haccounted, ?_⟩
    · rw [hdelivered, List.map_append]
      refine h.once.append hnodup fun i hi hi' => ?_
      obtain ⟨d, hd, rfl⟩ := List.mem_map.1 hi
      obtain ⟨d', hd', heq⟩ := List.mem_map.1 hi'
      exact (h.accounted.delivered d hd).not_ge (heq ▸ (hlt d' hd').1)
    · cases hcase with
      | undone _ hu => exact fun b hb => hold b (hu.alerts ▸ hdb ▸ hb)
      | committed hc hcase =>
        cases hcase with
        | noRule _ halerts => exact fun b hb => hold b (halerts ▸ hdb ▸ hb)
        | rule rule found outs _ _ _ hi =>
          intro b hb
          rw [hdb, hi.alerts] at hb
          rcases List.mem_append.1 hb with hb | hb
          · exact hold b hb
          · obtain ⟨o, ho, rfl⟩ := List.mem_map.1 hb
            rw [hlog]
            exact receipted_of_inserted hi h.accounted.delivered ho

theorem Receipts.run (h : s.Receipts) (actions : List Action) : (s.run w url actions).Receipts := by
  induction actions generalizing s with
  | nil => exact h
  | cons a actions ih => exact ih (h.step a)

end System

/-- In every state that any run of the system reaches, no id has been delivered twice, also not one whose evaluation was
rolled back; and an alert says that its webhook was sent exactly if one was delivered under its id, when the alert fired
and with the payload of its row. -/
theorem receipts (w : World) (url : Option Str) (actions : List Action) :
    let s := System.run w url {} actions
    (s.log.delivered.map (·.payload.alertId)).Nodup ∧ ∀ a ∈ s.db.alerts, a.Receipted s.log.delivered := by
  intro s
  have h : s.Receipts := System.Receipts.init.run actions
  exact ⟨h.once, h.receipted⟩

end LogMgmt
