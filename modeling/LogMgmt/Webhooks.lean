import LogMgmt.Cooldown
import LogMgmt.Paging

/-!
# Webhooks

A webhook is POSTed inside the transaction that inserts its alert, so it is backed by a committed alert
exactly when no command of that transaction raises after it was delivered (`webhooks_durable_iff`).
-/

namespace LogMgmt
open Prog

/-! ### After a delivery -/

/-- The webhook is not taken back by what a command does. -/
def Cmd.sends : Cmd → Bool
  | sendWebhook _ _ => true
  | _ => false

section
variable {pg : Pg} {s : Session}

theorem handle_delivered (pg : Pg) (s : Session) {c : Cmd} (hc : c.sends = false) :
    (handle pg c s).2.log.delivered = s.log.delivered := by
  cases c with
  | begin =>
    show (s.interfere.doBegin).2.log.delivered = _
    unfold Session.doBegin
    split <;> rfl
  | commit =>
    show (s.interfere.doCommit).2.log.delivered = _
    unfold Session.doCommit
    repeat' split
    all_goals rfl
  | rollback => rfl
  | sql stmt =>
    have hrecord : ∀ r, (s.interfere.record stmt r).delivered = s.log.delivered := fun r => by
      cases stmt <;> rfl
    show (s.interfere.doSql pg stmt).2.log.delivered = _
    unfold Session.doSql
    split
    · rfl
    split
    · rfl
    split
    · rfl
    · dsimp only
      split <;> exact hrecord _
  | sendWebhook url payload => cases hc

/-- A webhook was delivered after `s`. -/
def Session.DeliveredSince (s s' : Session) : Prop := s.log.delivered.length < s'.log.delivered.length

theorem handle_sendWebhook_ok (pg : Pg) (s : Session) (url : Str) (payload : WebhookPayload) :
    (handle pg (.sendWebhook url payload) s).1.isOk ∧
      s.log.delivered.length ≤ (handle pg (.sendWebhook url payload) s).2.log.delivered.length := by
  cases hacc : (s.nature 0).accepted with
  | true =>
    rw [Session.handle_accepted pg hacc]
    exact ⟨rfl, by simp [Log.deliver]⟩
  | false =>
    rw [Session.handle_rejected pg hacc]
    exact ⟨rfl, Nat.le_refl _⟩

theorem handle_delivered_le (pg : Pg) (s : Session) (c : Cmd) :
    s.log.delivered.length ≤ (handle pg c s).2.log.delivered.length := by
  cases hc : c.sends with
  | false => rw [handle_delivered pg s hc]
  | true =>
    cases c with
    | sendWebhook url payload => exact (handle_sendWebhook_ok pg s url payload).2
    | _ => cases hc

/-! ### The program stops at the first exception -/

/-- Whether a command raised. -/
def Cmd.Answer.raised {c : Cmd} (r : c.Answer) : Bool := !r.isOk

abbrev App.Strict (p : App α) (b : Bool) : Prop :=
  Prog.Strict (fun _ r => Cmd.Answer.raised r) (fun c => c.sends = false) p b

theorem strict_exec (c : Cmd) : App.Strict (exec c) false := by
  refine ⟨by simp, fun r => ?_⟩
  cases r <;> rfl

theorem strict_withConn {p : App α} (hp : App.Strict p false) : App.Strict (withConn p) false := by
  refine Safe.bind (J := fun b => b = false) (Safe.tryCatch (L := fun b => b = true) hp fun e b hb => ?_)
    fun a b hb => ?_
  · subst hb
    exact ⟨fun _ => rfl, fun _ => rfl⟩
  · subst hb
    exact Safe.bind (strict_exec .commit) fun _ _ hb => hb

theorem strict_transaction {p : App α} (hp : App.Strict p false) : App.Strict (transaction p) false := by
  refine Safe.bind (strict_exec .begin) fun _ b hb => ?_
  subst hb
  exact strict_withConn hp

theorem strict_bind {p : App α} {f : α → App β} (hp : App.Strict p false) (hf : ∀ a, App.Strict (f a) false) :
    App.Strict (p >>= f) false := by
  refine Safe.bind hp fun a b hb => ?_
  subst hb
  exact hf a

theorem strict_notify (url : Option Str) (tenant : Str) (rule : RuleConfig) (c : Candidate) (alertId : Nat) :
    App.Strict (notify url tenant rule c alertId) false := by
  unfold notify
  split
  · rfl
  · rfl
  · refine strict_bind (strict_exec _) fun delivered => ?_
    split
    · exact strict_exec _
    · rfl

theorem strict_evaluateCandidate (url : Option Str) (tenant : Str) (rule : RuleConfig) (c : Candidate) :
    App.Strict (evaluateCandidate url tenant rule c) false := by
  refine strict_bind (strict_exec _) fun past => ?_
  split
  · exact strict_bind (strict_exec _) fun alertId => strict_notify url tenant rule c alertId
  · rfl

theorem strict_evaluateTenant (url : Option Str) (tenant : Str) : App.Strict (evaluateTenant url tenant) false := by
  refine strict_transaction (strict_bind (strict_exec _) fun _ => strict_bind (strict_exec _) fun rule => ?_)
  split
  · rfl
  · refine strict_bind (strict_exec _) fun candidates => ?_
    exact Safe.forM (fun c _ b hb => by subst hb; exact strict_evaluateCandidate url tenant _ c) rfl

/-- No command of the evaluation raises once a webhook of it has been delivered. -/
def NoneRaisesAfterDelivery (pg : Pg) (url : Option Str) (tenant : Str) (s : Session) : Prop :=
  Along (handle pg) (fun c s' => ¬ s.DeliveredSince s' ∨ Cmd.Answer.raised (handle pg c s').1 = false)
    (evaluateTenant url tenant) s

theorem noneRaisesAfterDelivery_iff (pg : Pg) (url : Option Str) (tenant : Str) (s : Session) :
    NoneRaisesAfterDelivery pg url tenant s ↔ Commits pg url tenant s = true ∨
      ¬ s.DeliveredSince ((tryEvaluateTenant url tenant).run (handle pg) s).2 := by
  have hstop := Strict.along_iff s.DeliveredSince (h := handle pg) (s := s) (fun c s' hc hs => ?_)
    (fun c s' hr hs => ?_) (fun c s' hs => ?_) (strict_evaluateTenant url tenant)
  · refine hstop.trans ?_
    unfold Prog.wp Commits tryEvaluateTenant
    rw [run_tryCatch]
    rcases (evaluateTenant url tenant).run (handle pg) s with ⟨e | u, s'⟩
    · dsimp only
      rw [run_exec, ends_error, Session.DeliveredSince, Session.DeliveredSince, handle_delivered pg s' rfl]
      simp [Except.isOk, Except.toBool]
    · simp [Except.isOk, Except.toBool]
  · rwa [Session.DeliveredSince, handle_delivered pg s' hc]
  · cases hc : c.sends with
    | false => rwa [Session.DeliveredSince, handle_delivered pg s' hc]
    | true =>
      cases c with
      | sendWebhook url payload =>
        simp [Cmd.Answer.raised, (handle_sendWebhook_ok pg s' url payload).1] at hr
      | _ => cases hc
  · exact hs.trans_le (handle_delivered_le pg s' c)

end

/-! ### Deliveries and alerts -/

/-- The table has the alert of the delivery, marked as sent. -/
def Db.Backs (db : Db) (d : Delivery) : Prop :=
  ∃ a ∈ db.alerts, a.id = d.payload.alertId ∧ a.tenant = d.payload.tenant ∧ a.srcIp = d.payload.srcIp ∧
    a.webhookSentAt.isSome

def Delivery.key (d : Delivery) : AlertKey := (d.payload.tenant, d.ruleId, d.payload.srcIp)

namespace System
variable {w : World} {url : Option Str} {s s' : System} {a : Action}

/-- If the step is an evaluation, none of its commands raises after a delivery. -/
def Meets (w : World) (url : Option Str) (s : System) : Action → Prop
  | .evaluate ν between => ∀ tenant ∈ s.queue.head?, NoneRaisesAfterDelivery w.pg url tenant (s.session w ν between)
  | _ => True

def AllMeet (w : World) (url : Option Str) : System → List Action → Prop
  | _, [] => True
  | s, a :: rest => s.Meets w url a ∧ AllMeet w url (s.step w url a) rest

/-- The ids of alerts and deliveries have been taken from the sequence. -/
structure Accounted (s : System) : Prop where
  alerts : ∀ a ∈ s.db.alerts, a.id < s.db.sequences.alert
  delivered : ∀ d ∈ s.log.delivered, d.payload.alertId < s.db.sequences.alert

/-- New alerts and deliveries have new ids. -/
structure Grown (s s' : System) (news : List Alert) (ds : List Delivery) : Prop where
  alerts : s'.db.alerts = s.db.alerts ++ news
  delivered : s'.log.delivered = s.log.delivered ++ ds
  next : s.db.sequences.alert ≤ s'.db.sequences.alert
  newAlerts : ∀ a ∈ news, s.db.sequences.alert ≤ a.id ∧ a.id < s'.db.sequences.alert
  newDelivered : ∀ d ∈ ds, s.db.sequences.alert ≤ d.payload.alertId ∧ d.payload.alertId < s'.db.sequences.alert

namespace Grown
variable {news : List Alert} {ds : List Delivery}

theorem nil (halerts : s'.db.alerts = s.db.alerts) (hdelivered : s'.log.delivered = s.log.delivered)
    (hnext : s.db.sequences.alert ≤ s'.db.sequences.alert) : Grown s s' [] [] :=
  ⟨by rw [halerts, List.append_nil], by rw [hdelivered, List.append_nil], hnext, by simp, by simp⟩

theorem accounted (h : Grown s s' news ds) (hs : s.Accounted) : s'.Accounted where
  alerts a ha := by
    rw [h.alerts] at ha
    rcases List.mem_append.1 ha with ha | ha
    · exact (hs.alerts a ha).trans_le h.next
    · exact (h.newAlerts a ha).2
  delivered d hd := by
    rw [h.delivered] at hd
    rcases List.mem_append.1 hd with hd | hd
    · exact (hs.delivered d hd).trans_le h.next
    · exact (h.newDelivered d hd).2

/-- A delivery of the past gains or loses no alert. -/
theorem backs_iff (h : Grown s s' news ds) {d : Delivery} (hd : d.payload.alertId < s.db.sequences.alert) :
    s'.db.Backs d ↔ s.db.Backs d := by
  unfold Db.Backs
  rw [h.alerts]
  constructor
  · rintro ⟨a, ha, hid, hrest⟩
    rcases List.mem_append.1 ha with ha | ha
    · exact ⟨a, ha, hid, hrest⟩
    · exact absurd (hid ▸ (h.newAlerts a ha).1) hd.not_ge
  · rintro ⟨a, ha, hrest⟩
    exact ⟨a, List.mem_append_left _ ha, hrest⟩

theorem all_backs_iff (h : Grown s s' news ds) (hs : s.Accounted) :
    (∀ d ∈ s'.log.delivered, s'.db.Backs d) ↔
      (∀ d ∈ s.log.delivered, s.db.Backs d) ∧ ∀ d ∈ ds, s'.db.Backs d := by
  rw [h.delivered, List.forall_mem_append]
  exact and_congr (forall₂_congr fun d hd => h.backs_iff (hs.delivered d hd)) Iff.rfl

end Grown

theorem inserted_grown {tenant : Str} {rule : RuleConfig} {t t' : Session} {now : Time} {found : List Candidate}
    {outs : List Outcome} (h : Inserted tenant rule t now found outs t') (hdb : t.db = s.db) (hlog : t.log = s.log)
    (hdb' : s'.db = t'.db) (hlog' : s'.log = t'.log) :
    Grown s s' (outs.map (·.alert tenant rule now)) (deliveries tenant rule now outs) := by
  have hids : ∀ o ∈ outs, s.db.sequences.alert ≤ o.alertId ∧ o.alertId < s'.db.sequences.alert := by
    intro o ho
    rw [hdb', h.next, ← hdb]
    exact h.id_mem ho
  refine ⟨?_, ?_, ?_, fun a ha => ?_, fun d hd => ?_⟩
  · rw [hdb', h.alerts, hdb]
  · rw [hlog', h.delivered, hlog]
  · rw [hdb', h.next, hdb]
    exact Nat.le_add_right _ _
  · obtain ⟨o, ho, rfl⟩ := List.mem_map.1 ha
    exact hids o ho
  · obtain ⟨o, ho, rfl⟩ := List.mem_map.1 hd
    exact hids o (List.mem_of_mem_filter ho)

/-- The alerts of delivered webhooks are inserted with them. -/
theorem inserted_backs {tenant : Str} {rule : RuleConfig} {t t' : Session} {now : Time} {found : List Candidate}
    {outs : List Outcome} (h : Inserted tenant rule t now found outs t') :
    ∀ d ∈ deliveries tenant rule now outs, t'.db.Backs d := by
  intro d hd
  obtain ⟨o, ho, rfl⟩ := List.mem_map.1 hd
  obtain ⟨ho, hsent⟩ := List.mem_filter.1 ho
  refine ⟨o.alert tenant rule now, ?_, rfl, rfl, rfl, ?_⟩
  · rw [h.alerts]
    exact List.mem_append_right _ (List.mem_map_of_mem ho)
  · simp [Outcome.alert, hsent]

/-- The deliveries `ds` are those of new alerts, for addresses past their cooldown. -/
structure Due (s : System) (news : List Alert) (ds : List Delivery) : Prop where
  alert : ∀ d ∈ ds, ∃ a ∈ news, a.key = d.key ∧ a.triggeredAt = d.sentAt
  past : ∀ d ∈ ds, ∀ a ∈ s.db.alerts, a.key = d.key → a.triggeredAt + seconds d.cooldownSeconds ≤ d.sentAt
  nodup : (ds.map Delivery.key).Nodup

theorem Due.nil {news : List Alert} : Due s news [] := ⟨by simp, by simp, List.nodup_nil⟩

theorem inserted_due {tenant : Str} {rule : RuleConfig} {t t' : Session} {now : Time} {found : List Candidate}
    {outs : List Outcome} (h : Inserted tenant rule t now found outs t') (hdb : t.db = s.db)
    (hfound : (found.map (·.srcIp)).Nodup) :
    Due s (outs.map (·.alert tenant rule now)) (deliveries tenant rule now outs) where
  alert d hd := by
    obtain ⟨o, ho, rfl⟩ := List.mem_map.1 hd
    exact ⟨o.alert tenant rule now, List.mem_map_of_mem (List.mem_of_mem_filter ho), rfl, rfl⟩
  past d hd a ha hkey := by
    obtain ⟨o, ho, rfl⟩ := List.mem_map.1 hd
    exact h.past_of_mem (List.mem_of_mem_filter ho) (hdb ▸ ha) hkey
  nodup := by
    have hkeys : (deliveries tenant rule now outs).map Delivery.key =
        ((outs.filter (·.delivered)).map (·.candidate.srcIp)).map fun ip => (tenant, rule.id, ip) := by
      rw [deliveries, List.map_map, List.map_map]
      rfl
    rw [hkeys]
    exact ((h.srcIps_nodup hfound).sublist (List.filter_sublist.map _)).map
      fun ip ip' heq => (Prod.mk.inj (Prod.mk.inj heq).2).2

/-- Deliveries with the ids of alerts still to come have alerts only if there are none. -/
theorem undone_backs_iff {db : Db} {ds : List Delivery} {next : Nat} (halerts : ∀ a ∈ db.alerts, a.id < next)
    (hds : ∀ d ∈ ds, next ≤ d.payload.alertId) : (∀ d ∈ ds, db.Backs d) ↔ ds = [] := by
  constructor
  · intro hall
    refine List.eq_nil_iff_forall_not_mem.2 fun d hd => ?_
    obtain ⟨a, ha, hid, -⟩ := hall d hd
    exact absurd (hid ▸ hds d hd) (halerts a ha).not_ge
  · rintro rfl
    simp

theorem step_backs (w : World) (url : Option Str) (hs : s.Accounted) (a : Action) :
    ∃ news ds, Grown s (s.step w url a) news ds ∧
    ((∀ d ∈ ds, (s.step w url a).db.Backs d) ↔ s.Meets w url a) ∧ (s.Meets w url a → Due s news ds) := by
  cases step_cases w url hs.alerts a with
  | quiet hnone hq =>
    refine ⟨[], [], .nil hq.alerts hq.delivered hq.next.ge, ?_, fun _ => .nil⟩
    simp only [List.not_mem_nil, false_implies, implies_true, true_iff]
    cases a with
    | evaluate ν between =>
      intro tenant ht
      obtain ⟨queue, hqueue⟩ := List.head?_eq_some_iff.1 ht
      exact absurd hqueue (hnone ν between tenant queue rfl)
    | _ => trivial
  | evaluate tenant queue ν between t' ha hqueue ht' hdb hlog hcase =>
    subst ha
    have hmeets : s.Meets w url (.evaluate ν between) ↔ Commits w.pg url tenant (s.session w ν between) = true ∨
        ¬ (s.session w ν between).DeliveredSince t' := by
      rw [ht', ← noneRaisesAfterDelivery_iff]
      simp [Meets, hqueue]
    rw [hmeets]
    cases hcase with
    | committed hc h =>
      have hok : Commits w.pg url tenant (s.session w ν between) = true ∨
          ¬ (s.session w ν between).DeliveredSince t' := .inl hc
      cases h with
      | noRule hrule halerts hnext hfired hdelivered =>
        exact ⟨[], [], .nil (hdb ▸ halerts) (hlog ▸ hdelivered) (hdb ▸ hnext.ge), by simpa using hok, fun _ => .nil⟩
      | rule rule found outs hrule hfound _ hi =>
        refine ⟨_, _, inserted_grown hi rfl rfl hdb hlog, ⟨fun _ => hok, fun _ => ?_⟩,
          fun _ => inserted_due hi rfl (nodup_of_detected hfound)⟩
        rw [hdb]
        exact inserted_backs hi
    | undone hc h =>
      obtain ⟨ds, hds, hlt⟩ := h.delivered
      have hiff : (Commits w.pg url tenant (s.session w ν between) = true ∨
          ¬ (s.session w ν between).DeliveredSince t') ↔ ds = [] := by
        rw [hc, Session.DeliveredSince, hds, List.length_append]
        simp
      have halerts : t'.db.alerts = s.db.alerts := h.alerts
      refine ⟨[], ds, ⟨?_, ?_, ?_, by simp, ?_⟩, ?_, fun hmeets => ?_⟩
      · rw [hdb, halerts, List.append_nil]
      · rw [hlog, hds]
        rfl
      · rw [hdb]
        exact h.next
      · rw [hdb]
        exact hlt
      · rw [hiff, hdb]
        exact undone_backs_iff (halerts ▸ hs.alerts) fun d hd => (hlt d hd).1
      · rw [hiff.1 hmeets]
        exact .nil

theorem run_backs (hs : s.Accounted) (actions : List Action) :
    (∀ d ∈ (s.run w url actions).log.delivered, (s.run w url actions).db.Backs d) ↔
      (∀ d ∈ s.log.delivered, s.db.Backs d) ∧ s.AllMeet w url actions := by
  induction actions generalizing s with
  | nil => exact (and_iff_left trivial).symm
  | cons a actions ih =>
    obtain ⟨news, ds, hg, hstep, -⟩ := step_backs w url hs a
    show (∀ d ∈ ((s.step w url a).run w url actions).log.delivered, _) ↔ _ ∧ s.Meets w url a ∧ _
    rw [show s.run w url (a :: actions) = (s.step w url a).run w url actions from rfl, ih (hg.accounted hs),
      hg.all_backs_iff hs, hstep, and_assoc]

/-- Deliveries have their alerts, and are a cooldown apart. -/
structure Punctual (s : System) : Prop where
  alert : ∀ d ∈ s.log.delivered, ∃ a ∈ s.db.alerts, a.key = d.key ∧ a.triggeredAt = d.sentAt
  spaced : Spaced Delivery.key Delivery.sentAt (fun d => seconds d.cooldownSeconds) s.log.delivered

theorem Punctual.grown (h : s.Punctual) {news : List Alert} {ds : List Delivery} (hg : Grown s s' news ds)
    (hd : Due s news ds) : s'.Punctual where
  alert d hmem := by
    rw [hg.delivered] at hmem
    rw [hg.alerts]
    rcases List.mem_append.1 hmem with hmem | hmem
    · obtain ⟨a, ha, hrest⟩ := h.alert d hmem
      exact ⟨a, List.mem_append_left _ ha, hrest⟩
    · obtain ⟨a, ha, hrest⟩ := hd.alert d hmem
      exact ⟨a, List.mem_append_right _ ha, hrest⟩
  spaced := by
    rw [hg.delivered]
    refine h.spaced.append (fun d hold d' hnew hkey => ?_) hd.nodup
    obtain ⟨a, ha, hakey, htime⟩ := h.alert d hold
    rw [← htime]
    exact hd.past d' hnew a ha (hakey.trans hkey)

theorem run_punctual (hs : s.Accounted) (h : s.Punctual) {actions : List Action} (hmeet : s.AllMeet w url actions) :
    (s.run w url actions).Punctual := by
  induction actions generalizing s with
  | nil => exact h
  | cons a actions ih =>
    obtain ⟨news, ds, hg, -, hdue⟩ := step_backs w url hs a
    exact ih (hg.accounted hs) (h.grown hg (hdue hmeet.1)) hmeet.2

end System

instance (db : Db) (d : Delivery) : Decidable (db.Backs d) :=
  inferInstanceAs (Decidable (∃ a ∈ db.alerts, _))

/-- The delivered webhooks of one rule and address are a cooldown apart. -/
def DeliveriesSpaced (deliveries : List Delivery) : Prop :=
  Spaced Delivery.key Delivery.sentAt (fun d => seconds d.cooldownSeconds) deliveries

instance (deliveries : List Delivery) : Decidable (DeliveriesSpaced deliveries) :=
  inferInstanceAs (Decidable (List.Pairwise _ _))

/-- Over any run of the engine on any rows: every delivered webhook is backed by a committed alert, marked
as sent, and those of one rule and address are a cooldown apart, exactly if no command of an evaluation
raises after a webhook of it was delivered. -/
theorem webhooks_durable_iff (w : World) (url : Option Str) (db : Db)
    (hdb : ∀ a ∈ db.alerts, a.id < db.sequences.alert) (actions : List Action) :
    let s := System.run w url { db } actions
    ((∀ d ∈ s.log.delivered, s.db.Backs d) ∧ DeliveriesSpaced s.log.delivered) ↔
      System.AllMeet w url { db } actions := by
  intro s
  have hs : System.Accounted { db } := ⟨hdb, by simp⟩
  have hiff : (∀ d ∈ s.log.delivered, s.db.Backs d) ↔ System.AllMeet w url { db } actions :=
    (System.run_backs hs actions).trans (and_iff_right (by simp))
  rw [hiff, and_iff_left_iff_imp]
  intro hmeet
  exact (System.run_punctual hs ⟨by simp, .nil⟩ hmeet).spaced

/-- A tenant with a rule and a failed login, nothing alerted yet. -/
def Db.sample : Db where
  users := [⟨1, str "admin_a", str "x", .admin, str "demoA", 0⟩]
  alertRules := [⟨1, str "demoA", .failedLoginBurst, 1, 300, 900, true, 0, 0⟩]
  events := [{ EventRow.sample 1 0 with
    eventType := str "login_failed"
    srcIp := some (.v4 0x0A000001 32) }]
  sequences := { event := 2, rule := 2, user := 2 }

theorem webhooks_durable_calm :
    System.AllMeet .sample (some (str "http://hook")) { db := .sample } (tickAt 0 fun _ => false) :=
  (webhooks_durable_iff .sample (some (str "http://hook")) .sample (by decide) (tickAt 0 fun _ => false)).1
    (by decide)

/-- A COMMIT that raises after the POST: the webhook has no alert, and the next tick sends another one. -/
theorem webhook_lost :
    let s := System.run .sample (some (str "http://hook")) { db := .sample }
      (tickAt 0 (· == 8) ++ tickAt (seconds 30) fun _ => false)
    (∃ d ∈ s.log.delivered, ¬ s.db.Backs d) ∧ ¬ DeliveriesSpaced s.log.delivered := by
  decide

end LogMgmt
