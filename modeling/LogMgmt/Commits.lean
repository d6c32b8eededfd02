import LogMgmt.OneEvaluation

/-!
# When an evaluation commits

Where no command fails, two things can stop `evaluate_tenant`: an alert is due whose count is no `integer`, or an address
has failed logins enough and one of them has a time that psycopg cannot load. Then the INSERT or the fetch of `DETECT_SQL`
raises, and all alerts of the evaluation are lost with it (`evaluation_commits_iff`).
-/

namespace LogMgmt
open Prog

/-- What the types and the constraints of the tables promise. -/
structure Db.Constrained (db : Db) : Prop where
  rules : db.RulesChecked
  integers : ∀ r ∈ db.alertRules, int4Ok r.threshold ∧ int4Ok r.windowSeconds
  one_rule : ∀ r ∈ db.alertRules, ∀ r' ∈ db.alertRules, r.tenant = r'.tenant → r.ruleType = r'.ruleType → r = r'
  counts : ∀ a ∈ db.alerts, int4Ok a.eventCount
  ids : ∀ a ∈ db.alerts, a.id < db.sequences.alert

/-! ### What every command keeps -/

def Db.HoldsRule (tenant : Str) (id : Nat) (db : Db) : Prop := ∃ r ∈ db.alertRules, r.tenant = tenant ∧ r.id = id

/-- No rule is deleted, or given to another tenant. -/
theorem kept_holdsRule (pg : Pg) (tenant : Str) (id : Nat) :
    Kept pg (fun _ _ => True) (Db.HoldsRule tenant id) (fun _ => True) where
  apply db w hdb _ := by
    obtain ⟨r, hr, htenant, hid⟩ := hdb
    cases w with
    | insertRule row => exact ⟨r, List.mem_append_left _ hr, htenant, hid⟩
    | updateRule t i set now =>
      refine ⟨_, List.mem_map_of_mem hr, ?_, ?_⟩ <;> split <;> assumption
    | _ => exact ⟨r, hr, htenant, hid⟩
  nextval _ _ _ _ hdb := hdb
  writes _ _ _ _ _ _ _ _ _ _ := trivial

/-- `event_count` is an `integer`. -/
theorem kept_counts (pg : Pg) :
    Kept pg (fun _ _ => True) (fun db => ∀ a ∈ db.alerts, int4Ok a.eventCount)
      (fun w => ∀ row, w = .insertAlert row → int4Ok row.eventCount) where
  apply db w hdb hw := by
    cases w with
    | insertAlert row =>
      intro a ha
      rcases List.mem_append.1 ha with ha | ha
      · exact hdb a ha
      · rw [List.mem_singleton.1 ha]
        exact hw row rfl
    | markWebhookSent t i now =>
      intro a ha
      obtain ⟨a', ha', rfl⟩ := List.mem_map.1 ha
      split <;> exact hdb a' ha'
    | _ => exact hdb
  nextval _ _ _ _ hdb := hdb
  writes stmt ctx db r ws _ _ hx w hw row hrow := by
    subst hrow
    cases stmt with
    | insertAlert a =>
      simp only [Stmt.exec] at hx
      split_ifs at hx with hint
      cases hx
      obtain rfl := Write.insertAlert.inj (List.mem_singleton.1 hw)
      simp only [List.all_cons, Bool.and_eq_true, Bool.not_eq_true', Bool.not_eq_false] at hint
      exact hint.1
    | _ =>
      cases Stmt.exec_writes hx <;> simp at hw

/-- No command of the session fails, and the rule is in the table. -/
structure Session.Working (tenant : Str) (id : Nat) (s : Session) : Prop where
  calm : s.Calm
  holds : s.Holds (Db.HoldsRule tenant id) fun _ => True

section
variable {pg : Pg} {url : Option Str} {tenant : Str} {rule : RuleConfig} {s₀ s s' : Session} {now : Time}
    {c : Candidate}
  {done : List Candidate} {outs : List Outcome}

theorem Session.Working.handle (pg : Pg) (cmd : Cmd) {id : Nat} (h : s.Working tenant id) :
    (handle pg cmd s).2.Working tenant id :=
  ⟨h.calm.handle pg cmd, (kept_holdsRule pg tenant id).handle (by cases cmd <;> trivial) h.holds⟩

theorem Session.Working.view (pg : Pg) {id : Nat} (h : s.Working tenant id) : s.interfere.view.HoldsRule tenant id :=
  (kept_holdsRule pg tenant id).applyAll (h.holds.others 0 _ h.holds.db) fun _ _ => trivial

theorem wp_sql_calm (hcalm : s.Calm) (hs : s.conn.status = .inTx) {stmt : Stmt} {r : stmt.Resp} {ws : List Write}
    (hx : stmt.exec pg s.interfere.ctx s.interfere.view = .ok (r, ws)) {Q : stmt.Resp → Session → Prop}
    {X : Exn → Session → Prop} : wp (handle pg) (sql stmt) Q X s ↔ Q r (s.ran stmt r ws) := by
  rw [wp_sql, Session.handle_sql (hcalm 0) hs hx, ends_ok]

/-! ### The loop -/

theorem exec_markWebhookSent_isOk (pg : Pg) (ctx : Ctx) (db : Db) (id : Nat) :
    ∃ ws, (Stmt.markWebhookSent id).exec pg ctx db = .ok ((), ws) := by
  simp only [Stmt.exec]
  split <;> exact ⟨_, rfl⟩

theorem wp_notify_calm (hcalm : s.Calm) (hs : s.conn.status = .inTx) (r : Nat) :
    wp (handle pg) (notify url tenant rule c r) (fun _ _ => True) (fun _ _ => False) s := by
  unfold notify
  split
  · trivial
  · trivial
  rename_i url _
  rw [wp_bind, wp_exec]
  cases hacc : (s.nature 0).accepted with
  | false =>
    rw [Session.handle_rejected pg hacc, ends_ok]
    trivial
  | true =>
    have hcalm' := hcalm.handle pg (.sendWebhook url (webhookPayload tenant rule c r))
    rw [Session.handle_accepted pg hacc] at hcalm' ⊢
    rw [ends_ok]
    obtain ⟨ws, hx⟩ := exec_markWebhookSent_isOk pg _ _ r
    exact (wp_sql_calm hcalm' hs hx).2 trivial

theorem exec_insertAlert_isOk (pg : Pg) {ctx : Ctx} {db : Db} {a : NewAlert} (hctx : ctx.tenant = some a.tenant)
    (hne : a.tenant ≠ []) (hrule : db.HoldsRule a.tenant a.ruleId)
    (hint : int4Ok a.eventCount ∧ int4Ok a.threshold ∧ int4Ok a.windowSeconds) :
    ∃ r ws, (Stmt.insertAlert a).exec pg ctx db = .ok (r, ws) := by
  have hfk : (db.alertRules.any fun r => r.tenant = a.tenant ∧ r.id = a.ruleId) = true := by
    obtain ⟨r, hr, hkey⟩ := hrule
    exact List.any_eq_true.2 ⟨r, hr, decide_eq_true hkey⟩
  refine ⟨db.sequences.alert,
    [.insertAlert { a with id := db.sequences.alert, triggeredAt := ctx.now, webhookSentAt := none }], ?_⟩
  simp only [Stmt.exec, List.all_cons, List.all_nil, hint.1, hint.2.1, hint.2.2, hctx, rls, hfk, beq_self_eq_true,
    if_neg hne, Bool.and_self, Bool.not_true, Bool.false_eq_true, if_false]

theorem wp_evaluateCandidate_calm (h : Evaluating tenant rule s₀ now done outs s) (hc : c.srcIp ∉ done.map (·.srcIp))
    (hwork : s.Working tenant rule.id) (hne : tenant ≠ []) (hint : int4Ok rule.threshold ∧ int4Ok rule.windowSeconds)
    (hfits : pastCooldown s₀.db.alerts tenant rule now c.srcIp → int4Ok c.eventCount) :
    wp (handle pg) (evaluateCandidate url tenant rule c) (fun _ _ => True) (fun _ _ => False) s := by
  unfold evaluateCandidate
  rw [wp_bind, wp_sql_calm hwork.calm h.status (h.exec_pastCooldown hc)]
  have h₁ := h.read (.pastCooldown tenant rule.id c.srcIp rule.cooldownSeconds)
    (pastCooldown s₀.db.alerts tenant rule now c.srcIp) rfl (fun _ => rfl) rfl
  have hwork₁ := hwork.handle pg (.sql (.pastCooldown tenant rule.id c.srcIp rule.cooldownSeconds))
  rw [Session.handle_sql (hwork.calm 0) h.status (h.exec_pastCooldown hc)] at hwork₁
  cases hp : pastCooldown s₀.db.alerts tenant rule now c.srcIp with
  | false => trivial
  | true =>
    rw [hp] at h₁ hwork₁
    simp only [↓reduceIte]
    set a : NewAlert := ⟨tenant, rule.id, c.srcIp, c.eventCount, rule.threshold, rule.windowSeconds, c.windowStart,
      c.windowEnd⟩ with ha
    obtain ⟨r, ws, hx⟩ := exec_insertAlert_isOk pg (a := a) h₁.ctx.1 hne (hwork₁.view pg) ⟨hfits hp, hint⟩
    rw [wp_bind, wp_sql_calm hwork₁.calm h₁.status hx]
    have hwork₂ := hwork₁.handle pg (.sql (.insertAlert a))
    rw [Session.handle_sql (hwork₁.calm 0) h₁.status hx] at hwork₂
    exact wp_notify_calm hwork₂.calm (h₁.insert hp ha hx).status r

theorem wp_candidates_calm (h : Evaluating tenant rule s₀ now [] [] s) (hwork : s.Working tenant rule.id)
    (hids : ∀ a ∈ s₀.db.alerts, a.id < s₀.db.sequences.alert) (hne : tenant ≠ [])
    (hint : int4Ok rule.threshold ∧ int4Ok rule.windowSeconds)
    (htimes : ∀ c ∈ s.interfere.view.detected tenant pg rule now, c.timesOk)
    (hfits : ∀ c ∈ s.interfere.view.detected tenant pg rule now,
      pastCooldown s₀.db.alerts tenant rule now c.srcIp → int4Ok c.eventCount) :
    wp (handle pg)
      (do let candidates ← sql (.detect rule.windowSeconds rule.threshold)
          candidates.forM (evaluateCandidate url tenant rule))
      (fun _ s' => s'.Calm ∧ s'.conn.status = .inTx) (fun _ _ => False) s := by
  set found := s.interfere.ctx.order.arrange (fun _ => 0) (s.interfere.view.detected tenant pg rule now) with hfound
  have hx : (Stmt.detect rule.windowSeconds rule.threshold).exec pg s.interfere.ctx s.interfere.view =
      .ok (found, []) := by
    simp only [Stmt.exec, h.ctx.1, h.ctx.2]
    exact loaded_of_all fun c hc => htimes c ((RowOrder.arrange_perm _ _ _).mem_iff.1 hc)
  have hperm : found.Perm (s.interfere.view.detected tenant pg rule now) := hfound ▸ RowOrder.arrange_perm _ _ _
  have h₁ := h.read (.detect rule.windowSeconds rule.threshold) found rfl (fun _ => rfl) rfl
  have hwork₁ := hwork.handle pg (.sql (.detect rule.windowSeconds rule.threshold))
  rw [Session.handle_sql (hwork.calm 0) h.status hx] at hwork₁
  rw [wp_bind, wp_sql_calm hwork.calm h.status hx]
  refine wp_mono (wp_forM (I := fun done s => (∃ outs, Evaluating tenant rule s₀ now done outs s) ∧
    s.Working tenant rule.id) found _ ?_ ⟨⟨[], h₁⟩, hwork₁⟩) (fun _ s' hs' => ?_) fun _ _ hf => hf
  · rintro done c rest hsplit s ⟨⟨outs, hs⟩, hwork⟩
    have hc := next_candidate_fresh (nodup_of_detected hperm) hsplit
    have hcalm : wp (handle pg) (evaluateCandidate url tenant rule c) (fun _ _ => True) (fun _ _ => False) s :=
      wp_evaluateCandidate_calm hs hc hwork hne hint fun hpast =>
        hfits c (hperm.mem_iff.1 (by rw [hsplit]; simp)) hpast
    have hkeep : wp (handle pg) (evaluateCandidate url tenant rule c) (fun _ s' => s'.Working tenant rule.id)
        (fun _ s' => s'.Working tenant rule.id) s := wp_state.2 (run_always (fun cmd _ h => h.handle pg cmd) _ hwork)
    exact wp_mono (wp_and (wp_and hcalm hkeep) (wp_evaluateCandidate hs hc hids)) (fun _ _ h => ⟨h.2, h.1.2⟩)
      fun _ _ h => h.1.1
  · obtain ⟨⟨outs, hs⟩, hwork⟩ := hs'
    exact ⟨hwork.calm, hs.status⟩

/-! ### The transaction -/

theorem wp_evaluateTenant_calm (pg : Pg) (url : Option Str) (hcalm : s₀.Calm) (howner : s₀.Owner)
    (hids : ∀ a ∈ s₀.db.alerts, a.id < s₀.db.sequences.alert) (htext : textOk tenant) (hne : tenant ≠ [])
    (hrules : ∀ rule, (s₀.seenAt 2).ruleOf tenant = some rule →
      (∀ n db, db.HoldsRule tenant rule.id → (s₀.others n db).HoldsRule tenant rule.id) ∧
        s₀.db.HoldsRule tenant rule.id ∧ (int4Ok rule.threshold ∧ int4Ok rule.windowSeconds) ∧
        (∀ c ∈ (s₀.seenAt 3).detected tenant pg rule (s₀.nature 0).now, c.timesOk) ∧
        ∀ c ∈ (s₀.seenAt 3).detected tenant pg rule (s₀.nature 0).now,
          pastCooldown s₀.db.alerts tenant rule (s₀.nature 0).now c.srcIp → int4Ok c.eventCount) :
    wp (handle pg) (evaluateTenant url tenant) (fun _ _ => True) (fun _ _ => False) s₀ := by
  unfold evaluateTenant
  have hbegin := Session.handle_begin (s := s₀) pg (hcalm 0)
  have hcalm₁ := hcalm.handle pg .begin
  rw [hbegin] at hcalm₁
  rw [wp_transaction, hbegin, ends_ok, wp_withConn]
  have hset : (Stmt.setTenant tenant).exec pg s₀.opened.interfere.ctx s₀.opened.interfere.view = .ok ((), []) :=
    if_pos htext
  have hcalm₂ := hcalm₁.handle pg (.sql (.setTenant tenant))
  rw [Session.handle_sql (hcalm₁ 0) rfl hset] at hcalm₂
  rw [wp_bind, wp_sql_calm hcalm₁ rfl hset]
  set s₂ := s₀.opened.ran (.setTenant tenant) () [] with hs₂
  have hselect : (Stmt.selectRule .failedLoginBurst).exec pg s₂.interfere.ctx s₂.interfere.view =
      .ok ((s₀.seenAt 2).ruleOf tenant, []) := rfl
  have hcalm₃ := hcalm₂.handle pg (.sql (.selectRule .failedLoginBurst))
  rw [Session.handle_sql (hcalm₂ 0) rfl hselect] at hcalm₃
  rw [wp_bind, wp_sql_calm hcalm₂ rfl hselect]
  cases hrule : (s₀.seenAt 2).ruleOf tenant with
  | none =>
    rw [hrule] at hcalm₃
    rw [wp_pure, Session.handle_commit pg (hcalm₃ 0) rfl]
    trivial
  | some rule =>
    rw [hrule] at hcalm₃
    obtain ⟨hothers, hdb, hint, htimes, hfits⟩ := hrules rule hrule
    have hstart : Evaluating tenant rule s₀ (s₀.nature 0).now [] []
        (s₂.ran (.selectRule .failedLoginBurst) (some rule) []) := .start howner tenant rule
    have hwork : (s₂.ran (.selectRule .failedLoginBurst) (some rule) []).Working tenant rule.id :=
      ⟨hcalm₃, hothers 2 _ (hothers 1 _ (hothers 0 _ hdb)), fun n => hothers (n + 3), fun _ _ => trivial⟩
    refine wp_mono (wp_candidates_calm hstart hwork hids hne hint htimes hfits) (fun _ s' ⟨hcalm, hs⟩ => ?_) fun _ _ hf => hf
    rw [Session.handle_commit pg (hcalm 0) hs]
    trivial

end

section
variable {pg : Pg} {url : Option Str} {s : Session}

theorem ruleOf_eq {db : Db} (hdb : db.Constrained) {rule : AlertRule} (hrule : rule ∈ db.alertRules)
    (henabled : rule.enabled) : db.ruleOf rule.tenant = some rule.config := by
  cases h : db.ruleOf rule.tenant with
  | none => exact absurd ⟨rule, hrule, rfl, henabled⟩ (ruleOf_none h)
  | some config =>
    obtain ⟨rule', hrule', htenant, -, rfl⟩ := ruleOf_some h
    rw [hdb.one_rule rule' hrule' rule hrule htenant rfl]

/-- An interval holds the least and the greatest of some times exactly when it holds all of them. -/
theorem Candidate.timesOk_iff (rows : List EventRow) (ip : Inet) :
    (Candidate.ofRows rows ip).timesOk ↔ ∀ e ∈ fromIp ip rows, timeOk e.eventTime := by
  by_cases hne : fromIp ip rows = []
  · unfold Candidate.ofRows
    rw [hne]
    exact iff_of_true rfl (by simp)
  obtain ⟨⟨⟨first, hfirst, hstart⟩, hleast⟩, ⟨last, hlast, hend⟩, hgreatest⟩ := window_of_rows hne
  unfold Candidate.timesOk
  rw [← hstart, ← hend, Bool.and_eq_true]
  constructor
  · rintro ⟨hok, hok'⟩ e he
    have hge := hleast ⟨e, he, rfl⟩
    have hle := hgreatest ⟨e, he, rfl⟩
    rw [← hstart] at hge
    rw [← hend] at hle
    unfold timeOk at *
    simp only [Bool.and_eq_true, decide_eq_true_eq] at *
    exact ⟨hok.1.trans hge, hle.trans hok'.2⟩
  · exact fun h => ⟨h first hfirst, h last hlast⟩

theorem detected_timesOk_iff {db : Db} {rule : AlertRule} {now : Time} (hpos : 0 < rule.threshold) :
    (∀ c ∈ db.detected rule.tenant pg rule.config now, c.timesOk) ↔
      ∀ ip, rule.threshold ≤ (db.failures pg rule now ip).length → ∀ e ∈ db.failures pg rule now ip, timeOk e.eventTime := by
  constructor
  · intro h ip henough
    obtain ⟨c, hc, rfl⟩ := List.mem_map.1 ((mem_detected hpos).2 henough)
    have hok := h c hc
    rw [eq_of_mem_detected hc, Candidate.timesOk_iff, fromIp_failedLogins] at hok
    exact hok
  · intro h c hc
    rw [eq_of_mem_detected hc, Candidate.timesOk_iff, fromIp_failedLogins]
    exact h c.srcIp ((mem_detected hpos).1 (List.mem_map_of_mem hc))

/-- What it has added when it returns. -/
theorem exact_of_ok (halone : s.Alone) (hdb : s.db.Constrained) {rule : AlertRule} (hrule : rule ∈ s.db.alertRules)
    (henabled : rule.enabled) {s' : Session} (hrun : (evaluateTenant url rule.tenant).run (handle pg) s = (.ok (), s')) :
    ∃ news, s.Adds s' news ∧ rule.Exact pg (s.nature 0).now s.db s.db.alerts news ∧
      ∀ c ∈ s.db.detected rule.tenant pg rule.config (s.nature 0).now, c.timesOk := by
  have howner : s.Owner := fun n db => by rw [halone n]; exact ⟨rfl, rfl⟩
  have hpos : 0 < rule.threshold := ((AlertRule.checked_iff rule).1 (hdb.rules rule hrule)).2.1
  have hwp := wp_evaluateTenant pg url rule.tenant howner hdb.ids
  rw [wp, hrun] at hwp
  cases hwp with
  | noRule hnone _ _ =>
    rw [halone.seenAt, ruleOf_eq hdb hrule henabled] at hnone
    cases hnone
  | rule config found outs hsome hfound htimes hinserted =>
    rw [halone.seenAt, ruleOf_eq hdb hrule henabled] at hsome
    obtain rfl := Option.some.inj hsome
    have hexact := exact_of_inserted hpos hfound hinserted
    rw [halone.seenAt] at hexact hfound
    exact ⟨_, adds_of_alerts hrun hinserted.alerts (by rw [hinserted.next, List.length_map]), hexact,
      fun c hc => htimes c (hfound.mem_iff.2 hc)⟩

/-- It commits exactly when the failed logins of every address that has enough of them have times that psycopg loads, and
every count that is due for an alert is an `integer`. -/
theorem evaluation_commits_iff (pg : Pg) (url : Option Str) (hcalm : s.Calm) (halone : s.Alone)
    (hdb : s.db.Constrained) {rule : AlertRule}
    (hrule : rule ∈ s.db.alertRules) (henabled : rule.enabled) (htext : textOk rule.tenant) :
    ((evaluateTenant url rule.tenant).run (handle pg) s).1 = .ok () ↔
      (∀ ip, rule.threshold ≤ (s.db.failures pg rule (s.nature 0).now ip).length →
        ∀ e ∈ s.db.failures pg rule (s.nature 0).now ip, timeOk e.eventTime) ∧
      ∀ ip, Due rule (s.nature 0).now (s.db.failures pg rule (s.nature 0).now ip) s.db.alerts ip →
        int4Ok (s.db.failures pg rule (s.nature 0).now ip).length := by
  have howner : s.Owner := fun n db => by rw [halone n]; exact ⟨rfl, rfl⟩
  have hpos : 0 < rule.threshold := ((AlertRule.checked_iff rule).1 (hdb.rules rule hrule)).2.1
  have hne : rule.tenant ≠ [] := ((AlertRule.checked_iff rule).1 (hdb.rules rule hrule)).1
  rw [← detected_timesOk_iff hpos]
  constructor
  · intro hok
    obtain ⟨s', hrun⟩ : ∃ s', (evaluateTenant url rule.tenant).run (handle pg) s = (.ok (), s') :=
      ⟨_, Prod.ext hok rfl⟩
    obtain ⟨news, hadds, hexact, htimes⟩ := exact_of_ok halone hdb hrule henabled hrun
    refine ⟨htimes, fun ip hdue => ?_⟩
    obtain ⟨a, ha, rfl⟩ := List.mem_map.1 ((hexact.due ip).2 hdue)
    rw [← (hexact.reports a ha).eventCount]
    have hcounts : ∀ a ∈ ((evaluateTenant url rule.tenant).run (handle pg) s).2.db.alerts, int4Ok a.eventCount :=
      (kept_counts pg).transaction (issues_any _) hdb.counts fun n db h => by rw [halone n]; exact h
    rw [hrun] at hcounts
    exact hcounts a (hadds.alerts ▸ List.mem_append_right _ ha)
  · rintro ⟨htimes, hfits⟩
    have hcommits := wp_evaluateTenant_calm pg url hcalm howner hdb.ids htext hne fun config hconfig => ?_
    · unfold wp at hcommits
      revert hcommits
      rcases (evaluateTenant url rule.tenant).run (handle pg) s with ⟨_ | _, s'⟩
      · exact False.elim
      · exact fun _ => rfl
    rw [halone.seenAt, ruleOf_eq hdb hrule henabled] at hconfig
    obtain rfl := Option.some.inj hconfig
    refine ⟨fun n db h => by rw [halone n]; exact h, ⟨rule, hrule, rfl, rfl⟩, hdb.integers rule hrule,
      by rw [halone.seenAt]; exact htimes, fun c hc hpast => ?_⟩
    rw [halone.seenAt] at hc
    have hcount : c.eventCount = (s.db.failures pg rule (s.nature 0).now c.srcIp).length := by
      rw [← fromIp_failedLogins]
      exact congrArg Candidate.eventCount (eq_of_mem_detected hc)
    rw [hcount]
    exact hfits c.srcIp ⟨(mem_detected hpos).1 (List.mem_map_of_mem hc), (cool_iff _).1 hpast⟩

/-- An evaluation of the tenant inserts an alert for the address. -/
def Session.Alerts (pg : Pg) (url : Option Str) (tenant : Str) (s : Session) (ip : Inet) : Prop :=
  ∃ news, ((evaluateTenant url tenant).run (handle pg) s).2.db.alerts = s.db.alerts ++ news ∧
    ∃ a ∈ news, a.tenant = tenant ∧ a.srcIp = ip

theorem alerts_iff (hcalm : s.Calm) (halone : s.Alone) (hdb : s.db.Constrained) {rule : AlertRule}
    (hrule : rule ∈ s.db.alertRules) (henabled : rule.enabled) (htext : textOk rule.tenant) (ip : Inet) :
    s.Alerts pg url rule.tenant ip ↔
      Due rule (s.nature 0).now (s.db.failures pg rule (s.nature 0).now ip) s.db.alerts ip ∧
        (∀ ip', rule.threshold ≤ (s.db.failures pg rule (s.nature 0).now ip').length →
          ∀ e ∈ s.db.failures pg rule (s.nature 0).now ip', timeOk e.eventTime) ∧
        ∀ ip', Due rule (s.nature 0).now (s.db.failures pg rule (s.nature 0).now ip') s.db.alerts ip' →
          int4Ok (s.db.failures pg rule (s.nature 0).now ip').length := by
  have howner : s.Owner := fun n db => by rw [halone n]; exact ⟨rfl, rfl⟩
  have hcommits := evaluation_commits_iff pg url hcalm halone hdb hrule henabled htext
  rcases hrun : (evaluateTenant url rule.tenant).run (handle pg) s with ⟨e | ⟨⟩, s'⟩
  · rw [hrun] at hcommits
    refine iff_of_false ?_ fun h => by cases hcommits.2 h.2
    rintro ⟨news, halerts, a, ha, -⟩
    have hundone := wp_evaluateTenant pg url rule.tenant howner hdb.ids
    rw [wp, hrun] at hundone
    rw [hrun, hundone.alerts] at halerts
    rw [List.self_eq_append_right.1 halerts] at ha
    cases ha
  · rw [hrun] at hcommits
    rw [and_iff_left (hcommits.1 rfl)]
    obtain ⟨news, hadds, hexact, -⟩ := exact_of_ok halone hdb hrule henabled hrun
    rw [← hexact.due ip]
    constructor
    · rintro ⟨news', halerts, a, ha, -, rfl⟩
      rw [hrun, hadds.alerts] at halerts
      exact List.mem_map_of_mem (List.append_cancel_left halerts ▸ ha)
    · intro hmem
      obtain ⟨a, ha, rfl⟩ := List.mem_map.1 hmem
      exact ⟨news, by rw [hrun]; exact hadds.alerts, a, ha, (hexact.reports a ha).tenant, rfl⟩

end

end LogMgmt
