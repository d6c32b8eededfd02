import LogMgmt.Evaluation

/-!
# The steps of the system

What one step of `System` does to the alerts and to the record of the engine (`System.step_cases`): only an
evaluation touches them, whatever other sessions commit between its statements.
-/

namespace LogMgmt
open Prog

/-! ### Requests -/

/-- The statement does not write the table `alerts`. -/
def Stmt.sparesAlerts : Stmt → Bool
  | insertAlert _ | markWebhookSent _ => false
  | _ => true

/-- The statement does not write the table `users`. -/
def Stmt.sparesUsers : Stmt → Bool
  | insertUser _ _ _ _ => false
  | _ => true

/-- The statement writes no row and takes no id. -/
def Stmt.reads : Stmt → Bool
  | insertUser _ _ _ _ | insertEvent _ | insertRule _ | updateRule _ _ | insertAlert _ | markWebhookSent _ => false
  | _ => true

/-- The call may send this statement, which writes: over HTTP, for an admin only. -/
def Call.Writes : Call → Stmt → Prop
  | ingest _ _ claims, .insertEvent _ => claims.role = .admin
  | createAlertRule _ claims, .insertRule _ => claims.role = .admin
  | updateAlertRule _ _ claims, .updateRule _ _ => claims.role = .admin
  | writeEvent _, .insertEvent _ => True
  | createUser _ _ _ _, .insertUser _ _ _ _ => True
  | _, _ => False

theorem Call.sends (w : World) (call : Call) :
    Issues (Cmd.Only fun stmt => stmt.reads ∨ call.Writes stmt) (call.app w) := by
  have hread : ∀ {stmt : Stmt}, stmt.reads → Issues (Cmd.Only fun stmt => stmt.reads ∨ call.Writes stmt) (sql stmt) :=
    fun h => issues_exec (.inl h)
  have hwrite : ∀ {stmt : Stmt}, call.Writes stmt →
      Issues (Cmd.Only fun stmt => stmt.reads ∨ call.Writes stmt) (sql stmt) :=
    fun h => issues_exec (.inr h)
  have hadmin : ∀ (claims : TokenClaims) {body : App Response},
      (claims.role = .admin → Issues (Cmd.Only fun stmt => stmt.reads ∨ call.Writes stmt) body) →
      Issues (Cmd.Only fun stmt => stmt.reads ∨ call.Writes stmt) (requireAdmin claims >>= fun _ => body) :=
    fun claims body hbody => by
      unfold requireAdmin
      split
      · exact hbody ‹_›
      · trivial
  have htenant : ∀ (claims : TokenClaims) {body : App Response},
      Issues (Cmd.Only fun stmt => stmt.reads ∨ call.Writes stmt) body →
      Issues (Cmd.Only fun stmt => stmt.reads ∨ call.Writes stmt) (tenantConn claims body) := fun claims body hbody =>
    issues_withConn (issues_transaction (Issues.bind (hread rfl) fun _ => hbody))
  have hevent : ∀ e, call.Writes (.insertEvent e) →
      Issues (Cmd.Only fun stmt => stmt.reads ∨ call.Writes stmt) (LogMgmt.writeEvent e) := fun e h =>
    issues_transaction (Issues.bind (hread rfl) fun _ => hwrite h)
  cases call with
  | login username password =>
    refine issues_withConn (Issues.bind (hread rfl) fun row => ?_)
    split <;> trivial
  | ingest body now claims =>
    refine hadmin claims fun hrole => issues_withConn ?_
    split
    · exact Issues.bind (hevent _ hrole) fun _ => trivial
    · trivial
  | writeEvent e => exact Issues.bind (hevent e trivial) fun _ => trivial
  | search req claims => exact htenant claims (Issues.bind (hread rfl) fun _ => trivial)
  | top req claims => exact htenant claims (Issues.bind (hread rfl) fun _ => trivial)
  | timeline req claims => exact htenant claims (Issues.bind (hread rfl) fun _ => trivial)
  | listAlertRules claims => exact htenant claims (Issues.bind (hread rfl) fun _ => trivial)
  | createAlertRule body claims =>
    refine hadmin claims fun hrole => htenant claims ?_
    refine Issues.bind (Issues.tryCatch (hwrite hrole) fun e => ?_) fun _ => trivial
    split <;> trivial
  | updateAlertRule ruleId body claims =>
    refine hadmin claims fun hrole => htenant claims ?_
    split
    · trivial
    · refine Issues.bind (hwrite hrole) fun row => ?_
      split <;> trivial
  | listAlerts req claims => exact htenant claims (Issues.bind (hread rfl) fun _ => trivial)
  | health =>
    refine Issues.tryCatch (issues_withConn (Issues.bind (hread rfl) fun _ => trivial)) fun _ => trivial
  | createUser username passwordHash role tenant =>
    exact Issues.bind (hwrite trivial) fun _ => trivial

/-- The programs other than the engine only read alerts, and those for a tenant only read users. -/
theorem Call.issues (w : World) (call : Call) {ok : Stmt → Prop}
    (hok : ∀ stmt : Stmt, stmt.sparesAlerts → (stmt.sparesUsers ∨ call.tenant = none) → ok stmt) :
    Issues (Cmd.Only ok) (call.app w) := by
  refine (call.sends w).imp fun _ c hc => ?_
  cases c with
  | sql stmt =>
    refine hok stmt ?_ ?_
    · rcases hc with hc | hc
      · cases stmt <;> first | rfl | cases hc
      · cases stmt <;> first | rfl | (cases call <;> cases hc)
    · rcases hc with hc | hc
      · cases stmt <;> first | exact .inl rfl | cases hc
      · cases stmt <;> first | exact .inl rfl | (cases call <;> first | exact .inr rfl | cases hc)
  | _ => trivial

theorem Call.sparesAlerts (w : World) (call : Call) : Issues (Cmd.Only fun s => s.sparesAlerts) (call.app w) :=
  call.issues w fun _ h _ => h

/-- The write is not to the table `alerts`. -/
def Write.sparesAlerts : Write → Bool
  | insertAlert _ | markWebhookSent _ _ _ => false
  | _ => true

theorem kept_alerts (pg : Pg) (alerts : List Alert) (next : Nat) :
    Kept pg (fun _ stmt => stmt.sparesAlerts) (fun db => db.alerts = alerts ∧ db.sequences.alert = next)
      (fun w => w.sparesAlerts) where
  apply db w hdb hw := by
    cases w with
    | insertAlert _ => cases hw
    | markWebhookSent _ _ _ => cases hw
    | _ => exact hdb
  nextval _ stmt db hok hdb := by
    cases stmt with
    | insertAlert _ => cases hok
    | _ => exact hdb
  writes stmt ctx db r ws hok _ hx w hw := by
    cases Stmt.exec_writes hx with
    | none => cases hw
    | insertAlert _ _ => cases hok
    | markWebhookSent _ _ => cases hok
    | _ =>
      rw [List.mem_singleton.1 hw]
      rfl

/-- A request on its connection, nothing else going on. -/
theorem Kept.commits {w : World} {ok : Stmt → Prop} {P : Db → Prop} {W : Write → Prop} (h : Kept w.pg (fun _ => ok) P W)
    {r : Request} (hr : Issues (Cmd.Only ok) (r.call.app w)) {db : Db} (hdb : P db) : P (r.commits w db) :=
  (h.run hr (s := { db, conn := r.conn, nature := r.nature }) ⟨hdb, fun _ _ => id, by simp⟩).db

theorem commits_alerts (w : World) (rs : List Request) (db : Db) :
    (rs.foldl (Request.commits w) db).alerts = db.alerts ∧
      (rs.foldl (Request.commits w) db).sequences.alert = db.sequences.alert := by
  induction rs generalizing db with
  | nil => exact ⟨rfl, rfl⟩
  | cons r rs ih =>
    have hr := (kept_alerts w.pg db.alerts db.sequences.alert).commits (r.call.sparesAlerts w) ⟨rfl, rfl⟩
    exact ⟨(ih _).1.trans hr.1, (ih _).2.trans hr.2⟩

/-! ### Rules -/

/-- The rows of `alert_rules` satisfy the CHECK constraints. -/
def Db.RulesChecked (db : Db) : Prop := ∀ r ∈ db.alertRules, r.checked

theorem AlertRule.checked_iff (r : AlertRule) :
    r.checked ↔ r.tenant ≠ [] ∧ 0 < r.threshold ∧ 0 < r.windowSeconds ∧ 0 < r.cooldownSeconds := by
  simp [checked, and_assoc]

theorem getD_pos {o : Option Int} {i j : Int} (h : 0 < o.getD i) (hj : 0 < j) : 0 < o.getD j := by
  cases o with
  | none => exact hj
  | some v => exact h

/-- An assignment that one row passes with, every row passes with. -/
theorem RuleUpdate.checked_applyTo {set : RuleUpdate} {now : Time} {r r' : AlertRule}
    (h : (set.applyTo now r).checked) (hr' : r'.checked) : (set.applyTo now r').checked := by
  rw [AlertRule.checked_iff] at h hr' ⊢
  exact ⟨hr'.1, getD_pos h.2.1 hr'.2.1, getD_pos h.2.2.1 hr'.2.2.1, getD_pos h.2.2.2 hr'.2.2.2⟩

def Write.keepsRules : Write → Prop
  | insertRule row => row.checked
  | updateRule _ _ set now => ∀ r, r.checked → (set.applyTo now r).checked
  | _ => True

theorem kept_rules (pg : Pg) : Kept pg (fun _ _ => True) Db.RulesChecked Write.keepsRules where
  apply db w hdb hw := by
    cases w with
    | insertRule row =>
      intro r hr
      rcases List.mem_append.1 hr with hr | hr
      · exact hdb r hr
      · exact List.mem_singleton.1 hr ▸ hw
    | updateRule tenant id set now =>
      intro r hr
      obtain ⟨r', hr', rfl⟩ := List.mem_map.1 hr
      split
      · exact hw r' (hdb r' hr')
      · exact hdb r' hr'
    | _ => exact hdb
  nextval _ _ _ _ hdb := hdb
  writes stmt ctx db r ws _ _ hx w hw := by
    cases Stmt.exec_writes hx with
    | none => cases hw
    | insertRule _ _ h => exact List.mem_singleton.1 hw ▸ h
    | updateRule _ _ _ h =>
      rw [List.mem_singleton.1 hw]
      exact fun r hr => RuleUpdate.checked_applyTo h hr
    | _ =>
      rw [List.mem_singleton.1 hw]
      trivial

theorem issues_any (p : App α) : Issues (Cmd.Only fun _ => True) p :=
  Issues.of_forall (fun c => by cases c <;> trivial) p

theorem commits_rules (w : World) (rs : List Request) {db : Db} (h : db.RulesChecked) :
    (rs.foldl (Request.commits w) db).RulesChecked := by
  induction rs generalizing db with
  | nil => exact h
  | cons r rs ih => exact ih ((kept_rules w.pg).commits (issues_any _) h)

theorem Db.ruleOf_checked {db : Db} {tenant : Str} {rule : RuleConfig} (h : db.RulesChecked)
    (hrule : db.ruleOf tenant = some rule) : 0 < rule.threshold ∧ 0 < rule.windowSeconds ∧ 0 < rule.cooldownSeconds := by
  obtain ⟨r, hr, rfl⟩ := Option.map_eq_some_iff.1 hrule
  have hmem := List.mem_of_find?_eq_some hr
  exact ((AlertRule.checked_iff r).1 (h r (List.mem_of_mem_filter hmem))).2

/-! ### Steps -/

namespace System
variable {w : World} {url : Option Str} {s s' : System} {a : Action}

theorem session_owner (w : World) (s : System) (ν : Nat → Choice) (between : Nat → List Request) :
    (s.session w ν between).Owner :=
  fun n db => commits_alerts w (between n) db

theorem seenAt_rules (h : s.db.RulesChecked) (ν : Nat → Choice) (between : Nat → List Request) (n : Nat) :
    ((s.session w ν between).seenAt n).RulesChecked := by
  induction n with
  | zero => exact commits_rules w _ h
  | succ n ih => exact commits_rules w _ ih

theorem step_rules (w : World) (url : Option Str) (h : s.db.RulesChecked) (a : Action) :
    (s.step w url a).db.RulesChecked := by
  have hsession : ∀ ν between, (s.session w ν between).Holds Db.RulesChecked Write.keepsRules :=
    fun ν between => ⟨h, fun n db hdb => commits_rules w (between n) hdb, by simp [session]⟩
  cases a with
  | request r => exact (kept_rules w.pg).commits (issues_any _) h
  | discover ν between =>
    simp only [step]
    split
    · exact ((kept_rules w.pg).run (issues_any (sql .discoverTenants)) (hsession ν between)).db
    · exact h
  | evaluate ν between =>
    simp only [step]
    split
    · exact h
    exact ((kept_rules w.pg).run (issues_any (tryEvaluateTenant url _)) (hsession ν between)).db

/-- The alerts and the record of the engine are untouched. -/
structure Quiet (s s' : System) : Prop where
  alerts : s'.db.alerts = s.db.alerts
  next : s'.db.sequences.alert = s.db.sequences.alert
  fired : s'.log.fired = s.log.fired
  delivered : s'.log.delivered = s.log.delivered

theorem discover_quiet (pg : Pg) (s : Session) :
    ((sql .discoverTenants).run (handle pg) s).2.db = s.interfere.db ∧
      ((sql .discoverTenants).run (handle pg) s).2.log = s.log := by
  unfold sql
  rw [run_exec]
  simp only [handle, Session.doSql, Stmt.exec]
  split
  · exact ⟨rfl, rfl⟩
  split
  · exact ⟨rfl, rfl⟩
  · dsimp only
    split <;> exact ⟨rfl, rfl⟩

/-- What a step leaves behind: only an evaluation touches the alerts. -/
inductive StepCases (w : World) (url : Option Str) (s : System) (a : Action) : Prop where
  | quiet (hnone : ∀ ν between tenant queue, a = .evaluate ν between → s.queue ≠ tenant :: queue)
      (h : Quiet s (s.step w url a))
  | evaluate (tenant : Str) (queue : List Str) (ν : Nat → Choice) (between : Nat → List Request) (s' : Session)
      (ha : a = .evaluate ν between) (hqueue : s.queue = tenant :: queue)
      (hs' : s' = ((tryEvaluateTenant url tenant).run (handle w.pg) (s.session w ν between)).2)
      (hdb : (s.step w url a).db = s'.db) (hlog : (s.step w url a).log = s'.log)
      (h : Evaluation w.pg url tenant (s.session w ν between) s')

theorem step_cases (w : World) (url : Option Str) (hid : ∀ a ∈ s.db.alerts, a.id < s.db.sequences.alert)
    (a : Action) : StepCases w url s a := by
  cases a with
  | request r =>
    have h := commits_alerts w [r] s.db
    exact .quiet (by simp) ⟨h.1, h.2, rfl, rfl⟩
  | discover ν between =>
    obtain ⟨hdb, hlog⟩ := discover_quiet w.pg (s.session w ν between)
    have h := commits_alerts w (between 0) s.db
    refine .quiet (by simp) ?_
    simp only [step]
    split
    · exact ⟨(congrArg Db.alerts hdb).trans h.1, (congrArg (·.sequences.alert) hdb).trans h.2,
        congrArg Log.fired hlog, congrArg Log.delivered hlog⟩
    · exact ⟨rfl, rfl, rfl, rfl⟩
  | evaluate ν between =>
    cases hq : s.queue with
    | nil =>
      refine .quiet (by simp [hq]) ?_
      simp only [step, hq]
      exact ⟨rfl, rfl, rfl, rfl⟩
    | cons tenant queue =>
      refine .evaluate tenant queue ν between _ rfl hq rfl (by simp only [step, hq]; rfl)
        (by simp only [step, hq]; rfl) (run_tryEvaluateTenant w.pg url tenant (session_owner w s ν between) hid)

theorem step_ids (w : World) (url : Option Str) (hid : ∀ a ∈ s.db.alerts, a.id < s.db.sequences.alert) (a : Action) :
    ∀ b ∈ (s.step w url a).db.alerts, b.id < (s.step w url a).db.sequences.alert := by
  intro b hb
  cases step_cases w url hid a with
  | quiet _ hq =>
    rw [hq.next]
    exact hid b (hq.alerts ▸ hb)
  | evaluate tenant queue ν between s' _ _ _ hdb _ hcase =>
    rw [hdb] at hb ⊢
    exact hcase.ids hid b hb

end System

end LogMgmt
