import LogMgmt.History
import LogMgmt.OneEvaluation
import LogMgmt.Storage

/-!
# Integrity of the tables

The constraints of `backend/db/init/*.sql` as an invariant of the rows: `Db.Sound` for users, events and
rules, and the foreign key of `alerts` beside it. A request keeps them on a session of its own (`Steady`); the
engine inserts an alert for a rule that it has read, and no rule is ever deleted.
-/

namespace LogMgmt
open Prog

/-! ### Identity columns -/

/-- The rows have ids of their own, which the identity column gave out before `next`. -/
structure Numbered {α : Type} (id : α → Nat) (next : Nat) (rows : List α) : Prop where
  nodup : (rows.map id).Nodup
  lt : ∀ r ∈ rows, id r < next

namespace Numbered
variable {α : Type} {id : α → Nat} {next : Nat} {rows : List α}

theorem nil : Numbered id next [] := ⟨List.nodup_nil, fun _ h => nomatch h⟩

theorem mono (h : Numbered id next rows) {next' : Nat} (hle : next ≤ next') : Numbered id next' rows :=
  ⟨h.nodup, fun r hr => (h.lt r hr).trans_le hle⟩

/-- The next row takes the next id. -/
theorem concat (h : Numbered id next rows) {r : α} (hr : id r = next) : Numbered id (next + 1) (rows ++ [r]) where
  nodup := by
    rw [List.map_append, List.map_singleton, hr]
    refine h.nodup.append (List.nodup_singleton _) fun i hi hi' => ?_
    obtain ⟨r', hr', rfl⟩ := List.mem_map.1 hi
    exact (h.lt r' hr').ne (List.mem_singleton.1 hi')
  lt r' hr' := by
    rcases List.mem_append.1 hr' with hr' | hr'
    · exact Nat.lt_succ_of_lt (h.lt r' hr')
    · rw [List.mem_singleton.1 hr', hr]
      exact Nat.lt_succ_self _

end Numbered

/-! ### Users, events and rules -/

/-- The constraints of the tables `users`, `events` and `alert_rules`. -/
structure Db.Sound (db : Db) : Prop where
  userIds : Numbered User.id db.sequences.user db.users
  usernames : (db.users.map (·.username)).Nodup
  userTenants : ∀ u ∈ db.users, u.tenant ≠ []
  eventIds : Numbered EventRow.id db.sequences.event db.events
  eventChecks : ∀ e ∈ db.events, e.checked
  /-- the columns of an event have values of their types -/
  eventColumns : ∀ e ∈ db.events, ∃ n : NormalizedEvent, EventColumns.ofParams n = .ok e.toEventFields
  rules : RulesOk db
  ruleChecks : db.RulesChecked

namespace Db.Sound
variable {db db' : Db}

theorem empty : Db.Sound {} where
  userIds := .nil
  usernames := List.nodup_nil
  userTenants _ h := nomatch h
  eventIds := .nil
  eventChecks _ h := nomatch h
  eventColumns _ h := nomatch h
  rules := ⟨List.nodup_nil, List.nodup_nil, fun _ h => nomatch h⟩
  ruleChecks _ h := nomatch h

/-- Alerts have no part in it, and ids may be skipped. -/
theorem of_eq (h : db.Sound) (husers : db'.users = db.users) (hevents : db'.events = db.events)
    (hrules : db'.alertRules = db.alertRules) (huser : db.sequences.user ≤ db'.sequences.user)
    (hevent : db.sequences.event ≤ db'.sequences.event) (hrule : db.sequences.rule ≤ db'.sequences.rule) : db'.Sound where
  userIds := husers ▸ h.userIds.mono huser
  usernames := husers ▸ h.usernames
  userTenants := husers ▸ h.userTenants
  eventIds := hevents ▸ h.eventIds.mono hevent
  eventChecks := hevents ▸ h.eventChecks
  eventColumns := hevents ▸ h.eventColumns
  rules := h.rules.of_eq hrules hrule
  ruleChecks := by
    rw [Db.RulesChecked, hrules]
    exact h.ruleChecks

theorem nextval (h : db.Sound) (stmt : Stmt) : Db.Sound { db with sequences := stmt.nextval db.sequences } := by
  refine h.of_eq rfl rfl rfl ?_ ?_ ?_ <;> cases stmt <;> simp [Stmt.nextval]

theorem insertUser (h : db.Sound) {row : User} (hid : row.id = db.sequences.user) (htenant : row.tenant ≠ [])
    (hname : ∀ u ∈ db.users, u.username ≠ row.username) :
    Db.Sound { db with users := db.users ++ [row], sequences := { db.sequences with user := db.sequences.user + 1 } } :=
  { h with
    userIds := h.userIds.concat hid
    usernames := by
      rw [List.map_append, List.map_singleton]
      refine h.usernames.append (List.nodup_singleton _) fun name hmem hmem' => ?_
      obtain ⟨u, hu, rfl⟩ := List.mem_map.1 hmem
      exact hname u hu (List.mem_singleton.1 hmem')
    userTenants := List.forall_mem_append.2 ⟨h.userTenants, List.forall_mem_singleton.2 htenant⟩
    rules := h.rules.of_eq rfl (Nat.le_refl _) }

theorem insertEvent (h : db.Sound) {row : EventRow} (hid : row.id = db.sequences.event) (hchecked : row.checked)
    {n : NormalizedEvent} (hcols : EventColumns.ofParams n = .ok row.toEventFields) :
    Db.Sound { db with events := db.events ++ [row], sequences := { db.sequences with event := db.sequences.event + 1 } } :=
  { h with
    eventIds := h.eventIds.concat hid
    eventChecks := List.forall_mem_append.2 ⟨h.eventChecks, List.forall_mem_singleton.2 hchecked⟩
    eventColumns := List.forall_mem_append.2 ⟨h.eventColumns, List.forall_mem_singleton.2 ⟨n, hcols⟩⟩
    rules := h.rules.of_eq rfl (Nat.le_refl _) }

theorem insertRule (h : db.Sound) {row : AlertRule} (hid : row.id = db.sequences.rule) (hchecked : row.checked)
    (hkey : ∀ r ∈ db.alertRules, ¬(r.tenant = row.tenant ∧ r.ruleType = row.ruleType)) :
    Db.Sound { db with
      alertRules := db.alertRules ++ [row], sequences := { db.sequences with rule := db.sequences.rule + 1 } } := by
  have hok : RulesOk { db with sequences := { db.sequences with rule := db.sequences.rule + 1 } } :=
    h.rules.of_eq rfl (Nat.le_succ _)
  refine { h with rules := hok.insert ⟨?_, hkey, fun r hr heq => ?_⟩, ruleChecks := ?_ }
  · exact hid ▸ Nat.lt_succ_self _
  · exact (h.rules.id_lt r hr).ne (heq.trans hid)
  · exact List.forall_mem_append.2 ⟨h.ruleChecks, List.forall_mem_singleton.2 hchecked⟩

theorem updateRule (pg : Pg) (h : db.Sound) (tenant : Str) (id : Nat) {set : RuleUpdate} {now : Time} {r : AlertRule}
    (hr : (set.applyTo now r).checked) : (db.apply (.updateRule tenant id set now)).Sound := by
  have hw : (Write.updateRule tenant id set now).keepsRules := fun _ hr' => RuleUpdate.checked_applyTo hr hr'
  exact { h with
    rules := h.rules.update tenant id set now
    ruleChecks := (kept_rules pg).apply db _ h.ruleChecks hw }

end Db.Sound

/-- A statement that succeeds leaves the rows that it sees sound. -/
theorem Stmt.exec_sound {pg : Pg} {ctx : Ctx} {db : Db} {stmt : Stmt} {r : stmt.Resp} {ws : List Write} (h : db.Sound)
    (hx : stmt.exec pg ctx db = .ok (r, ws)) :
    (Db.applyAll { db with sequences := stmt.nextval db.sequences } ws).Sound := by
  cases stmt with
  | insertUser username passwordHash role tenant =>
    simp only [exec] at hx
    split_ifs at hx with _ htenant hany
    cases hx
    refine h.insertUser rfl htenant fun u hu heq => hany ?_
    exact List.any_eq_true.2 ⟨u, hu, decide_eq_true heq⟩
  | insertEvent e =>
    simp only [exec] at hx
    split at hx
    · cases hx
    rename_i cols hcols
    split_ifs at hx with _ hchecked
    cases hx
    exact h.insertEvent rfl (by simpa using hchecked) hcols
  | insertRule r =>
    obtain ⟨rfl, rfl, hkey⟩ := exec_insertRule_ok hx
    cases Stmt.exec_writes hx with
    | insertRule _ _ hchecked => exact h.insertRule rfl hchecked hkey
  | updateRule set ruleId =>
    cases Stmt.exec_writes hx with
    | none => exact h.nextval _
    | updateRule _ _ r hchecked => exact h.updateRule pg _ _ hchecked
  | insertAlert a =>
    cases Stmt.exec_writes hx with
    | none => exact h.nextval _
    | insertAlert _ row => exact (h.nextval (.insertAlert a)).of_eq rfl rfl rfl (Nat.le_refl _) (Nat.le_refl _) (Nat.le_refl _)
  | markWebhookSent id =>
    cases Stmt.exec_writes hx with
    | none => exact h.nextval _
    | markWebhookSent _ a => exact h.of_eq rfl rfl rfl (Nat.le_refl _) (Nat.le_refl _) (Nat.le_refl _)
  | _ =>
    cases Stmt.exec_writes hx
    exact h.nextval _

/-! ### A session alone -/

/-- The status of a connection that is idle after a command was idle before it, unless the command ends a transaction. -/
theorem Conn.idle_of_next {conn : Conn} {c : Cmd} {r : c.Answer} (h : (conn.next c r).status = .idle)
    (hcommit : c ≠ .commit) (hrollback : c ≠ .rollback) : conn.status = .idle := by
  have hran : conn.ran.status = .idle → conn.status = .idle := by
    unfold Conn.ran
    split
    · exact id
    · exact fun h => nomatch h
  have hfail : conn.fail.status = .idle → conn.status = .idle := by
    unfold Conn.fail
    split
    · exact id
    · exact fun h => nomatch h
  cases c with
  | begin =>
    cases r with
    | ok _ => cases h
    | error _ => exact h
  | commit => exact absurd rfl hcommit
  | rollback => exact absurd rfl hrollback
  | sendWebhook url payload => exact h
  | sql stmt =>
    cases r with
    | error e => cases stmt <;> exact hfail h
    | ok a =>
      cases stmt with
      | setTenant tenant =>
        simp only [Conn.next, Conn.setTenant] at h
        split at h
        · exact ‹_ ∧ _›.1
        · cases h
      | _ => exact hran h

/-- Outside autocommit a statement that has returned leaves a transaction open. -/
theorem Conn.next_ne_idle {conn : Conn} (h : ¬(conn.status = .idle ∧ conn.autocommit)) {stmt : Stmt} (r : stmt.Resp) :
    (conn.next (.sql stmt) (.ok r)).status ≠ .idle := by
  cases stmt <;> simp [Conn.next, Conn.setTenant, Conn.ran, h]

theorem Db.applyAll_with (db : Db) (q : Sequences) (ws : List Write) :
    Db.applyAll { db with sequences := q } ws = { db.applyAll ws with sequences := q } := by
  induction ws generalizing db with
  | nil => rfl
  | cons w ws ih =>
    have hw : Db.apply { db with sequences := q } w = { db.apply w with sequences := q } := by cases w <;> rfl
    show Db.applyAll (Db.apply { db with sequences := q } w) ws = _
    rw [hw, ih]
    rfl

/-- What the session sees once the statement has taken its id and written `ws`. -/
theorem Session.view_takeId (s : Session) (stmt : Stmt) (ws : List Write) :
    (s.takeId stmt).db.applyAll (s.pending ++ ws) =
      Db.applyAll { s.view with sequences := stmt.nextval s.view.sequences } ws := by
  rw [Db.applyAll_append, Session.view, Db.applyAll_sequences, ← Db.applyAll_with]
  rfl

/-- The committed rows and those that the session sees are sound, and an idle session has written nothing. -/
structure Session.Steady (s : Session) : Prop where
  db : s.db.Sound
  view : s.view.Sound
  idle : s.conn.status = .idle → s.pending = []

namespace Session.Steady
variable {pg : Pg} {s s' : Session}

theorem of_pending (h : s.Steady) (hdb : s'.db = s.db) (hpending : s'.pending = []) : s'.Steady where
  db := hdb ▸ h.db
  view := by
    rw [Session.view, hpending, hdb]
    exact h.db
  idle _ := hpending

theorem doSql (h : s.Steady) (pg : Pg) (stmt : Stmt) : (s.doSql pg stmt).2.Steady := by
  have hidle : ∀ r : (Cmd.sql stmt).Answer, (s.conn.next (.sql stmt) r).status = .idle → s.pending = [] :=
    fun r hr => h.idle (Conn.idle_of_next hr nofun nofun)
  unfold Session.doSql
  split
  · exact ⟨h.db, h.view, hidle _⟩
  split
  · exact ⟨h.db, h.view, hidle _⟩
  split
  · have hview := s.view_takeId stmt []
    rw [List.append_nil] at hview
    refine ⟨h.db.nextval stmt, ?_, hidle _⟩
    show (Db.applyAll _ s.pending).Sound
    exact hview.symm ▸ h.view.nextval stmt
  · rename_i r ws hx
    have hview := s.view_takeId stmt ws ▸ Stmt.exec_sound h.view hx
    dsimp only
    split
    · rename_i hauto
      have hnone := h.idle hauto.1
      rw [hnone] at hview
      refine ⟨hview, ?_, hidle (.ok r)⟩
      show (Db.applyAll _ s.pending).Sound
      rw [hnone]
      exact hview
    · refine ⟨h.db.nextval stmt, hview, fun hi => ?_⟩
      rename_i hauto
      exact absurd hi (Conn.next_ne_idle hauto r)

theorem handle (h : s.Steady) (halone : s.Alone) (pg : Pg) (c : Cmd) : (handle pg c s).2.Steady := by
  have hi : s.interfere.Steady := halone.interfere.symm ▸ h
  cases c with
  | begin =>
    show (s.interfere.doBegin).2.Steady
    unfold Session.doBegin
    split
    · exact ⟨hi.db, hi.view, hi.idle⟩
    · exact hi.of_pending rfl rfl
  | commit =>
    show (s.interfere.doCommit).2.Steady
    unfold Session.doCommit
    split
    · exact ⟨hi.db, hi.view, fun _ => hi.idle ‹_›⟩
    split
    · exact hi.of_pending rfl rfl
    split
    · exact hi.of_pending rfl rfl
    · exact ⟨hi.view, hi.view, fun _ => rfl⟩
  | rollback => exact hi.of_pending rfl rfl
  | sql stmt => exact hi.doSql pg stmt
  | sendWebhook url payload =>
    show (s.interfere.doSendWebhook url payload).2.Steady
    unfold Session.doSendWebhook
    dsimp only
    split <;> exact ⟨hi.db, hi.view, hi.idle⟩

theorem run (h : s.Steady) (halone : s.Alone) (pg : Pg) {α : Type} (p : App α) : (p.run (LogMgmt.handle pg) s).2.Steady :=
  (run_always (I := fun s => s.Alone ∧ s.Steady) (fun c _ hs => ⟨hs.1.handle pg c, hs.2.handle hs.1 pg c⟩) p
    ⟨halone, h⟩).2

end Session.Steady

theorem commits_sound (w : World) (rs : List Request) {db : Db} (h : db.Sound) :
    (rs.foldl (Request.commits w) db).Sound := by
  induction rs generalizing db with
  | nil => exact h
  | cons r rs ih =>
    have hs : Session.Steady { db, conn := r.conn, nature := r.nature } := ⟨h, h, fun _ => rfl⟩
    exact ih (hs.run (fun _ => rfl) w.pg (r.call.app w)).db

/-! ### The engine -/

/-- The engine writes neither users nor events nor rules. -/
theorem kept_sound (pg : Pg) :
    Kept pg (fun _ stmt => stmt.reads ∨ stmt.sparesAlerts = false) Db.Sound (fun w => w.sparesAlerts = false) where
  apply db w hdb hw := by
    cases w with
    | insertAlert _ | markWebhookSent _ _ _ =>
      exact hdb.of_eq rfl rfl rfl (Nat.le_refl _) (Nat.le_refl _) (Nat.le_refl _)
    | _ => cases hw
  nextval _ stmt db _ hdb := hdb.nextval stmt
  writes stmt ctx db r ws hok _ hx w hw := by
    cases Stmt.exec_writes hx with
    | none => cases hw
    | insertAlert _ _ | markWebhookSent _ _ =>
      rw [List.mem_singleton.1 hw]
      rfl
    | _ => rcases hok with hok | hok <;> cases hok

/-- Every alert is of a rule of its tenant. -/
def Db.AlertsReferred (db : Db) : Prop := ∀ a ∈ db.alerts, ∃ r ∈ db.alertRules, r.tenant = a.tenant ∧ r.id = a.ruleId

namespace System
variable {w : World} {url : Option Str} {s : System}

theorem step_sound (w : World) (url : Option Str) (h : s.db.Sound) (a : Action) : (s.step w url a).db.Sound := by
  have hsession : ∀ ν between, (s.session w ν between).Holds Db.Sound (fun w => w.sparesAlerts = false) :=
    fun ν between => ⟨h, fun n db hdb => commits_sound w (between n) hdb, by simp [session]⟩
  cases a with
  | request r => exact commits_sound w [r] h
  | discover ν between =>
    simp only [step]
    split
    · exact ((kept_sound w.pg).run (p := sql .discoverTenants) (issues_exec (.inl rfl)) (hsession ν between)).db
    · exact h
  | evaluate ν between =>
    simp only [step]
    split
    · exact h
    · exact ((kept_sound w.pg).run (sends_tryEvaluateTenant url _) (hsession ν between)).db

theorem step_referred (url : Option Str) (hid : ∀ a ∈ s.db.alerts, a.id < s.db.sequences.alert)
    (h : s.db.AlertsReferred) (a : Action) : (s.step w url a).db.AlertsReferred := by
  have hold : ∀ b ∈ s.db.alerts, ∃ r ∈ (s.step w url a).db.alertRules, r.tenant = b.tenant ∧ r.id = b.ruleId := by
    intro b hb
    obtain ⟨r, hr, htenant, hrule⟩ := h b hb
    obtain ⟨r', hr', hsame⟩ := (step_extends w url s a).rule hr
    exact ⟨r', hr', hsame.tenant.trans htenant, hsame.id.trans hrule⟩
  cases step_cases w url hid a with
  | quiet _ hq =>
    intro b hb
    exact hold b (hq.alerts ▸ hb)
  | evaluate tenant queue ν between s' _ _ hs' hdb _ hcase =>
    cases hcase with
    | undone _ hu =>
      intro b hb
      exact hold b (hu.alerts ▸ hdb ▸ hb)
    | committed hc hcase =>
      cases hcase with
      | noRule _ halerts =>
        intro b hb
        exact hold b (halerts ▸ hdb ▸ hb)
      | rule rule found outs hrule _ _ hi =>
        intro b hb
        rw [hdb, hi.alerts] at hb
        rcases List.mem_append.1 hb with hb | hb
        · exact hold b hb
        · obtain ⟨o, -, rfl⟩ := List.mem_map.1 hb
          obtain ⟨r, hr, htenant, -, hconfig⟩ := ruleOf_some hrule
          obtain ⟨r', hr', hsame⟩ := (seenAt_extends w url s hc hs').1.rule hr
          exact ⟨r', hdb ▸ hr', hsame.tenant.trans htenant, hsame.id.trans (congrArg RuleConfig.id hconfig)⟩

/-- The constraints of all four tables. -/
structure Integrity (s : System) : Prop where
  inv : s.Inv
  sound : s.db.Sound
  referred : s.db.AlertsReferred

theorem Integrity.init : Integrity {} := ⟨.init, .empty, fun _ h => nomatch h⟩

theorem Integrity.run (h : s.Integrity) (actions : List Action) : (s.run w url actions).Integrity := by
  induction actions generalizing s with
  | nil => exact h
  | cons a actions ih => exact ih ⟨h.inv.step a, step_sound w url h.sound a, step_referred url h.inv.ids h.referred a⟩

end System

/-- In every state that any run of the system reaches, the tables meet their constraints: ids, user names and the rules of
a tenant are unique, every CHECK holds, the columns of an event have values of their types, and every alert is of a rule
of its own tenant. -/
theorem tables_sound (w : World) (url : Option Str) (actions : List Action) :
    let db := (System.run w url {} actions).db
    db.Sound ∧ Numbered Alert.id db.sequences.alert db.alerts ∧ db.AlertsReferred := by
  intro db
  have h : System.Integrity (System.run w url {} actions) := System.Integrity.init.run actions
  exact ⟨h.sound, ⟨h.inv.nodup, h.inv.ids⟩, h.referred⟩

end LogMgmt
