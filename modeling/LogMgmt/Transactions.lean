import LogMgmt.Session

/-!
# Rules for transactions

How `exec`, `withConn` and `transaction` run, and what every command of every program keeps: a property
of the committed rows that the changes of the open transaction keep too (`Kept`).
-/

namespace LogMgmt
open Prog

section
variable {σ α : Type} {h : Prog.Handler Cmd.Answer σ} {s : σ} {Q : α → σ → Prop} {X : Exn → σ → Prop}

theorem run_exec (c : Cmd) (s : σ) : (exec c).run h s = h c s := by
  unfold exec
  rw [run_bind, run_perform]
  rcases h c s with ⟨_ | _, _⟩ <;> rfl

theorem wp_exec {c : Cmd} {Q : c.Resp → σ → Prop} : wp h (exec c) Q X s ↔ Ends Q X (h c s) := by
  rw [wp, run_exec]

theorem wp_sql {stmt : Stmt} {Q : stmt.Resp → σ → Prop} : wp h (sql stmt) Q X s ↔ Ends Q X (h (.sql stmt) s) := wp_exec

theorem wp_withConn {p : App α} :
    wp h (withConn p) Q X s ↔
      wp h p (fun a s' => Ends (fun _ => Q a) X (h .commit s')) (fun e s' => X e (h .rollback s').2) s := by
  have hcommit : ∀ a s', wp h (exec .commit) (fun _ => Q a) X s' ↔ Ends (fun _ => Q a) X (h .commit s') :=
    fun _ _ => wp_exec
  unfold withConn
  simp only [wp_bind, wp_tryCatch, wp_perform, wp_throw, wp_pure, hcommit]

theorem wp_transaction {p : App α} :
    wp h (transaction p) Q X s ↔ Ends (fun _ => wp h (withConn p) Q X) X (h .begin s) := by
  unfold transaction
  rw [wp_bind, wp_exec]

end

/-! ### One command -/

theorem Conn.ran_inTx {conn : Conn} (h : conn.status = .inTx) : conn.ran = conn := by
  cases conn
  cases h
  rfl

namespace Session
variable {pg : Pg} {s : Session}

/-- After a BEGIN. -/
def opened (s : Session) : Session :=
  { s.interfere.answered .begin (.ok ()) with
    startedAt := (s.nature 0).now, pending := [], log := s.log.endTx false }

/-- After a COMMIT. -/
def committed (s : Session) : Session :=
  { s.interfere.answered .commit (.ok ()) with db := s.interfere.view, pending := [], log := s.log.endTx true }

/-- After a statement in a transaction. -/
def ran (s : Session) (stmt : Stmt) (r : stmt.Resp) (ws : List Write) : Session :=
  { (s.interfere.takeId stmt).answered (.sql stmt) (.ok r) with
    log := s.interfere.record stmt r, startedAt := s.interfere.now, pending := s.pending ++ ws }

/-- No command of the session fails. -/
def Calm (s : Session) : Prop := ∀ n, (s.nature n).fault = false

/-- No other session commits anything. -/
def Alone (s : Session) : Prop := ∀ n, s.others n = id

theorem Alone.interfere (h : s.Alone) : s.interfere = s := by
  unfold Session.interfere
  rw [h 0]
  rfl

@[simp] theorem interfere_nature (s : Session) : s.interfere.nature = s.nature := rfl
@[simp] theorem interfere_conn (s : Session) : s.interfere.conn = s.conn := rfl
@[simp] theorem interfere_pending (s : Session) : s.interfere.pending = s.pending := rfl
@[simp] theorem interfere_log (s : Session) : s.interfere.log = s.log := rfl
@[simp] theorem interfere_startedAt (s : Session) : s.interfere.startedAt = s.startedAt := rfl
@[simp] theorem interfere_now (s : Session) : s.interfere.now = s.now := rfl

theorem handle_begin (pg : Pg) (h : (s.nature 0).fault = false) :
    handle pg .begin s = (.ok (), s.opened) := by
  simp [handle, doBegin, h, opened]

theorem handle_begin_fault (pg : Pg) (h : (s.nature 0).fault = true) :
    handle pg .begin s = (.error .operational, s.interfere.answered .begin (.error .operational)) := by
  simp [handle, doBegin, h]

theorem handle_commit (pg : Pg) (h : (s.nature 0).fault = false) (hs : s.conn.status = .inTx) :
    handle pg .commit s = (.ok (), s.committed) := by
  simp [handle, doCommit, h, hs, committed]

/-- A COMMIT that raises leaves the rows to the other sessions. -/
theorem handle_commit_fault (pg : Pg) (h : (s.nature 0).fault = true) (hs : s.conn.status = .inTx) :
    handle pg .commit s = (.error .operational, { s.interfere.answered .commit (.error .operational) with
      pending := [], log := s.log.endTx false }) := by
  simp [handle, doCommit, h, hs]

theorem handle_sql (h : (s.nature 0).fault = false) (hs : s.conn.status = .inTx) {stmt : Stmt}
    {r : stmt.Resp} {w : List Write} (hx : stmt.exec pg s.interfere.ctx s.interfere.view = .ok (r, w)) :
    handle pg (.sql stmt) s = (.ok r, s.ran stmt r w) := by
  simp [handle, doSql, h, hs, hx, ran]

theorem handle_sql_fault (pg : Pg) (h : (s.nature 0).fault = true) (stmt : Stmt) :
    handle pg (.sql stmt) s =
      (.error .operational, s.interfere.answered (.sql stmt) (.error .operational)) := by
  simp [handle, doSql, h]

theorem handle_sql_error (h : (s.nature 0).fault = false) (hs : s.conn.status = .inTx) {stmt : Stmt}
    {e : SqlError} (hx : stmt.exec pg s.interfere.ctx s.interfere.view = .error e) :
    handle pg (.sql stmt) s =
      (.error (.sql e), (s.interfere.takeId stmt).answered (.sql stmt) (.error (.sql e))) := by
  simp [handle, doSql, h, hs, hx]

theorem handle_accepted (pg : Pg) {url : Str} {payload : WebhookPayload} (h : (s.nature 0).accepted = true) :
    handle pg (.sendWebhook url payload) s = (.ok true,
      { s.interfere.answered (.sendWebhook url payload) (.ok true) with log := s.log.deliver s.now payload }) := by
  simp [handle, doSendWebhook, h]

theorem handle_rejected (pg : Pg) {url : Str} {payload : WebhookPayload} (h : (s.nature 0).accepted = false) :
    handle pg (.sendWebhook url payload) s =
      (.ok false, s.interfere.answered (.sendWebhook url payload) (.ok false)) := by
  simp [handle, doSendWebhook, h]

theorem ran_conn (hs : s.conn.status = .inTx) (stmt : Stmt) (ht : stmt.tenantTable) (r : stmt.Resp)
    (ws : List Write) : (s.ran stmt r ws).conn = s.conn := by
  cases stmt with
  | setTenant _ => cases ht
  | _ => exact Conn.ran_inTx hs

theorem ran_status (hs : s.conn.status = .inTx) (stmt : Stmt) (r : stmt.Resp) (ws : List Write) :
    (s.ran stmt r ws).conn.status = .inTx := by
  have hran : s.conn.ran.status = .inTx := by rw [Conn.ran_inTx hs, hs]
  cases stmt with
  | setTenant tenant =>
    show (s.conn.setTenant tenant).status = .inTx
    rw [Conn.setTenant, if_neg fun hc => by cases hs.symm.trans hc.1]
  | _ => exact hran

theorem now_inTx (hs : s.conn.status = .inTx) : s.now = s.startedAt := by simp [now, hs]

/-- The session after a statement in a transaction has raised `e`. -/
structure Raised (s : Session) (stmt : Stmt) (e : Exn) (s' : Session) : Prop where
  db : s'.db = s.interfere.db ∨
    s'.db = { s.interfere.db with sequences := stmt.nextval s.interfere.db.sequences }
  conn : s'.conn = s.conn.next (.sql stmt) (.error e)
  pending : s'.pending = s.pending
  log : s'.log = s.log
  nature : s'.nature = fun n => s.nature (n + 1)
  others : s'.others = fun n => s.others (n + 1)

/-- A statement in a transaction returns what `Stmt.exec` says, or it raises. -/
theorem handle_sql_cases (pg : Pg) (hs : s.conn.status = .inTx) (stmt : Stmt) :
    (∃ r ws, (s.nature 0).fault = false ∧ stmt.exec pg s.interfere.ctx s.interfere.view = .ok (r, ws) ∧
      handle pg (.sql stmt) s = (.ok r, s.ran stmt r ws)) ∨
    ∃ e s', handle pg (.sql stmt) s = (.error e, s') ∧ Raised s stmt e s' := by
  cases h : (s.nature 0).fault with
  | true => exact .inr ⟨_, _, handle_sql_fault pg h stmt, .inl rfl, rfl, rfl, rfl, rfl, rfl⟩
  | false =>
    cases hx : stmt.exec pg s.interfere.ctx s.interfere.view with
    | ok rw => exact .inl ⟨rw.1, rw.2, rfl, rfl, handle_sql h hs hx⟩
    | error e => exact .inr ⟨_, _, handle_sql_error h hs hx, .inr rfl, rfl, rfl, rfl, rfl, rfl⟩

theorem exec_of_answer {stmt : Stmt} {r : stmt.Resp} {s' : Session} (h : handle pg (.sql stmt) s = (.ok r, s')) :
    ∃ ws, stmt.exec pg s.interfere.ctx s.interfere.view = .ok (r, ws) := by
  have h1 : (s.interfere.doSql pg stmt).1 = .ok r := congrArg Prod.fst h
  unfold doSql at h1
  split at h1
  · cases h1
  split at h1
  · cases h1
  split at h1
  · cases h1
  · rename_i r' ws hx
    cases h1
    exact ⟨ws, hx⟩

end Session

/-- The session `s'` follows on `s` once `c` is answered by `r`; nothing is said of the rows and the log. -/
structure Session.Answered (s : Session) (c : Cmd) (r : c.Answer) (s' : Session) : Prop where
  conn : s'.conn = s.conn.next c r
  nature : s'.nature = fun n => s.nature (n + 1)
  others : s'.others = fun n => s.others (n + 1)

theorem handle_answered (pg : Pg) (c : Cmd) (s : Session) : s.Answered c (handle pg c s).1 (handle pg c s).2 := by
  cases c with
  | begin =>
    show s.Answered .begin s.interfere.doBegin.1 s.interfere.doBegin.2
    unfold Session.doBegin
    split <;> exact ⟨rfl, rfl, rfl⟩
  | commit =>
    show s.Answered .commit s.interfere.doCommit.1 s.interfere.doCommit.2
    unfold Session.doCommit
    split
    · exact ⟨rfl, rfl, rfl⟩
    split
    · exact ⟨rfl, rfl, rfl⟩
    split <;> exact ⟨rfl, rfl, rfl⟩
  | rollback => exact ⟨rfl, rfl, rfl⟩
  | sql stmt =>
    show s.Answered (.sql stmt) (s.interfere.doSql pg stmt).1 (s.interfere.doSql pg stmt).2
    unfold Session.doSql
    split
    · exact ⟨rfl, rfl, rfl⟩
    split
    · exact ⟨rfl, rfl, rfl⟩
    split
    · exact ⟨rfl, rfl, rfl⟩
    · dsimp only
      split <;> exact ⟨rfl, rfl, rfl⟩
  | sendWebhook url payload =>
    show s.Answered (.sendWebhook url payload) (s.interfere.doSendWebhook url payload).1
      (s.interfere.doSendWebhook url payload).2
    unfold Session.doSendWebhook
    dsimp only
    split <;> exact ⟨rfl, rfl, rfl⟩

theorem handle_conn (pg : Pg) (c : Cmd) (s : Session) : (handle pg c s).2.conn = s.conn.next c (handle pg c s).1 :=
  (handle_answered pg c s).conn

theorem handle_nature (pg : Pg) (c : Cmd) (s : Session) : (handle pg c s).2.nature = fun n => s.nature (n + 1) :=
  (handle_answered pg c s).nature

theorem handle_others (pg : Pg) (c : Cmd) (s : Session) : (handle pg c s).2.others = fun n => s.others (n + 1) :=
  (handle_answered pg c s).others

theorem Session.Calm.handle (pg : Pg) (c : Cmd) {s : Session} (h : s.Calm) : (handle pg c s).2.Calm := by
  rw [Session.Calm, handle_nature]
  exact fun n => h (n + 1)

/-- What holds of a session whatever its commands are answered holds after a run. -/
theorem run_always {pg : Pg} {I : Session → Prop} (hI : ∀ c s, I s → I (handle pg c s).2) {α : Type} (p : App α)
    {s : Session} (hs : I s) : I (p.run (handle pg) s).2 :=
  have hany : Issues (fun _ => True) p := Issues.of_forall (fun _ => trivial) p
  wp_state.1 (hany.wp (fun c s _ => hI c s) hs)

theorem Session.Alone.handle (pg : Pg) (c : Cmd) {s : Session} (h : s.Alone) : (handle pg c s).2.Alone := by
  rw [Session.Alone, handle_others]
  exact fun n => h (n + 1)

theorem Session.Alone.wp {α : Type} (pg : Pg) (p : App α) {s : Session} (h : s.Alone) :
    wp (LogMgmt.handle pg) p (fun _ s' => s'.Alone) (fun _ s' => s'.Alone) s :=
  wp_state.2 (run_always (fun c _ hs => hs.handle pg c) p h)

/-! ### Rows that a session adds -/

theorem Db.events_applyAll (db : Db) (ws : List Write) : db.events <+: (db.applyAll ws).events := by
  induction ws generalizing db with
  | nil => exact List.prefix_refl _
  | cons w ws ih =>
    refine List.IsPrefix.trans ?_ (ih (db.apply w))
    cases w with
    | insertEvent row => exact List.prefix_append _ _
    | _ => exact List.prefix_refl _

theorem events_le_handle (pg : Pg) (c : Cmd) (s : Session) : s.interfere.db.events <+: (handle pg c s).2.db.events := by
  have hself : s.interfere.db.events <+: s.interfere.db.events := List.prefix_refl _
  cases c with
  | begin =>
    show _ <+: s.interfere.doBegin.2.db.events
    unfold Session.doBegin
    split <;> exact hself
  | commit =>
    show _ <+: s.interfere.doCommit.2.db.events
    unfold Session.doCommit
    split
    · exact hself
    split
    · exact hself
    split
    · exact hself
    · exact Db.events_applyAll _ _
  | rollback => exact hself
  | sql stmt =>
    show _ <+: (s.interfere.doSql pg stmt).2.db.events
    unfold Session.doSql
    split
    · exact hself
    split
    · exact hself
    split
    · exact hself
    · dsimp only
      split
      · exact Db.events_applyAll (s.interfere.takeId stmt).db _
      · exact hself
  | sendWebhook url payload =>
    show _ <+: (s.interfere.doSendWebhook url payload).2.db.events
    unfold Session.doSendWebhook
    dsimp only
    split <;> exact hself

/-- The rows that a command of the session adds to `events`, beside what other sessions commit before it. -/
def Session.added (pg : Pg) (c : Cmd) (s : Session) : List EventRow :=
  (handle pg c s).2.db.events.drop s.interfere.db.events.length

/-- `handle`, with a record of the rows that the session has added to `events`. -/
def handleAdded (pg : Pg) : Prog.Handler Cmd.Answer (Session × List EventRow) := recorded (Session.added pg) (handle pg)

section
variable {pg : Pg} {s s' : Session} {c : Cmd} {r : c.Answer} {rows : List EventRow}

theorem events_handle (pg : Pg) (c : Cmd) (s : Session) :
    (handle pg c s).2.db.events = s.interfere.db.events ++ s.added pg c :=
  (List.prefix_iff_eq_append.1 (events_le_handle pg c s)).symm

theorem handleAdded_of_append (h : handle pg c s = (r, s')) {new : List EventRow}
    (hevents : s'.db.events = s.interfere.db.events ++ new) : handleAdded pg c (s, rows) = (r, s', rows ++ new) := by
  have hnew : s.added pg c = new := by
    rw [Session.added, h, hevents, List.drop_left]
  show ((handle pg c s).1, (handle pg c s).2, rows ++ s.added pg c) = _
  rw [hnew, h]

theorem handleAdded_of_eq (h : handle pg c s = (r, s')) (hevents : s'.db.events = s.interfere.db.events) :
    handleAdded pg c (s, rows) = (r, s', rows) := by
  rw [handleAdded_of_append h (hevents.trans (List.append_nil _).symm), List.append_nil]

/-- Running alone, a program adds the rows that are new. -/
theorem Session.Alone.wp_added {α : Type} (pg : Pg) (p : App α) (h : s.Alone) :
    Prog.wp (handleAdded pg) p (fun _ t => t.1.db.events = s.db.events ++ t.2)
      (fun _ t => t.1.db.events = s.db.events ++ t.2) (s, []) := by
  have hany : Issues (fun _ => True) p := Issues.of_forall (fun _ => trivial) p
  have hstep : ∀ c (t : Session × List EventRow), True → t.1.Alone ∧ t.1.db.events = s.db.events ++ t.2 →
      (handleAdded pg c t).2.1.Alone ∧ (handleAdded pg c t).2.1.db.events = s.db.events ++ (handleAdded pg c t).2.2 := by
    rintro c t - ⟨halone, hevents⟩
    refine ⟨halone.handle pg c, (events_handle pg c t.1).trans ?_⟩
    rw [halone.interfere, hevents, List.append_assoc]
    rfl
  have hstart : (s, ([] : List EventRow)).1.Alone ∧ (s, ([] : List EventRow)).1.db.events = s.db.events ++ [] :=
    ⟨h, (List.append_nil _).symm⟩
  exact wp_mono (hany.wp hstep hstart) (fun _ _ h => h.2) fun _ _ h => h.2

end

/-! ### What every command keeps -/

/-- The changes a statement can make in a transaction that began at `now`. -/
inductive Stmt.Writes (now : Time) : Stmt → List Write → Prop where
  | none (stmt : Stmt) : Writes now stmt []
  | insertUser (username passwordHash : Str) (role : Role) (tenant : Str) (row : User) :
    Writes now (.insertUser username passwordHash role tenant) [.insertUser row]
  | insertEvent (e : NormalizedEvent) (row : EventRow) : Writes now (.insertEvent e) [.insertEvent row]
  | insertRule (r : NewRule) (row : AlertRule) (h : row.checked) : Writes now (.insertRule r) [.insertRule row]
  | updateRule (set : RuleUpdate) (ruleId : Int) (r : AlertRule) (h : (set.applyTo now r).checked) :
    Writes now (.updateRule set ruleId) [.updateRule r.tenant r.id set now]
  | insertAlert (a : NewAlert) (row : Alert) : Writes now (.insertAlert a) [.insertAlert row]
  | markWebhookSent (id : Nat) (a : Alert) :
    Writes now (.markWebhookSent id) [.markWebhookSent a.tenant a.id now]

theorem Stmt.exec_writes {pg : Pg} {ctx : Ctx} {db : Db} {stmt : Stmt} {r : stmt.Resp} {ws : List Write}
    (hx : stmt.exec pg ctx db = .ok (r, ws)) : stmt.Writes ctx.now ws := by
  cases stmt with
  | insertUser username passwordHash role tenant =>
    simp only [exec] at hx
    split_ifs at hx
    cases hx
    exact .insertUser _ _ _ _ _
  | insertEvent e =>
    simp only [exec] at hx
    split at hx
    · cases hx
    split_ifs at hx
    cases hx
    exact .insertEvent _ _
  | insertRule r =>
    simp only [exec] at hx
    split_ifs at hx with _ _ hchecked
    cases hx
    exact .insertRule _ _ (by simpa using hchecked)
  | updateRule set ruleId =>
    simp only [exec] at hx
    split at hx
    · cases hx
    split at hx
    · cases hx
      exact .none _
    split_ifs at hx with _ hchecked
    cases hx
    exact .updateRule _ _ _ (by simpa using hchecked)
  | insertAlert a =>
    simp only [exec] at hx
    split_ifs at hx
    cases hx
    exact .insertAlert _ _
  | markWebhookSent id =>
    simp only [exec] at hx
    split at hx
    · cases hx
      exact .none _
    · cases hx
      exact .markWebhookSent _ _
  | _ =>
    simp only [exec] at hx
    repeat' split at hx
    all_goals first | (obtain ⟨-, -, rfl⟩ := loaded_eq_ok.1 hx; exact .none _) | (cases hx; exact .none _) | cases hx

/-- The command issues no statement but those in `ok`. -/
def Cmd.Only (ok : Stmt → Prop) : Cmd → Prop
  | sql stmt => ok stmt
  | _ => True

section
variable {ok : Stmt → Prop} {p : App α}

theorem issues_exec {c : Cmd} (h : c.Only ok) : Issues (Cmd.Only ok) (exec c) := by
  refine Issues.bind (Issues.perform h) fun r => ?_
  cases r <;> trivial

theorem issues_withConn (hp : Issues (Cmd.Only ok) p) : Issues (Cmd.Only ok) (withConn p) := by
  refine Issues.bind (Issues.tryCatch hp fun e => ?_) fun a => ?_
  · exact ⟨trivial, fun _ => trivial⟩
  · exact Issues.bind (issues_exec trivial) fun _ => trivial

theorem issues_transaction (hp : Issues (Cmd.Only ok) p) : Issues (Cmd.Only ok) (transaction p) :=
  Issues.bind (issues_exec trivial) fun _ => issues_withConn hp

end

/-- `P` of the rows is kept by changes in `W`, and statements that are `ok` under the setting of `app.tenant`
make no others. -/
structure Kept (pg : Pg) (ok : Option Str → Stmt → Prop) (P : Db → Prop) (W : Write → Prop) : Prop where
  apply : ∀ db w, P db → W w → P (db.apply w)
  nextval : ∀ setting stmt db, ok setting stmt → P db → P { db with sequences := stmt.nextval db.sequences }
  writes : ∀ stmt ctx db r ws, ok ctx.tenant stmt → P db → stmt.exec pg ctx db = .ok (r, ws) → ∀ w ∈ ws, W w

/-- `P` of the committed rows, whatever other sessions do, and `W` of what the open transaction wrote. -/
structure Session.Holds (P : Db → Prop) (W : Write → Prop) (s : Session) : Prop where
  db : P s.db
  others : ∀ n db, P db → P (s.others n db)
  pending : ∀ w ∈ s.pending, W w

namespace Kept
variable {pg : Pg} {ok : Option Str → Stmt → Prop} {P : Db → Prop} {W : Write → Prop} {s : Session}

theorem applyAll (h : Kept pg ok P W) {db : Db} {ws : List Write} (hdb : P db) (hws : ∀ w ∈ ws, W w) :
    P (db.applyAll ws) := by
  induction ws generalizing db with
  | nil => exact hdb
  | cons w ws ih => exact ih (h.apply db w hdb (hws w (by simp))) fun w hw => hws w (by simp [hw])

theorem interfere (hs : s.Holds P W) : s.interfere.Holds P W :=
  ⟨hs.others 0 _ hs.db, hs.others, hs.pending⟩

theorem answered (hs : s.Holds P W) (c : Cmd) (r : c.Answer) : (s.answered c r).Holds P W :=
  ⟨hs.db, fun n => hs.others (n + 1), hs.pending⟩

theorem doSql (h : Kept pg ok P W) {stmt : Stmt} (hok : ok s.conn.tenant stmt) (hs : s.Holds P W) :
    (s.doSql pg stmt).2.Holds P W := by
  have htake : (s.takeId stmt).Holds P W := ⟨h.nextval _ stmt _ hok hs.db, hs.others, hs.pending⟩
  unfold Session.doSql
  split
  · exact answered hs _ _
  split
  · exact answered hs _ _
  split
  · exact answered htake _ _
  · rename_i r ws hx
    have hws := h.writes stmt _ _ r ws hok (h.applyAll hs.db hs.pending) hx
    have ha := answered htake (.sql stmt) (.ok r)
    dsimp only
    split
    · exact ⟨h.applyAll ha.db hws, ha.others, ha.pending⟩
    · refine ⟨ha.db, ha.others, fun w hw => ?_⟩
      rcases List.mem_append.1 hw with hw | hw
      · exact hs.pending w hw
      · exact hws w hw

theorem handle (h : Kept pg ok P W) {c : Cmd} (hc : c.Only (ok s.conn.tenant)) (hs : s.Holds P W) :
    (handle pg c s).2.Holds P W := by
  have hi := interfere hs
  cases c with
  | begin =>
    show (s.interfere.doBegin).2.Holds P W
    unfold Session.doBegin
    split
    · exact answered hi _ _
    · exact ⟨hi.db, fun n => hi.others (n + 1), by simp⟩
  | commit =>
    show (s.interfere.doCommit).2.Holds P W
    unfold Session.doCommit
    split
    · exact answered hi _ _
    split
    · exact ⟨hi.db, fun n => hi.others (n + 1), by simp⟩
    split
    · exact ⟨hi.db, fun n => hi.others (n + 1), by simp⟩
    · exact ⟨h.applyAll hi.db hi.pending, fun n => hi.others (n + 1), by simp⟩
  | rollback => exact ⟨hi.db, fun n => hi.others (n + 1), by simp [LogMgmt.handle, Session.doRollback]⟩
  | sql stmt => exact h.doSql hc hi
  | sendWebhook url payload =>
    show (s.interfere.doSendWebhook url payload).2.Holds P W
    unfold Session.doSendWebhook
    dsimp only
    split <;> exact ⟨hi.db, fun n => hi.others (n + 1), hi.pending⟩

theorem run {ok : Stmt → Prop} (h : Kept pg (fun _ => ok) P W) {p : App α} (hp : Issues (Cmd.Only ok) p)
    (hs : s.Holds P W) : (p.run (LogMgmt.handle pg) s).2.Holds P W :=
  wp_state.1 (hp.wp (h := LogMgmt.handle pg) (fun _ _ hc hs => h.handle hc hs) hs)

/-- A BEGIN discards what was open before. -/
theorem transaction {ok : Stmt → Prop} (h : Kept pg (fun _ => ok) P W) {p : App α}
    (hp : Issues (Cmd.Only ok) (transaction p)) (hs : P s.db) (hothers : ∀ n db, P db → P (s.others n db)) :
    P ((LogMgmt.transaction p).run (LogMgmt.handle pg) s).2.db := by
  have hbody : Issues (Cmd.Only ok) (withConn p) := hp.2 (.ok ())
  suffices hwp : wp (LogMgmt.handle pg) (LogMgmt.transaction p) (fun _ s' => P s'.db) (fun _ s' => P s'.db) s from
    wp_state.1 hwp
  rw [wp_transaction]
  cases hν : (s.nature 0).fault with
  | true =>
    rw [Session.handle_begin_fault pg hν]
    exact hothers 0 _ hs
  | false =>
    rw [Session.handle_begin pg hν, ends_ok]
    have hopened : s.opened.Holds P W :=
      { db := hothers 0 _ hs, others := fun n => hothers (n + 1), pending := fun w hw => by cases hw }
    exact wp_mono (hbody.wp (fun _ _ hc hs => h.handle hc hs) hopened) (fun _ _ h => h.db) fun _ _ h => h.db

/-- A program that issues its statements under the right setting, whatever the answers. -/
theorem run_setting (h : Kept pg ok P W) {p : App α} {J K : Conn → Prop}
    (hp : Safe (fun conn c => c.Only (ok conn.tenant)) Conn.next J K p s.conn) (hs : s.Holds P W) :
    (p.run (LogMgmt.handle pg) s).2.Holds P W :=
  wp_state.1 (wp_mono (Safe.wp (h := LogMgmt.handle pg) hp (handle_conn pg) (fun _ _ hc hs => h.handle hc hs) hs)
    (fun _ _ h => h.1) fun _ _ h => h.1)

end Kept

end LogMgmt
