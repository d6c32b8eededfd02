import LogMgmt.Schema
import LogMgmt.Lib.Prog

/-!
# Connections and transactions

A psycopg connection: its transaction status and the two levels at which `app.tenant` can be set on
it. `App` is a program that talks to one connection and may POST a webhook; `handle` carries its
commands out on a `Session`, where `nature` decides what the program cannot: the clock, which commands
raise, the order of rows, whether a POST is accepted; `others` is what other sessions commit in between.
-/

namespace LogMgmt

/-! ### Commands -/

structure WebhookPayload where
  alertId : Nat
  tenant : Str
  ruleType : RuleType
  srcIp : Inet
  eventCount : Int
  threshold : Int
  windowSeconds : Int
  windowStart : Time
  windowEnd : Time
deriving DecidableEq

inductive Cmd where
  | begin
  | commit
  | rollback
  | sql (s : Stmt)
  | sendWebhook (url : Str) (payload : WebhookPayload)

@[reducible] def Cmd.Resp : Cmd → Type
  | begin => Unit
  | commit => Unit
  | rollback => Unit
  | sql s => s.Resp
  | sendWebhook _ _ => Bool

inductive Exn where
  /-- `psycopg.OperationalError`: the server or the connection to it failed. -/
  | operational
  | sql (e : SqlError)
  | inFailedSqlTransaction
  /-- `fastapi.HTTPException` -/
  | http (status : Nat) (detail : String)
  /-- An exception of the Python code itself; over HTTP it is a 500. -/
  | python
deriving DecidableEq, Repr

abbrev Cmd.Answer (c : Cmd) : Type := Except Exn c.Resp

abbrev App (α : Type) : Type := Prog Cmd.Answer Exn α

/-- Issue a command, raising what it raises. -/
def exec (c : Cmd) : App c.Resp := do
  match ← Prog.perform c with
  | .ok r => return r
  | .error e => throw e

def sql (s : Stmt) : App s.Resp := exec (.sql s)

/-- `async with conn`: COMMIT after the block, or ROLLBACK if it raises. A ROLLBACK that raises is only
logged. -/
def withConn (p : App α) : App α := do
  let a ← tryCatch p fun e => do
    let _ ← Prog.perform .rollback
    throw e
  exec .commit
  return a

def transaction (p : App α) : App α := do
  exec .begin
  withConn p

/-! ### The connection -/

inductive TxStatus where
  | idle
  | inTx
  | failed
deriving DecidableEq, Repr

structure Conn where
  autocommit : Bool
  status : TxStatus := .idle
  /-- `app.tenant` at session level -/
  sessionTenant : Option Str := none
  /-- `app.tenant` set by `set_config(..., true)` in the open transaction -/
  localTenant : Option Str := none
deriving DecidableEq

namespace Conn

/-- `current_setting('app.tenant', true)` -/
def tenant (conn : Conn) : Option Str := conn.localTenant <|> conn.sessionTenant

/-- The end of a transaction. A value that was local to it leaves `''` where there was none before. -/
def endTx (conn : Conn) : Conn :=
  { conn with
    status := .idle
    sessionTenant := if conn.localTenant.isSome then some (conn.sessionTenant.getD []) else conn.sessionTenant
    localTenant := none }

/-- A statement has run; without `autocommit` the first one opens a transaction. -/
def ran (conn : Conn) : Conn :=
  if conn.status = .idle ∧ conn.autocommit then conn else { conn with status := .inTx }

def fail (conn : Conn) : Conn :=
  if conn.status = .idle ∧ conn.autocommit then conn else { conn with status := .failed }

/-- The statement is a transaction of its own. -/
def setTenant (conn : Conn) (tenant : Str) : Conn :=
  if conn.status = .idle ∧ conn.autocommit then { conn with localTenant := some tenant }.endTx
  else { conn with status := .inTx, localTenant := some tenant }

def next (conn : Conn) : (c : Cmd) → c.Answer → Conn
  | .begin, .ok _ => { conn with status := .inTx }
  | .begin, .error _ => conn
  | .commit, _ => conn.endTx
  | .rollback, _ => conn.endTx
  | .sql (.setTenant tenant), .ok _ => conn.setTenant tenant
  | .sql _, .ok _ => conn.ran
  | .sql _, .error _ => conn.fail
  | .sendWebhook _ _, _ => conn

end Conn

/-! ### What the engine has done -/

/-- An alert inserted by the engine, with the cooldown of the rule as `SELECT_RULE_SQL` read it. -/
structure Firing where
  alertId : Nat
  tenant : Str
  ruleId : Nat
  srcIp : Inet
  triggeredAt : Time
  cooldownSeconds : Int
deriving DecidableEq

/-- A webhook that was answered with 2xx, in the transaction that began at `sentAt`. -/
structure Delivery where
  payload : WebhookPayload
  ruleId : Nat
  sentAt : Time
  cooldownSeconds : Int
deriving DecidableEq

/-- A record of the run, which no program reads. -/
structure Log where
  /-- what `SELECT_RULE_SQL` last answered -/
  rule : Option RuleConfig := none
  /-- alerts of the open transaction -/
  firing : List Firing := []
  /-- committed alerts -/
  fired : List Firing := []
  delivered : List Delivery := []

namespace Log

/-- Alerts and rule of an open transaction are forgotten, the alerts kept if it committed. -/
def endTx (log : Log) (committed : Bool) : Log :=
  { log with rule := none, firing := [], fired := if committed then log.fired ++ log.firing else log.fired }

def fire (log : Log) (now : Time) (a : NewAlert) (alertId : Nat) : Log :=
  { log with firing := log.firing ++ log.rule.toList.map fun r =>
      ⟨alertId, a.tenant, a.ruleId, a.srcIp, now, r.cooldownSeconds⟩ }

def deliver (log : Log) (now : Time) (payload : WebhookPayload) : Log :=
  { log with delivered := log.delivered ++ log.rule.toList.map fun r =>
      ⟨payload, r.id, now, r.cooldownSeconds⟩ }

end Log

/-! ### Sessions -/

/-- What is decided outside the program, for one command. -/
structure Choice where
  now : Time := 0
  fault : Bool := false
  order : RowOrder := .stable
  /-- the webhook receiver answers with 2xx -/
  accepted : Bool := true

/-- The state of one program on its connection. -/
structure Session where
  /-- the committed rows -/
  db : Db
  conn : Conn
  startedAt : Time := 0
  /-- what the open transaction has written -/
  pending : List Write := []
  /-- the choices for the commands to come -/
  nature : Nat → Choice
  /-- what other sessions commit before each command to come -/
  others : Nat → Db → Db := fun _ => id
  log : Log := {}

namespace Session

/-- The rows a statement of the session sees. -/
def view (s : Session) : Db := s.db.applyAll s.pending

def now (s : Session) : Time := if s.conn.status = .idle then (s.nature 0).now else s.startedAt

def ctx (s : Session) : Ctx where
  now := s.now
  tenant := s.conn.tenant
  order := (s.nature 0).order

def interfere (s : Session) : Session := { s with db := s.others 0 s.db }

def answered (s : Session) (c : Cmd) (r : c.Answer) : Session :=
  { s with
    conn := s.conn.next c r
    nature := fun n => s.nature (n + 1)
    others := fun n => s.others (n + 1) }

def doBegin (s : Session) : Cmd.begin.Answer × Session :=
  if (s.nature 0).fault then (.error .operational, s.answered .begin (.error .operational))
  else (.ok (), { s.answered .begin (.ok ()) with startedAt := (s.nature 0).now, pending := [], log := s.log.endTx false })

/-- A COMMIT that raises, and one in a failed transaction, leaves nothing. -/
def doCommit (s : Session) : Cmd.commit.Answer × Session :=
  if s.conn.status = .idle then (.ok (), s.answered .commit (.ok ()))
  else if (s.nature 0).fault then
    (.error .operational, { s.answered .commit (.error .operational) with pending := [], log := s.log.endTx false })
  else if s.conn.status = .failed then
    (.ok (), { s.answered .commit (.ok ()) with pending := [], log := s.log.endTx false })
  else (.ok (), { s.answered .commit (.ok ()) with db := s.view, pending := [], log := s.log.endTx true })

def doRollback (s : Session) : Cmd.rollback.Answer × Session :=
  let r : Cmd.rollback.Answer :=
    if s.conn.status ≠ .idle ∧ (s.nature 0).fault then .error .operational else .ok ()
  (r, { s.answered .rollback r with pending := [], log := s.log.endTx false })

def record (s : Session) : (stmt : Stmt) → stmt.Resp → Log
  | .selectRule _, r => { s.log with rule := r }
  | .insertAlert a, alertId => s.log.fire s.now a alertId
  | _, _ => s.log

/-- The identity value is taken for good, whether or not the statement or its transaction succeeds. -/
def takeId (s : Session) (stmt : Stmt) : Session :=
  { s with db := { s.db with sequences := stmt.nextval s.db.sequences } }

def doSql (pg : Pg) (stmt : Stmt) (s : Session) : (Cmd.sql stmt).Answer × Session :=
  if (s.nature 0).fault then (.error .operational, s.answered (.sql stmt) (.error .operational))
  else if s.conn.status = .failed then
    (.error .inFailedSqlTransaction, s.answered (.sql stmt) (.error .inFailedSqlTransaction))
  else match stmt.exec pg s.ctx s.view with
    | .error e => (.error (.sql e), (s.takeId stmt).answered (.sql stmt) (.error (.sql e)))
    | .ok (r, ws) =>
      let s' := { (s.takeId stmt).answered (.sql stmt) (.ok r) with log := s.record stmt r }
      (.ok r, if s.conn.status = .idle ∧ s.conn.autocommit then { s' with db := s'.db.applyAll ws }
        else { s' with startedAt := s.now, pending := s.pending ++ ws })

def doSendWebhook (url : Str) (payload : WebhookPayload) (s : Session) :
    (Cmd.sendWebhook url payload).Answer × Session :=
  let s' := s.answered (.sendWebhook url payload) (.ok (s.nature 0).accepted)
  (.ok (s.nature 0).accepted,
    if (s.nature 0).accepted then { s' with log := s.log.deliver s.now payload } else s')

end Session

/-- A command of the program, after what other sessions commit before it. -/
def handle (pg : Pg) : Prog.Handler Cmd.Answer Session
  | .begin, s => s.interfere.doBegin
  | .commit, s => s.interfere.doCommit
  | .rollback, s => s.interfere.doRollback
  | .sql stmt, s => s.interfere.doSql pg stmt
  | .sendWebhook url payload, s => s.interfere.doSendWebhook url payload

end LogMgmt
