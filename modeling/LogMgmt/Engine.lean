import LogMgmt.Api
import LogMgmt.Transactions

/-!
# The alert engine

`alerting/engine.py`: one process that evaluates every tenant on each tick, each tenant in a transaction of
its own. `System` is the database with that process; other sessions commit their requests between its
transactions and between any two of its statements.
-/

namespace LogMgmt
open Prog

/-! ### Programs -/

section
variable (webhookUrl : Option Str) (tenant : Str)

def webhookPayload (rule : RuleConfig) (c : Candidate) (alertId : Nat) : WebhookPayload where
  alertId
  tenant
  ruleType := .failedLoginBurst
  srcIp := c.srcIp
  eventCount := c.eventCount
  threshold := rule.threshold
  windowSeconds := rule.windowSeconds
  windowStart := c.windowStart
  windowEnd := c.windowEnd

/-- POST the alert if a URL is configured, and note its delivery. -/
def notify (rule : RuleConfig) (c : Candidate) (alertId : Nat) : App Unit :=
  match webhookUrl with
  | none => return ()
  | some [] => return ()
  | some url => do
    let delivered ← exec (.sendWebhook url (webhookPayload tenant rule c alertId))
    if delivered then sql (.markWebhookSent alertId) else return ()

/-- The loop body of `evaluate_tenant` -/
def evaluateCandidate (rule : RuleConfig) (c : Candidate) : App Unit := do
  let pastCooldown ← sql (.pastCooldown tenant rule.id c.srcIp rule.cooldownSeconds)
  if pastCooldown then
    let alertId ← sql (.insertAlert {
      tenant
      ruleId := rule.id
      srcIp := c.srcIp
      eventCount := c.eventCount
      threshold := rule.threshold
      windowSeconds := rule.windowSeconds
      windowStart := c.windowStart
      windowEnd := c.windowEnd })
    notify webhookUrl tenant rule c alertId
  else return ()

def evaluateTenant : App Unit :=
  transaction do
    sql (.setTenant tenant)
    match ← sql (.selectRule .failedLoginBurst) with
    | none => return ()
    | some rule =>
      let candidates ← sql (.detect rule.windowSeconds rule.threshold)
      candidates.forM (evaluateCandidate webhookUrl tenant rule)

/-- The loop body of `run_once` -/
def tryEvaluateTenant : App Unit :=
  tryCatch (evaluateTenant webhookUrl tenant) fun _ => exec .rollback

def runOnce : App Unit := do
  let tenants ← sql .discoverTenants
  tenants.forM (tryEvaluateTenant webhookUrl)

end

/-! ### The system -/

structure System where
  db : Db := {}
  /-- the engine's connection -/
  conn : Conn := { autocommit := true }
  /-- the tenants that the running tick has still to evaluate -/
  queue : List Str := []
  log : Log := {}

/-- `drop_old_partitions` is no action: an operator runs it by hand, and `EventsTable` has it with the partitions. -/
inductive Action where
  /-- Another program's request. -/
  | request (r : Request)
  /-- A tick begins. -/
  | discover (ν : Nat → Choice) (between : Nat → List Request)
  /-- The tick evaluates its next tenant; `between n` commits before command `n`. -/
  | evaluate (ν : Nat → Choice) (between : Nat → List Request)

namespace System

/-- The engine's session for one step. -/
def session (w : World) (s : System) (ν : Nat → Choice) (between : Nat → List Request) : Session where
  db := s.db
  conn := s.conn
  nature := ν
  others n db := (between n).foldl (Request.commits w) db
  log := s.log

/-- An exception leaves `run_once`; the next tick starts anew. -/
def after (r : Except Exn (List Str) × Session) : System where
  db := r.2.db
  conn := r.2.conn
  queue := match r.1 with
    | .ok queue => queue
    | .error _ => []
  log := r.2.log

def step (w : World) (webhookUrl : Option Str) (s : System) : Action → System
  | .request r => { s with db := r.commits w s.db }
  | .discover ν between =>
    if s.queue = [] then after ((sql .discoverTenants).run (handle w.pg) (s.session w ν between)) else s
  | .evaluate ν between =>
    match s.queue with
    | [] => s
    | tenant :: queue =>
      let r := (tryEvaluateTenant webhookUrl tenant).run (handle w.pg) (s.session w ν between)
      after (r.1.map fun _ => queue, r.2)

def run (w : World) (webhookUrl : Option Str) (s : System) (actions : List Action) : System :=
  actions.foldl (step w webhookUrl) s

end System

end LogMgmt
