import LogMgmt.Models
import LogMgmt.Lib.RowOrder
import Mathlib.Data.List.Dedup
import Mathlib.Data.List.Infix

/-!
# Tables and statements

The tables of `backend/db/init/*.sql` and every SQL statement the Python code sends. `Stmt.exec` says
what a statement answers and which rows it writes, given the rows its transaction sees, the session's
`app.tenant` and the transaction's `now()`. Row level security is part of it: `USING` filters what
SELECT and UPDATE see, `WITH CHECK` guards INSERT, both by `tenant = current_setting('app.tenant', true)`.
`Pg` stands for what PostgreSQL decides and the source relies on.
-/

namespace LogMgmt

/-! ### Rows -/

structure EventRow extends EventFields Time Inet where
  id : Nat
  ingestedAt : Time

/-- `CHECK (rule_type = 'failed_login_burst')` -/
inductive RuleType where
  | failedLoginBurst
deriving DecidableEq, Repr

structure AlertRule where
  id : Nat
  tenant : Str
  ruleType : RuleType
  threshold : Int
  windowSeconds : Int
  cooldownSeconds : Int
  enabled : Bool
  createdAt : Time
  updatedAt : Time
deriving DecidableEq

structure Alert where
  id : Nat
  tenant : Str
  ruleId : Nat
  triggeredAt : Time
  srcIp : Inet
  eventCount : Int
  threshold : Int
  windowSeconds : Int
  windowStart : Time
  windowEnd : Time
  webhookSentAt : Option Time
deriving DecidableEq

/-- `CHECK (role IN ('admin', 'viewer'))` -/
inductive Role where
  | admin
  | viewer
deriving DecidableEq, Repr

structure User where
  id : Nat
  username : Str
  passwordHash : Str
  role : Role
  tenant : Str
  createdAt : Time
deriving DecidableEq

/-- The next value of each identity column; a rollback does not give a value back. -/
structure Sequences where
  event : Nat := 1
  rule : Nat := 1
  alert : Nat := 1
  user : Nat := 1
deriving DecidableEq

structure Db where
  users : List User := []
  alertRules : List AlertRule := []
  alerts : List Alert := []
  events : List EventRow := []
  sequences : Sequences := {}

/-! ### Value domains -/

/-- What the server's collation and type input functions decide. -/
structure Pg where
  /-- `lower()`, which `ILIKE` applies to both sides -/
  lower : Str → Str
  /-- the text input of `inet`; no value where it raises -/
  inetIn : Str → Option Inet
  /-- `inet::text` -/
  inetText : Inet → Str

/-- A `text` value: no U+0000 and no surrogate. -/
def textOk (s : Str) : Bool := s.all fun c => c != 0 && !(0xD800 ≤ c.val && c.val < 0xE000)

/-- How `jsonb` reads the escapes that `json.dumps` writes: a high and a low surrogate are one character. -/
def joinSurrogates : Str → Str
  | high :: low :: s =>
    if 0xD800 ≤ high.val ∧ high.val < 0xDC00 ∧ 0xDC00 ≤ low.val ∧ low.val < 0xE000 then
      Fin.ofNat 0x110000 (0x10000 + (high.val - 0xD800) * 0x400 + (low.val - 0xDC00)) :: joinSurrogates s
    else high :: joinSurrogates (low :: s)
  | s => s

/-- A string in `jsonb`. -/
def jsonTextOk (s : Str) : Bool := textOk (joinSurrogates s)

mutual
/-- A `jsonb` value: its keys and strings are such strings and its numbers are finite. -/
def jsonbOk : PyVal → Bool
  | .none => true
  | .bool _ => true
  | .int _ => true
  | .float f => f.isFinite
  | .str s => jsonTextOk s
  | .list vs => jsonbListOk vs
  | .dict kvs => jsonbDictOk kvs

def jsonbListOk : List PyVal → Bool
  | [] => true
  | v :: vs => jsonbOk v && jsonbListOk vs

def jsonbDictOk : PyDict → Bool
  | [] => true
  | (k, v) :: kvs => k.all jsonTextOk && jsonbOk v && jsonbDictOk kvs
end

/-- The key that `json.dumps` writes. -/
def jsonKey (key : Option Str) : Option Str := some (joinSurrogates (key.getD (str "null")))

mutual
/-- The `jsonb` value of what `json.dumps` writes. -/
def jsonb : PyVal → PyVal
  | .str s => .str (joinSurrogates s)
  | .list vs => .list (jsonbList vs)
  | .dict kvs => .dict (jsonbDict kvs)
  | v => v

def jsonbList : List PyVal → List PyVal
  | [] => []
  | v :: vs => jsonb v :: jsonbList vs

/-- Of two keys that are written in the same way `jsonb` keeps the last. -/
def jsonbDict : PyDict → PyDict
  | [] => []
  | (k, v) :: kvs =>
    if kvs.any fun kv => kv.1 != k && jsonKey kv.1 == jsonKey k then jsonbDict kvs
    else (jsonKey k, jsonb v) :: jsonbDict kvs
end

/-- `integer` -/
def int4Ok (i : Int) : Bool := -2147483648 ≤ i && i ≤ 2147483647

/-- `bigint` -/
def int8Ok (i : Int) : Bool := -9223372036854775808 ≤ i && i ≤ 9223372036854775807

/-- A `timestamptz` that psycopg can load: one in the years 1 to 9999 of UTC. -/
def timeOk (t : Time) : Bool := DateTime.minWall ≤ t && t ≤ DateTime.maxWall

def Alert.timesOk (a : Alert) : Bool :=
  ([a.triggeredAt, a.windowStart, a.windowEnd] ++ a.webhookSentAt.toList).all timeOk

/-- What the server refuses, or psycopg before or after it. -/
inductive SqlError where
  | invalidText
  | invalidJson
  | invalidInet
  | invalidTimestamp
  | outOfRange
  | rowSecurity
  | checkViolation
  | notNullViolation
  | uniqueViolation
  | foreignKeyViolation
deriving DecidableEq, Repr

/-! ### Statements -/

/-- The WHERE clause of `GET /search`. -/
structure EventFilter where
  startTime : Option Time := none
  endTime : Option Time := none
  source : Option Str := none
  eventType : Option Str := none
  user : Option Str := none
  srcIp : Option Str := none

/-- The WHERE clause of `GET /alerts`. -/
structure AlertFilter where
  startTime : Option Time := none
  endTime : Option Time := none
  srcIp : Option Str := none

inductive TopField where
  | ip
  | user
  | eventType
deriving DecidableEq, Repr

inductive Interval where
  | minute
  | hour
  | day
deriving DecidableEq, Repr

/-- The values of `INSERT INTO alert_rules`. -/
structure NewRule where
  tenant : Str
  ruleType : RuleType
  threshold : Int
  windowSeconds : Int
  cooldownSeconds : Int
  enabled : Bool
deriving DecidableEq

/-- The assignments of `UPDATE alert_rules SET ...`: the fields present in the request body, each with
its value or NULL. -/
structure RuleUpdate where
  threshold : Option (Option Int) := none
  windowSeconds : Option (Option Int) := none
  cooldownSeconds : Option (Option Int) := none
  enabled : Option (Option Bool) := none
deriving DecidableEq

/-- The values of `INSERT INTO alerts`. -/
structure NewAlert where
  tenant : Str
  ruleId : Nat
  srcIp : Inet
  eventCount : Int
  threshold : Int
  windowSeconds : Int
  windowStart : Time
  windowEnd : Time
deriving DecidableEq

/-- A row of `SELECT_RULE_SQL`. -/
structure RuleConfig where
  id : Nat
  threshold : Int
  windowSeconds : Int
  cooldownSeconds : Int
deriving DecidableEq

/-- A row of `DETECT_SQL`. -/
structure Candidate where
  srcIp : Inet
  eventCount : Int
  windowStart : Time
  windowEnd : Time
deriving DecidableEq

def Candidate.timesOk (c : Candidate) : Bool := timeOk c.windowStart && timeOk c.windowEnd

inductive Stmt where
  /-- `SET_TENANT_SQL` -/
  | setTenant (tenant : Str)
  /-- `SELECT 1` -/
  | selectOne
  | selectUser (username : Str)
  | insertUser (username passwordHash : Str) (role : Role) (tenant : Str)
  /-- `INSERT_SQL` of `ingest/db.py` -/
  | insertEvent (e : NormalizedEvent)
  | searchEvents (filter : EventFilter) (fetchLimit offset : Nat)
  | topEvents (field : TopField) (startTime endTime : Option Time) (limit : Nat)
  | timeline (interval : Interval) (startTime endTime : Option Time)
  | listRules
  | insertRule (r : NewRule)
  | updateRule (set : RuleUpdate) (ruleId : Int)
  | listAlerts (filter : AlertFilter) (fetchLimit offset : Nat)
  /-- `DISCOVER_TENANTS_SQL` -/
  | discoverTenants
  /-- `SELECT_RULE_SQL` -/
  | selectRule (ruleType : RuleType)
  /-- `DETECT_SQL` -/
  | detect (windowSeconds threshold : Int)
  /-- `PAST_COOLDOWN_SQL` -/
  | pastCooldown (tenant : Str) (ruleId : Nat) (srcIp : Inet) (cooldownSeconds : Int)
  /-- `INSERT_ALERT_SQL` -/
  | insertAlert (a : NewAlert)
  /-- `MARK_WEBHOOK_SENT_SQL` -/
  | markWebhookSent (id : Nat)

/-- What `fetchone` or `fetchall` returns. -/
@[reducible] def Stmt.Resp : Stmt → Type
  | setTenant _ => Unit
  | selectOne => Unit
  | selectUser _ => Option User
  | insertUser _ _ _ _ => Unit
  | insertEvent _ => Unit
  | searchEvents _ _ _ => List EventRow
  | topEvents _ _ _ _ => List (Str × Nat)
  | timeline _ _ _ => List (Time × Nat)
  | listRules => List AlertRule
  | insertRule _ => AlertRule
  | updateRule _ _ => Option AlertRule
  | listAlerts _ _ _ => List Alert
  | discoverTenants => List Str
  | selectRule _ => Option RuleConfig
  | detect _ _ => List Candidate
  | pastCooldown _ _ _ _ => Bool
  | insertAlert _ => Nat
  | markWebhookSent _ => Unit

/-- Whether a statement reads or writes a table under the `tenant_isolation` policy. -/
def Stmt.tenantTable : Stmt → Bool
  | setTenant _ | selectOne | selectUser _ | insertUser _ _ _ _ | discoverTenants => false
  | _ => true

/-! ### Writes -/

/-- A row change, as a transaction keeps it until it commits. -/
inductive Write where
  | insertUser (row : User)
  | insertEvent (row : EventRow)
  | insertRule (row : AlertRule)
  | updateRule (tenant : Str) (id : Nat) (set : RuleUpdate) (now : Time)
  | insertAlert (row : Alert)
  | markWebhookSent (tenant : Str) (id : Nat) (now : Time)

/-- The updated row; a field that is not set keeps its value. -/
def RuleUpdate.applyTo (set : RuleUpdate) (now : Time) (r : AlertRule) : AlertRule :=
  { r with
    threshold := set.threshold.join.getD r.threshold
    windowSeconds := set.windowSeconds.join.getD r.windowSeconds
    cooldownSeconds := set.cooldownSeconds.join.getD r.cooldownSeconds
    enabled := set.enabled.join.getD r.enabled
    updatedAt := now }

namespace Db

def apply (db : Db) : Write → Db
  | .insertUser row => { db with users := db.users ++ [row] }
  | .insertEvent row => { db with events := db.events ++ [row] }
  | .insertRule row => { db with alertRules := db.alertRules ++ [row] }
  | .updateRule tenant id set now =>
    { db with alertRules := db.alertRules.map fun r =>
        if r.tenant = tenant ∧ r.id = id then set.applyTo now r else r }
  | .insertAlert row => { db with alerts := db.alerts ++ [row] }
  | .markWebhookSent tenant id now =>
    { db with alerts := db.alerts.map fun a =>
        if a.tenant = tenant ∧ a.id = id then { a with webhookSentAt := some now } else a }

def applyAll (db : Db) (ws : List Write) : Db := ws.foldl apply db

end Db

/-- The identity value a statement takes, whether or not its row is kept. -/
def Stmt.nextval : Stmt → Sequences → Sequences
  | insertUser _ _ _ _, s => { s with user := s.user + 1 }
  | insertEvent _, s => { s with event := s.event + 1 }
  | insertRule _, s => { s with rule := s.rule + 1 }
  | insertAlert _, s => { s with alert := s.alert + 1 }
  | _, s => s

/-! ### Conditions -/

/-- `tenant = current_setting('app.tenant', true)`; NULL is not true. -/
def rls (setting : Option Str) (tenant : Str) : Bool := setting == some tenant

/-- `s ILIKE '%pattern%'` -/
def ilike (pg : Pg) (pattern : String) (s : Str) : Bool := decide (pg.lower (str pattern) <:+: pg.lower s)

/-- The wording conditions of `DETECT_SQL`; a NULL `action` does not match. -/
def failedLogin (pg : Pg) (e : EventRow) : Bool :=
  (ilike pg "login" e.eventType || ilike pg "logon" e.eventType) &&
    (ilike pg "fail" e.eventType || e.action.any (ilike pg "fail"))

/-- A half-open range with optional bounds. -/
def inRange (startTime endTime : Option Time) (t : Time) : Bool :=
  startTime.all (· ≤ t) && endTime.all (t < ·)

/-- An optional equality filter; NULL equals nothing. -/
def eqFilter [DecidableEq α] (filter : Option α) (column : Option α) : Bool :=
  filter.all fun v => column == some v

def textParamOk (p : Option Str) : Bool := p.all textOk

/-- The `src_ip` parameter: text that the server turns into `inet`. -/
def inetParam (pg : Pg) : Option Str → Except SqlError (Option Inet)
  | none => .ok none
  | some s =>
    if textOk s then
      match pg.inetIn s with
      | some ip => .ok (some ip)
      | none => .error .invalidInet
    else .error .invalidText

/-- The WHERE clause of `GET /search`, with the address parameter as `inet`. -/
def EventFilter.matches (f : EventFilter) (ip : Option Inet) (e : EventRow) : Bool :=
  inRange f.startTime f.endTime e.eventTime && eqFilter f.source (some e.source) &&
    eqFilter f.eventType (some e.eventType) && eqFilter f.user e.user && eqFilter ip e.srcIp

/-- The WHERE clause of `GET /alerts`. -/
def AlertFilter.matches (f : AlertFilter) (ip : Option Inet) (a : Alert) : Bool :=
  inRange f.startTime f.endTime a.triggeredAt && eqFilter ip (some a.srcIp)

/-- `date_trunc` in UTC -/
def Interval.trunc (i : Interval) (t : Time) : Time :=
  let size := match i with
    | minute => seconds 60
    | hour => seconds 3600
    | day => seconds 86400
  t - t % size

/-- The column counted by `GET /stats/top`, and its `::text`. -/
def TopField.column : TopField → EventRow → Option (Inet ⊕ Str)
  | .ip, e => e.srcIp.map .inl
  | .user, e => e.user.map .inr
  | .eventType, e => some (.inr e.eventType)

def TopField.text (pg : Pg) : Inet ⊕ Str → Str
  | .inl a => pg.inetText a
  | .inr s => s

/-- `GROUP BY key` with `count(*)` -/
def countBy [DecidableEq κ] (key : α → κ) (rows : List α) : List (κ × Nat) :=
  (rows.map key).dedup.map fun k => (k, (rows.filter fun r => key r = k).length)

/-- `CHECK (... > 0)` on the three numbers of a rule, and their range -/
def RuleUpdate.inRange (set : RuleUpdate) : Bool :=
  [set.threshold, set.windowSeconds, set.cooldownSeconds].all fun f => f.join.all int4Ok

def RuleUpdate.notNull (set : RuleUpdate) : Bool :=
  [set.threshold, set.windowSeconds, set.cooldownSeconds].all (· != some none) && set.enabled != some none

def AlertRule.checked (r : AlertRule) : Bool :=
  r.tenant != [] && 0 < r.threshold && 0 < r.windowSeconds && 0 < r.cooldownSeconds

/-! ### Inserting an event -/

/-- The text columns that are not NULL, and the elements of `_tags`. -/
def EventFields.texts (e : EventFields τ ι) : List Str :=
  [e.tenant, e.source, e.eventType] ++
    [e.vendor, e.product, e.eventSubtype, e.action, e.protocol, e.user, e.host, e.process, e.url,
      e.httpMethod, e.ruleName, e.ruleId, e.cloudAccountId, e.cloudRegion, e.cloudService].reduceOption ++
    e.tags

/-- `_params`, converted to the column types. -/
def EventColumns.ofParams (e : NormalizedEvent) : Except SqlError EventColumns := do
  if !e.texts.all textOk then throw .invalidText
  if !jsonbOk (.dict e.raw) then throw .invalidJson
  if !e.statusCode.all int4Ok then throw .outOfRange
  return { e with
    eventTime := e.eventTime.instant
    srcIp := e.srcIp.map IPAddress.toInet
    dstIp := e.dstIp.map IPAddress.toInet
    raw := jsonbDict e.raw }

theorem EventColumns.ofParams_tenant {e : NormalizedEvent} {cols : EventColumns} (h : ofParams e = .ok cols) :
    cols.tenant = e.tenant := by
  simp only [ofParams, bind, Except.bind, pure, Except.pure] at h
  repeat' split at h
  all_goals first | (cases h; rfl) | cases h

/-- The CHECK constraints of `events`; a NULL passes. -/
def EventFields.checked (e : EventFields τ ι) : Bool :=
  e.tenant != [] && e.severity.all (fun s => 0 ≤ s && s ≤ 10) &&
    e.srcPort.all (fun p => 0 ≤ p && p ≤ 65535) && e.dstPort.all (fun p => 0 ≤ p && p ≤ 65535)

/-! ### Execution -/

/-- What a statement sees of its session: `now()` of the transaction, `app.tenant`, and the order in
which the server happens to return rows. -/
structure Ctx where
  now : Time
  tenant : Option Str
  order : RowOrder

namespace Db
variable (db : Db) (setting : Option Str)

def visibleEvents : List EventRow := db.events.filter fun e => rls setting e.tenant
def visibleRules : List AlertRule := db.alertRules.filter fun r => rls setting r.tenant
def visibleAlerts : List Alert := db.alerts.filter fun a => rls setting a.tenant

/-- The rows that `DETECT_SQL` groups. -/
def failedLogins (pg : Pg) (since : Time) : List EventRow :=
  (db.visibleEvents setting).filter fun e => since ≤ e.ingestedAt && e.srcIp.isSome && failedLogin pg e

end Db

def fromIp (ip : Inet) (rows : List EventRow) : List EventRow := rows.filter fun e => e.srcIp = some ip

def Candidate.ofRows (rows : List EventRow) (ip : Inet) : Candidate where
  srcIp := ip
  eventCount := (fromIp ip rows).length
  windowStart := ((fromIp ip rows).map (·.eventTime)).min?.getD 0
  windowEnd := ((fromIp ip rows).map (·.eventTime)).max?.getD 0

/-- `GROUP BY src_ip HAVING count(*) >= threshold` -/
def candidates (threshold : Int) (rows : List EventRow) : List Candidate :=
  ((rows.filterMap (·.srcIp)).dedup.map (Candidate.ofRows rows)).filter fun c => threshold ≤ c.eventCount

/-- The earlier alerts that `PAST_COOLDOWN_SQL` looks at. -/
def Db.alertsOf (db : Db) (setting : Option Str) (tenant : Str) (ruleId : Nat) (srcIp : Inet) : List Alert :=
  (db.visibleAlerts setting).filter fun a => a.tenant = tenant ∧ a.ruleId = ruleId ∧ a.srcIp = srcIp

/-- The rows that a statement returns, as psycopg loads them. -/
def loaded (ok : α → Bool) (rows : List α) : Except SqlError (List α × List Write) :=
  if rows.all ok then .ok (rows, []) else .error .invalidTimestamp

theorem loaded_eq_ok {ok : α → Bool} {rows got : List α} {ws : List Write} :
    loaded ok rows = .ok (got, ws) ↔ (∀ x ∈ rows, ok x) ∧ got = rows ∧ ws = [] := by
  unfold loaded
  rw [← List.all_eq_true]
  split_ifs with h
  · rw [Except.ok.injEq, Prod.mk.injEq, and_iff_right h, eq_comm, eq_comm (a := [])]
  · exact iff_of_false (by simp) fun hx => h hx.1

theorem loaded_of_all {ok : α → Bool} {rows : List α} (h : ∀ x ∈ rows, ok x) : loaded ok rows = .ok (rows, []) :=
  if_pos (List.all_eq_true.2 h)

/-- What a statement answers and writes, on the rows `db` its transaction sees. The times of rules and users are readings
of the server's clock, which shows a year that psycopg can load. -/
def Stmt.exec (pg : Pg) (ctx : Ctx) (db : Db) : (s : Stmt) → Except SqlError (s.Resp × List Write)
  | setTenant tenant => if textOk tenant then .ok ((), []) else .error .invalidText
  | selectOne => .ok ((), [])
  | selectUser username =>
    if textOk username then .ok (db.users.find? (·.username = username), []) else .error .invalidText
  | insertUser username passwordHash role tenant =>
    if !(textOk username && textOk tenant) then .error .invalidText
    else if tenant = [] then .error .checkViolation
    else if db.users.any (·.username = username) then .error .uniqueViolation
    else .ok ((), [.insertUser ⟨db.sequences.user, username, passwordHash, role, tenant, ctx.now⟩])
  | insertEvent e =>
    match EventColumns.ofParams e with
    | .error err => .error err
    | .ok cols =>
      if !rls ctx.tenant e.tenant then .error .rowSecurity
      else if !cols.checked then .error .checkViolation
      else .ok ((), [.insertEvent { cols with id := db.sequences.event, ingestedAt := ctx.now }])
  | searchEvents f fetchLimit offset =>
    if !([f.source, f.eventType, f.user].all textParamOk) then .error .invalidText
    else if !int8Ok offset then .error .outOfRange
    else match inetParam pg f.srcIp with
      | .error err => .error err
      | .ok ip =>
        let rows := (db.visibleEvents ctx.tenant).filter (f.matches ip)
        let fetched := ((ctx.order.arrange (fun e => -e.eventTime) rows).drop offset).take fetchLimit
        loaded (fun e => timeOk e.eventTime) fetched
  | topEvents field startTime endTime limit =>
    let rows := (db.visibleEvents ctx.tenant).filter fun e => inRange startTime endTime e.eventTime
    let groups := countBy id (rows.filterMap field.column)
    .ok (((ctx.order.arrange (fun g => -(g.2 : Int)) groups).take limit).map fun g =>
      (TopField.text pg g.1, g.2), [])
  | timeline interval startTime endTime =>
    let rows := (db.visibleEvents ctx.tenant).filter fun e => inRange startTime endTime e.eventTime
    let groups := countBy id (rows.map fun e => interval.trunc e.eventTime)
    loaded (fun g => timeOk g.1) (ctx.order.arrange (·.1) groups)
  | listRules => .ok (ctx.order.arrange (fun r => (r.id : Int)) (db.visibleRules ctx.tenant), [])
  | insertRule r =>
    let row : AlertRule := { r with id := db.sequences.rule, createdAt := ctx.now, updatedAt := ctx.now }
    if !([r.threshold, r.windowSeconds, r.cooldownSeconds].all int4Ok) then .error .outOfRange
    else if !rls ctx.tenant r.tenant then .error .rowSecurity
    else if !row.checked then .error .checkViolation
    else if db.alertRules.any fun r' => r'.tenant = r.tenant ∧ r'.ruleType = r.ruleType then
      .error .uniqueViolation
    else .ok (row, [.insertRule row])
  | updateRule set ruleId =>
    -- the parameters are constants of the plan: one out of range raises before any row is looked at
    if !set.inRange then .error .outOfRange
    else match (db.visibleRules ctx.tenant).find? fun r => (r.id : Int) = ruleId with
      | none => .ok (none, [])
      | some r =>
        if !set.notNull then .error .notNullViolation
        else if !(set.applyTo ctx.now r).checked then .error .checkViolation
        else .ok (some (set.applyTo ctx.now r), [.updateRule r.tenant r.id set ctx.now])
  | listAlerts f fetchLimit offset =>
    if !int8Ok offset then .error .outOfRange
    else match inetParam pg f.srcIp with
      | .error err => .error err
      | .ok ip =>
        let rows := (db.visibleAlerts ctx.tenant).filter (f.matches ip)
        let fetched := ((ctx.order.arrange (fun a => -a.triggeredAt) rows).drop offset).take fetchLimit
        loaded (·.timesOk) fetched
  | discoverTenants => .ok (ctx.order.arrange (fun _ => 0) (db.users.map (·.tenant)).dedup, [])
  | selectRule ruleType =>
    .ok (((db.visibleRules ctx.tenant).find? fun r => r.ruleType = ruleType ∧ r.enabled).map fun r =>
      ⟨r.id, r.threshold, r.windowSeconds, r.cooldownSeconds⟩, [])
  | detect windowSeconds threshold =>
    let found := candidates threshold (db.failedLogins ctx.tenant pg (ctx.now - seconds windowSeconds))
    loaded (·.timesOk) (ctx.order.arrange (fun _ => 0) found)
  | pastCooldown tenant ruleId srcIp cooldownSeconds =>
    let last := ((db.alertsOf ctx.tenant tenant ruleId srcIp).map (·.triggeredAt)).max?
    .ok (last.all fun t => decide (t ≤ ctx.now - seconds cooldownSeconds), [])
  | insertAlert a =>
    let row : Alert := { a with id := db.sequences.alert, triggeredAt := ctx.now, webhookSentAt := none }
    if !([a.eventCount, a.threshold, a.windowSeconds].all int4Ok) then .error .outOfRange
    else if !rls ctx.tenant a.tenant then .error .rowSecurity
    else if a.tenant = [] then .error .checkViolation
    else if !db.alertRules.any fun r => r.tenant = a.tenant ∧ r.id = a.ruleId then
      .error .foreignKeyViolation
    else .ok (row.id, [.insertAlert row])
  | markWebhookSent id =>
    match (db.visibleAlerts ctx.tenant).find? fun a => a.id = id with
    | none => .ok ((), [])
    | some a => .ok ((), [.markWebhookSent a.tenant a.id ctx.now])

end LogMgmt
