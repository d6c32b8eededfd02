import LogMgmt.Session
import LogMgmt.Normalizers

/-!
# The API

The HTTP endpoints of `backend/routers/*.py` with their dependencies, `write_event` of `ingest/db.py`
(the syslog server and the batch loader write through it) and `create_user`, as programs over one
connection. A request has passed FastAPI's validation; its structure carries the validated bounds.
-/

namespace LogMgmt

structure TokenClaims where
  sub : Str
  role : Role
  tenant : Str
deriving DecidableEq

/-! ### Requests and responses -/

structure SearchRequest where
  filter : EventFilter := {}
  limit : Nat := 50
  offset : Nat := 0
  le_limit : 1 ≤ limit := by decide
  limit_le : limit ≤ 500 := by decide

structure AlertsRequest where
  filter : AlertFilter := {}
  limit : Nat := 50
  offset : Nat := 0
  le_limit : 1 ≤ limit := by decide
  limit_le : limit ≤ 500 := by decide

structure TopRequest where
  field : TopField
  startTime : Option Time := none
  endTime : Option Time := none
  limit : Nat := 10
  le_limit : 1 ≤ limit := by decide
  limit_le : limit ≤ 100 := by decide

structure TimelineRequest where
  interval : Interval := .hour
  startTime : Option Time := none
  endTime : Option Time := none

structure AlertRuleCreate where
  threshold : Int := 5
  windowSeconds : Int := 300
  cooldownSeconds : Int := 900
  enabled : Bool := true
  threshold_pos : 0 < threshold := by decide
  windowSeconds_pos : 0 < windowSeconds := by decide
  cooldownSeconds_pos : 0 < cooldownSeconds := by decide

/-- An empty body. -/
def AlertRuleCreate.standard : AlertRuleCreate := {}

/-- The fields that the body has, a `null` as `none`. -/
structure AlertRuleUpdate extends RuleUpdate where
  threshold_pos : ∀ i ∈ threshold.join, 0 < i := by decide
  windowSeconds_pos : ∀ i ∈ windowSeconds.join, 0 < i := by decide
  cooldownSeconds_pos : ∀ i ∈ cooldownSeconds.join, 0 < i := by decide

/-- `_COLUMNS` of `routers/search.py` -/
structure SearchResultItem extends EventColumns where
  id : Nat

def SearchResultItem.ofRow (row : EventRow) : SearchResultItem := { row with id := row.id }

structure SearchResponse where
  items : List SearchResultItem
  limit : Nat
  offset : Nat
  hasMore : Bool

structure AlertListResponse where
  items : List Alert
  limit : Nat
  offset : Nat
  hasMore : Bool
deriving DecidableEq

inductive Response where
  | token (claims : TokenClaims)
  | accepted (tenant source eventType : Str)
  | search (r : SearchResponse)
  | top (items : List (Str × Nat))
  | timeline (buckets : List (Time × Nat))
  | rules (rs : List AlertRule)
  | rule (r : AlertRule)
  | alerts (r : AlertListResponse)
  | health
  /-- the end of a program that answers nobody -/
  | done

/-! ### Dependencies -/

/-- `get_pooled_conn` around the endpoint's body -/
def pooledConn (body : App α) : App α := withConn body

/-- `get_tenant_conn` around the endpoint's body -/
def tenantConn (claims : TokenClaims) (body : App α) : App α :=
  withConn (transaction do
    sql (.setTenant claims.tenant)
    body)

/-- `require_role("admin")` -/
def requireAdmin (claims : TokenClaims) : App Unit :=
  if claims.role = .admin then return () else throw (.http 403 "requires role=admin")

/-- `write_event_sync` and `write_event_async` -/
def writeEvent (e : NormalizedEvent) : App Unit :=
  transaction do
    sql (.setTenant e.tenant)
    sql (.insertEvent e)

/-! ### Passwords -/

structure Bcrypt where
  /-- `bcrypt.checkpw`; no value where it raises -/
  checkpw : Str → Str → Option Bool
  /-- `_DUMMY_PASSWORD_HASH` -/
  dummyPasswordHash : Str

namespace Bcrypt
variable (bcrypt : Bcrypt)

/-- No value where it raises: a lone surrogate has no UTF-8. -/
def verifyPassword (plainPassword passwordHash : Str) : Option Bool :=
  if unicodeOk plainPassword then bcrypt.checkpw plainPassword passwordHash else none

def verifyPasswordOrDummy (plainPassword : Str) : Option Str → Option Bool
  | none => (bcrypt.verifyPassword plainPassword bcrypt.dummyPasswordHash).map fun _ => false
  | some passwordHash => bcrypt.verifyPassword plainPassword passwordHash

/-- Passwords that are their own hashes, for concrete runs. -/
def sample : Bcrypt where
  checkpw password passwordHash := some (password = passwordHash)
  dummyPasswordHash := []

end Bcrypt

/-! ### Endpoints -/

/-- `POST /auth/login`. The token is signed from the claims. -/
def login (bcrypt : Bcrypt) (username password : Str) : App Response :=
  pooledConn do
    let row ← sql (.selectUser username)
    match bcrypt.verifyPasswordOrDummy password (row.map (·.passwordHash)), row with
    | some true, some row => return .token { sub := username, role := row.role, tenant := row.tenant }
    | some false, _ => throw (.http 401 "invalid username or password")
    | _, _ => throw .python

/-- `POST /ingest` at the time `now` of the Python process -/
def ingest (py : Py) (body : PyDict) (now : DateTime) (claims : TokenClaims) : App Response := do
  requireAdmin claims
  pooledConn do
    match normalize py (body.get (str "source")) (.dict (body.without (str "tenant"))) (.str claims.tenant) now with
    | .ok event =>
      writeEvent event
      return .accepted claims.tenant event.source event.eventType
    | .error _ => throw .python

/-- `GET /search` -/
def search (req : SearchRequest) (claims : TokenClaims) : App Response :=
  tenantConn claims do
    let rows ← sql (.searchEvents req.filter (req.limit + 1) req.offset)
    return .search {
      items := (rows.take req.limit).map .ofRow
      limit := req.limit
      offset := req.offset
      hasMore := decide (req.limit < rows.length) }

/-- `GET /stats/top` -/
def top (req : TopRequest) (claims : TokenClaims) : App Response :=
  tenantConn claims do
    return .top (← sql (.topEvents req.field req.startTime req.endTime req.limit))

/-- `GET /stats/timeline` -/
def timeline (req : TimelineRequest) (claims : TokenClaims) : App Response :=
  tenantConn claims do
    return .timeline (← sql (.timeline req.interval req.startTime req.endTime))

/-- `GET /alert-rules` -/
def listAlertRules (claims : TokenClaims) : App Response :=
  tenantConn claims do
    return .rules (← sql .listRules)

/-- `POST /alert-rules` -/
def createAlertRule (body : AlertRuleCreate) (claims : TokenClaims) : App Response := do
  requireAdmin claims
  tenantConn claims do
    let row ← tryCatch (sql (.insertRule {
        tenant := claims.tenant
        ruleType := .failedLoginBurst
        threshold := body.threshold
        windowSeconds := body.windowSeconds
        cooldownSeconds := body.cooldownSeconds
        enabled := body.enabled })) fun
      | .sql .uniqueViolation => throw (.http 409 ("a 'failed_login_burst' rule already exists for " ++
          "this tenant — use PATCH /alert-rules/\x7bid\x7d to update it"))
      | e => throw e
    return .rule row

/-- `PATCH /alert-rules/{rule_id}` -/
def updateAlertRule (ruleId : Int) (body : AlertRuleUpdate) (claims : TokenClaims) : App Response := do
  requireAdmin claims
  tenantConn claims do
    if body.toRuleUpdate = {} then throw (.http 400 "no fields to update")
    else
      match ← sql (.updateRule body.toRuleUpdate ruleId) with
      | some row => return .rule row
      | none => throw (.http 404 "alert rule not found")

/-- `GET /alerts` -/
def listAlerts (req : AlertsRequest) (claims : TokenClaims) : App Response :=
  tenantConn claims do
    let rows ← sql (.listAlerts req.filter (req.limit + 1) req.offset)
    return .alerts {
      items := rows.take req.limit
      limit := req.limit
      offset := req.offset
      hasMore := decide (req.limit < rows.length) }

/-- `GET /health` -/
def health : App Response :=
  tryCatch
    (pooledConn do
      sql .selectOne
      return .health)
    fun _ => throw (.http 503 "database unreachable")

/-- `create_user`, with the password hashed -/
def createUser (username passwordHash : Str) (role : Role) (tenant : Str) : App Response := do
  sql (.insertUser username passwordHash role tenant)
  return .done

/-! ### Calls -/

/-- What a program other than the alert engine does in one go. -/
inductive Call where
  | login (username password : Str)
  | ingest (body : PyDict) (now : DateTime) (claims : TokenClaims)
  | writeEvent (e : NormalizedEvent)
  | search (req : SearchRequest) (claims : TokenClaims)
  | top (req : TopRequest) (claims : TokenClaims)
  | timeline (req : TimelineRequest) (claims : TokenClaims)
  | listAlertRules (claims : TokenClaims)
  | createAlertRule (body : AlertRuleCreate) (claims : TokenClaims)
  | updateAlertRule (ruleId : Int) (body : AlertRuleUpdate) (claims : TokenClaims)
  | listAlerts (req : AlertsRequest) (claims : TokenClaims)
  | health
  | createUser (username passwordHash : Str) (role : Role) (tenant : Str)

/-- The tenant whose rows a call is about: that of the verified claims, or of the written event. -/
def Call.tenant : Call → Option Str
  | ingest _ _ claims => some claims.tenant
  | writeEvent e => some e.tenant
  | search _ claims => some claims.tenant
  | top _ claims => some claims.tenant
  | timeline _ claims => some claims.tenant
  | listAlertRules claims => some claims.tenant
  | createAlertRule _ claims => some claims.tenant
  | updateAlertRule _ _ claims => some claims.tenant
  | listAlerts _ claims => some claims.tenant
  | login _ _ => none
  | health => none
  | createUser _ _ _ _ => none

/-- A call made for another tenant. -/
def Call.Foreign (tenant : Str) (call : Call) : Prop := ∃ t, call.tenant = some t ∧ t ≠ tenant

/-- What the programs use and the source does not define. -/
structure World where
  pg : Pg
  py : Py
  bcrypt : Bcrypt

/-- A server that folds no case and knows no address, for concrete runs. -/
def World.sample : World where
  pg := { lower := id, inetIn := fun _ => none, inetText := fun _ => [] }
  py := .sample
  bcrypt := .sample

def Call.app (w : World) : Call → App Response
  | login username password => LogMgmt.login w.bcrypt username password
  | ingest body now claims => LogMgmt.ingest w.py body now claims
  | writeEvent e => do LogMgmt.writeEvent e; return .done
  | search req claims => LogMgmt.search req claims
  | top req claims => LogMgmt.top req claims
  | timeline req claims => LogMgmt.timeline req claims
  | listAlertRules claims => LogMgmt.listAlertRules claims
  | createAlertRule body claims => LogMgmt.createAlertRule body claims
  | updateAlertRule ruleId body claims => LogMgmt.updateAlertRule ruleId body claims
  | listAlerts req claims => LogMgmt.listAlerts req claims
  | health => LogMgmt.health
  | createUser username passwordHash role tenant => LogMgmt.createUser username passwordHash role tenant

/-- A call with the connection it is made on and the choices made for it. -/
structure Request where
  call : Call
  conn : Conn
  nature : Nat → Choice

/-- The request as one step: nothing else happens on the database meanwhile. -/
def Request.run (w : World) (r : Request) (db : Db) : Except Exn Response × Session :=
  (r.call.app w).run (handle w.pg) { db, conn := r.conn, nature := r.nature }

/-- What the request commits. -/
def Request.commits (w : World) (db : Db) (r : Request) : Db := (r.run w db).2.db

end LogMgmt
