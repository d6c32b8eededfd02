import LogMgmt.OtherTenants
import LogMgmt.Storage

/-!
# The HTTP gateway

The routers of `backend/main.py` behind `get_current_claims`: a request comes with an endpoint, perhaps a
bearer token, and whatever body and query parameters FastAPI let through. `Gateway` is the database with
every token that `create_access_token` has issued; requests and `create_user` move it. `Jwt` stands for PyJWT.
-/

namespace LogMgmt
open Prog

/-! ### Tokens -/

/-- The payload that `create_access_token` signs. -/
structure TokenPayload extends TokenClaims where
  iat : Time
  exp : Time
deriving DecidableEq

structure Jwt where
  /-- `jwt.encode` with the secret key -/
  encode : TokenPayload → Str
  /-- `jwt.decode` at a time of the process clock; no value where it raises -/
  decode : Str → Time → Option TokenPayload
  /-- `JWT_EXPIRE_MINUTES` -/
  expireMinutes : Int

/-- As PyJWT writes it: `timegm` of the times. -/
def TokenPayload.wholeSeconds (p : TokenPayload) : TokenPayload :=
  { p with iat := p.iat - p.iat % seconds 1, exp := p.exp - p.exp % seconds 1 }

/-- The texts are such as a table holds. -/
def TokenClaims.textsOk (claims : TokenClaims) : Bool := textOk claims.sub && textOk claims.tenant

/-- A token of such texts (JSON joins two surrogates) that decodes has its own claims, and its times to the second. -/
def Jwt.Lawful (jwt : Jwt) : Prop :=
  ∀ payload t payload', payload.textsOk → jwt.decode (jwt.encode payload) t = some payload' →
    payload' = payload.wholeSeconds

def createAccessToken (jwt : Jwt) (claims : TokenClaims) (now : Time) : Str :=
  jwt.encode { claims with iat := now, exp := now + seconds (60 * jwt.expireMinutes) }

def decodeAccessToken (jwt : Jwt) (token : Str) (now : Time) : Option TokenClaims :=
  (jwt.decode token now).map (·.toTokenClaims)

theorem decode_createAccessToken {jwt : Jwt} (hjwt : jwt.Lawful) {claims claims' : TokenClaims} {now t : Time}
    (htexts : claims.textsOk) (h : decodeAccessToken jwt (createAccessToken jwt claims now) t = some claims') :
    claims' = claims := by
  obtain ⟨payload, hp, rfl⟩ := Option.map_eq_some_iff.1 h
  rw [hjwt _ _ _ htexts hp]
  rfl

/-! ### Requests -/

/-- The endpoints that depend on `get_current_claims`. -/
inductive Secured where
  | me
  | ingest (body : PyDict)
  | search (req : SearchRequest)
  | top (req : TopRequest)
  | timeline (req : TimelineRequest)
  | listAlertRules
  | createAlertRule (body : AlertRuleCreate)
  | updateAlertRule (ruleId : Int) (body : AlertRuleUpdate)
  | listAlerts (req : AlertsRequest)

inductive Endpoint where
  | login (username password : Str)
  | health
  | secured (e : Secured)
  /-- A request that FastAPI's routing or validation turns away. -/
  | refused (status : Nat) (detail : String)

structure HttpRequest where
  endpoint : Endpoint
  /-- the bearer token -/
  credentials : Option Str := none
  /-- the clock of the process -/
  now : DateTime
  conn : Conn := { autocommit := false }
  nature : Nat → Choice

/-- What the endpoint asks of the database; `GET /auth/me` asks nothing. -/
def Secured.call (claims : TokenClaims) (now : DateTime) : Secured → Option Call
  | me => none
  | ingest body => some (.ingest body now claims)
  | search req => some (.search req claims)
  | top req => some (.top req claims)
  | timeline req => some (.timeline req claims)
  | listAlertRules => some (.listAlertRules claims)
  | createAlertRule body => some (.createAlertRule body claims)
  | updateAlertRule ruleId body => some (.updateAlertRule ruleId body claims)
  | listAlerts req => some (.listAlerts req claims)

namespace HttpRequest

/-- `get_current_claims` -/
def claims (jwt : Jwt) (r : HttpRequest) : Except Exn TokenClaims :=
  match r.credentials with
  | none => .error (.http 401 "Not authenticated")
  | some token =>
    match decodeAccessToken jwt token r.now.instant with
    | some claims => .ok claims
    | none => .error (.http 401 "invalid or expired token")

/-- The request as a call, or as the claims that `GET /auth/me` answers. -/
def dispatch (jwt : Jwt) (r : HttpRequest) : Except Exn (TokenClaims ⊕ Call) :=
  match r.endpoint with
  | .login username password => .ok (.inr (.login username password))
  | .health => .ok (.inr .health)
  | .refused status detail => .error (.http status detail)
  | .secured e =>
    match r.claims jwt with
    | .error exn => .error exn
    | .ok claims =>
      match e.call claims r.now with
      | none => .ok (.inl claims)
      | some c => .ok (.inr c)

/-- A call on the connection that the pool gives the request. -/
def on (r : HttpRequest) (call : Call) : Request := ⟨call, r.conn, r.nature⟩

end HttpRequest

inductive Answer where
  /-- `TokenResponse` -/
  | token (accessToken : Str)
  | me (claims : TokenClaims)
  | response (r : Response)

/-! ### The machine -/

/-- A token that was issued, and the users at that moment. -/
structure Issue where
  token : Str
  claims : TokenClaims
  users : List User

structure Gateway where
  db : Db := {}
  issued : List Issue := []

namespace Gateway

def http (w : World) (jwt : Jwt) (g : Gateway) (r : HttpRequest) : Except Exn Answer × Gateway :=
  match r.dispatch jwt with
  | .error exn => (.error exn, g)
  | .ok (.inl claims) => (.ok (.me claims), g)
  | .ok (.inr c) =>
    let db := (r.on c).commits w g.db
    match ((r.on c).run w g.db).1 with
    | .error exn => (.error exn, { g with db })
    | .ok (.token claims) =>
      let token := createAccessToken jwt claims r.now.instant
      (.ok (.token token), { db, issued := g.issued ++ [⟨token, claims, g.db.users⟩] })
    | .ok response => (.ok (.response response), { g with db })

/-- The token of the request decodes only if it was issued. -/
def Unforged (jwt : Jwt) (g : Gateway) (r : HttpRequest) : Prop :=
  ∀ token ∈ r.credentials, (jwt.decode token r.now.instant).isSome → ∃ i ∈ g.issued, i.token = token

inductive Step (w : World) (jwt : Jwt) : Gateway → Gateway → Prop
  | http (g : Gateway) (r : HttpRequest) (h : g.Unforged jwt r) : Step w jwt g (g.http w jwt r).2
  | createUser (g : Gateway) (username passwordHash : Str) (role : Role) (tenant : Str) (conn : Conn)
      (nature : Nat → Choice) :
    Step w jwt g { g with db := Request.commits w g.db ⟨.createUser username passwordHash role tenant, conn, nature⟩ }

/-- What requests and `create_user` calls lead to from an empty database. -/
def Reachable (w : World) (jwt : Jwt) : Gateway → Prop := Relation.ReflTransGen (Step w jwt) {}

end Gateway

/-! ### Login -/

def TokenClaims.Of (users : List User) (claims : TokenClaims) : Prop :=
  ∃ u ∈ users, u.username = claims.sub ∧ u.role = claims.role ∧ u.tenant = claims.tenant

section
variable {w : World} {claims : TokenClaims} {α : Type}

theorem returns_withConn {P : α → Prop} {p : App α} (hp : Returns P p) : Returns P (withConn p) := by
  refine Returns.bind (Returns.tryCatch hp fun e => ?_) fun a ha => ?_
  · exact fun _ => trivial
  · exact Returns.bind (Returns.any _) fun _ _ => ha

/-- Only a login answers with a token. -/
theorem Call.returns_token (w : World) (call : Call) (h : ∀ username password, call ≠ .login username password) :
    Returns (fun a => ∀ claims, a ≠ .token claims) (call.app w) := by
  have hany : ∀ {α : Type} (p : App α) {f : α → App Response},
      (∀ a, Returns (fun a => ∀ claims, a ≠ .token claims) (f a)) →
      Returns (fun a => ∀ claims, a ≠ Response.token claims) (p >>= f) := fun p _ hf =>
    Returns.bind (Returns.any p) fun a _ => hf a
  have htenant : ∀ (claims : TokenClaims) {body : App Response},
      Returns (fun a => ∀ claims, a ≠ .token claims) body →
      Returns (fun a => ∀ claims, a ≠ Response.token claims) (tenantConn claims body) := fun claims body hbody =>
    returns_withConn (hany _ fun _ => returns_withConn (hany _ fun _ => hbody))
  cases call with
  | login username password => exact absurd rfl (h username password)
  | ingest body now claims =>
    refine hany _ fun _ => returns_withConn ?_
    split
    · exact hany _ fun _ _ => nofun
    · trivial
  | writeEvent e => exact hany _ fun _ _ => nofun
  | search req claims => exact htenant claims (hany _ fun _ _ => nofun)
  | top req claims => exact htenant claims (hany _ fun _ _ => nofun)
  | timeline req claims => exact htenant claims (hany _ fun _ _ => nofun)
  | listAlertRules claims => exact htenant claims (hany _ fun _ _ => nofun)
  | createAlertRule body claims => exact hany _ fun _ => htenant claims (hany _ fun _ _ => nofun)
  | updateAlertRule ruleId body claims =>
    refine hany _ fun _ => htenant claims ?_
    split
    · trivial
    · refine hany _ fun row => ?_
      split
      · exact fun _ => nofun
      · trivial
  | listAlerts req claims => exact htenant claims (hany _ fun _ _ => nofun)
  | health =>
    exact Returns.tryCatch (returns_withConn (hany _ fun _ _ => nofun)) fun _ => trivial
  | createUser username passwordHash role tenant => exact hany _ fun _ _ => nofun

theorem wp_login (w : World) (username password : Str) {s : Session} (hothers : s.others 0 = id)
    (hpending : s.pending = []) :
    wp (handle w.pg) (login w.bcrypt username password)
      (fun a _ => ∀ claims, a = .token claims → claims.Of s.db.users) (fun _ _ => True) s := by
  have hview : s.interfere.view.users = s.db.users := by
    simp [Session.view, Session.interfere, hothers, hpending, Db.applyAll]
  have hcommit : ∀ {s' : Session} {P : Prop}, P → Ends (fun _ _ => P) (fun _ _ => True) (handle w.pg .commit s') := by
    intro s' P hP
    rcases handle w.pg .commit s' with ⟨_ | _, _⟩
    · trivial
    · exact hP
  unfold login pooledConn
  rw [wp_withConn, wp_bind, wp_sql]
  rcases hh : handle w.pg (.sql (.selectUser username)) s with ⟨e | row, s'⟩
  · trivial
  obtain ⟨ws, hx⟩ := Session.exec_of_answer hh
  rw [ends_ok]
  split
  · rename_i u _
    refine hcommit ?_
    rintro claims ⟨⟩
    simp only [Stmt.exec] at hx
    split at hx
    · rw [Except.ok.injEq, Prod.mk.injEq, hview] at hx
      exact ⟨u, List.mem_of_find?_eq_some hx.1, by simpa using List.find?_some hx.1, rfl, rfl⟩
    · cases hx
  · trivial
  · trivial

theorem Call.token_of {call : Call} {db : Db} {conn : Conn} {nature : Nat → Choice}
    (h : (Request.run w ⟨call, conn, nature⟩ db).1 = .ok (.token claims)) : claims.Of db.users := by
  by_cases hlogin : ∃ username password, call = .login username password
  · obtain ⟨username, password, rfl⟩ := hlogin
    have hw := wp_login w username password (s := { db, conn, nature }) rfl rfl
    unfold wp at hw
    rcases hr : (LogMgmt.login w.bcrypt username password).run (handle w.pg) { db, conn, nature } with ⟨_ | a, s'⟩
    · rw [Request.run, Call.app, hr] at h
      cases h
    · rw [Request.run, Call.app, hr, Except.ok.injEq] at h
      rw [hr] at hw
      exact hw claims h
  · have hret := Call.returns_token w call fun username password heq => hlogin ⟨username, password, heq⟩
    exact absurd rfl (hret.run (Prod.ext h rfl) claims)

end

end LogMgmt
