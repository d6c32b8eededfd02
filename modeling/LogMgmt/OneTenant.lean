import LogMgmt.Gateway

/-!
# The rows of one tenant

A request for a tenant is answered as if the tables had no rows of others, and commits the same (`Request.run_only`): each
statement of it sees the tenant's rows only, and each change it makes is to one of these.
-/

namespace LogMgmt
open Prog

/-! ### Without the others -/

/-- The tables without the rows of all others. -/
def Db.only (db : Db) (tenant : Str) : Db :=
  { db with
    alertRules := db.alertRules.filter (·.tenant = tenant)
    alerts := db.alerts.filter (·.tenant = tenant)
    events := db.events.filter (·.tenant = tenant) }

def Session.only (s : Session) (tenant : Str) : Session := { s with db := s.db.only tenant }

def Gateway.only (g : Gateway) (tenant : Str) : Gateway := { g with db := g.db.only tenant }

section
variable {pg : Pg} {t : Str} {db : Db} {s : Session}

/-! ### Statements -/

theorem filter_rls_only {α : Type} (l : List α) (f : α → Str) (t : Str) :
    (l.filter fun a => decide (f a = t)).filter (fun a => rls (some t) (f a)) = l.filter fun a => rls (some t) (f a) := by
  rw [List.filter_filter]
  refine List.filter_congr fun a _ => ?_
  rw [rls_some, Bool.and_self]

theorem visibleEvents_only (db : Db) (t : Str) : (db.only t).visibleEvents (some t) = db.visibleEvents (some t) :=
  filter_rls_only db.events (·.tenant) t

theorem visibleRules_only (db : Db) (t : Str) : (db.only t).visibleRules (some t) = db.visibleRules (some t) :=
  filter_rls_only db.alertRules (·.tenant) t

theorem visibleAlerts_only (db : Db) (t : Str) : (db.only t).visibleAlerts (some t) = db.visibleAlerts (some t) :=
  filter_rls_only db.alerts (·.tenant) t

/-- Whether the tenant has a rule of some kind can be told from its own. -/
theorem any_rules_only {tenant : Str} (h : tenant = t) (p : AlertRule → Prop) [DecidablePred p] :
    ((db.only t).alertRules.any fun r => decide (r.tenant = tenant ∧ p r)) =
      db.alertRules.any fun r => decide (r.tenant = tenant ∧ p r) := by
  show (db.alertRules.filter _).any _ = _
  rw [List.any_filter]
  congr 1
  funext r
  rw [Bool.and_eq_right_iff_imp, decide_eq_true_eq, decide_eq_true_eq]
  exact fun hr => hr.1.trans h

/-- Row level security: a statement sees the rows of the tenant that is set, and no others. -/
theorem Stmt.exec_only {stmt : Stmt} {ctx : Ctx} (hok : stmt.tenantTable → ctx.tenant = some t) :
    stmt.exec pg ctx (db.only t) = stmt.exec pg ctx db := by
  cases stmt with
  | setTenant _ | selectOne | selectUser _ | insertUser _ _ _ _ | insertEvent _ | discoverTenants => rfl
  | searchEvents f fetchLimit offset =>
    simp only [exec, hok rfl, visibleEvents_only]
  | topEvents field startTime endTime limit => simp only [exec, hok rfl, visibleEvents_only]
  | timeline interval startTime endTime => simp only [exec, hok rfl, visibleEvents_only]
  | listRules => simp only [exec, hok rfl, visibleRules_only]
  | insertRule r =>
    by_cases hr : r.tenant = t
    · simp only [exec, hok rfl, any_rules_only hr]
      rfl
    · simp only [exec, hok rfl, rls_of_ne hr]
      rfl
  | updateRule set ruleId => simp only [exec, hok rfl, visibleRules_only]
  | listAlerts f fetchLimit offset => simp only [exec, hok rfl, visibleAlerts_only]
  | selectRule ruleType => simp only [exec, hok rfl, visibleRules_only]
  | detect windowSeconds threshold => simp only [exec, hok rfl, Db.failedLogins, visibleEvents_only]
  | pastCooldown tenant ruleId srcIp cooldownSeconds => simp only [exec, hok rfl, Db.alertsOf, visibleAlerts_only]
  | insertAlert a =>
    by_cases ha : a.tenant = t
    · simp only [exec, hok rfl, any_rules_only ha]
      rfl
    · simp only [exec, hok rfl, rls_of_ne ha]
      rfl
  | markWebhookSent id => simp only [exec, hok rfl, visibleAlerts_only]

/-! ### Changes -/

/-- The change is to rows of the tenant, or to users. -/
def Write.Own (t : Str) (w : Write) : Prop := ∀ t', w.tenant = some t' → t' = t

/-- Of a table that is changed, the tenant's rows are its rows with the change, if that keeps the tenant of each. -/
theorem filter_map_only {α : Type} (l : List α) (f : α → Str) {g : α → α} (hg : ∀ a, f (g a) = f a) :
    (l.map g).filter (fun a => decide (f a = t)) = (l.filter fun a => decide (f a = t)).map g := by
  rw [List.filter_map]
  exact congrArg (List.map g) (List.filter_congr fun a _ => by rw [Function.comp_apply, hg])

theorem filter_append_only {α : Type} (l : List α) (f : α → Str) {a : α} (ha : f a = t) :
    (l ++ [a]).filter (fun a => decide (f a = t)) = l.filter (fun a => decide (f a = t)) ++ [a] := by
  rw [List.filter_append, List.filter_singleton, decide_eq_true ha, cond_true]

theorem Db.apply_only {w : Write} (hw : w.Own t) : (db.apply w).only t = (db.only t).apply w := by
  cases w with
  | insertUser row => rfl
  | insertEvent row =>
    exact congrArg (fun l => { db.only t with events := l }) (filter_append_only db.events (·.tenant) (hw _ rfl))
  | insertRule row =>
    exact congrArg (fun l => { db.only t with alertRules := l }) (filter_append_only db.alertRules (·.tenant) (hw _ rfl))
  | insertAlert row =>
    exact congrArg (fun l => { db.only t with alerts := l }) (filter_append_only db.alerts (·.tenant) (hw _ rfl))
  | updateRule tenant id set now =>
    refine congrArg (fun l => { db.only t with alertRules := l }) (filter_map_only db.alertRules (·.tenant) ?_)
    intro r
    split <;> rfl
  | markWebhookSent tenant id now =>
    refine congrArg (fun l => { db.only t with alerts := l }) (filter_map_only db.alerts (·.tenant) ?_)
    intro a
    split <;> rfl

theorem Db.applyAll_only {ws : List Write} (hws : ∀ w ∈ ws, w.Own t) : (db.applyAll ws).only t = (db.only t).applyAll ws := by
  induction ws generalizing db with
  | nil => rfl
  | cons w ws ih =>
    show ((db.apply w).applyAll ws).only t = ((db.only t).apply w).applyAll ws
    rw [ih fun w' hw' => hws w' (List.mem_cons_of_mem w hw'), Db.apply_only (hws w List.mem_cons_self)]

theorem kept_own (pg : Pg) (t : Str) :
    Kept pg (fun setting stmt => stmt.tenantTable → setting = some t) (fun _ => True) (Write.Own t) where
  apply _ _ _ _ := trivial
  nextval _ _ _ _ _ := trivial
  writes _ _ _ _ _ hok _ hx _ hw _ ht' := Stmt.exec_own hok hx hw ht'

/-! ### Commands -/

/-- Nobody else commits, and what is written is the tenant's. -/
structure Session.OfTenant (t : Str) (s : Session) : Prop where
  alone : s.Alone
  pending : ∀ w ∈ s.pending, w.Own t

namespace Session

theorem OfTenant.view_only (h : s.OfTenant t) : (s.only t).view = s.view.only t := (Db.applyAll_only h.pending).symm

theorem doBegin_only : (s.only t).doBegin = Prod.map id (·.only t) s.doBegin := by
  unfold doBegin
  rw [apply_ite (Prod.map id (Session.only · t))]
  rfl

theorem OfTenant.doCommit_only (h : s.OfTenant t) : (s.only t).doCommit = Prod.map id (·.only t) s.doCommit := by
  unfold doCommit
  rw [h.view_only, apply_ite (Prod.map id (Session.only · t)), apply_ite (Prod.map id (Session.only · t)),
    apply_ite (Prod.map id (Session.only · t))]
  rfl

theorem doSendWebhook_only (url : Str) (payload : WebhookPayload) :
    (s.only t).doSendWebhook url payload = Prod.map id (·.only t) (s.doSendWebhook url payload) := by
  refine Prod.ext rfl ?_
  show (if (s.nature 0).accepted then _ else _) = (if (s.nature 0).accepted then _ else _ : Session).only t
  rw [apply_ite (Session.only · t)]
  rfl

theorem OfTenant.doSql_only (h : s.OfTenant t) {stmt : Stmt} (hok : stmt.tenantTable → s.conn.tenant = some t) :
    (s.only t).doSql pg stmt = Prod.map id (·.only t) (s.doSql pg stmt) := by
  have hexec : stmt.exec pg (s.only t).ctx (s.only t).view = stmt.exec pg s.ctx s.view := by
    rw [h.view_only]
    exact Stmt.exec_only hok
  unfold doSql
  rw [hexec, apply_ite (Prod.map id (Session.only · t)), apply_ite (Prod.map id (Session.only · t))]
  cases hx : stmt.exec pg s.ctx s.view with
  | error e => rfl
  | ok result =>
    obtain ⟨r, ws⟩ := result
    have hws : ∀ w ∈ ws, w.Own t := fun w hw t' ht' => Stmt.exec_own hok hx hw ht'
    have happlied : ((s.only t).takeId stmt).db.applyAll ws = ((s.takeId stmt).db.applyAll ws).only t := by
      rw [Db.applyAll_only hws]
      rfl
    refine if_congr Iff.rfl rfl (if_congr Iff.rfl rfl (Prod.ext rfl ?_))
    show (if s.conn.status = .idle ∧ s.conn.autocommit then _ else _) =
      (if s.conn.status = .idle ∧ s.conn.autocommit then _ else _ : Session).only t
    rw [apply_ite (Session.only · t)]
    refine if_congr Iff.rfl ?_ rfl
    exact congrArg (fun db => { ((s.takeId stmt).answered (.sql stmt) (.ok r)) with db, log := s.record stmt r }) happlied

end Session

theorem handle_only (h : s.OfTenant t) {c : Cmd} (hc : c.Only fun stmt => stmt.tenantTable → s.conn.tenant = some t) :
    handle pg c (s.only t) = Prod.map id (·.only t) (handle pg c s) := by
  have hinterfere : (s.only t).interfere = s.interfere.only t := by
    unfold Session.interfere Session.only
    simp [h.alone 0]
  have hi : s.interfere.OfTenant t := ⟨h.alone, h.pending⟩
  cases c with
  | begin =>
    show (s.only t).interfere.doBegin = _
    rw [hinterfere]
    exact Session.doBegin_only
  | commit =>
    show (s.only t).interfere.doCommit = _
    rw [hinterfere]
    exact hi.doCommit_only
  | rollback =>
    show (s.only t).interfere.doRollback = _
    rw [hinterfere]
    rfl
  | sql stmt =>
    show (s.only t).interfere.doSql pg stmt = _
    rw [hinterfere]
    exact hi.doSql_only hc
  | sendWebhook url payload =>
    show (s.only t).interfere.doSendWebhook url payload = _
    rw [hinterfere]
    exact Session.doSendWebhook_only url payload

theorem Session.OfTenant.handle (h : s.OfTenant t) {c : Cmd}
    (hc : c.Only fun stmt => stmt.tenantTable → s.conn.tenant = some t) : (handle pg c s).2.OfTenant t := by
  refine ⟨h.alone.handle pg c, ((kept_own pg t).handle hc ⟨trivial, fun _ _ _ => trivial, h.pending⟩).pending⟩

/-! ### Requests -/

/-- A request for the tenant does not notice the rows of others. -/
theorem Request.run_only (w : World) {r : Request} (h : r.call.tenant = some t) (db : Db) :
    r.run w (db.only t) = Prod.map id (·.only t) (r.run w db) := by
  have hsets : App.Sets (some t) (r.call.app w) r.conn := h ▸ r.call.sets w r.conn
  have hown : ({ db, conn := r.conn, nature := r.nature } : Session).OfTenant t := ⟨fun _ => rfl, List.forall_mem_nil _⟩
  exact Safe.run_map (f := Session.conn) (I := Session.OfTenant t) hsets.only (handle_conn w.pg) (fun _ _ hc h => h.handle hc)
    (fun _ _ hc h => handle_only h hc) hown

theorem Secured.call_tenant {claims : TokenClaims} {now : DateTime} {e : Secured} {call : Call}
    (h : e.call claims now = some call) : call.tenant = some claims.tenant := by
  cases e <;> cases h <;> rfl

/-- What the tenant of the claims is answered does not depend on the rows of others. -/
theorem Gateway.http_only (w : World) (jwt : Jwt) (g : Gateway) {r : HttpRequest} {e : Secured} (he : r.endpoint = .secured e)
    {claims : TokenClaims} (hclaims : r.claims jwt = .ok claims) :
    ((g.only claims.tenant).http w jwt r).1 = (g.http w jwt r).1 := by
  unfold http HttpRequest.dispatch
  rw [he, hclaims]
  dsimp only
  cases hcall : e.call claims r.now with
  | none => rfl
  | some call =>
    have hrun : (r.on call).run w (g.only claims.tenant).db = Prod.map id (·.only claims.tenant) ((r.on call).run w g.db) :=
      Request.run_only w (Secured.call_tenant hcall) g.db
    dsimp only
    rw [hrun]
    dsimp only [Prod.map_fst, id]
    split
    · rfl
    · rfl
    · rfl

end

end LogMgmt
