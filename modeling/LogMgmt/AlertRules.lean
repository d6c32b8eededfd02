import LogMgmt.Paging

/-!
# Alert rule requests

`POST /alert-rules` and `PATCH /alert-rules/{id}` command by command: a transaction with one statement
in it, whose answer decides between COMMIT and ROLLBACK. The UPDATE of a PATCH is put together from the
fields that the body has.
-/

namespace LogMgmt
open Prog

/-! ### The UPDATE statement -/

/-- The keys of `_UPDATABLE_COLUMNS`. -/
inductive RuleField where
  | threshold
  | windowSeconds
  | cooldownSeconds
  | enabled
deriving DecidableEq, Repr

/-- A value of one of these columns. -/
inductive RuleValue where
  | null
  | int (i : Int)
  | bool (b : Bool)
deriving DecidableEq, Repr

namespace RuleValue

def ofInt (i : Option Int) : RuleValue := i.elim null int
def ofBool (b : Option Bool) : RuleValue := b.elim null bool

end RuleValue

/-- `body.model_dump(exclude_unset=True)` -/
def RuleUpdate.updates (set : RuleUpdate) : List (RuleField × RuleValue) :=
  (set.threshold.map fun i => (RuleField.threshold, RuleValue.ofInt i)).toList ++
    (set.windowSeconds.map fun i => (RuleField.windowSeconds, RuleValue.ofInt i)).toList ++
    (set.cooldownSeconds.map fun i => (RuleField.cooldownSeconds, RuleValue.ofInt i)).toList ++
    (set.enabled.map fun b => (RuleField.enabled, RuleValue.ofBool b)).toList

/-- `SET {assignments}` -/
def RuleUpdate.assignments (set : RuleUpdate) : List RuleField := set.updates.map (·.1)

/-- The `values` that precede `rule_id`. -/
def RuleUpdate.values (set : RuleUpdate) : List RuleValue := set.updates.map (·.2)

/-- A column takes a value of its type; no other is sent. -/
def AlertRule.assign (r : AlertRule) : RuleField × RuleValue → AlertRule
  | (.threshold, .int i) => { r with threshold := i }
  | (.windowSeconds, .int i) => { r with windowSeconds := i }
  | (.cooldownSeconds, .int i) => { r with cooldownSeconds := i }
  | (.enabled, .bool b) => { r with enabled := b }
  | _ => r

/-- The assembled statement, `updated_at = now()` included, on its row: column and value go together by position. -/
def RuleUpdate.assemble (set : RuleUpdate) (now : Time) (r : AlertRule) : AlertRule :=
  { (set.assignments.zip set.values).foldl AlertRule.assign r with updatedAt := now }

theorem RuleUpdate.assemble_eq (set : RuleUpdate) (now : Time) (r : AlertRule) :
    set.assemble now r = set.applyTo now r := by
  have hzip : set.assignments.zip set.values = set.updates := by
    rw [assignments, values, List.zip_map', List.map_id']
  obtain ⟨threshold, windowSeconds, cooldownSeconds, enabled⟩ := set
  unfold assemble
  rw [hzip]
  rcases threshold with _ | _ | _ <;> rcases windowSeconds with _ | _ | _ <;> rcases cooldownSeconds with _ | _ | _ <;>
    rcases enabled with _ | _ | _ <;> rfl

/-! ### The commands of a request -/

/-- The end of a block: what it returns or raises. -/
def outcome {α : Type} : Except Exn α → App α
  | .ok a => .ret a
  | .error e => .raise e

section
variable {α : Type}

/-- The exception leaves `pool.connection()`. -/
def giveUp (e : Exn) : App α := .call .rollback fun _ => .raise e

/-- The exception leaves the transaction of the request. -/
def rollback (e : Exn) : App α := .call .rollback fun _ => giveUp e

/-- The connection goes back to the pool. -/
def release (a : α) : App α := .call .commit fun
  | .ok _ => .ret a
  | .error e => .raise e

def commit (a : α) : App α := .call .commit fun
  | .ok _ => release a
  | .error e => giveUp e

/-- The body of the endpoint is done. -/
def settle : Except Exn α → App α
  | .ok a => commit a
  | .error e => rollback e

/-- `get_tenant_conn` up to its `yield`; `body` is what follows. -/
def setTenant (claims : TokenClaims) (body : App α) : App α := .call (.sql (.setTenant claims.tenant)) fun
  | .ok _ => body
  | .error e => rollback e

def openTx (claims : TokenClaims) (body : App α) : App α := .call .begin fun
  | .ok _ => setTenant claims body
  | .error e => giveUp e

theorem withConn_outcome (r : Except Exn α) :
    withConn (withConn (outcome r)) = settle r := by
  rcases r with e | a
  · rfl
  show Prog.call _ _ = Prog.call _ _
  congr 1
  funext r
  rcases r with e | ⟨⟨⟩⟩
  · rfl
  show Prog.call _ _ = Prog.call _ _
  congr 1
  funext r
  rcases r with e | ⟨⟨⟩⟩ <;> rfl

theorem tenantConn_eq (claims : TokenClaims) (body : App α) :
    tenantConn claims body = openTx claims (withConn (withConn body)) := by
  show Prog.call _ _ = Prog.call _ _
  congr 1
  funext r
  rcases r with e | ⟨⟨⟩⟩
  · rfl
  show Prog.call _ _ = Prog.call _ _
  congr 1
  funext r
  rcases r with e | ⟨⟨⟩⟩
  · rfl
  · rfl

theorem withConn_sql (stmt : Stmt) (f : Except Exn stmt.Resp → Except Exn α) :
    withConn (withConn (.call (.sql stmt) fun r => outcome (f r))) = .call (.sql stmt) fun r => settle (f r) := by
  show Prog.call _ _ = Prog.call _ _
  congr 1
  funext r
  exact withConn_outcome (f r)

end

/-- A request that changes the rules of the caller's tenant. -/
inductive RuleChange where
  /-- `POST /alert-rules` -/
  | create (body : AlertRuleCreate)
  /-- `PATCH /alert-rules/{rule_id}` -/
  | update (ruleId : Int) (body : AlertRuleUpdate)

namespace RuleChange

def call (claims : TokenClaims) : RuleChange → Call
  | create body => .createAlertRule body claims
  | update ruleId body => .updateAlertRule ruleId body claims

/-- The values of the INSERT of a POST. -/
def newRule (claims : TokenClaims) (body : AlertRuleCreate) : NewRule where
  tenant := claims.tenant
  ruleType := .failedLoginBurst
  threshold := body.threshold
  windowSeconds := body.windowSeconds
  cooldownSeconds := body.cooldownSeconds
  enabled := body.enabled

/-- What a POST makes of the answer to its INSERT. -/
def created : Except Exn AlertRule → Except Exn Response
  | .ok row => .ok (.rule row)
  | .error (.sql .uniqueViolation) => .error (.http 409 ("a 'failed_login_burst' rule already exists for " ++
      "this tenant — use PATCH /alert-rules/\x7bid\x7d to update it"))
  | .error e => .error e

/-- What a PATCH makes of the answer to its UPDATE. -/
def updated : Except Exn (Option AlertRule) → Except Exn Response
  | .ok (some row) => .ok (.rule row)
  | .ok none => .error (.http 404 "alert rule not found")
  | .error e => .error e

/-- The statement of the request, and its end. -/
def write (claims : TokenClaims) : RuleChange → App Response
  | create body => .call (.sql (.insertRule (newRule claims body))) fun r => settle (created r)
  | update ruleId body =>
    if body.toRuleUpdate = {} then rollback (.http 400 "no fields to update")
    else .call (.sql (.updateRule body.toRuleUpdate ruleId)) fun r => settle (updated r)

/-- The request of an admin, command by command. -/
theorem app_eq (w : World) {claims : TokenClaims} (hadmin : claims.role = .admin) (c : RuleChange) :
    (c.call claims).app w = openTx claims (c.write claims) := by
  cases c with
  | create body =>
    show createAlertRule body claims = _
    unfold createAlertRule requireAdmin
    rw [if_pos hadmin]
    refine (tenantConn_eq claims _).trans (congrArg (openTx claims) ?_)
    refine (congrArg (fun p => withConn (withConn p)) ?_).trans (withConn_sql (.insertRule (newRule claims body)) created)
    show Prog.call _ _ = Prog.call _ _
    congr 1
    funext r
    rcases r with (_ | e | _ | _ | _) | row
    any_goals rfl
    cases e <;> rfl
  | update ruleId body =>
    show updateAlertRule ruleId body claims = _
    unfold updateAlertRule requireAdmin
    rw [if_pos hadmin]
    refine (tenantConn_eq claims _).trans (congrArg (openTx claims) ?_)
    show withConn (withConn (if _ then _ else _)) = if _ then _ else _
    by_cases hempty : body.toRuleUpdate = {}
    · rw [if_pos hempty, if_pos hempty]
      rfl
    rw [if_neg hempty, if_neg hempty]
    refine (congrArg (fun p => withConn (withConn p)) ?_).trans (withConn_sql (.updateRule body.toRuleUpdate ruleId) updated)
    show Prog.call _ _ = Prog.call _ _
    congr 1
    funext r
    rcases r with e | ⟨_ | row⟩ <;> rfl

end RuleChange

/-! ### A connection that works -/

section
variable {α : Type} {pg : Pg} {s : Session}

theorem commit_calm (pg : Pg) (h : s.Calm) : (handle pg .commit s).1 = .ok () := by
  show s.interfere.doCommit.1 = _
  unfold Session.doCommit
  rw [show (s.interfere.nature 0).fault = false from h 0]
  split
  · rfl
  rw [if_neg Bool.false_ne_true]
  split <;> rfl

theorem settle_calm (pg : Pg) (h : s.Calm) (r : Except Exn α) : ((settle r).run (handle pg) s).1 = r := by
  cases r with
  | error e => rfl
  | ok a =>
    have hrelease : ∀ t : Session, t.Calm → ((release a).run (handle pg) t).1 = .ok a := fun t ht => by
      show (run (handle pg) (match (handle pg .commit t).1 with | .ok _ => _ | .error e => _) _).1 = _
      rw [commit_calm pg ht]
      rfl
    show (run (handle pg) (match (handle pg .commit s).1 with | .ok _ => _ | .error e => _) _).1 = _
    rw [commit_calm pg h]
    exact hrelease _ (h.handle pg .commit)

/-- On a connection that works, the endpoint's statement runs for the tenant of the claims. -/
theorem openTx_calm (claims : TokenClaims) (h : s.Calm) (htext : textOk claims.tenant) (body : App α) :
    ((openTx claims body).run (handle pg) s).1 =
      (body.run (handle pg) (s.opened.ran (.setTenant claims.tenant) () [])).1 := by
  show (run (handle pg) (match (handle pg .begin s).1 with | .ok _ => _ | .error e => _) _).1 = _
  rw [Session.handle_begin pg (h 0)]
  have hset : handle pg (.sql (.setTenant claims.tenant)) s.opened =
      (.ok (), s.opened.ran (.setTenant claims.tenant) () []) :=
    Session.handle_sql (h 1) rfl (if_pos htext)
  show (run (handle pg) (match (handle pg (.sql (.setTenant claims.tenant)) s.opened).1 with | .ok _ => _ | .error e => _)
    (handle pg (.sql (.setTenant claims.tenant)) s.opened).2).1 = _
  rw [hset]

theorem openTx_sql_calm {claims : TokenClaims} {ν : Nat → Choice} (hν : ∀ n, (ν n).fault = false)
    (htext : textOk claims.tenant) (db : Db) (conn : Conn) (stmt : Stmt) (f : Except Exn stmt.Resp → Except Exn α) :
    ((openTx claims (.call (.sql stmt) fun r => settle (f r))).run (handle pg) { db, conn, nature := ν }).1 =
      f (stmt.answer pg claims ν db) := by
  rw [openTx_calm (s := { db, conn, nature := ν }) claims hν htext]
  set s₂ := ({ db, conn, nature := ν } : Session).opened.ran (.setTenant claims.tenant) () []
  have hcalm : s₂.Calm := fun n => hν (n + 1 + 1)
  have hanswer : (handle pg (.sql stmt) s₂).1 = stmt.answer pg claims ν db := by
    unfold Stmt.answer
    rw [if_pos htext]
    cases hx : stmt.exec pg ⟨(ν 0).now, some claims.tenant, (ν 2).order⟩ db with
    | error e => rw [Session.handle_sql_error (hcalm 0) rfl hx]
    | ok rws => rw [Session.handle_sql (hcalm 0) rfl hx]
  show (run (handle pg) (settle (f (handle pg (.sql stmt) s₂).1)) _).1 = _
  rw [hanswer]
  exact settle_calm pg (hcalm.handle pg _) _

end

/-! ### Accepted bodies -/

/-- The numbers of the body are values of their columns. -/
def AlertRuleCreate.inRange (body : AlertRuleCreate) : Bool :=
  [body.threshold, body.windowSeconds, body.cooldownSeconds].all int4Ok

section
variable {claims : TokenClaims} {db : Db}

theorem run_create (w : World) (hadmin : claims.role = .admin) (htext : textOk claims.tenant) (conn : Conn)
    {ν : Nat → Choice} (hν : ∀ n, (ν n).fault = false) (body : AlertRuleCreate) :
    (Request.run w ⟨.createAlertRule body claims, conn, ν⟩ db).1 =
      RuleChange.created ((Stmt.insertRule (RuleChange.newRule claims body)).answer w.pg claims ν db) := by
  unfold Request.run
  rw [show Call.app w (.createAlertRule body claims) = _ from RuleChange.app_eq w hadmin (.create body)]
  exact openTx_sql_calm hν htext db conn (.insertRule (RuleChange.newRule claims body)) RuleChange.created

theorem run_update (w : World) (hadmin : claims.role = .admin) (htext : textOk claims.tenant) (conn : Conn)
    {ν : Nat → Choice} (hν : ∀ n, (ν n).fault = false) (ruleId : Int) {body : AlertRuleUpdate}
    (hbody : body.toRuleUpdate ≠ {}) :
    (Request.run w ⟨.updateAlertRule ruleId body claims, conn, ν⟩ db).1 =
      RuleChange.updated ((Stmt.updateRule body.toRuleUpdate ruleId).answer w.pg claims ν db) := by
  unfold Request.run
  rw [show Call.app w (.updateAlertRule ruleId body claims) = _ from RuleChange.app_eq w hadmin (.update ruleId body),
    RuleChange.write, if_neg hbody]
  exact openTx_sql_calm hν htext db conn (.updateRule body.toRuleUpdate ruleId) RuleChange.updated

theorem createAnswer_iff {w : World} (htext : textOk claims.tenant) (hne : claims.tenant ≠ []) {ν : Nat → Choice}
    (hnew : ∀ r ∈ db.alertRules, r.tenant ≠ claims.tenant) (body : AlertRuleCreate) :
    (∃ row, RuleChange.created ((Stmt.insertRule (RuleChange.newRule claims body)).answer w.pg claims ν db) =
      .ok (.rule row)) ↔ body.inRange := by
  have hnone : ¬ ∃ r, r ∈ db.alertRules ∧ r.tenant = claims.tenant := fun ⟨r, hr, h⟩ => hnew r hr h
  have hchecked : ∀ id now, AlertRule.checked ⟨id, claims.tenant, .failedLoginBurst, body.threshold, body.windowSeconds,
      body.cooldownSeconds, body.enabled, now, now⟩ = true := fun id now => by
    simp [AlertRule.checked, hne, body.threshold_pos, body.windowSeconds_pos, body.cooldownSeconds_pos]
  unfold Stmt.answer
  rw [if_pos htext]
  simp only [Stmt.exec, RuleChange.newRule, rls, beq_self_eq_true, hchecked, Bool.not_true, Bool.false_eq_true,
    if_false]
  cases hrange : body.inRange with
  | false =>
    unfold AlertRuleCreate.inRange at hrange
    simp [hrange, RuleChange.created]
  | true =>
    unfold AlertRuleCreate.inRange at hrange
    simp [hrange, hnone, RuleChange.created]

theorem checked_applyTo {r : AlertRule} (h : r.checked) (body : AlertRuleUpdate) (now : Time) :
    (body.toRuleUpdate.applyTo now r).checked := by
  have hpos : ∀ {o : Option (Option Int)} {d : Int}, (∀ i ∈ o.join, 0 < i) → 0 < d → 0 < o.join.getD d := by
    intro o d ho hd
    cases hj : o.join with
    | none => exact hd
    | some i => exact ho i hj
  simp only [AlertRule.checked, Bool.and_eq_true, decide_eq_true_eq] at h ⊢
  obtain ⟨⟨⟨htenant, hthreshold⟩, hwindow⟩, hcooldown⟩ := h
  exact ⟨⟨⟨htenant, hpos body.threshold_pos hthreshold⟩, hpos body.windowSeconds_pos hwindow⟩,
    hpos body.cooldownSeconds_pos hcooldown⟩

theorem updateAnswer_iff {w : World} (htext : textOk claims.tenant) (hdb : ∀ r ∈ db.alertRules, r.checked)
    {ν : Nat → Choice} {r : AlertRule} (hr : r ∈ db.alertRules) (htenant : r.tenant = claims.tenant)
    (body : AlertRuleUpdate) :
    (∃ row, RuleChange.updated ((Stmt.updateRule body.toRuleUpdate r.id).answer w.pg claims ν db) = .ok (.rule row)) ↔
      body.toRuleUpdate.inRange ∧ body.toRuleUpdate.notNull := by
  have hfind : ((db.visibleRules (some claims.tenant)).find? fun r' => (r'.id : Int) = r.id).isSome := by
    rw [List.find?_isSome]
    exact ⟨r, List.mem_filter.2 ⟨hr, by simp [rls, htenant]⟩, by simp⟩
  obtain ⟨r', hr'⟩ := Option.isSome_iff_exists.1 hfind
  have hchecked := checked_applyTo (hdb r' (List.mem_filter.1 (List.mem_of_find?_eq_some hr')).1) body (ν 0).now
  unfold Stmt.answer
  rw [if_pos htext]
  simp only [Stmt.exec, hr', hchecked, Bool.not_true, Bool.false_eq_true, if_false]
  cases hrange : body.toRuleUpdate.inRange with
  | false => simp [RuleChange.updated]
  | true => cases hnull : body.toRuleUpdate.notNull <;> simp [RuleChange.updated]

/-- A validated body is written exactly when its numbers are `integer` values and it has no explicit `null`. -/
theorem rule_written_iff (w : World) (claims : TokenClaims) (db : Db) (hadmin : claims.role = .admin)
    (htext : textOk claims.tenant)
    (hne : claims.tenant ≠ []) (hdb : ∀ r ∈ db.alertRules, r.checked) (conn : Conn) {ν : Nat → Choice}
    (hν : ∀ n, (ν n).fault = false) :
    (∀ body : AlertRuleCreate, (∀ r ∈ db.alertRules, r.tenant ≠ claims.tenant) →
      ((∃ row, (Request.run w ⟨.createAlertRule body claims, conn, ν⟩ db).1 = .ok (.rule row)) ↔ body.inRange)) ∧
    ∀ body : AlertRuleUpdate, body.toRuleUpdate ≠ {} → ∀ r ∈ db.alertRules, r.tenant = claims.tenant →
      ((∃ row, (Request.run w ⟨.updateAlertRule r.id body claims, conn, ν⟩ db).1 = .ok (.rule row)) ↔
        body.toRuleUpdate.inRange ∧ body.toRuleUpdate.notNull) := by
  constructor
  · intro body hnew
    rw [run_create w hadmin htext conn hν]
    exact createAnswer_iff htext hne hnew body
  · intro body hbody r hr htenant
    rw [run_update w hadmin htext conn hν r.id hbody]
    exact updateAnswer_iff htext hdb hr htenant body

end

def AlertRule.demoA : AlertRule := ⟨1, str "demoA", .failedLoginBurst, 5, 300, 900, true, 0, 0⟩

/-- An admin of `demoA` creates a rule, and changes one. -/
theorem rule_written_demoA :
    let claims : TokenClaims := ⟨str "admin_a", .admin, str "demoA"⟩
    (∃ row, (Request.run .sample ⟨.createAlertRule {} claims, { autocommit := false }, fun _ => {}⟩ {}).1 =
      .ok (.rule row)) ∧
    ∃ row, (Request.run .sample ⟨.updateAlertRule 1 { threshold := some (some 2) } claims, { autocommit := false },
      fun _ => {}⟩ { alertRules := [.demoA] }).1 = .ok (.rule row) := by
  intro claims
  have hcreate := rule_written_iff .sample claims {} rfl (by decide) (by decide) (by simp)
    { autocommit := false } (ν := fun _ => {}) fun _ => rfl
  have hupdate := rule_written_iff .sample claims { alertRules := [.demoA] } rfl (by decide) (by decide)
    (by decide) { autocommit := false } (ν := fun _ => {}) fun _ => rfl
  exact ⟨(hcreate.1 {} (by simp)).2 (by decide),
    (hupdate.2 { threshold := some (some 2) } (by decide) .demoA (by simp) rfl).2 (by decide)⟩

/-- Validation accepts `{"threshold": 2147483648}` and `{"threshold": null}`; the database raises, and nothing handles it. -/
theorem rule_not_written :
    let claims : TokenClaims := ⟨str "admin_a", .admin, str "demoA"⟩
    let conn : Conn := { autocommit := false }
    (Request.run .sample ⟨.createAlertRule { threshold := 2147483648 } claims, conn, fun _ => {}⟩ {}).1 =
      .error (.sql .outOfRange) ∧
    (Request.run .sample ⟨.updateAlertRule 1 { threshold := some (some 2147483648) } claims, conn, fun _ => {}⟩
      { alertRules := [.demoA] }).1 = .error (.sql .outOfRange) ∧
    (Request.run .sample ⟨.updateAlertRule 1 { threshold := some none } claims, conn, fun _ => {}⟩
      { alertRules := [.demoA] }).1 = .error (.sql .notNullViolation) :=
  ⟨rfl, rfl, rfl⟩

end LogMgmt
