import LogMgmt.AlertRules
import LogMgmt.Lib.Interleave

/-!
# The store of alert rules

Any number of `POST` and `PATCH /alert-rules` requests of any tenants, each on a connection of its own,
their commands in any order. An INSERT waits for an open transaction that has inserted the same key, an
UPDATE for one that has updated the same row; that is all PostgreSQL does to keep them apart.
-/

namespace LogMgmt
open Prog Interleave

/-! ### Requests in flight -/

/-- The rules right before and right after a COMMIT. -/
structure RulesCommit where
  before : List AlertRule
  after : List AlertRule

structure RuleRequest where
  claims : TokenClaims
  change : RuleChange
  session : Session
  /-- a record of what the request has committed, which no program reads -/
  commits : List RulesCommit := []

/-- The session of the request on the rows that are committed now. -/
def RuleRequest.on (q : RuleRequest) (db : Db) : Session := { q.session with db, others := fun _ => id }

/-- The answer ends a transaction with its changes kept. -/
def Conn.commits (conn : Conn) : (c : Cmd) → c.Answer → Bool
  | .commit, .ok _ => conn.status = .inTx
  | _, _ => false

/-- A command of a request, on the rows that are committed by then. -/
def serve (pg : Pg) : Prog.Handler Cmd.Answer (Db × RuleRequest) := fun c (db, q) =>
  let result := handle pg c (q.on db)
  let commits := if q.session.conn.commits c result.1 then [⟨db.alertRules, result.2.db.alertRules⟩] else []
  (result.1, result.2.db, { q with session := result.2, commits := q.commits ++ commits })

/-- What the open transaction of another session makes a command wait for: the key it has inserted, the row it has
updated. -/
def Write.blocks (conn : Conn) : Cmd → Write → Prop
  | .sql (.insertRule r), .insertRule row => row.tenant = r.tenant ∧ row.ruleType = r.ruleType
  | .sql (.updateRule _ ruleId), .updateRule tenant id _ _ => conn.tenant = some tenant ∧ (id : Int) = ruleId
  | _, _ => False

instance (conn : Conn) (c : Cmd) (write : Write) : Decidable (write.blocks conn c) := by
  unfold Write.blocks
  split <;> infer_instance

/-- The rule endpoints on the database. -/
def ruleEndpoints (w : World) : Rules Cmd.Answer Exn Response Db RuleRequest where
  handle := serve w.pg
  Starts t := t.prog = (t.state.change.call t.state.claims).app w ∧ t.state.session.conn.status = .idle ∧
    t.state.session.pending = [] ∧ t.state.commits = []
  Waits s c u := ∃ write ∈ u.session.pending, write.blocks s.session.conn c

instance (w : World) (s u : RuleRequest) (c : Cmd) : Decidable ((ruleEndpoints w).Waits s c u) :=
  inferInstanceAs (Decidable (∃ write ∈ u.session.pending, write.blocks s.session.conn c))

abbrev RuleStore := Ensemble Cmd.Answer Exn Response Db RuleRequest

/-! ### What a request writes -/

def AlertRule.get (r : AlertRule) : RuleField → RuleValue
  | .threshold => .int r.threshold
  | .windowSeconds => .int r.windowSeconds
  | .cooldownSeconds => .int r.cooldownSeconds
  | .enabled => .bool r.enabled

/-- What names a rule and never changes. -/
structure AlertRule.Same (r r' : AlertRule) : Prop where
  id : r'.id = r.id
  tenant : r'.tenant = r.tenant
  ruleType : r'.ruleType = r.ruleType
  createdAt : r'.createdAt = r.createdAt

/-- A POST has added the rule of its body. -/
structure Created (claims : TokenClaims) (body : AlertRuleCreate) (row : AlertRule) (before after : List AlertRule) :
    Prop where
  tenant : row.tenant = claims.tenant
  ruleType : row.ruleType = .failedLoginBurst
  threshold : row.threshold = body.threshold
  windowSeconds : row.windowSeconds = body.windowSeconds
  cooldownSeconds : row.cooldownSeconds = body.cooldownSeconds
  enabled : row.enabled = body.enabled
  after : after = before ++ [row]

/-- A PATCH has given the fields of its body to one rule of the caller's tenant. -/
structure Patched (claims : TokenClaims) (ruleId : Int) (set : RuleUpdate) (row : AlertRule)
    (before after : List AlertRule) : Prop where
  rule : ∃ r ∈ before, r.tenant = claims.tenant ∧ (r.id : Int) = ruleId ∧ r.Same row ∧
    (∃ now, row = set.assemble now r) ∧ ∀ f, row.get f = (set.updates.lookup f).getD (r.get f)
  after : after = before.map fun r => if r.id = row.id then row else r

/-- The request has put `row` into the table. -/
def RuleChange.Wrote (claims : TokenClaims) (row : AlertRule) (before after : List AlertRule) : RuleChange → Prop
  | create body => Created claims body row before after
  | update ruleId body => Patched claims ruleId body.toRuleUpdate row before after

theorem RuleUpdate.get_assemble {set : RuleUpdate} (h : set.notNull) (now : Time) (r : AlertRule) (f : RuleField) :
    (set.assemble now r).get f = (set.updates.lookup f).getD (r.get f) := by
  rw [assemble_eq]
  obtain ⟨threshold, windowSeconds, cooldownSeconds, enabled⟩ := set
  rcases threshold with _ | _ | _ <;> rcases windowSeconds with _ | _ | _ <;> rcases cooldownSeconds with _ | _ | _ <;>
    rcases enabled with _ | _ | _ <;> first | (cases f <;> rfl) | cases h

theorem RuleUpdate.assemble_same (set : RuleUpdate) (now : Time) (r : AlertRule) : r.Same (set.assemble now r) := by
  rw [assemble_eq]
  exact ⟨rfl, rfl, rfl, rfl⟩

/-! ### Where a request stands -/

/-- What a request still has to do. -/
inductive Phase where
  | begin
  | tenant
  | write
  | committing (row : AlertRule)
  | releasing (row : AlertRule)
  | done (row : AlertRule)
  | rollingBack (e : Exn)
  | givingUp (e : Exn)
  | failed (e : Exn)

/-- The rest of the program. -/
def Phase.prog (claims : TokenClaims) (change : RuleChange) : Phase → App Response
  | begin => openTx claims (change.write claims)
  | tenant => setTenant claims (change.write claims)
  | write => change.write claims
  | committing row => commit (.rule row)
  | releasing row => release (.rule row)
  | done row => .ret (.rule row)
  | rollingBack e => rollback e
  | givingUp e => giveUp e
  | failed e => .raise e

/-- The row can be added without breaking a key. -/
structure AlertRule.Fresh (db : Db) (row : AlertRule) : Prop where
  id_lt : row.id < db.sequences.rule
  key : ∀ r ∈ db.alertRules, ¬ (r.tenant = row.tenant ∧ r.ruleType = row.ruleType)
  id : ∀ r ∈ db.alertRules, r.id ≠ row.id

/-- What a request has written and not yet committed: a change that takes the rules of `db` to others. -/
inductive Uncommitted (db : Db) (claims : TokenClaims) (row : AlertRule) : RuleChange → List Write → Prop where
  | create (body : AlertRuleCreate) (hrow : Created claims body row db.alertRules (db.alertRules ++ [row]))
    (hfresh : row.Fresh db) : Uncommitted db claims row (.create body) [.insertRule row]
  | update (ruleId : Int) (body : AlertRuleUpdate) (r : AlertRule) (hr : r ∈ db.alertRules)
    (htenant : r.tenant = claims.tenant) (hid : (r.id : Int) = ruleId) (now : Time)
    (hrow : row = body.toRuleUpdate.applyTo now r) (hnull : body.toRuleUpdate.notNull) :
    Uncommitted db claims row (.update ruleId body) [.updateRule r.tenant r.id body.toRuleUpdate now]

/-- What a request in this phase knows. -/
def Phase.Holds (db : Db) (q : RuleRequest) : Phase → Prop
  | begin => q.session.conn.status = .idle ∧ q.session.pending = [] ∧ q.commits = []
  | tenant => q.session.conn.status = .inTx ∧ q.session.pending = [] ∧ q.commits = []
  | write => q.session.conn.status = .inTx ∧ q.session.conn.tenant = some q.claims.tenant ∧ q.session.pending = [] ∧
      q.commits = []
  | committing row => q.session.conn.status = .inTx ∧ Uncommitted db q.claims row q.change q.session.pending ∧
      q.commits = []
  | releasing row => q.session.conn.status = .idle ∧ q.session.pending = [] ∧
      ∃ before after, q.commits = [⟨before, after⟩] ∧ q.change.Wrote q.claims row before after
  | done row => q.session.pending = [] ∧
      ∃ before after, q.commits = [⟨before, after⟩] ∧ q.change.Wrote q.claims row before after
  | rollingBack _ | givingUp _ | failed _ => q.session.pending = [] ∧ q.commits = []

structure RulesOk (db : Db) : Prop where
  keys : (db.alertRules.map fun r => (r.tenant, r.ruleType)).Nodup
  ids : (db.alertRules.map (·.id)).Nodup
  id_lt : ∀ r ∈ db.alertRules, r.id < db.sequences.rule

def Stands (db : Db) (t : Task Cmd.Answer Exn Response RuleRequest) : Prop :=
  ∃ phase : Phase, t.prog = phase.prog t.state.claims t.state.change ∧ phase.Holds db t.state

/-- Two open transactions that the database keeps apart. -/
def Write.Clash : Write → Write → Prop
  | .insertRule r, .insertRule r' => r.id = r'.id ∨ r.tenant = r'.tenant ∧ r.ruleType = r'.ruleType
  | .updateRule tenant id _ _, .updateRule tenant' id' _ _ => tenant = tenant' ∧ id = id'
  | _, _ => False

def Apart (q q' : RuleRequest) : Prop := ∀ w ∈ q.session.pending, ∀ w' ∈ q'.session.pending, ¬ w.Clash w'

/-! ### One command of a request -/

theorem exec_insertRule_ok {pg : Pg} {ctx : Ctx} {db : Db} {r : NewRule} {row : AlertRule} {ws : List Write}
    (h : (Stmt.insertRule r).exec pg ctx db = .ok (row, ws)) :
    row = { r with id := db.sequences.rule, createdAt := ctx.now, updatedAt := ctx.now } ∧ ws = [.insertRule row] ∧
      ∀ r' ∈ db.alertRules, ¬ (r'.tenant = r.tenant ∧ r'.ruleType = r.ruleType) := by
  simp only [Stmt.exec] at h
  split_ifs at h with _ _ _ hany
  cases h
  refine ⟨rfl, rfl, fun r' hr' hkey => hany ?_⟩
  exact List.any_eq_true.2 ⟨r', hr', by simpa using hkey.1⟩

theorem exec_updateRule_ok {pg : Pg} {ctx : Ctx} {db : Db} {set : RuleUpdate} {ruleId : Int} {found : Option AlertRule}
    {ws : List Write} (h : (Stmt.updateRule set ruleId).exec pg ctx db = .ok (found, ws)) :
    (found = none ∧ ws = []) ∨ ∃ r ∈ db.visibleRules ctx.tenant, (r.id : Int) = ruleId ∧ set.notNull ∧
      found = some (set.applyTo ctx.now r) ∧ ws = [.updateRule r.tenant r.id set ctx.now] := by
  simp only [Stmt.exec] at h
  split at h
  · cases h
  split at h
  · cases h
    exact .inl ⟨rfl, rfl⟩
  · rename_i r hr
    split_ifs at h with hnull
    cases h
    exact .inr ⟨r, List.mem_of_find?_eq_some hr, by simpa using List.find?_some hr, by simpa using hnull, rfl, rfl⟩

section
variable {pg : Pg} {db db' : Db} {q q' : RuleRequest} {c : Cmd} {r : c.Answer} {t : Session}

theorem serve_of (h : handle pg c (q.on db) = (r, t)) (hc : q.session.conn.commits c r = false) :
    serve pg c (db, q) = (r, t.db, { q with session := t }) := by
  unfold serve
  simp only [h, hc, Bool.false_eq_true, if_false, List.append_nil]

theorem serve_commit {r : Cmd.commit.Answer} (h : handle pg .commit (q.on db) = (r, t))
    (hc : q.session.conn.commits .commit r = true) :
    serve pg .commit (db, q) =
      (r, t.db, { q with session := t, commits := q.commits ++ [⟨db.alertRules, t.db.alertRules⟩] }) := by
  unfold serve
  simp only [h, hc, if_true]

/-- What a command of a request may do to the table and to what the request has written. -/
inductive Effect (db : Db) (q : RuleRequest) (c : Cmd) (db' : Db) (q' : RuleRequest) : Prop where
  /-- nothing -/
  | idle (rules : db'.alertRules = db.alertRules) (seq : db.sequences.rule ≤ db'.sequences.rule)
    (pending : q'.session.pending = []) (commits : q'.commits = q.commits)
  | insert (r : NewRule) (hc : c = .sql (.insertRule r)) (row : AlertRule) (rules : db'.alertRules = db.alertRules)
    (seq : db.sequences.rule ≤ db'.sequences.rule) (pending : q'.session.pending = [.insertRule row])
    (commits : q'.commits = q.commits) (id : row.id = db.sequences.rule) (tenant : row.tenant = r.tenant)
    (ruleType : row.ruleType = r.ruleType)
  | update (set : RuleUpdate) (ruleId : Int) (hc : c = .sql (.updateRule set ruleId)) (r : AlertRule) (now : Time)
    (rules : db'.alertRules = db.alertRules) (seq : db.sequences.rule ≤ db'.sequences.rule)
    (pending : q'.session.pending = [.updateRule r.tenant r.id set now]) (commits : q'.commits = q.commits)
    (tenant : q.session.conn.tenant = some r.tenant) (id : (r.id : Int) = ruleId)
  | commit (rules : db' = db.applyAll q.session.pending) (pending : q'.session.pending = [])
    (commits : q'.commits = q.commits ++ [⟨db.alertRules, db'.alertRules⟩])

/-- A command of a request keeps the keys of the table, and the request stands somewhere after it. -/
structure Goes (pg : Pg) (db : Db) (q : RuleRequest) (c : Cmd) (k : c.Answer → App Response) : Prop where
  ok : RulesOk (serve pg c (db, q)).2.1
  stands : Stands (serve pg c (db, q)).2.1 ⟨k (serve pg c (db, q)).1, (serve pg c (db, q)).2.2⟩
  effect : Effect db q c (serve pg c (db, q)).2.1 (serve pg c (db, q)).2.2

theorem goes_of {k : c.Answer → App Response} (h : serve pg c (db, q) = (r, db', q')) (hG : RulesOk db') (phase : Phase)
    (hk : k r = phase.prog q'.claims q'.change) (hphase : phase.Holds db' q') (heffect : Effect db q c db' q') :
    Goes pg db q c k := by
  refine ⟨?_, ?_, ?_⟩ <;> rw [h]
  · exact hG
  · exact ⟨phase, hk, hphase⟩
  · exact heffect

theorem RulesOk.of_eq (h : RulesOk db) (hrules : db'.alertRules = db.alertRules)
    (hseq : db.sequences.rule ≤ db'.sequences.rule) : RulesOk db' := by
  refine ⟨?_, ?_, ?_⟩ <;> rw [hrules]
  · exact h.keys
  · exact h.ids
  · exact fun r hr => Nat.lt_of_lt_of_le (h.id_lt r hr) hseq

theorem nextval_le (stmt : Stmt) (s : Sequences) : s.rule ≤ (stmt.nextval s).rule := by
  cases stmt <;> first | exact Nat.le_refl _ | exact Nat.le_succ _

theorem Session.Raised.rules {s s' : Session} {stmt : Stmt} {e : Exn} (h : s.Raised stmt e s') (hs : s.interfere = s) :
    s'.db.alertRules = s.db.alertRules ∧ s.db.sequences.rule ≤ s'.db.sequences.rule := by
  rcases h.db with hdb | hdb <;> rw [hdb, hs]
  · exact ⟨rfl, Nat.le_refl _⟩
  · exact ⟨rfl, nextval_le _ _⟩

/-- A statement that raises leaves the request with nothing written. -/
theorem goes_raised {stmt : Stmt} {e e' : Exn} {k : (Cmd.sql stmt).Answer → App Response} (h : RulesOk db)
    (hh : handle pg (.sql stmt) (q.on db) = (.error e, t)) (hr : (q.on db).Raised stmt e t)
    (hk : k (.error e) = rollback e') (hpending : q.session.pending = []) (hcommits : q.commits = []) :
    Goes pg db q (.sql stmt) k := by
  obtain ⟨hrules, hseq⟩ := hr.rules rfl
  have hnone : t.pending = [] := hr.pending.trans hpending
  exact goes_of (serve_of hh rfl) (h.of_eq hrules hseq) (.rollingBack e') hk ⟨hnone, hcommits⟩ (.idle hrules hseq hnone rfl)

theorem goes_begin {k : c.Answer → App Response} (h : RulesOk db) (hq : Phase.begin.Holds db q)
    (hprog : .call c k = openTx q.claims (q.change.write q.claims)) : Goes pg db q c k := by
  obtain ⟨-, hpending, hcommits⟩ := hq
  cases hprog
  cases hf : (q.session.nature 0).fault with
  | true =>
    exact goes_of (serve_of (Session.handle_begin_fault pg hf) rfl) h (.givingUp .operational) rfl ⟨hpending, hcommits⟩
      (.idle rfl (Nat.le_refl _) hpending rfl)
  | false =>
    exact goes_of (serve_of (Session.handle_begin pg hf) rfl) h .tenant rfl ⟨rfl, rfl, hcommits⟩
      (.idle rfl (Nat.le_refl _) rfl rfl)

theorem goes_tenant {k : c.Answer → App Response} (h : RulesOk db) (hq : Phase.tenant.Holds db q)
    (hprog : .call c k = setTenant q.claims (q.change.write q.claims)) : Goes pg db q c k := by
  obtain ⟨hstatus, hpending, hcommits⟩ := hq
  cases hprog
  rcases Session.handle_sql_cases pg (s := q.on db) hstatus (.setTenant q.claims.tenant) with
    ⟨r, ws, -, hx, hh⟩ | ⟨e, s', hh, hr⟩
  · obtain rfl : ws = [] := by
      cases Stmt.exec_writes hx
      rfl
    have hnone : q.session.pending ++ [] = [] := congrArg (· ++ []) hpending
    refine goes_of (serve_of hh rfl) h .write rfl
      ⟨Session.ran_status (s := q.on db) hstatus _ r [], ?_, hnone, hcommits⟩ (.idle rfl (Nat.le_refl _) hnone rfl)
    show ((q.session.conn.setTenant q.claims.tenant).tenant) = _
    rw [Conn.setTenant, if_neg fun hc => by cases hstatus.symm.trans hc.1]
    rfl
  · exact goes_raised h hh hr rfl hpending hcommits

theorem goes_create (h : RulesOk db) (hq : Phase.write.Holds db q) {body : AlertRuleCreate}
    (hchange : q.change = .create body) :
    Goes pg db q (.sql (.insertRule (RuleChange.newRule q.claims body))) fun r => settle (RuleChange.created r) := by
  obtain ⟨hstatus, -, hpending, hcommits⟩ := hq
  rcases Session.handle_sql_cases pg (s := q.on db) hstatus (.insertRule (RuleChange.newRule q.claims body)) with
    ⟨row, ws, -, hx, hh⟩ | ⟨e, s', hh, hr⟩
  · have hview : (q.on db).interfere.view = db := by
      show db.applyAll q.session.pending = db
      rw [hpending]
      rfl
    rw [hview] at hx
    obtain ⟨hrow, rfl, hkey⟩ := exec_insertRule_ok hx
    have hseq : row.id = db.sequences.rule := by rw [hrow]
    have hwritten : q.session.pending ++ [.insertRule row] = [.insertRule row] := by rw [hpending, List.nil_append]
    refine goes_of (serve_of hh rfl) (h.of_eq rfl (Nat.le_succ _)) (.committing row) rfl
      ⟨Session.ran_status (s := q.on db) hstatus _ row _, ?_, hcommits⟩
      (.insert _ rfl row rfl (Nat.le_succ _) hwritten rfl hseq (by rw [hrow]) (by rw [hrow]))
    show Uncommitted _ q.claims row q.change (q.session.pending ++ [.insertRule row])
    rw [hchange, hwritten]
    refine .create body (by rw [hrow]; exact ⟨rfl, rfl, rfl, rfl, rfl, rfl, rfl⟩) ⟨?_, ?_, ?_⟩
    · rw [hseq]
      exact Nat.lt_succ_self _
    · intro r hr hsame
      rw [hrow] at hsame
      exact hkey r hr hsame
    · intro r hr
      rw [hseq]
      exact Nat.ne_of_lt (h.id_lt r hr)
  · have hsettle : ∃ e', RuleChange.created (.error e) = .error e' := by
      rcases e with _ | e | _ | _ | _
      any_goals exact ⟨_, rfl⟩
      cases e <;> exact ⟨_, rfl⟩
    obtain ⟨e', he'⟩ := hsettle
    exact goes_raised h hh hr (congrArg settle he') hpending hcommits

theorem goes_update (h : RulesOk db) (hq : Phase.write.Holds db q) {ruleId : Int} {body : AlertRuleUpdate}
    (hchange : q.change = .update ruleId body) :
    Goes pg db q (.sql (.updateRule body.toRuleUpdate ruleId)) fun r => settle (RuleChange.updated r) := by
  obtain ⟨hstatus, htenant, hpending, hcommits⟩ := hq
  rcases Session.handle_sql_cases pg (s := q.on db) hstatus (.updateRule body.toRuleUpdate ruleId) with
    ⟨found, ws, -, hx, hh⟩ | ⟨e, s', hh, hr⟩
  · have hview : (q.on db).interfere.view = db := by
      show db.applyAll q.session.pending = db
      rw [hpending]
      rfl
    have hctx : (q.on db).interfere.ctx.tenant = some q.claims.tenant := htenant
    rw [hview] at hx
    rcases exec_updateRule_ok hx with ⟨rfl, rfl⟩ | ⟨r, hr, hid, hnull, rfl, rfl⟩
    · have hnone : q.session.pending ++ [] = [] := congrArg (· ++ []) hpending
      exact goes_of (serve_of hh rfl) h (.rollingBack (.http 404 "alert rule not found")) rfl ⟨hnone, hcommits⟩
        (.idle rfl (Nat.le_refl _) hnone rfl)
    · rw [hctx, Db.visibleRules, List.mem_filter, rls, beq_iff_eq, Option.some.injEq] at hr
      have hwritten : ∀ w : Write, q.session.pending ++ [w] = [w] := fun w => by rw [hpending, List.nil_append]
      refine goes_of (serve_of hh rfl) h (.committing _) rfl ⟨Session.ran_status (s := q.on db) hstatus _ _ _, ?_, hcommits⟩
        (.update _ _ rfl r _ rfl (Nat.le_refl _) (hwritten _) rfl (by rw [htenant, hr.2]) hid)
      show Uncommitted db q.claims _ q.change (q.session.pending ++ _)
      rw [hchange, hwritten]
      exact .update ruleId body r hr.1 hr.2.symm hid _ rfl hnull
  · exact goes_raised h hh hr rfl hpending hcommits

theorem goes_rollingBack (h : RulesOk db) {e : Exn} (hq : (Phase.rollingBack e).Holds db q) :
    Goes pg db q .rollback fun _ => giveUp e := by
  exact goes_of (serve_of (r := (handle pg .rollback (q.on db)).1) rfl rfl) h (.givingUp e) rfl ⟨rfl, hq.2⟩
    (.idle rfl (Nat.le_refl _) rfl rfl)

theorem goes_givingUp (h : RulesOk db) {e : Exn} (hq : (Phase.givingUp e).Holds db q) :
    Goes pg db q .rollback fun _ => .raise e :=
  goes_of (serve_of (r := (handle pg .rollback (q.on db)).1) rfl rfl) h (.failed e) rfl ⟨rfl, hq.2⟩
    (.idle rfl (Nat.le_refl _) rfl rfl)

theorem goes_releasing (h : RulesOk db) {row : AlertRule} (hq : (Phase.releasing row).Holds db q) :
    Goes pg db q .commit fun | .ok _ => .ret (.rule row) | .error e => .raise e := by
  obtain ⟨hstatus, hpending, hcommitted⟩ := hq
  have hh : handle pg .commit (q.on db) = (.ok (), (q.on db).answered .commit (.ok ())) := by
    show (q.on db).doCommit = _
    rw [Session.doCommit, if_pos (show (q.on db).conn.status = .idle from hstatus)]
  refine goes_of (serve_of hh ?_) h (.done row) rfl ⟨hpending, hcommitted⟩ (.idle rfl (Nat.le_refl _) hpending rfl)
  show decide (q.session.conn.status = .inTx) = false
  rw [hstatus]
  rfl

/-! ### A COMMIT -/

theorem RulesOk.insert {row : AlertRule} (h : RulesOk db) (hrow : row.Fresh db) :
    RulesOk (db.apply (.insertRule row)) := by
  refine ⟨?_, ?_, fun r hr => ?_⟩
  · show ((db.alertRules ++ [row]).map _).Nodup
    rw [List.map_append, List.nodup_append]
    refine ⟨h.keys, List.nodup_singleton _, ?_⟩
    rintro key hkey _ hrow' rfl
    obtain ⟨r, hr, rfl⟩ := List.mem_map.1 hkey
    rw [List.map_singleton, List.mem_singleton, Prod.mk.injEq] at hrow'
    exact hrow.key r hr hrow'
  · show ((db.alertRules ++ [row]).map _).Nodup
    rw [List.map_append, List.nodup_append]
    refine ⟨h.ids, List.nodup_singleton _, ?_⟩
    rintro id hid _ hrow' rfl
    obtain ⟨r, hr, rfl⟩ := List.mem_map.1 hid
    rw [List.map_singleton, List.mem_singleton] at hrow'
    exact hrow.id r hr hrow'
  · rcases List.mem_append.1 hr with hr | hr
    · exact h.id_lt r hr
    · rw [List.mem_singleton.1 hr]
      exact hrow.id_lt

theorem RulesOk.update (h : RulesOk db) (tenant : Str) (id : Nat) (set : RuleUpdate) (now : Time) :
    RulesOk (db.apply (.updateRule tenant id set now)) := by
  have hmap : ∀ {κ : Type} (f : AlertRule → κ), (∀ r, f (set.applyTo now r) = f r) →
      (db.apply (.updateRule tenant id set now)).alertRules.map f = db.alertRules.map f := by
    intro κ f hf
    show (db.alertRules.map _).map f = _
    rw [List.map_map]
    refine List.map_congr_left fun r _ => ?_
    show f (if _ then _ else _) = f r
    split
    · exact hf r
    · rfl
  refine ⟨?_, ?_, fun r hr => ?_⟩
  · rw [hmap _ fun _ => rfl]
    exact h.keys
  · rw [hmap _ fun _ => rfl]
    exact h.ids
  · obtain ⟨r', hr', rfl⟩ := List.mem_map.1 hr
    refine Nat.lt_of_le_of_lt (Nat.le_of_eq ?_) (h.id_lt r' hr')
    split <;> rfl

/-- Under the key `id` the UPDATE has met one row. -/
theorem RulesOk.update_eq (h : RulesOk db) {r : AlertRule} (hr : r ∈ db.alertRules) (set : RuleUpdate) (now : Time) :
    (db.apply (.updateRule r.tenant r.id set now)).alertRules =
      db.alertRules.map fun r' => if r'.id = (set.applyTo now r).id then set.applyTo now r else r' := by
  refine List.map_congr_left fun r' hr' => ?_
  have hone : r'.id = r.id → r' = r := fun hid => List.inj_on_of_nodup_map h.ids hr' hr hid
  show (if r'.tenant = r.tenant ∧ r'.id = r.id then _ else _) = if r'.id = r.id then _ else _
  by_cases hid : r'.id = r.id
  · rw [hone hid, if_pos ⟨rfl, rfl⟩, if_pos rfl]
  · rw [if_neg fun hc => hid hc.2, if_neg hid]

theorem Uncommitted.ok {row : AlertRule} {change : RuleChange} {ws : List Write} {claims : TokenClaims}
    (h : RulesOk db) (hu : Uncommitted db claims row change ws) :
    RulesOk (db.applyAll ws) ∧ change.Wrote claims row db.alertRules (db.applyAll ws).alertRules := by
  cases hu with
  | create body hrow hfresh => exact ⟨h.insert hfresh, hrow⟩
  | update ruleId body r hr htenant hid now hrow hnull =>
    refine ⟨h.update _ _ _ _, ⟨r, hr, htenant, hid, ?_, ⟨now, ?_⟩, fun f => ?_⟩, ?_⟩
    · rw [hrow, ← RuleUpdate.assemble_eq]
      exact RuleUpdate.assemble_same _ _ _
    · rw [hrow, RuleUpdate.assemble_eq]
    · rw [hrow, ← RuleUpdate.assemble_eq]
      exact RuleUpdate.get_assemble hnull now r f
    · rw [hrow]
      exact h.update_eq hr _ _

theorem goes_committing (h : RulesOk db) {row : AlertRule} (hq : (Phase.committing row).Holds db q) :
    Goes pg db q .commit fun | .ok _ => release (.rule row) | .error e => giveUp e := by
  obtain ⟨hstatus, hu, hcommits⟩ := hq
  cases hf : (q.session.nature 0).fault with
  | true =>
    exact goes_of (serve_of (Session.handle_commit_fault pg hf hstatus) rfl) h (.givingUp .operational) rfl ⟨rfl, hcommits⟩
      (.idle rfl (Nat.le_refl _) rfl rfl)
  | false =>
    have hdb : (q.on db).committed.db = db.applyAll q.session.pending := rfl
    obtain ⟨hok, hwrote⟩ := hu.ok h
    refine goes_of (serve_commit (Session.handle_commit pg hf hstatus) (decide_eq_true hstatus)) (hdb ▸ hok)
      (.releasing row) rfl ⟨rfl, rfl, db.alertRules, _, ?_, hwrote⟩ (.commit hdb rfl rfl)
    rw [hcommits]
    rfl

theorem Stands.goes (pg : Pg) {k : c.Answer → App Response} (h : RulesOk db) (hs : Stands db ⟨.call c k, q⟩) :
    Goes pg db q c k := by
  obtain ⟨phase, hprog, hq⟩ := hs
  cases phase with
  | begin => exact goes_begin h hq hprog
  | tenant => exact goes_tenant h hq hprog
  | write =>
    change Prog.call c k = q.change.write q.claims at hprog
    cases hchange : q.change with
    | create body =>
      rw [hchange] at hprog
      cases hprog
      exact goes_create h hq hchange
    | update ruleId body =>
      rw [hchange, RuleChange.write] at hprog
      split at hprog
      · cases hprog
        exact goes_rollingBack h ⟨hq.2.2.1, hq.2.2.2⟩
      · cases hprog
        exact goes_update h hq hchange
  | committing row =>
    cases hprog
    exact goes_committing h hq
  | releasing row =>
    cases hprog
    exact goes_releasing h hq
  | rollingBack e =>
    cases hprog
    exact goes_rollingBack h hq
  | givingUp e =>
    cases hprog
    exact goes_givingUp h hq
  | done row => cases hprog
  | failed e => cases hprog

end

/-! ### Other requests meanwhile -/

section
variable {db db' : Db} {claims : TokenClaims} {row : AlertRule} {change : RuleChange} {ws : List Write}

theorem Uncommitted.of_eq (hu : Uncommitted db claims row change ws) (hrules : db'.alertRules = db.alertRules)
    (hseq : db.sequences.rule ≤ db'.sequences.rule) : Uncommitted db' claims row change ws := by
  cases hu with
  | create body hrow hfresh =>
    refine .create body (hrules ▸ hrow) ⟨Nat.lt_of_lt_of_le hfresh.id_lt hseq, ?_, ?_⟩
    · exact hrules ▸ hfresh.key
    · exact hrules ▸ hfresh.id
  | update ruleId body r hr htenant hid now hrow hnull =>
    exact .update ruleId body r (hrules ▸ hr) htenant hid now hrow hnull

/-- A change of another request is no obstacle, if the two do not clash. -/
theorem Uncommitted.apply {w : Write} (hu : Uncommitted db claims row change ws) (hw : ∀ w' ∈ ws, ¬ w.Clash w') :
    Uncommitted (db.apply w) claims row change ws := by
  cases w with
  | insertRule row' =>
    cases hu with
    | create body hrow hfresh =>
      have hclash : ¬ (row'.id = row.id ∨ row'.tenant = row.tenant ∧ row'.ruleType = row.ruleType) :=
        hw (.insertRule row) (by simp)
      refine .create body ⟨hrow.1, hrow.2, hrow.3, hrow.4, hrow.5, hrow.6, rfl⟩
        ⟨hfresh.id_lt, fun r hr => ?_, fun r hr => ?_⟩
      · rcases List.mem_append.1 hr with hr | hr
        · exact hfresh.key r hr
        · rw [List.mem_singleton.1 hr]
          exact fun hkey => hclash (.inr hkey)
      · rcases List.mem_append.1 hr with hr | hr
        · exact hfresh.id r hr
        · rw [List.mem_singleton.1 hr]
          exact fun hid => hclash (.inl hid)
    | update ruleId body r hr htenant hid now hrow hnull =>
      exact .update ruleId body r (List.mem_append_left _ hr) htenant hid now hrow hnull
  | updateRule tenant id set now' =>
    cases hu with
    | create body hrow hfresh =>
      refine .create body ⟨hrow.1, hrow.2, hrow.3, hrow.4, hrow.5, hrow.6, rfl⟩
        ⟨hfresh.id_lt, fun r hr => ?_, fun r hr => ?_⟩
      · obtain ⟨r', hr', rfl⟩ := List.mem_map.1 hr
        have := hfresh.key r' hr'
        split <;> exact this
      · obtain ⟨r', hr', rfl⟩ := List.mem_map.1 hr
        have := hfresh.id r' hr'
        split <;> exact this
    | update ruleId body r hr htenant hid now hrow hnull =>
      have hclash : ¬ (tenant = r.tenant ∧ id = r.id) := hw (.updateRule r.tenant r.id body.toRuleUpdate now) (by simp)
      refine .update ruleId body r (List.mem_map.2 ⟨r, hr, ?_⟩) htenant hid now hrow hnull
      exact if_neg fun hc => hclash ⟨hc.1.symm, hc.2.symm⟩
  | _ => exact hu.of_eq rfl (Nat.le_refl _)

theorem Uncommitted.applyAll {ws' : List Write} (hu : Uncommitted db claims row change ws)
    (hw : ∀ w ∈ ws', ∀ w' ∈ ws, ¬ w.Clash w') : Uncommitted (db.applyAll ws') claims row change ws := by
  induction ws' generalizing db with
  | nil => exact hu
  | cons w ws' ih =>
    exact ih (hu.apply fun w' hw' => hw w (by simp) w' hw') fun w'' hw'' => hw w'' (by simp [hw''])

/-- Where a request stands depends on the table only by what it has written and not committed. -/
theorem Stands.of_uncommitted {t : Task Cmd.Answer Exn Response RuleRequest} (h : Stands db t)
    (hu : ∀ row, Uncommitted db t.state.claims row t.state.change t.state.session.pending →
      Uncommitted db' t.state.claims row t.state.change t.state.session.pending) : Stands db' t := by
  obtain ⟨phase, hprog, hq⟩ := h
  refine ⟨phase, hprog, ?_⟩
  cases phase with
  | committing row => exact ⟨hq.1, hu row hq.2.1, hq.2.2⟩
  | _ => exact hq

theorem Uncommitted.id_lt {row' : AlertRule} (hu : Uncommitted db claims row change ws) (h : .insertRule row' ∈ ws) :
    row'.id < db.sequences.rule := by
  cases hu with
  | create body _ hfresh =>
    cases List.mem_singleton.1 h
    exact hfresh.id_lt
  | update => simp at h

/-- A pending INSERT has its id from the sequence. -/
theorem Stands.id_lt {t : Task Cmd.Answer Exn Response RuleRequest} (h : Stands db t) {row : AlertRule}
    (hrow : .insertRule row ∈ t.state.session.pending) : row.id < db.sequences.rule := by
  obtain ⟨phase, -, hq⟩ := h
  have hnone : t.state.session.pending ≠ [] := List.ne_nil_of_mem hrow
  cases phase with
  | committing row' =>
    exact hq.2.1.id_lt hrow
  | begin => exact absurd hq.2.1 hnone
  | tenant => exact absurd hq.2.1 hnone
  | write => exact absurd hq.2.2.1 hnone
  | releasing _ => exact absurd hq.2.1 hnone
  | done _ => exact absurd hq.1 hnone
  | rollingBack _ => exact absurd hq.1 hnone
  | givingUp _ => exact absurd hq.1 hnone
  | failed _ => exact absurd hq.1 hnone

end

theorem Write.Clash.symm {w w' : Write} (h : w.Clash w') : w'.Clash w := by
  cases w <;> cases w' <;> first | exact h.elim | skip
  · exact h.imp Eq.symm fun hk => ⟨hk.1.symm, hk.2.symm⟩
  · exact ⟨h.1.symm, h.2.symm⟩

theorem keeps_rules (w : World) : Keeps (ruleEndpoints w) RulesOk Stands Apart where
  symm q q' h u hu u' hu' hc := h u' hu' u hu hc.symm
  starts db t _ ht := by
    obtain ⟨prog, q⟩ := t
    obtain ⟨hprog, hstatus, hpending, hcommits⟩ := ht
    by_cases hadmin : q.claims.role = .admin
    · exact ⟨.begin, hprog.trans (RuleChange.app_eq w hadmin q.change), hstatus, hpending, hcommits⟩
    · refine ⟨.failed (.http 403 "requires role=admin"), hprog.trans ?_, hpending, hcommits⟩
      cases q.change <;> (show (requireAdmin _ >>= _) = _; rw [requireAdmin, if_neg hadmin]; rfl)
  apart _ t u ht _ := by
    have hnone : t.state.session.pending = [] := ht.2.2.1
    intro w hw
    rw [hnone] at hw
    cases hw
  own db c k q h hs := by
    have hg := hs.goes w.pg h
    exact ⟨hg.ok, hg.stands⟩
  other db c k q u h hs hu hapart hwaits := by
    have heffect := (hs.goes w.pg h).effect
    have hmono : ∀ {db' : Db}, db'.alertRules = db.alertRules → db.sequences.rule ≤ db'.sequences.rule → Stands db' u :=
      fun hrules hseq => hu.of_uncommitted fun _ hun => hun.of_eq hrules hseq
    have hnone : ∀ {q' : RuleRequest}, q'.session.pending = [] → Apart q' u.state := fun hp w hw => by
      rw [hp] at hw
      cases hw
    show Stands (serve w.pg c (db, q)).2.1 u ∧ Apart (serve w.pg c (db, q)).2.2 u.state
    cases heffect with
    | idle rules seq pending _ => exact ⟨hmono rules seq, hnone pending⟩
    | commit rules pending _ =>
      refine ⟨hu.of_uncommitted fun row hun => ?_, hnone pending⟩
      rw [rules]
      exact hun.applyAll hapart
    | insert r hc row rules seq pending _ id tenant ruleType =>
      refine ⟨hmono rules seq, fun v hv v' hv' hclash => ?_⟩
      rw [pending, List.mem_singleton] at hv
      subst hv
      cases v' with
      | insertRule row' =>
        rcases hclash with hid | hkey
        · exact Nat.ne_of_gt (hu.id_lt hv') (id.symm.trans hid)
        · refine hwaits ⟨_, hv', ?_⟩
          rw [hc]
          exact ⟨hkey.1.symm.trans tenant, hkey.2.symm.trans ruleType⟩
      | _ => exact hclash
    | update set ruleId hc r now rules seq pending _ tenant id =>
      refine ⟨hmono rules seq, fun v hv v' hv' hclash => ?_⟩
      rw [pending, List.mem_singleton] at hv
      subst hv
      cases v' with
      | updateRule tenant' id' set' now' =>
        obtain ⟨rfl, rfl⟩ := hclash
        refine hwaits ⟨_, hv', ?_⟩
        rw [hc]
        exact ⟨tenant, id⟩
      | _ => exact hclash

/-! ### Every run -/

theorem AlertRule.Same.trans {r r' r'' : AlertRule} (h : r.Same r') (h' : r'.Same r'') : r.Same r'' :=
  ⟨h'.id.trans h.id, h'.tenant.trans h.tenant, h'.ruleType.trans h.ruleType, h'.createdAt.trans h.createdAt⟩

/-- No write takes a rule away or gives it another name. -/
theorem same_applyAll {db : Db} (ws : List Write) {r : AlertRule} (hr : r ∈ db.alertRules) :
    ∃ r' ∈ (db.applyAll ws).alertRules, r.Same r' := by
  induction ws generalizing db r with
  | nil => exact ⟨r, hr, rfl, rfl, rfl, rfl⟩
  | cons w ws ih =>
    have hw : ∃ r' ∈ (db.apply w).alertRules, r.Same r' := by
      cases w with
      | insertRule row => exact ⟨r, List.mem_append_left _ hr, rfl, rfl, rfl, rfl⟩
      | updateRule tenant id set now =>
        refine ⟨_, List.mem_map.2 ⟨r, hr, rfl⟩, ?_⟩
        split <;> exact ⟨rfl, rfl, rfl, rfl⟩
      | _ => exact ⟨r, hr, rfl, rfl, rfl, rfl⟩
    obtain ⟨r', hr', hsame⟩ := hw
    obtain ⟨r'', hr'', hsame'⟩ := ih hr'
    exact ⟨r'', hr'', hsame.trans hsame'⟩

section
variable {w : World} {m m' : RuleStore}

/-- A step that changes the rules is a COMMIT, and the request that commits has a record of it. -/
theorem step_rules (hm : Coherent RulesOk Stands Apart m) (hs : Step (ruleEndpoints w) m m') :
    m'.shared.alertRules = m.shared.alertRules ∨
      ∃ ws, m'.shared = m.shared.applyAll ws ∧ ∃ i t t', m.tasks i = some t ∧ m'.tasks i = some t' ∧
        t'.state.commits = t.state.commits ++ [⟨m.shared.alertRules, m'.shared.alertRules⟩] := by
  cases hs with
  | start => exact .inl rfl
  | call i c k q hi hgo =>
    cases ((hm.task i _ hi).goes w.pg hm.shared).effect with
    | idle rules => exact .inl rules
    | insert _ _ _ rules => exact .inl rules
    | update _ _ _ _ _ rules => exact .inl rules
    | commit rules _ commits => exact .inr ⟨_, rules, i, _, _, hi, move_self _ _ _ _, commits⟩

theorem reaches_same (hm : Coherent RulesOk Stands Apart m) (hr : Reaches (ruleEndpoints w) m m') {r : AlertRule}
    (hmem : r ∈ m.shared.alertRules) : ∃ r' ∈ m'.shared.alertRules, r.Same r' := by
  induction hr with
  | refl => exact ⟨r, hmem, rfl, rfl, rfl, rfl⟩
  | tail hr hs ih =>
    obtain ⟨r', hr', hsame⟩ := ih
    rcases step_rules (hm.reaches (keeps_rules w) hr) hs with hrules | ⟨ws, hdb, -⟩
    · exact ⟨r', hrules ▸ hr', hsame⟩
    · obtain ⟨r'', hr'', hsame'⟩ := same_applyAll ws hr'
      exact ⟨r'', hdb ▸ hr'', hsame.trans hsame'⟩

theorem Stands.of_ret {db : Db} {resp : Response} {q : RuleRequest} (h : Stands db ⟨.ret resp, q⟩) :
    ∃ row before after, resp = .rule row ∧ q.commits = [⟨before, after⟩] ∧ q.change.Wrote q.claims row before after := by
  obtain ⟨phase, hprog, hq⟩ := h
  cases phase with
  | done row =>
    cases hprog
    obtain ⟨-, before, after, hcommits, hwrote⟩ := hq
    exact ⟨row, before, after, rfl, hcommits, hwrote⟩
  | write =>
    change Prog.ret resp = q.change.write q.claims at hprog
    cases hchange : q.change with
    | create body =>
      rw [hchange] at hprog
      cases hprog
    | update ruleId body =>
      rw [hchange, RuleChange.write] at hprog
      split at hprog <;> cases hprog
  | _ => cases hprog

theorem Stands.of_raise {db : Db} {e : Exn} {q : RuleRequest} (h : Stands db ⟨.raise e, q⟩) : q.commits = [] := by
  obtain ⟨phase, hprog, hq⟩ := h
  cases phase with
  | failed e => exact hq.2
  | write => exact hq.2.2.2
  | _ => cases hprog

end

/-! ### A request alone -/

/-- The record of the request against the rules it started from. -/
structure Recorded (rules : List AlertRule) (db : Db) (q : RuleRequest) : Prop where
  none : q.commits = [] → db.alertRules = rules
  one : ∀ before after, q.commits = [⟨before, after⟩] → before = rules ∧ after = db.alertRules

theorem Recorded.effect {rules : List AlertRule} {db db' : Db} {q q' : RuleRequest} {c : Cmd}
    (h : Recorded rules db q) (he : Effect db q c db' q') : Recorded rules db' q' := by
  have hsame : db'.alertRules = db.alertRules → q'.commits = q.commits → Recorded rules db' q' := fun hrules hcommits =>
    ⟨fun hn => hrules.trans (h.none (hcommits.symm.trans hn)), fun b a ho => by
      rw [hrules]
      exact h.one b a (hcommits.symm.trans ho)⟩
  cases he with
  | idle hrules _ _ hcommits => exact hsame hrules hcommits
  | insert _ _ _ hrules _ _ hcommits => exact hsame hrules hcommits
  | update _ _ _ _ _ hrules _ _ hcommits => exact hsame hrules hcommits
  | commit _ _ hcommits =>
    refine ⟨fun hn => ?_, fun b a ho => ?_⟩
    · rw [hn] at hcommits
      simp at hcommits
    · rw [ho] at hcommits
      have hlen := congrArg List.length hcommits
      rw [List.length_append] at hlen
      have hempty : q.commits = [] := List.length_eq_zero_iff.1 (by simpa using hlen)
      rw [hempty, List.nil_append, List.singleton_inj, RulesCommit.mk.injEq] at hcommits
      exact ⟨hcommits.1.trans (h.none hempty), hcommits.2⟩

theorem run_alone {pg : Pg} {p : App Response} {rules : List AlertRule} {db : Db} {q : RuleRequest} (h : RulesOk db)
    (hs : Stands db ⟨p, q⟩) (hr : Recorded rules db q) :
    wp (handle pg) p
      (fun resp s => RulesOk s.db ∧ ∃ row, resp = .rule row ∧ q.change.Wrote q.claims row rules s.db.alertRules)
      (fun _ s => RulesOk s.db ∧ s.db.alertRules = rules) (q.on db) := by
  induction p generalizing db q with
  | ret resp =>
    obtain ⟨row, before, after, rfl, hcommits, hwrote⟩ := hs.of_ret
    obtain ⟨rfl, rfl⟩ := hr.one before after hcommits
    exact ⟨h, row, rfl, hwrote⟩
  | raise e => exact ⟨h, hr.none hs.of_raise⟩
  | call c k ih =>
    have hg := hs.goes pg h
    have hnext : (serve pg c (db, q)).2.2.on (serve pg c (db, q)).2.1 = (handle pg c (q.on db)).2 := by
      have hothers : (handle pg c (q.on db)).2.others = fun _ => id := handle_others pg c (q.on db)
      show { (handle pg c (q.on db)).2 with db := (handle pg c (q.on db)).2.db, others := fun _ => id } = _
      rw [← hothers]
    have hrun := ih (serve pg c (db, q)).1 hg.ok hg.stands (hr.effect hg.effect)
    rw [hnext] at hrun
    exact hrun

/-- A rule request as one step: it returns the rule that it has written, or it raises and the rules are as they were. -/
theorem run_rule (w : World) (claims : TokenClaims) (change : RuleChange) (conn : Conn) (hidle : conn.status = .idle)
    (ν : Nat → Choice) {db : Db} (h : RulesOk db) :
    Ends (fun resp s => RulesOk s.db ∧ ∃ row, resp = .rule row ∧ change.Wrote claims row db.alertRules s.db.alertRules)
      (fun _ s => RulesOk s.db ∧ s.db.alertRules = db.alertRules)
      (Request.run w ⟨change.call claims, conn, ν⟩ db) := by
  have hstands : Stands db ⟨(change.call claims).app w, ⟨claims, change, { db, conn, nature := ν }, []⟩⟩ :=
    (keeps_rules w).starts db _ h ⟨rfl, hidle, rfl, rfl⟩
  exact run_alone (q := ⟨claims, change, { db, conn, nature := ν }, []⟩) h hstands ⟨fun _ => rfl, fun _ _ hn => nomatch hn⟩

/-! ### Disjoint edits -/

def RuleUpdate.Disjoint (set set' : RuleUpdate) : Prop :=
  ∀ f, set.updates.lookup f = none ∨ set'.updates.lookup f = none

section
variable {claims claims' : TokenClaims} {ruleId : Int} {set set' : RuleUpdate} {row : AlertRule}
    {before after : List AlertRule}

theorem Patched.row_id (h : Patched claims ruleId set row before after) : (row.id : Int) = ruleId := by
  obtain ⟨r, -, -, hid, hsame, -⟩ := h.rule
  rw [hsame.id, hid]

theorem Patched.after_eq (h : Patched claims ruleId set row before after) :
    after = before.map fun r => if (r.id : Int) = ruleId then row else r := by
  rw [h.after]
  refine List.map_congr_left fun r _ => ?_
  simp only [← h.row_id, Int.natCast_inj]

theorem Patched.of_mem_after (h : Patched claims ruleId set row before after) {r : AlertRule} (hr : r ∈ after)
    (hid : (r.id : Int) = ruleId) : r = row := by
  rw [h.after_eq] at hr
  obtain ⟨r', -, rfl⟩ := List.mem_map.1 hr
  split
  · rfl
  · rename_i hne
    rw [if_neg hne] at hid
    exact absurd hid hne

/-- After two edits of the rule `r` it has the fields of both. -/
theorem Patched.twice {row' : AlertRule} {final : List AlertRule} (hids : (before.map (·.id)).Nodup)
    (h : Patched claims ruleId set row before after) (h' : Patched claims' ruleId set' row' after final) :
    final = before.map (fun r => if (r.id : Int) = ruleId then row' else r) ∧
      ∀ r ∈ before, (r.id : Int) = ruleId → r.Same row' ∧
        ∀ f, row'.get f = (set'.updates.lookup f).getD ((set.updates.lookup f).getD (r.get f)) := by
  constructor
  · rw [h'.after_eq, h.after_eq, List.map_map]
    refine List.map_congr_left fun r _ => ?_
    show (if ((if (r.id : Int) = ruleId then row else r).id : Int) = ruleId then row' else _) = _
    by_cases hid : (r.id : Int) = ruleId
    · rw [if_pos hid, if_pos hid, if_pos h.row_id]
    · rw [if_neg hid, if_neg hid]
  · intro r hr hid
    obtain ⟨r₁, hr₁, -, hid₁, hsame, -, hget⟩ := h.rule
    obtain ⟨r₂, hr₂, -, hid₂, hsame', -, hget'⟩ := h'.rule
    obtain rfl : r₂ = row := h.of_mem_after hr₂ hid₂
    obtain rfl : r₁ = r := List.inj_on_of_nodup_map hids hr₁ hr (Int.natCast_inj.1 (hid₁.trans hid.symm))
    exact ⟨hsame.trans hsame', fun f => by rw [hget' f, hget f]⟩

/-- Disjoint edits of one rule end with the same fields in either order. -/
theorem patches_commute {row₁ row₂ row₁' row₂' : AlertRule} {first second final final' : List AlertRule}
    (hids : (before.map (·.id)).Nodup) (hdisjoint : set.Disjoint set')
    (h₁ : Patched claims ruleId set row₁ before first) (h₂ : Patched claims' ruleId set' row₂ first final)
    (h₂' : Patched claims' ruleId set' row₂' before second) (h₁' : Patched claims ruleId set row₁' second final') :
    List.Forall₂ (fun r r' => r.Same r' ∧ ∀ f, r.get f = r'.get f) final final' := by
  obtain ⟨hfinal, hrow⟩ := h₁.twice hids h₂
  obtain ⟨hfinal', hrow'⟩ := h₂'.twice hids h₁'
  rw [hfinal, hfinal', List.forall₂_map_left_iff, List.forall₂_map_right_iff]
  refine List.forall₂_same.2 fun r hr => ?_
  by_cases hid : (r.id : Int) = ruleId
  · rw [if_pos hid, if_pos hid]
    obtain ⟨hsame, hget⟩ := hrow r hr hid
    obtain ⟨hsame', hget'⟩ := hrow' r hr hid
    refine ⟨⟨hsame'.id.trans hsame.id.symm, hsame'.tenant.trans hsame.tenant.symm,
      hsame'.ruleType.trans hsame.ruleType.symm, hsame'.createdAt.trans hsame.createdAt.symm⟩, fun f => ?_⟩
    rw [hget f, hget' f]
    rcases hdisjoint f with hnone | hnone <;> rw [hnone] <;> rfl
  · rw [if_neg hid, if_neg hid]
    exact ⟨⟨rfl, rfl, rfl, rfl⟩, fun _ => rfl⟩

end

/-- In every run of rule requests: the keys hold, a rule keeps its name, only a COMMIT changes the rules, a request that
has returned has committed exactly the change of its body, one that has raised none, and disjoint edits commute. -/
theorem rule_store (w : World) {m₀ m : RuleStore} (hok : RulesOk m₀.shared) (hnone : ∀ i, m₀.tasks i = none)
    (hr : Reaches (ruleEndpoints w) m₀ m) :
    RulesOk m.shared ∧
    (∀ m', Reaches (ruleEndpoints w) m m' → ∀ r ∈ m.shared.alertRules, ∃ r' ∈ m'.shared.alertRules, r.Same r') ∧
    (∀ m', Step (ruleEndpoints w) m m' → m'.shared.alertRules = m.shared.alertRules ∨
      ∃ i t t', m.tasks i = some t ∧ m'.tasks i = some t' ∧
        t'.state.commits = t.state.commits ++ [⟨m.shared.alertRules, m'.shared.alertRules⟩]) ∧
    (∀ i resp q, m.tasks i = some ⟨.ret resp, q⟩ → ∃ row before after, resp = .rule row ∧
      q.commits = [⟨before, after⟩] ∧ q.change.Wrote q.claims row before after) ∧
    (∀ i e q, m.tasks i = some ⟨.raise e, q⟩ → q.commits = []) ∧
    ∀ (before first second final final' : List AlertRule) (claims claims' : TokenClaims) (ruleId : Int)
      (set set' : RuleUpdate) (row₁ row₂ row₁' row₂' : AlertRule), (before.map (·.id)).Nodup → set.Disjoint set' →
      Patched claims ruleId set row₁ before first → Patched claims' ruleId set' row₂ first final →
      Patched claims' ruleId set' row₂' before second → Patched claims ruleId set row₁' second final' →
      List.Forall₂ (fun r r' => r.Same r' ∧ ∀ f, r.get f = r'.get f) final final' := by
  have hstart : Coherent RulesOk Stands Apart m₀ := by
    refine ⟨hok, fun i t hi => ?_, fun i j t u _ hi => ?_⟩ <;>
    · rw [hnone i] at hi
      cases hi
  have hm := hstart.reaches (keeps_rules w) hr
  refine ⟨hm.shared, fun m' hr' r hmem => reaches_same hm hr' hmem, fun m' hs => ?_,
    fun i resp q hi => (hm.task i _ hi).of_ret, fun i e q hi => (hm.task i _ hi).of_raise, ?_⟩
  · rcases step_rules hm hs with hrules | ⟨-, -, hcommit⟩
    · exact .inl hrules
    · exact .inr hcommit
  · intro _ _ _ _ _ _ _ _ _ _ _ _ _ _ hids hdisjoint h₁ h₂ h₂' h₁'
    exact patches_commute hids hdisjoint h₁ h₂ h₂' h₁'

def RuleStore.empty : RuleStore := ⟨{}, fun _ => none⟩

/-- A POST of an admin of `demoA`. -/
def RuleStore.post : Task Cmd.Answer Exn Response RuleRequest :=
  let request : RuleRequest := {
    claims := ⟨str "admin_a", .admin, str "demoA"⟩
    change := .create .standard
    session := { db := {}, conn := { autocommit := false }, nature := fun _ => {} } }
  ⟨(request.change.call request.claims).app .sample, request⟩

/-- Two of them, after `n` turns: the second comes when the first has written its row, and again when it has committed. -/
def RuleStore.posts (n : Nat) : RuleStore :=
  ([0, 0, 0, 1, 1, 1, 0, 0, 1, 1, 1].take n).foldl (Ensemble.turn (ruleEndpoints .sample) 2)
    ((RuleStore.empty.move 0 {} post).move 1 {} post)

theorem RuleStore.reaches_posts (n : Nat) :
    Reaches (ruleEndpoints .sample) RuleStore.empty (RuleStore.posts n) :=
  have hstarts : (ruleEndpoints .sample).Starts RuleStore.post := ⟨rfl, rfl, rfl, rfl⟩
  reaches_two _ hstarts hstarts _

/-- The INSERT of the second POST waits for the first. That returns its rule, and the second commits nothing. -/
theorem rule_store_posts : Waiting (ruleEndpoints .sample) (RuleStore.posts 5) 1 0 ∧
    ∃ row q e q', (RuleStore.posts 11).tasks 0 = some ⟨.ret (.rule row), q⟩ ∧
      (RuleStore.posts 11).tasks 1 = some ⟨.raise e, q'⟩ ∧
      q.commits = [⟨[], [row]⟩] ∧ q'.commits = [] := by
  have hempty : RulesOk RuleStore.empty.shared := ⟨List.nodup_nil, List.nodup_nil, fun _ h => nomatch h⟩
  obtain ⟨-, -, -, hret, hraise, -⟩ := rule_store .sample hempty (fun _ => rfl)
    (RuleStore.reaches_posts 11)
  have hfirst : ∃ resp q, (RuleStore.posts 11).tasks 0 = some ⟨.ret resp, q⟩ ∧
      q.commits.map (·.before) = [[]] ∧ q.change = .create .standard := ⟨_, _, rfl, rfl, rfl⟩
  have hsecond : ∃ e q, (RuleStore.posts 11).tasks 1 = some ⟨.raise e, q⟩ := ⟨_, _, rfl⟩
  obtain ⟨resp, q, hi, hbefore, hchange⟩ := hfirst
  obtain ⟨e, q', hi'⟩ := hsecond
  obtain ⟨row, before, after, rfl, hcommits, hwrote⟩ := hret 0 _ _ hi
  rw [hchange] at hwrote
  rw [hcommits] at hbefore
  cases hbefore
  refine ⟨⟨_, _, _, _, rfl, rfl, _, List.mem_singleton_self _, rfl, rfl⟩, row, q, e, q', hi, hi', ?_, hraise 1 e q' hi'⟩
  rw [hcommits, hwrote.after]
  rfl

end LogMgmt
