import LogMgmt.Authority
import LogMgmt.Noninterference

/-!
# Tenants and each other's errors

One tick of the alert engine evaluates every tenant that owns an enabled rule exactly once, whatever goes wrong in
the evaluations (`tenants_isolated`): each leaves the connection at rest, and none reads what the earlier ones left
of `app.tenant` at session level.
-/

namespace LogMgmt
open Prog

/-! ### A fresh connection -/

theorem Stmt.exec_untenanted {pg : Pg} {ctx ctx' : Ctx} {db : Db} {stmt : Stmt} (hnow : ctx.now = ctx'.now)
    (horder : ctx.order = ctx'.order) (htenant : stmt.tenantTable → ctx.tenant = ctx'.tenant) :
    stmt.exec pg ctx db = stmt.exec pg ctx' db := by
  obtain ⟨now, tenant, order⟩ := ctx
  obtain ⟨now', tenant', order'⟩ := ctx'
  cases hnow
  cases horder
  cases h : stmt.tenantTable with
  | true =>
    obtain rfl : tenant = tenant' := htenant h
    rfl
  | false => cases stmt <;> first | rfl | cases h

/-- The same session on another connection, which differs at most in `app.tenant` at session level. -/
structure Session.Like (s s' : Session) : Prop where
  conn : s.conn.Like s'.conn
  db : s.db = s'.db
  startedAt : s.startedAt = s'.startedAt
  pending : s.pending = s'.pending
  nature : s.nature = s'.nature
  others : s.others = s'.others
  log : s.log = s'.log

theorem Conn.Like.next {a b : Conn} (h : a.Like b) (c : Cmd) (r : c.Answer) : (a.next c r).Like (b.next c r) := by
  cases c with
  | begin =>
    cases r with
    | ok _ => exact ⟨h.autocommit, rfl, h.localTenant⟩
    | error _ => exact h
  | commit => exact h.endTx
  | rollback => exact h.endTx
  | sendWebhook url payload => exact h
  | sql stmt =>
    cases r with
    | error e => cases stmt <;> exact h.fail
    | ok r =>
      cases stmt with
      | setTenant t => exact h.setTenant t
      | _ => exact h.ran

section
variable {pg : Pg} {s s' : Session} {α : Type} {tenant : Str}

namespace Session.Like

theorem interfere (h : s.Like s') : s.interfere.Like s'.interfere :=
  ⟨h.conn, by simp only [Session.interfere, h.db, h.others], h.startedAt, h.pending, h.nature, h.others, h.log⟩

theorem answered (h : s.Like s') (c : Cmd) (r : c.Answer) : (s.answered c r).Like (s'.answered c r) :=
  ⟨h.conn.next c r, h.db, h.startedAt, h.pending, by simp only [Session.answered, h.nature],
    by simp only [Session.answered, h.others], h.log⟩

theorem ended (h : s.Like s') (c : Cmd) (r : c.Answer) {db db' : Db} (hdb : db = db') (committed : Bool) :
    ({ s.answered c r with db, pending := [], log := s.log.endTx committed } : Session).Like
      { s'.answered c r with db := db', pending := [], log := s'.log.endTx committed } :=
  have ha := h.answered c r
  ⟨ha.conn, hdb, ha.startedAt, rfl, ha.nature, ha.others, by simp only [h.log]⟩

theorem now (h : s.Like s') : s.now = s'.now := by
  unfold Session.now
  rw [h.conn.status, h.nature, h.startedAt]

theorem view (h : s.Like s') : s.view = s'.view := by
  unfold Session.view
  rw [h.db, h.pending]

theorem command (pg : Pg) {c : Cmd} (h : s.Like s') (hc : TenantSet (some tenant) s.conn c)
    (hc' : TenantSet (some tenant) s'.conn c) :
    (handle pg c s).1 = (handle pg c s').1 ∧ (handle pg c s).2.Like (handle pg c s').2 := by
  have hi := h.interfere
  cases c with
  | begin =>
    show s.interfere.doBegin.1 = s'.interfere.doBegin.1 ∧ s.interfere.doBegin.2.Like s'.interfere.doBegin.2
    unfold Session.doBegin
    rw [← hi.nature]
    split
    · exact ⟨rfl, hi.answered _ _⟩
    · have ha := hi.ended .begin (.ok ()) hi.db false
      exact ⟨rfl, ha.conn, ha.db, rfl, rfl, ha.nature, ha.others, ha.log⟩
  | commit =>
    show s.interfere.doCommit.1 = s'.interfere.doCommit.1 ∧ s.interfere.doCommit.2.Like s'.interfere.doCommit.2
    unfold Session.doCommit
    rw [← hi.nature, ← hi.conn.status]
    split
    · exact ⟨rfl, hi.answered _ _⟩
    split
    · exact ⟨rfl, hi.ended _ _ hi.db _⟩
    split
    · exact ⟨rfl, hi.ended _ _ hi.db _⟩
    · exact ⟨rfl, hi.ended _ _ hi.view _⟩
  | rollback =>
    show s.interfere.doRollback.1 = s'.interfere.doRollback.1 ∧ s.interfere.doRollback.2.Like s'.interfere.doRollback.2
    unfold Session.doRollback
    rw [← hi.nature, ← hi.conn.status]
    exact ⟨rfl, hi.ended _ _ hi.db _⟩
  | sendWebhook url payload =>
    show (s.interfere.doSendWebhook url payload).1 = (s'.interfere.doSendWebhook url payload).1 ∧
      (s.interfere.doSendWebhook url payload).2.Like (s'.interfere.doSendWebhook url payload).2
    unfold Session.doSendWebhook
    rw [← hi.nature, ← hi.now, ← hi.log]
    have ha := hi.answered (.sendWebhook url payload) (.ok (s.interfere.nature 0).accepted)
    dsimp only
    split
    · exact ⟨rfl, ha.conn, ha.db, ha.startedAt, ha.pending, ha.nature, ha.others, rfl⟩
    · exact ⟨rfl, ha⟩
  | sql stmt =>
    have hx : stmt.exec pg s.interfere.ctx s.interfere.view = stmt.exec pg s'.interfere.ctx s'.interfere.view := by
      rw [hi.view]
      refine Stmt.exec_untenanted hi.now (by rw [Session.ctx, Session.ctx, hi.nature]) fun htable => ?_
      obtain ⟨t, ht, htenant⟩ := hc htable
      obtain ⟨t', ht', htenant'⟩ := hc' htable
      exact htenant.trans ((ht.symm.trans ht').trans htenant'.symm)
    have htake : (s.interfere.takeId stmt).Like (s'.interfere.takeId stmt) :=
      ⟨hi.conn, by simp only [Session.takeId, hi.db], hi.startedAt, hi.pending, hi.nature, hi.others, hi.log⟩
    show (s.interfere.doSql pg stmt).1 = (s'.interfere.doSql pg stmt).1 ∧
      (s.interfere.doSql pg stmt).2.Like (s'.interfere.doSql pg stmt).2
    unfold Session.doSql
    rw [← hi.nature, ← hi.conn.status, ← hi.conn.autocommit, ← hx]
    split
    · exact ⟨rfl, hi.answered _ _⟩
    split
    · exact ⟨rfl, hi.answered _ _⟩
    split
    · exact ⟨rfl, htake.answered _ _⟩
    · rename_i r ws _
      have ha := htake.answered (.sql stmt) (.ok r)
      have hrecord : s.interfere.record stmt r = s'.interfere.record stmt r := by
        cases stmt <;> simp only [Session.record, hi.log, hi.now]
      dsimp only
      split
      · exact ⟨rfl, ha.conn, by simp only [ha.db], ha.startedAt, ha.pending, ha.nature, ha.others, hrecord⟩
      · exact ⟨rfl, ha.conn, ha.db, hi.now, by simp only [hi.pending], ha.nature, ha.others, hrecord⟩

/-- A program that runs its statements under the tenant's setting does the same on either connection. -/
theorem run (pg : Pg) {p : App α} (h : s.Like s') (hp : App.Sets (some tenant) p s.conn)
    (hp' : App.Sets (some tenant) p s'.conn) :
    (p.run (handle pg) s).1 = (p.run (handle pg) s').1 ∧ (p.run (handle pg) s).2.Like (p.run (handle pg) s').2 := by
  induction p generalizing s s' with
  | ret a => exact ⟨rfl, h⟩
  | raise e => exact ⟨rfl, h⟩
  | call c k ih =>
    obtain ⟨hanswer, hlike⟩ := h.command pg hp.1 hp'.1
    have hk := hp.2 (handle pg c s).1
    have hk' := hp'.2 (handle pg c s').1
    rw [← handle_conn] at hk hk'
    rw [← hanswer] at hk'
    have hrun := ih _ hlike hk hk'
    rw [Prog.run, Prog.run, ← hanswer]
    exact hrun

end Session.Like

end

/-! ### One tick -/

/-- A session of the engine between two transactions. -/
structure Session.Ready (s : Session) : Prop where
  rest : s.conn.Resting
  owner : s.Owner
  ids : ∀ a ∈ s.db.alerts, a.id < s.db.sequences.alert

/-- The session after the tenants have had their turn. -/
def Session.turns (pg : Pg) (url : Option Str) (s : Session) (tenants : List Str) : Session :=
  ((tenants.forM (tryEvaluateTenant url)).run (handle pg) s).2

section
variable {pg : Pg} {s : Session} {tenant : Str} {tenants : List Str}

theorem Session.Owner.run {α : Type} (p : App α) (h : s.Owner) : (p.run (handle pg) s).2.Owner :=
  run_always (fun c s hs => hs.shift (handle_others pg c s)) p h

theorem Session.Ready.evaluate (pg : Pg) (url : Option Str) (tenant : Str) (h : s.Ready) :
    ((tryEvaluateTenant url tenant).run (handle pg) s).1 = .ok () ∧
      ((tryEvaluateTenant url tenant).run (handle pg) s).2.Ready := by
  obtain ⟨hok, hrest⟩ := run_tryEvaluateTenant_resting pg url tenant h.rest
  exact ⟨hok, hrest, h.owner.run _, (run_tryEvaluateTenant pg url tenant h.owner h.ids).ids h.ids⟩

theorem Session.Ready.turns_cons (pg : Pg) (url : Option Str) (h : s.Ready) :
    s.turns pg url (tenant :: tenants) =
      Session.turns pg url ((tryEvaluateTenant url tenant).run (handle pg) s).2 tenants := by
  have hok := (h.evaluate pg url tenant).1
  show (run (handle pg) (tryEvaluateTenant url tenant >>= fun _ => tenants.forM (tryEvaluateTenant url)) s).2 = _
  rw [run_bind]
  rcases hrun : (tryEvaluateTenant url tenant).run (handle pg) s with ⟨_ | ⟨⟨⟩⟩, s'⟩ <;> rw [hrun] at hok
  · cases hok
  · rfl

/-- No evaluation stops the tick, and none touches the alerts of other tenants. -/
theorem Session.Ready.forM (pg : Pg) (url : Option Str) (h : s.Ready) (tenants : List Str) :
    ((tenants.forM (tryEvaluateTenant url)).run (handle pg) s).1 = .ok () ∧ (s.turns pg url tenants).Ready ∧
      ∀ t ∉ tenants, (s.turns pg url tenants).db.alerts.filter (·.tenant = t) = s.db.alerts.filter (·.tenant = t) := by
  induction tenants generalizing s with
  | nil => exact ⟨rfl, h, fun _ _ => rfl⟩
  | cons tenant tenants ih =>
    obtain ⟨hok, hready⟩ := h.evaluate pg url tenant
    obtain ⟨hok', hready', hkeep⟩ := ih hready
    rw [h.turns_cons pg url]
    refine ⟨?_, hready', fun t ht => ?_⟩
    · show (run (handle pg) (tryEvaluateTenant url tenant >>= fun _ => tenants.forM (tryEvaluateTenant url)) s).1 = _
      rw [run_bind]
      rcases hrun : (tryEvaluateTenant url tenant).run (handle pg) s with ⟨_ | ⟨⟨⟩⟩, s'⟩ <;> rw [hrun] at hok hok'
      · cases hok
      · exact hok'
    · obtain ⟨news, halerts, hnews, -⟩ := (run_tryEvaluateTenant pg url tenant h.owner h.ids).alerts
      obtain ⟨hne, hnotin⟩ := not_or.1 (mt List.mem_cons.2 ht)
      have hnone : news.filter (fun a => a.tenant = t) = [] := by
        refine List.filter_eq_nil_iff.2 fun a ha => ?_
        rw [(hnews a ha).1, decide_eq_true_eq]
        exact fun heq => hne heq.symm
      rw [hkeep t hnotin, halerts, List.filter_append, hnone, List.append_nil]

theorem Session.Ready.turns_append (pg : Pg) (url : Option Str) (h : s.Ready) (done rest : List Str) :
    s.turns pg url (done ++ rest) = (s.turns pg url done).turns pg url rest := by
  induction done generalizing s with
  | nil => rfl
  | cons t done ih => rw [List.cons_append, h.turns_cons pg url, h.turns_cons pg url, ih (h.evaluate pg url t).2]

/-- The turn of one tenant among others, seen in the alerts that the tenant has at the end. -/
theorem Session.Ready.turn (pg : Pg) (url : Option Str) (h : s.Ready) {done rest : List Str} {t : Str}
    (hdone : t ∉ done) (hrest : t ∉ rest) :
    let turn := s.turns pg url done
    let final := s.turns pg url (done ++ t :: rest)
    let alone := (evaluateTenant url t).run (handle pg) { turn with conn := { autocommit := true } }
    (((evaluateTenant url t).run (handle pg) turn).1 ≠ .ok () →
      final.db.alerts.filter (·.tenant = t) = s.db.alerts.filter (·.tenant = t)) ∧
    (((evaluateTenant url t).run (handle pg) turn).1 = .ok () → alone.1 = .ok () ∧
      final.db.alerts.filter (·.tenant = t) = alone.2.db.alerts.filter (·.tenant = t)) := by
  intro turn final alone
  obtain ⟨-, hturn, hbefore⟩ := h.forM pg url done
  obtain ⟨-, hready⟩ := hturn.evaluate pg url t
  have hfinal : final = ((tryEvaluateTenant url t).run (handle pg) turn).2.turns pg url rest := by
    show s.turns pg url (done ++ t :: rest) = _
    rw [h.turns_append pg url, hturn.turns_cons pg url]
  have hafter := (hready.forM pg url rest).2.2 t hrest
  rw [← hfinal] at hafter
  refine ⟨fun hraises => ?_, fun hok => ?_⟩
  · have hcommits : Commits pg url t turn = false := by
      unfold Commits
      rcases hrun : (evaluateTenant url t).run (handle pg) turn with ⟨_ | ⟨⟨⟩⟩, s'⟩
      · rfl
      · exact absurd (by rw [hrun]) hraises
    obtain ⟨news, halerts, -, -, hnone⟩ := (run_tryEvaluateTenant pg url t hturn.owner hturn.ids).alerts
    rw [hafter, halerts, hnone hcommits, List.append_nil]
    exact hbefore t hdone
  · have hlike : turn.Like { turn with conn := { autocommit := true } } :=
      ⟨hturn.rest.like ⟨rfl, rfl, rfl⟩, rfl, rfl, rfl, rfl, rfl, rfl⟩
    obtain ⟨hanswer, hsame⟩ := hlike.run pg (sets_evaluateTenant url t _) (sets_evaluateTenant url t _)
    have htry : ((tryEvaluateTenant url t).run (handle pg) turn).2 =
        ((evaluateTenant url t).run (handle pg) turn).2 := by
      unfold tryEvaluateTenant
      rw [run_tryCatch]
      rcases hrun : (evaluateTenant url t).run (handle pg) turn with ⟨_ | ⟨⟨⟩⟩, s'⟩
      · rw [hrun] at hok
        cases hok
      · rfl
    refine ⟨hanswer.symm.trans hok, ?_⟩
    rw [hafter, htry, hsame.db]

end

/-! ### Reachable states -/

/-- Requests and `create_user`, with event writes of other programs and ticks of the engine in between. -/
inductive Reached (w : World) (jwt : Jwt) (url : Option Str) : Gateway → Prop
  | init : Reached w jwt url {}
  | step {g g' : Gateway} (h : Reached w jwt url g) (hs : g.Step w jwt g') : Reached w jwt url g'
  | write {g : Gateway} (h : Reached w jwt url g) (e : NormalizedEvent) (conn : Conn) (nature : Nat → Choice) :
    Reached w jwt url { g with db := Request.commits w g.db ⟨.writeEvent e, conn, nature⟩ }
  | tick {g : Gateway} (h : Reached w jwt url g) (conn : Conn) (hconn : conn.Resting) (nature : Nat → Choice) :
    Reached w jwt url { g with db := ((runOnce url).run (handle w.pg) { db := g.db, conn, nature }).2.db }

/-- Every rule belongs to the tenant of a user. -/
structure Gateway.Sound (jwt : Jwt) (g : Gateway) : Prop where
  texts : g.db.UserTexts
  genuine : ∀ i ∈ g.issued, i.Genuine jwt
  users : ∀ i ∈ g.issued, i.users ⊆ g.db.users
  owned : ∀ r ∈ g.db.alertRules, ∃ u ∈ g.db.users, u.tenant = r.tenant
  ids : ∀ a ∈ g.db.alerts, a.id < g.db.sequences.alert

/-- The statement does not write the table `alert_rules`. -/
def Stmt.sparesRules : Stmt → Bool
  | insertRule _ | updateRule _ _ => false
  | _ => true

section
variable {w : World} {jwt : Jwt} {url : Option Str} {g g' : Gateway}

/-- Users are never removed, and few programs write rules. -/
theorem kept_rule_owners (pg : Pg) (users : List User) (rules : List AlertRule) :
    Kept pg (fun _ stmt => stmt.sparesRules) (fun db => users ⊆ db.users ∧ db.alertRules = rules)
      (fun w => ∀ db : Db, (db.apply w).alertRules = db.alertRules) where
  apply db w hdb hw := by
    refine ⟨?_, (hw db).trans hdb.2⟩
    cases w with
    | insertUser row => exact fun u hu => List.mem_append_left _ (hdb.1 hu)
    | _ => exact hdb.1
  nextval _ _ _ _ hdb := hdb
  writes stmt ctx db r ws hok _ hx w hw db' := by
    cases Stmt.exec_writes hx with
    | none => cases hw
    | insertRule => cases hok
    | updateRule => cases hok
    | _ =>
      rw [List.mem_singleton.1 hw]
      rfl

/-- A step that leaves the rules and the alerts, and removes no user. -/
theorem Gateway.Sound.grow (h : g.Sound jwt) {db : Db} (htexts : db.UserTexts) (husers : g.db.users ⊆ db.users)
    (hrules : db.alertRules = g.db.alertRules) (hids : ∀ a ∈ db.alerts, a.id < db.sequences.alert) :
    ({ g with db } : Gateway).Sound jwt where
  texts := htexts
  genuine := h.genuine
  users i hi _ hu := husers (h.users i hi hu)
  owned r hr := by
    obtain ⟨u, hu, htenant⟩ := h.owned r (hrules ▸ hr)
    exact ⟨u, husers hu, htenant⟩
  ids := hids

theorem Gateway.Sound.commits (h : g.Sound jwt) (w : World) {r : Request}
    (hr : ∀ stmt, r.call.Writes stmt → stmt.sparesRules) :
    ({ g with db := r.commits w g.db } : Gateway).Sound jwt := by
  have hkept := (kept_rule_owners w.pg g.db.users g.db.alertRules).commits (r := r) ((r.call.sends w).imp fun _ c hc => by
    cases c with
    | sql stmt =>
      rcases hc with hc | hc
      · cases stmt <;> first | rfl | cases hc
      · exact hr stmt hc
    | _ => trivial) ⟨List.Subset.refl _, rfl⟩
  obtain ⟨halerts, hnext⟩ := commits_alerts w [r] g.db
  refine h.grow (h.texts.commits w r) hkept.1 hkept.2 fun a ha => ?_
  have ha' : a ∈ g.db.alerts := halerts ▸ ha
  exact (h.ids a ha').trans_eq hnext.symm

theorem Gateway.Sound.http (hjwt : jwt.Lawful) (h : g.Sound jwt) (w : World) {r : HttpRequest} (hr : g.Unforged jwt r) :
    (g.http w jwt r).2.Sound jwt := by
  have husers : (g.http w jwt r).2.db.users = g.db.users := by
    rcases Gateway.http_authorized w hjwt h.genuine hr with hdb | ⟨claims, -, hchanged⟩
    · rw [hdb]
    · exact hchanged.users
  refine ⟨(Gateway.Step.http g r hr).userTexts h.texts, (Gateway.Step.http g r hr).genuine h.texts h.genuine,
    fun i hi u hu => ?_, fun rule hrule => ?_, ?_⟩
  · rw [husers]
    cases Gateway.http_cases w jwt g r with
    | answered _ hg => exact h.users i (hg ▸ hi) hu
    | called c _ _ hissued =>
      rcases hissued with hissued | ⟨claims, -, hissued⟩ <;> rw [hissued] at hi
      · exact h.users i hi hu
      · rcases List.mem_append.1 hi with hi | hi
        · exact h.users i hi hu
        · rw [List.mem_singleton.1 hi] at hu
          exact hu
  · rw [husers]
    rcases Gateway.http_authorized w hjwt h.genuine hr with hdb | ⟨claims, hauth, hchanged⟩
    · exact h.owned rule (hdb ▸ hrule)
    · by_cases hown : rule.tenant = claims.tenant
      · obtain ⟨i, hi, -, -, u, hu, -, -, htenant⟩ := hauth.issued
        exact ⟨u, h.users i hi hu, htenant.trans hown.symm⟩
      · have hmem : rule ∈ (g.http w jwt r).2.db.alertRules.filter (·.tenant ≠ claims.tenant) :=
          List.mem_filter.2 ⟨hrule, by simpa using hown⟩
        rw [hchanged.rules] at hmem
        exact h.owned rule (List.mem_of_mem_filter hmem)
  · cases Gateway.http_cases w jwt g r with
    | answered _ hg =>
      rw [hg]
      exact h.ids
    | called c _ hdb _ =>
      obtain ⟨halerts, hnext⟩ := commits_alerts w [r.on c] g.db
      rw [hdb]
      intro a ha
      have ha' : a ∈ g.db.alerts := halerts ▸ ha
      exact (h.ids a ha').trans_eq hnext.symm

theorem Session.Ready.discover (pg : Pg) {s : Session} (h : s.Ready) :
    ((sql .discoverTenants).run (handle pg) s).2.Ready ∧
      ((sql .discoverTenants).run (handle pg) s).2.db = s.interfere.db := by
  have hdb := (System.discover_quiet pg s).1
  refine ⟨⟨discover_resting pg h.rest, h.owner.run _, fun a ha => ?_⟩, hdb⟩
  rw [hdb] at ha ⊢
  rw [h.owner.interfere_alerts] at ha
  rw [h.owner.interfere_alert]
  exact h.ids a ha

theorem Session.Ready.runOnce (pg : Pg) (url : Option Str) {s : Session} (h : s.Ready) :
    ((runOnce url).run (handle pg) s).2.Ready := by
  have hdiscover := (h.discover pg).1
  unfold LogMgmt.runOnce
  rw [run_bind]
  rcases hrun : (sql .discoverTenants).run (handle pg) s with ⟨_ | tenants, s'⟩ <;> rw [hrun] at hdiscover
  · exact hdiscover
  · exact (hdiscover.forM pg url tenants).2.1

theorem issues_runOnce (url : Option Str) : Issues (Cmd.Only fun stmt => stmt.sparesRules) (runOnce url) := by
  refine Issues.bind (issues_exec rfl) fun tenants => Safe.forM (fun t _ _ _ => ?_) trivial
  refine (sends_tryEvaluateTenant url t).imp fun _ c hc => ?_
  cases c with
  | sql stmt => rcases hc with hc | hc <;> cases stmt <;> first | rfl | cases hc
  | _ => trivial

theorem Gateway.Sound.step (hjwt : jwt.Lawful) (h : g.Sound jwt) (hs : g.Step w jwt g') : g'.Sound jwt := by
  cases hs with
  | http r hr => exact h.http hjwt w hr
  | createUser username passwordHash role tenant conn nature =>
    refine h.commits w (r := ⟨.createUser username passwordHash role tenant, conn, nature⟩) fun stmt hstmt => ?_
    cases stmt <;> first | rfl | cases hstmt

theorem Reached.sound (hjwt : jwt.Lawful) (h : Reached w jwt url g) : g.Sound jwt := by
  induction h with
  | init => exact ⟨nofun, nofun, nofun, nofun, nofun⟩
  | step _ hs ih => exact ih.step hjwt hs
  | write _ e conn nature ih =>
    refine ih.commits w (r := ⟨.writeEvent e, conn, nature⟩) fun stmt hstmt => ?_
    cases stmt <;> first | rfl | cases hstmt
  | @tick g _ conn hconn nature ih =>
    let s : Session := { db := g.db, conn, nature }
    have halone : s.Alone := fun _ => rfl
    have hready : s.Ready := ⟨hconn, fun _ _ => ⟨rfl, rfl⟩, ih.ids⟩
    have hkept := ((kept_rule_owners w.pg g.db.users g.db.alertRules).run (issues_runOnce url)
      (halone.holds rfl ⟨List.Subset.refl _, rfl⟩)).db
    have htexts := ((kept_userTexts w.pg).run ((issues_runOnce url).imp fun _ c _ => by cases c <;> trivial)
      (halone.holds rfl ih.texts)).db
    exact ih.grow htexts hkept.1 hkept.2 (hready.runOnce w.pg url).ids

/-- A tick of the engine that begins in `g`; `between n` commits before command `n + 1`. -/
def Gateway.session (w : World) (g : Gateway) (conn : Conn) (nature : Nat → Choice) (between : Nat → List Request) :
    Session where
  db := g.db
  conn
  nature
  others
    | 0, db => db
    | n + 1, db => (between n).foldl (Request.commits w) db

theorem Gateway.Sound.ready (h : g.Sound jwt) (w : World) {conn : Conn} (hconn : conn.Resting) (nature : Nat → Choice)
    (between : Nat → List Request) : (g.session w conn nature between).Ready where
  rest := hconn
  owner
    | 0, _ => ⟨rfl, rfl⟩
    | n + 1, db => commits_alerts w (between n) db
  ids := h.ids

/-- `DISCOVER_TENANTS_SQL` answers every user's tenant once. -/
theorem discover_answer (pg : Pg) {s : Session} (hrest : s.conn.Resting) (hfault : (s.nature 0).fault = false) :
    ((sql .discoverTenants).run (handle pg) s).1 =
      .ok ((s.nature 0).order.arrange (fun _ => 0) (s.interfere.view.users.map (·.tenant)).dedup) := by
  unfold sql
  rw [run_exec]
  have hstatus : s.interfere.conn.status ≠ .failed := by
    rw [Session.interfere_conn, hrest.status]
    exact nofun
  simp only [handle, Session.doSql, Session.interfere_nature, hfault, if_neg hstatus, Stmt.exec]
  rfl

end

/-- One `run_once` that can ask for the tenants evaluates every tenant that owns an enabled rule exactly once. An
evaluation that raises leaves the tenant's alerts as they were; one that does not leaves those that it leaves on a
fresh connection at that moment. -/
theorem tenants_isolated (w : World) (jwt : Jwt) (hjwt : jwt.Lawful) (url : Option Str) (g : Gateway)
    (hg : Reached w jwt url g) (conn : Conn) (hconn : conn.Resting) (nature : Nat → Choice)
    (hnature : (nature 0).fault = false) (between : Nat → List Request) :
    ∃ tenants s, (sql .discoverTenants).run (handle w.pg) (g.session w conn nature between) = (.ok tenants, s) ∧
      (runOnce url).run (handle w.pg) (g.session w conn nature between) = (.ok (), s.turns w.pg url tenants) ∧
      tenants.Nodup ∧ (∀ r ∈ g.db.alertRules, r.enabled → r.tenant ∈ tenants) ∧
      ∀ done t rest, tenants = done ++ t :: rest →
        let turn := s.turns w.pg url done
        let final := s.turns w.pg url tenants
        let alone := (evaluateTenant url t).run (handle w.pg) { turn with conn := { autocommit := true } }
        (((evaluateTenant url t).run (handle w.pg) turn).1 ≠ .ok () →
          final.db.alerts.filter (·.tenant = t) = g.db.alerts.filter (·.tenant = t)) ∧
        (((evaluateTenant url t).run (handle w.pg) turn).1 = .ok () → alone.1 = .ok () ∧
          final.db.alerts.filter (·.tenant = t) = alone.2.db.alerts.filter (·.tenant = t)) := by
  have hsound := hg.sound hjwt
  have hready := hsound.ready w hconn nature between
  obtain ⟨hturns, hdb⟩ := hready.discover w.pg
  have hanswer := discover_answer w.pg hready.rest hnature
  rcases hrun : (sql .discoverTenants).run (handle w.pg) (g.session w conn nature between) with ⟨_ | tenants, s⟩ <;>
    rw [hrun] at hturns hdb hanswer
  · cases hanswer
  rw [Except.ok.injEq] at hanswer
  have hnodup : tenants.Nodup := by
    rw [hanswer, (RowOrder.arrange_perm _ _ _).nodup_iff]
    exact List.nodup_dedup _
  refine ⟨tenants, s, rfl, ?_, hnodup, fun r hr _ => ?_, ?_⟩
  · unfold runOnce
    rw [run_bind, hrun]
    exact Prod.ext (hturns.forM w.pg url tenants).1 rfl
  · obtain ⟨u, hu, htenant⟩ := hsound.owned r hr
    rw [hanswer, RowOrder.mem_arrange, List.mem_dedup, ← htenant]
    exact List.mem_map_of_mem hu
  · rintro done t rest rfl
    have hdisjoint := List.nodup_append.1 hnodup
    have hdone : t ∉ done := fun hmem => hdisjoint.2.2 t hmem t (by simp) rfl
    have hrest : t ∉ rest := (List.nodup_cons.1 hdisjoint.2.1).1
    have hturn := hturns.turn w.pg url hdone hrest
    rw [show s.db = g.db from hdb] at hturn
    exact hturn

/-- An admin logs in and creates a rule; the next tick evaluates the tenant. -/
theorem tenants_isolated_sample : ∃ (g : Gateway) (tenants : List Str) (s : Session),
    g.db.alertRules.map (·.tenant) = [str "A"] ∧ str "A" ∈ tenants ∧
    (runOnce none).run (handle World.sample.pg)
      (g.session World.sample { autocommit := true } (fun _ => {}) fun _ => []) =
      (.ok (), s.turns World.sample.pg none tenants) := by
  let nature : Nat → Choice := fun _ => {}
  let request (endpoint : Endpoint) (credentials : Option Str) : HttpRequest :=
    { endpoint, credentials, now := ⟨0, some 0⟩, nature }
  let g₀ : Gateway :=
    { db := Request.commits World.sample {}
        ⟨.createUser (str "a") (str "p") .admin (str "A"), { autocommit := true }, nature⟩ }
  let g₁ := (g₀.http World.sample Jwt.sample (request (.login (str "a") (str "p")) none)).2
  let g := (g₁.http World.sample Jwt.sample (request (.secured (.createAlertRule {})) (some (str "t")))).2
  have hissued : ∃ i ∈ g₁.issued, i.token = str "t" := ⟨⟨str "t", _, _⟩, List.mem_singleton.2 rfl, rfl⟩
  have hg₁ : Reached World.sample Jwt.sample none g₁ :=
    (Reached.init.step (.createUser {} (str "a") (str "p") .admin (str "A") { autocommit := true } nature)).step
      (.http g₀ _ fun _ h => by cases h)
  have hg : Reached World.sample Jwt.sample none g := hg₁.step (.http g₁ _ fun _ h _ => by cases h; exact hissued)
  have hrules : g.db.alertRules.map (·.tenant) = [str "A"] := by decide
  obtain ⟨tenants, s, -, hrun, -, hmem, -⟩ := tenants_isolated World.sample Jwt.sample Jwt.sample_lawful none g hg
    { autocommit := true } ⟨rfl, rfl, rfl⟩ nature rfl fun _ => []
  have hrule : ∃ r ∈ g.db.alertRules, r.enabled ∧ r.tenant = str "A" := by decide
  obtain ⟨r, hr, henabled, htenant⟩ := hrule
  exact ⟨g, tenants, s, hrules, htenant ▸ hmem r hr henabled, hrun⟩

end LogMgmt
