import LogMgmt.Requests
import LogMgmt.Lib.Atomic

/-!
# Requests as if alone

Each program but the engine reads the tables with one statement: BEGIN, COMMIT, ROLLBACK and `set_config` are answered
the same whatever is in them. So a request that runs among others returns or raises what it would have at one moment of
its run, with nobody else there, and commits the same change (`requests_atomic`).
-/

namespace LogMgmt
open Prog Interleave

/-- The answer does not depend on the tables. -/
def Cmd.blind : Cmd → Bool
  | sql (.setTenant _) => true
  | sql _ => false
  | _ => true

/-- The request without the rows that its session has last seen. -/
def Running.core (q : Running) : Running := { q with session := q.on {} }

section
variable {pg : Pg} {q q' : Running}

/-- The rows have no part in what a blind command answers and does with its session. -/
theorem handle_blind (pg : Pg) {c : Cmd} (h : c.blind = true) (s : Session) (db d : Db) :
    (handle pg c { s with db }).1 = (handle pg c s).1 ∧
      { (handle pg c { s with db }).2 with db := d } = { (handle pg c s).2 with db := d } := by
  cases c with
  | begin => cases hf : (s.nature 0).fault <;> simp [handle, Session.interfere, Session.doBegin, Session.answered, hf]
  | commit =>
    cases hs : s.conn.status <;> cases hf : (s.nature 0).fault <;>
      simp [handle, Session.interfere, Session.doCommit, Session.answered, hs, hf]
  | rollback => exact ⟨rfl, rfl⟩
  | sendWebhook url payload =>
    cases ha : (s.nature 0).accepted <;>
      simp [handle, Session.interfere, Session.doSendWebhook, Session.answered, ha]
    rfl
  | sql stmt =>
    cases stmt with
    | setTenant tenant =>
      cases hf : (s.nature 0).fault <;> by_cases hs : s.conn.status = .failed <;> cases ht : textOk tenant <;>
        by_cases hauto : s.conn.status = .idle ∧ s.conn.autocommit <;>
          simp [handle, Session.interfere, Session.doSql, Session.answered, Session.takeId, Session.record, Stmt.exec,
            hf, hs, ht, hauto]
      rfl
    | _ => cases h

theorem Running.parts (h : q.core = q'.core) : q.call = q'.call ∧ q.written = q'.written := by
  have hcall : q.core.call = q'.core.call := by rw [h]
  have hwritten : q.core.written = q'.core.written := by rw [h]
  exact ⟨hcall, hwritten⟩

theorem Running.on_congr (h : q.core = q'.core) (db : Db) : q.on db = q'.on db := by
  show q.core.on db = q'.core.on db
  rw [h]

theorem carry_congr (pg : Pg) (h : q.core = q'.core) (c : Cmd) (db : Db) :
    (carry pg c (db, q)).1 = (carry pg c (db, q')).1 ∧ (carry pg c (db, q)).2 = (carry pg c (db, q')).2 := by
  obtain ⟨hcall, hwritten⟩ := Running.parts h
  unfold carry
  simp only [Running.on_congr h, hcall, hwritten, and_self]

theorem commits_blind {c : Cmd} (h : c.blind = true) (s : Session) (db : Db) :
    Session.commits pg { s with db } c = s.commits pg c := by
  cases c with
  | sql stmt =>
    cases stmt with
    | setTenant tenant => rfl
    | _ => cases h
  | _ => rfl

theorem carry_blind {c : Cmd} (h : c.blind = true) (db db' : Db) (q : Running) :
    (carry pg c (db, q)).1 = (carry pg c (db', q)).1 ∧ (carry pg c (db, q)).2.2.core = (carry pg c (db', q)).2.2.core := by
  obtain ⟨hr, hs⟩ := handle_blind pg h (q.on db') db {}
  refine ⟨hr, ?_⟩
  have hwritten : (q.on db).commits pg c = (q.on db').commits pg c := commits_blind h (q.on db') db
  have hsession : { (handle pg c (q.on db)).2 with db := {}, others := fun _ => id } =
      { (handle pg c (q.on db')).2 with db := {}, others := fun _ => id } :=
    congrArg (fun s : Session => { s with others := fun _ => id }) hs
  show (⟨q.call, _, q.written ++ _⟩ : Running) = ⟨q.call, _, q.written ++ _⟩
  rw [hwritten]
  exact congrArg (fun s => (⟨q.call, s, _⟩ : Running)) hsession

/-- Of a session that has written nothing a blind command leaves the rows as they are. -/
theorem carry_fresh {c : Cmd} (h : c.blind = true) (db : Db) (hq : q.session.pending = []) :
    (carry pg c (db, q)).2.1 = db ∧ (carry pg c (db, q)).2.2.session.pending = [] := by
  suffices hs : ∀ s : Session, s.others 0 = id → s.pending = [] →
      (handle pg c s).2.db = s.db ∧ (handle pg c s).2.pending = [] from hs (q.on db) rfl hq
  intro s ho hs
  have hi : s.interfere = s := by simp [Session.interfere, ho]
  have hview : s.view = s.db := by simp [Session.view, hs, Db.applyAll]
  cases c with
  | begin =>
    show (s.interfere.doBegin).2.db = _ ∧ (s.interfere.doBegin).2.pending = _
    rw [hi]
    unfold Session.doBegin
    split_ifs
    · exact ⟨rfl, hs⟩
    · exact ⟨rfl, rfl⟩
  | commit =>
    show (s.interfere.doCommit).2.db = _ ∧ (s.interfere.doCommit).2.pending = _
    rw [hi]
    unfold Session.doCommit
    split_ifs
    · exact ⟨rfl, hs⟩
    · exact ⟨rfl, rfl⟩
    · exact ⟨rfl, rfl⟩
    · exact ⟨hview, rfl⟩
  | rollback =>
    show s.interfere.db = _ ∧ _
    rw [hi]
    exact ⟨rfl, rfl⟩
  | sendWebhook url payload =>
    show (s.interfere.doSendWebhook url payload).2.db = _ ∧ (s.interfere.doSendWebhook url payload).2.pending = _
    rw [hi]
    unfold Session.doSendWebhook
    dsimp only
    split_ifs <;> exact ⟨rfl, hs⟩
  | sql stmt =>
    cases stmt with
    | setTenant tenant =>
      show (s.interfere.doSql pg _).2.db = _ ∧ (s.interfere.doSql pg _).2.pending = _
      rw [hi]
      unfold Session.doSql
      by_cases ht : textOk tenant
      · rw [show Stmt.exec pg s.ctx s.view (.setTenant tenant) = .ok ((), []) from if_pos ht]
        split_ifs
        · exact ⟨rfl, hs⟩
        · exact ⟨rfl, hs⟩
        · exact ⟨rfl, hs⟩
        · exact ⟨rfl, (List.append_nil _).trans hs⟩
      · rw [show Stmt.exec pg s.ctx s.view (.setTenant tenant) = .error .invalidText from if_neg ht]
        split_ifs <;> exact ⟨rfl, hs⟩
    | _ => cases h

end

/-! ### One look for each call -/

section
variable {β : Type}

/-- A program that has to look at the tables once at most. -/
abbrev App.Once {α : Type} (p : App α) : Prop := LooksOnce Cmd.blind p false

theorem once_exec {c : Cmd} {looked : Bool} (h : looked = true → c.blind = true) : LooksOnce Cmd.blind (exec c) looked := by
  refine ⟨h, fun r => ?_⟩
  cases r <;> trivial

theorem once_exec_bind {c : Cmd} {f : c.Resp → App β} {looked : Bool} (h : looked = true → c.blind = true)
    (hf : ∀ r, LooksOnce Cmd.blind (f r) (looked || !c.blind)) : LooksOnce Cmd.blind (exec c >>= f) looked := by
  refine ⟨h, fun r => ?_⟩
  cases r with
  | ok r => exact hf r
  | error e => trivial

theorem once_withConn {α : Type} {p : App α} {looked : Bool} (hp : LooksOnce Cmd.blind p looked) :
    LooksOnce Cmd.blind (withConn p) looked := by
  refine LooksOnce.bind (LooksOnce.tryCatch hp fun e looked => ?_) fun a looked => ?_
  · exact ⟨fun _ => rfl, fun _ => trivial⟩
  · exact once_exec_bind (fun _ => rfl) fun _ => trivial

theorem once_transaction {α : Type} {p : App α} (hp : p.Once) : (transaction p).Once :=
  once_exec_bind (fun _ => rfl) fun _ => once_withConn hp

theorem once_tenantConn {α : Type} {claims : TokenClaims} {body : App α} (hbody : body.Once) : (tenantConn claims body).Once :=
  once_withConn (once_transaction (once_exec_bind (fun _ => rfl) fun _ => hbody))

theorem once_requireAdmin {α : Type} {claims : TokenClaims} {p : App α} (hp : p.Once) :
    (requireAdmin claims >>= fun _ => p).Once := by
  unfold requireAdmin
  split
  · exact hp
  · trivial

/-- A statement whose answer is only passed on. -/
theorem once_sql {stmt : Stmt} {f : stmt.Resp → App β} (hf : ∀ r, LooksOnce Cmd.blind (f r) (!(Cmd.sql stmt).blind)) :
    App.Once (sql stmt >>= f) :=
  once_exec_bind (fun h => nomatch h) hf

theorem once_writeEvent (e : NormalizedEvent) : (writeEvent e).Once :=
  once_transaction (once_exec_bind (fun _ => rfl) fun _ => once_exec fun h => nomatch h)

end

theorem Call.once (w : World) (call : Call) : (call.app w).Once := by
  cases call with
  | login username password =>
    refine once_withConn (once_sql fun row => ?_)
    split <;> trivial
  | ingest body now claims =>
    refine once_requireAdmin (once_withConn ?_)
    split
    · exact LooksOnce.bind (once_writeEvent _) fun _ _ => trivial
    · trivial
  | writeEvent e => exact LooksOnce.bind (once_writeEvent e) fun _ _ => trivial
  | search req claims => exact once_tenantConn (once_sql fun _ => trivial)
  | top req claims => exact once_tenantConn (once_sql fun _ => trivial)
  | timeline req claims => exact once_tenantConn (once_sql fun _ => trivial)
  | listAlertRules claims => exact once_tenantConn (once_sql fun _ => trivial)
  | createAlertRule body claims =>
    refine once_requireAdmin (once_tenantConn (LooksOnce.bind (LooksOnce.tryCatch ?_ fun e _ => ?_) fun _ _ => trivial))
    · exact once_exec fun h => nomatch h
    · split <;> trivial
  | updateAlertRule ruleId body claims =>
    refine once_requireAdmin (once_tenantConn ?_)
    split
    · trivial
    · refine once_sql fun found => ?_
      cases found <;> trivial
  | listAlerts req claims => exact once_tenantConn (once_sql fun _ => trivial)
  | health => exact LooksOnce.tryCatch (once_withConn (once_sql fun _ => trivial)) fun _ _ => trivial
  | createUser username passwordHash role tenant => exact once_sql fun _ => trivial

theorem looks_programs (w : World) : Looks (programs w) Cmd.blind Running.core (·.session.pending = []) where
  starts := by
    rintro t ⟨r, rfl, -⟩
    exact ⟨rfl, Call.once w r.call⟩
  congr c db q q' h := by
    obtain ⟨hr, hrest⟩ := carry_congr w.pg h c db
    exact ⟨hr, congrArg Prod.fst hrest, congrArg (fun x : Db × Running => x.2.core) hrest⟩
  unseen c db db' q h := carry_blind h db db' q
  unchanged c db q h hq := carry_fresh h db hq

/-! ### Alone -/

/-- With nobody else there a request runs on one session, and the rows change by what it has committed. -/
theorem run_carry {α : Type} (pg : Pg) (p : App α) (db : Db) (q : Running) :
    (p.run (carry pg) (db, q)).1 = (p.run (handle pg) (q.on db)).1 ∧ (p.run (carry pg) (db, q)).2.2.call = q.call ∧
      ∃ ws, (p.run (carry pg) (db, q)).2.2.written = q.written ++ ws ∧
        (p.run (handle pg) (q.on db)).2.db.rows = (db.applyAll ws).rows := by
  induction p generalizing db q with
  | ret a => exact ⟨rfl, rfl, [], (List.append_nil _).symm, rfl⟩
  | raise e => exact ⟨rfl, rfl, [], (List.append_nil _).symm, rfl⟩
  | call c k ih =>
    have hon : (carry pg c (db, q)).2.2.on (carry pg c (db, q)).2.1 = (handle pg c (q.on db)).2 := by
      have ho : (handle pg c (q.on db)).2.others = fun _ => id := handle_others pg c (q.on db)
      show { (handle pg c (q.on db)).2 with others := fun _ => id } = _
      rw [← ho]
    obtain ⟨hresult, hcall, ws, hwritten, hrows⟩ := ih (carry pg c (db, q)).1 (carry pg c (db, q)).2.1 (carry pg c (db, q)).2.2
    rw [hon] at hresult hrows
    refine ⟨hresult, hcall, (q.on db).commits pg c ++ ws, hwritten.trans (List.append_assoc _ _ _), hrows.trans ?_⟩
    have hstep : (carry pg c (db, q)).2.1.rows = (db.applyAll ((q.on db).commits pg c)).rows :=
      rows_handle pg c (s := q.on db) fun _ => rfl
    refine (Db.rows_applyAll_congr hstep ws).trans ?_
    rw [Db.applyAll, Db.applyAll, Db.applyAll, List.foldl_append]

/-- In every interleaving a request that has ended has returned or raised what it would have if it had run alone at one
moment between its start and its end, and has committed the same change. -/
theorem requests_atomic (w : World) {m₀ m : Traffic} (hnone : ∀ i, m₀.tasks i = none) (hr : Reaches (programs w) m₀ m)
    {i : Nat} {x : Except Exn Response} {q : Running} (hi : m.tasks i = some ⟨.ofExcept x, q⟩) :
    ∃ (r : Request) (m' : Traffic), r.call = q.call ∧ Moment (programs w) m₀ m i ⟨r.call.app w, r.running⟩ m' ∧
      (r.run w m'.shared).1 = x ∧ (r.commits w m'.shared).rows = (m'.shared.applyAll q.written).rows := by
  obtain ⟨t, m', db, hmoment, hsame⟩ := (looks_programs w).exists_moment hnone hr hi
  obtain ⟨r, rfl, -⟩ := hmoment.starts
  obtain ⟨hresult, hcall, ws, hwritten, hrows⟩ := run_carry w.pg (r.call.app w) m'.shared r.running
  rw [run_ofExcept] at hsame
  obtain ⟨hx, hcore⟩ := hsame
  obtain ⟨hcall', hwritten'⟩ := Running.parts hcore
  have hws : q.written = ws := hwritten'.symm.trans (hwritten.trans (List.nil_append ws))
  exact ⟨r, m', hcall.symm.trans hcall', hmoment, hresult.symm.trans hx, hws ▸ hrows⟩

/-- The second of two POSTs has waited for the first, and is refused as it would be alone at one moment. -/
theorem requests_atomic_posts : Waiting (programs .sample) (Traffic.posts 5) 1 0 ∧
    ∃ e q, (Traffic.posts 11).tasks 1 = some ⟨.ofExcept (.error e), q⟩ ∧
      ∃ (r : Request) (m' : Traffic),
        Moment (programs .sample) Traffic.empty (Traffic.posts 11) 1 ⟨r.call.app .sample, r.running⟩ m' ∧
          (r.run .sample m'.shared).1 = .error e := by
  have hsecond : ∃ e q, (Traffic.posts 11).tasks 1 = some ⟨.ofExcept (.error e), q⟩ := ⟨_, _, rfl⟩
  obtain ⟨e, q, hi⟩ := hsecond
  obtain ⟨r, m', -, hmoment, hresult, -⟩ := requests_atomic .sample (fun _ => rfl) (Traffic.reaches_posts 11) hi
  exact ⟨Traffic.waiting_posts, e, q, hi, r, m', hmoment, hresult⟩

end LogMgmt
