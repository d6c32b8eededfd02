import LogMgmt.RuleStore
import LogMgmt.Noninterference
import LogMgmt.Authority

/-!
# Requests in any interleaving

Any number of requests of any kind, each on a connection of its own, their commands in any order: together they
are a history of single row changes. A request that has returned has made the one change of its endpoint, one
that has raised none, and no change is lost, made twice or made halfway (`requests_serialized`). `Tx` is what a
request may still do; that every program keeps to it does not depend on the database.
-/

namespace LogMgmt
open Prog Interleave

/-! ### What a request is to change -/

/-- The one statement of a call that writes a row, if it has one. -/
def Call.change (w : World) : Call → Option Stmt
  | ingest body now claims => (ingested w.py body now claims).toOption.map .insertEvent
  | writeEvent e => some (.insertEvent e)
  | createAlertRule body claims => some (.insertRule {
      tenant := claims.tenant
      ruleType := .failedLoginBurst
      threshold := body.threshold
      windowSeconds := body.windowSeconds
      cooldownSeconds := body.cooldownSeconds
      enabled := body.enabled })
  | updateAlertRule ruleId body _ => some (.updateRule body.toRuleUpdate ruleId)
  | createUser username passwordHash role tenant => some (.insertUser username passwordHash role tenant)
  | _ => none

/-- The programs of operators and collectors connect with `autocommit`, the pool of the API without. -/
def Call.autocommit : Call → Bool
  | writeEvent _ | createUser _ _ _ _ => true
  | _ => false

/-! ### The run of one request -/

structure Running where
  call : Call
  session : Session
  /-- a record of the changes that the request has committed, which no program reads -/
  written : List Write := []

/-- A request before its first command. -/
def Request.running (r : Request) : Running where
  call := r.call
  session := { db := {}, conn := r.conn, nature := r.nature }

/-- What a command of the session commits. -/
def Session.commits (pg : Pg) (s : Session) : Cmd → List Write
  | .commit => if s.conn.status = .inTx ∧ (s.nature 0).fault = false then s.pending else []
  | .sql stmt =>
    if s.conn.status = .idle ∧ s.conn.autocommit ∧ (s.nature 0).fault = false then
      match stmt.exec pg s.ctx s.view with
      | .ok (_, ws) => ws
      | .error _ => []
    else []
  | _ => []

/-- The session of the request on the rows that are committed now. -/
def Running.on (q : Running) (db : Db) : Session := { q.session with db, others := fun _ => id }

/-- A command of a request, on the rows that are committed by then. -/
def carry (pg : Pg) : Prog.Handler Cmd.Answer (Db × Running) := fun c (db, q) =>
  ((handle pg c (q.on db)).1, (handle pg c (q.on db)).2.db,
    { q with session := (handle pg c (q.on db)).2, written := q.written ++ (q.on db).commits pg c })

/-- Every program but the engine, on the database. -/
def programs (w : World) : Rules Cmd.Answer Exn Response Db Running where
  handle := carry w.pg
  Starts t := ∃ r : Request, t = ⟨r.call.app w, r.running⟩ ∧ r.conn.status = .idle ∧ r.conn.autocommit = r.call.autocommit
  Waits s c u := ∃ write ∈ u.session.pending, write.blocks s.session.conn c

instance (w : World) (s u : Running) (c : Cmd) : Decidable ((programs w).Waits s c u) :=
  inferInstanceAs (Decidable (∃ write ∈ u.session.pending, write.blocks s.session.conn c))

abbrev Traffic := Ensemble Cmd.Answer Exn Response Db Running

/-! ### The tables and what is committed -/

/-- The tables, without the sequences. -/
def Db.rows (db : Db) : List User × List AlertRule × List Alert × List EventRow :=
  (db.users, db.alertRules, db.alerts, db.events)

namespace Db

theorem rows_apply_congr {db db' : Db} (h : db.rows = db'.rows) (w : Write) : (db.apply w).rows = (db'.apply w).rows := by
  simp only [rows, Prod.mk.injEq] at h ⊢
  obtain ⟨husers, hrules, halerts, hevents⟩ := h
  cases w <;> simp [apply, husers, hrules, halerts, hevents]

theorem rows_applyAll_congr {db db' : Db} (h : db.rows = db'.rows) (ws : List Write) :
    (db.applyAll ws).rows = (db'.applyAll ws).rows := by
  induction ws generalizing db db' with
  | nil => exact h
  | cons w ws ih => exact ih (rows_apply_congr h w)

end Db

/-- A command changes the tables by what it commits. -/
theorem rows_handle (pg : Pg) (c : Cmd) {s : Session} (h : s.Alone) :
    (handle pg c s).2.db.rows = (s.db.applyAll (s.commits pg c)).rows := by
  have hi := h.interfere
  cases c with
  | begin =>
    show (s.interfere.doBegin).2.db.rows = _
    rw [hi]
    unfold Session.doBegin
    split <;> rfl
  | commit =>
    show (s.interfere.doCommit).2.db.rows = _
    rw [hi]
    unfold Session.doCommit Session.commits
    cases hs : s.conn.status <;> cases hf : (s.nature 0).fault <;> rfl
  | rollback =>
    show (s.interfere.doRollback).2.db.rows = _
    rw [hi]
    rfl
  | sendWebhook url payload =>
    show (s.interfere.doSendWebhook url payload).2.db.rows = _
    rw [hi]
    unfold Session.doSendWebhook
    dsimp only
    split <;> rfl
  | sql stmt =>
    have htake : (s.takeId stmt).db.rows = s.db.rows := rfl
    show (s.interfere.doSql pg stmt).2.db.rows = _
    rw [hi]
    unfold Session.doSql Session.commits
    cases hf : (s.nature 0).fault with
    | true =>
      simp only [↓reduceIte, Bool.true_eq_false, and_false]
      rfl
    | false =>
      simp only [Bool.false_eq_true, ↓reduceIte, and_true]
      by_cases hfailed : s.conn.status = .failed
      · rw [if_pos hfailed, if_neg fun hc => by cases hfailed.symm.trans hc.1]
        rfl
      · rw [if_neg hfailed]
        by_cases hauto : s.conn.status = .idle ∧ s.conn.autocommit
        · rw [if_pos hauto]
          cases hx : stmt.exec pg s.ctx s.view with
          | error e => exact htake
          | ok rw' =>
            simp only [if_pos hauto]
            exact Db.rows_applyAll_congr htake rw'.2
        · rw [if_neg hauto]
          cases hx : stmt.exec pg s.ctx s.view with
          | error e => exact htake
          | ok rw' =>
            simp only [if_neg hauto]
            exact htake

/-! ### How far a request has come -/

/-- The statement is there to write a row. -/
def Stmt.changes : Stmt → Bool
  | insertUser _ _ _ _ | insertEvent _ | insertRule _ | updateRule _ _ | insertAlert _ | markWebhookSent _ => true
  | _ => false

/-- The statement answers `r` and writes `ws`, on some rows at some time. -/
def Stmt.Made (pg : Pg) (stmt : Stmt) (r : stmt.Resp) (ws : List Write) : Prop :=
  ∃ ctx db, stmt.exec pg ctx db = .ok (r, ws)

inductive Tx where
  | start (autocommit : Bool)
  | reading
  | wrote (stmt : Stmt) (r : stmt.Resp)
  | kept (stmt : Stmt) (r : stmt.Resp)
  /-- Nothing was changed, and nothing will be. -/
  | closed
  /-- after an answer that the server cannot give -/
  | impossible

namespace Tx

/-- What an answer makes of it. -/
def next : Tx → (c : Cmd) → c.Answer → Tx
  | start _, .begin, .ok _ => reading
  | start autocommit, .sql stmt, .ok r =>
    if autocommit then if stmt.changes then kept stmt r else start true
    else if stmt.changes then wrote stmt r else reading
  | reading, .sql stmt, .ok r => if stmt.changes then wrote stmt r else reading
  | wrote stmt r, .commit, .ok _ => kept stmt r
  | kept stmt r, .commit, .ok _ => kept stmt r
  | kept _ _, .commit, .error _ => impossible
  | impossible, _, _ => impossible
  | _, _, _ => closed

/-- After the one change a request only ends its transactions. -/
def ok : Tx → Cmd → Prop
  | start _, .begin | start _, .sql _ | start _, .commit | start _, .rollback => True
  | reading, .sql _ | reading, .commit | reading, .rollback => True
  | wrote _ _, .commit | wrote _ _, .rollback => True
  | kept _ _, .commit => True
  | closed, .commit | closed, .rollback => True
  | impossible, _ => True
  | _, _ => False

/-- The connection of the request, what it has written and what it has committed. -/
def Holds (pg : Pg) (q : Running) : Tx → Prop
  | start autocommit => q.session.conn.status = .idle ∧ q.session.conn.autocommit = autocommit ∧
      q.session.pending = [] ∧ q.written = []
  | reading => q.session.conn.status = .inTx ∧ q.session.pending = [] ∧ q.written = []
  | wrote stmt r => q.session.conn.status = .inTx ∧ stmt.Made pg r q.session.pending ∧ q.written = []
  | kept stmt r => q.session.conn.status = .idle ∧ q.session.pending = [] ∧ stmt.Made pg r q.written
  | closed => q.session.pending = [] ∧ q.written = []
  | impossible => False

end Tx

theorem Stmt.Made.nil {pg : Pg} {stmt : Stmt} {r : stmt.Resp} {ws : List Write} (h : stmt.Made pg r ws)
    (hs : stmt.changes = false) : ws = [] := by
  obtain ⟨ctx, db, hx⟩ := h
  cases Stmt.exec_writes hx with
  | none => rfl
  | _ => cases hs

section
variable {pg : Pg} {s : Session} {q : Running}

/-- A statement raises and changes nothing, or it writes: for good if it is a transaction of its own. -/
theorem handle_sql_open (pg : Pg) (stmt : Stmt) (h : s.conn.status ≠ .failed) (halone : s.Alone) :
    (∃ e, (handle pg (.sql stmt) s).1 = .error e ∧ (handle pg (.sql stmt) s).2.pending = s.pending ∧
      s.commits pg (.sql stmt) = []) ∨
    ∃ r ws, (handle pg (.sql stmt) s).1 = .ok r ∧ stmt.Made pg r ws ∧
      if s.conn.status = .idle ∧ s.conn.autocommit then
        (handle pg (.sql stmt) s).2.pending = s.pending ∧ s.commits pg (.sql stmt) = ws
      else (handle pg (.sql stmt) s).2.pending = s.pending ++ ws ∧ s.commits pg (.sql stmt) = [] := by
  have hhandle : handle pg (.sql stmt) s = s.doSql pg stmt := congrArg (Session.doSql pg stmt) halone.interfere
  rw [hhandle]
  unfold Session.doSql Session.commits
  cases hf : (s.nature 0).fault with
  | true => exact .inl ⟨_, rfl, rfl, if_neg fun hc => nomatch hc.2.2⟩
  | false =>
    rw [if_neg Bool.false_ne_true, if_neg h]
    cases hx : stmt.exec pg s.ctx s.view with
    | error e =>
      refine .inl ⟨_, rfl, rfl, ?_⟩
      dsimp only
      rw [hx]
      exact ite_self []
    | ok rw' =>
      refine .inr ⟨rw'.1, rw'.2, rfl, ⟨_, _, hx⟩, ?_⟩
      dsimp only
      rw [hx]
      by_cases hauto : s.conn.status = .idle ∧ s.conn.autocommit
      · rw [if_pos hauto, if_pos hauto, if_pos ⟨hauto.1, hauto.2, rfl⟩]
        exact ⟨rfl, rfl⟩
      · rw [if_neg hauto, if_neg hauto, if_neg fun hc => hauto ⟨hc.1, hc.2.1⟩]
        exact ⟨rfl, rfl⟩

/-- The connection after a statement that has returned is in a transaction, unless it is `autocommit` and idle. -/
theorem Conn.status_sql (conn : Conn) (stmt : Stmt) (r : stmt.Resp) :
    (conn.next (.sql stmt) (.ok r)).status = if conn.status = .idle ∧ conn.autocommit then .idle else .inTx := by
  have hran : conn.ran.status = if conn.status = .idle ∧ conn.autocommit then .idle else .inTx := by
    unfold Conn.ran
    split_ifs with hauto
    · exact hauto.1
    · rfl
  cases stmt with
  | setTenant tenant =>
    show (conn.setTenant tenant).status = _
    unfold Conn.setTenant
    split_ifs <;> rfl
  | _ => exact hran

/-- A statement on a connection of which nothing is written yet. -/
theorem holds_sql {stmt : Stmt} (db : Db) (h : q.session.conn.status ≠ .failed) (hpending : q.session.pending = [])
    (hwritten : q.written = []) :
    (∃ e, (carry pg (.sql stmt) (db, q)).1 = .error e ∧ Tx.closed.Holds pg (carry pg (.sql stmt) (db, q)).2.2) ∨
    ∃ r, (carry pg (.sql stmt) (db, q)).1 = .ok r ∧
      if q.session.conn.status = .idle ∧ q.session.conn.autocommit then
        (carry pg (.sql stmt) (db, q)).2.2.session.conn.status = .idle ∧
          (carry pg (.sql stmt) (db, q)).2.2.session.pending = [] ∧ stmt.Made pg r (carry pg (.sql stmt) (db, q)).2.2.written
      else (Tx.wrote stmt r).Holds pg (carry pg (.sql stmt) (db, q)).2.2 := by
  have hconn : (carry pg (.sql stmt) (db, q)).2.2.session.conn =
    q.session.conn.next (.sql stmt) (carry pg (.sql stmt) (db, q)).1 := handle_conn pg (.sql stmt) (q.on db)
  have hcarry : (carry pg (.sql stmt) (db, q)).2.2.written = (q.on db).commits pg (.sql stmt) := by
    show q.written ++ _ = _
    rw [hwritten, List.nil_append]
  rcases handle_sql_open pg (s := q.on db) stmt h fun _ => rfl with ⟨e, he, hnone, hcommits⟩ | ⟨r, ws, hr, hmade, hws⟩
  · exact .inl ⟨e, he, hnone.trans hpending, hcarry.trans hcommits⟩
  · refine .inr ⟨r, hr, ?_⟩
    have hstatus := Conn.status_sql q.session.conn stmt r
    rw [show (carry pg (.sql stmt) (db, q)).1 = .ok r from hr] at hconn
    rw [← hconn] at hstatus
    have hon : (q.on db).conn = q.session.conn := rfl
    rw [hon] at hws
    split_ifs at hws hstatus ⊢ with hauto
    · exact ⟨hstatus, hws.1.trans hpending, by rw [hcarry, hws.2]; exact hmade⟩
    · refine ⟨hstatus, ?_, hcarry.trans hws.2⟩
      rw [show (carry pg (.sql stmt) (db, q)).2.2.session.pending = ws from hws.1.trans (by
        rw [show (q.on db).pending = [] from hpending, List.nil_append])]
      exact hmade

theorem holds_begin (db : Db) (hpending : q.session.pending = []) (hwritten : q.written = []) :
    (∃ e, (carry pg .begin (db, q)).1 = .error e ∧ Tx.closed.Holds pg (carry pg .begin (db, q)).2.2) ∨
    (carry pg .begin (db, q)).1 = .ok () ∧ Tx.reading.Holds pg (carry pg .begin (db, q)).2.2 := by
  have hnone : (carry pg .begin (db, q)).2.2.written = [] := (List.append_nil _).trans hwritten
  cases hf : (q.session.nature 0).fault with
  | true =>
    have hh := Session.handle_begin_fault (s := q.on db) pg hf
    refine .inl ⟨_, congrArg Prod.fst hh, ?_, hnone⟩
    show (handle pg .begin (q.on db)).2.pending = []
    rw [hh]
    exact hpending
  | false =>
    have hh := Session.handle_begin (s := q.on db) pg hf
    refine .inr ⟨congrArg Prod.fst hh, ?_, ?_, hnone⟩ <;>
    · show _ = _
      simp only [carry, hh]
      rfl

theorem holds_rollback (db : Db) (hwritten : q.written = []) : Tx.closed.Holds pg (carry pg .rollback (db, q)).2.2 :=
  ⟨rfl, (List.append_nil _).trans hwritten⟩

/-- A COMMIT of nothing. -/
theorem holds_commit_nil (pg : Pg) (db : Db) (hpending : q.session.pending = []) :
    (carry pg .commit (db, q)).2.2.session.pending = [] ∧ (carry pg .commit (db, q)).2.2.written = q.written := by
  constructor
  · show ((q.on db).doCommit).2.pending = []
    unfold Session.doCommit
    split_ifs <;> first | exact hpending | rfl
  · show q.written ++ (if _ then q.session.pending else []) = _
    rw [hpending, ite_self, List.append_nil]

/-- A COMMIT keeps what was written, or it raises and nothing is kept. -/
theorem holds_commit {stmt : Stmt} {r : stmt.Resp} (db : Db) (h : (Tx.wrote stmt r).Holds pg q) :
    (∃ e, (carry pg .commit (db, q)).1 = .error e ∧ Tx.closed.Holds pg (carry pg .commit (db, q)).2.2) ∨
    (carry pg .commit (db, q)).1 = .ok () ∧ (Tx.kept stmt r).Holds pg (carry pg .commit (db, q)).2.2 := by
  obtain ⟨hstatus, hmade, hwritten⟩ := h
  cases hf : (q.session.nature 0).fault with
  | true =>
    have hh := Session.handle_commit_fault (s := q.on db) pg hf hstatus
    refine .inl ⟨_, congrArg Prod.fst hh, ?_, ?_⟩
    · show (handle pg .commit (q.on db)).2.pending = []
      rw [hh]
    · show q.written ++ (if q.session.conn.status = .inTx ∧ (q.session.nature 0).fault = false then _ else []) = []
      rw [if_neg fun hc => Bool.false_ne_true (hc.2.symm.trans hf), List.append_nil]
      exact hwritten
  | false =>
    have hh := Session.handle_commit (s := q.on db) pg hf hstatus
    have hkept : (carry pg .commit (db, q)).2.2.written = q.session.pending := by
      show q.written ++ (if q.session.conn.status = .inTx ∧ (q.session.nature 0).fault = false then _ else []) = _
      rw [if_pos ⟨hstatus, hf⟩, hwritten]
      rfl
    refine .inr ⟨congrArg Prod.fst hh, ?_, ?_, hkept ▸ hmade⟩
    · show (handle pg .commit (q.on db)).2.conn.status = _
      rw [hh]
      rfl
    · show (handle pg .commit (q.on db)).2.pending = _
      rw [hh]
      rfl

/-- The COMMIT that `withConn` issues after that of an inner transaction has nothing to do. -/
theorem holds_commit_again {stmt : Stmt} {r : stmt.Resp} (db : Db) (h : (Tx.kept stmt r).Holds pg q) :
    (carry pg .commit (db, q)).1 = .ok () ∧ (Tx.kept stmt r).Holds pg (carry pg .commit (db, q)).2.2 := by
  obtain ⟨hstatus, hpending, hmade⟩ := h
  obtain ⟨hpending', hwritten⟩ := holds_commit_nil pg db hpending
  have hh : handle pg .commit (q.on db) = (.ok (), (q.on db).answered .commit (.ok ())) := if_pos hstatus
  refine ⟨congrArg Prod.fst hh, ?_, hpending', hwritten ▸ hmade⟩
  show (handle pg .commit (q.on db)).2.conn.status = _
  rw [hh]
  rfl

/-- A statement that is not there to write has written nothing. -/
theorem Tx.Holds.ran {stmt : Stmt} {r : stmt.Resp} (h : (wrote stmt r).Holds pg q) :
    (if stmt.changes then wrote stmt r else reading).Holds pg q := by
  split_ifs with hs
  · exact h
  · exact ⟨h.1, h.2.1.nil (Bool.eq_false_of_not_eq_true hs), h.2.2⟩

/-- What the commands of a request leave of its transaction. -/
theorem Tx.Holds.carry {τ : Tx} {c : Cmd} (h : τ.Holds pg q) (hok : τ.ok c) (db : Db) :
    (τ.next c (carry pg c (db, q)).1).Holds pg (carry pg c (db, q)).2.2 := by
  cases τ with
  | start autocommit =>
    obtain ⟨hstatus, hauto, hpending, hwritten⟩ := h
    cases c with
    | begin =>
      rcases holds_begin db hpending hwritten with ⟨e, he, hover⟩ | ⟨hr, hreading⟩
      · rw [he]
        exact hover
      · rw [hr]
        exact hreading
    | commit =>
      obtain ⟨hpending', hwritten'⟩ := holds_commit_nil pg db hpending
      exact ⟨hpending', hwritten'.trans hwritten⟩
    | rollback => exact holds_rollback db hwritten
    | sql stmt =>
      have hopen : q.session.conn.status ≠ .failed := fun hc => by cases hstatus.symm.trans hc
      rcases holds_sql db hopen hpending hwritten with ⟨e, he, hover⟩ | ⟨r, hr, hdone⟩
      · rw [he]
        exact hover
      · rw [hr]
        show (if autocommit then _ else if stmt.changes then wrote stmt r else reading : Tx).Holds pg _
        cases autocommit with
        | false =>
          rw [if_neg fun hc => Bool.false_ne_true (hauto.symm.trans hc.2)] at hdone
          exact Tx.Holds.ran hdone
        | true =>
          rw [if_pos ⟨hstatus, hauto⟩] at hdone
          obtain ⟨hstatus', hpending', hmade⟩ := hdone
          show (if stmt.changes then kept stmt r else start true : Tx).Holds pg _
          split_ifs with hs
          · exact ⟨hstatus', hpending', hmade⟩
          · refine ⟨hstatus', ?_, hpending', hmade.nil (Bool.eq_false_of_not_eq_true hs)⟩
            show (handle pg (.sql stmt) (q.on db)).2.conn.autocommit = true
            rw [handle_conn, Conn.next_autocommit]
            exact hauto
    | sendWebhook url payload => cases hok
  | reading =>
    obtain ⟨hstatus, hpending, hwritten⟩ := h
    cases c with
    | commit =>
      obtain ⟨hpending', hwritten'⟩ := holds_commit_nil pg db hpending
      exact ⟨hpending', hwritten'.trans hwritten⟩
    | rollback => exact holds_rollback db hwritten
    | sql stmt =>
      have hidle : ¬ (q.session.conn.status = .idle ∧ q.session.conn.autocommit) := fun hc => by
        cases hstatus.symm.trans hc.1
      have hopen : q.session.conn.status ≠ .failed := fun hc => by cases hstatus.symm.trans hc
      rcases holds_sql db hopen hpending hwritten with ⟨e, he, hover⟩ | ⟨r, hr, hdone⟩
      · rw [he]
        exact hover
      · rw [hr]
        rw [if_neg hidle] at hdone
        exact Tx.Holds.ran hdone
    | _ => cases hok
  | wrote stmt r =>
    cases c with
    | commit =>
      rcases holds_commit db h with ⟨e, he, hover⟩ | ⟨hr, hkept⟩
      · rw [he]
        exact hover
      · rw [hr]
        exact hkept
    | rollback => exact holds_rollback db h.2.2
    | _ => cases hok
  | kept stmt r =>
    cases c with
    | commit =>
      obtain ⟨hr, hkept⟩ := holds_commit_again db h
      rw [hr]
      exact hkept
    | _ => cases hok
  | closed =>
    obtain ⟨hpending, hwritten⟩ := h
    cases c with
    | commit =>
      obtain ⟨hpending', hwritten'⟩ := holds_commit_nil pg db hpending
      exact ⟨hpending', hwritten'.trans hwritten⟩
    | rollback => exact holds_rollback db hwritten
    | _ => cases hok
  | impossible => cases h

end

/-! ### The programs -/

/-- The statement makes one change when it answers `r`. -/
def Stmt.One (pg : Pg) (stmt : Stmt) (r : stmt.Resp) : Prop := ∀ ws, stmt.Made pg r ws → ∃ write, ws = [write]

namespace Tx

/-- Nothing is committed. -/
def Unkept : Tx → Prop
  | kept _ _ => False
  | _ => True

/-- … and nothing is written. -/
def Released : Tx → Prop
  | wrote _ _ | kept _ _ => False
  | _ => True

/-- The one change of the request is made, if it is to make one. -/
def Ready (pg : Pg) (change : Option Stmt) : Tx → Prop
  | wrote stmt r | kept stmt r => change = some stmt ∧ stmt.One pg r
  | impossible => True
  | _ => change = none

/-- … and committed. -/
def Settled (pg : Pg) (change : Option Stmt) : Tx → Prop
  | wrote _ _ => False
  | τ => τ.Ready pg change

variable {pg : Pg} {change : Option Stmt} {τ : Tx}

theorem Settled.ready (h : τ.Settled pg change) : τ.Ready pg change := by
  cases τ with
  | wrote stmt r => cases h
  | _ => exact h

theorem Released.unkept (h : τ.Released) : τ.Unkept := by
  cases τ with
  | kept stmt r => cases h
  | _ => trivial

theorem Ready.commit (h : τ.Ready pg change) :
    τ.ok .commit ∧ (τ.next .commit (.ok ())).Settled pg change ∧ ∀ e, (τ.next .commit (.error e)).Released := by
  cases τ with
  | _ => exact ⟨trivial, h, fun _ => trivial⟩

theorem Unkept.rollback (h : τ.Unkept) (r : Cmd.rollback.Answer) : τ.ok .rollback ∧ (τ.next .rollback r).Released := by
  cases τ with
  | kept stmt r => cases h
  | _ => exact ⟨trivial, trivial⟩

end Tx

/-- Whatever the answers, the program makes the one `change` and returns, or it raises and makes none. -/
abbrev App.Makes (pg : Pg) (change : Option Stmt) (p : App α) (τ : Tx) : Prop :=
  Safe Tx.ok Tx.next (Tx.Settled pg change) Tx.Released p τ

/-- … and may leave it to a COMMIT. -/
abbrev App.Prepares (pg : Pg) (change : Option Stmt) (p : App α) (τ : Tx) : Prop :=
  Safe Tx.ok Tx.next (Tx.Ready pg change) Tx.Unkept p τ

section
variable {α β : Type} {pg : Pg} {change : Option Stmt} {τ : Tx} {J K : Tx → Prop}

theorem safe_exec_of {c : Cmd} (hok : τ.ok c) (hJ : ∀ r, J (τ.next c (.ok r))) (hK : ∀ e, K (τ.next c (.error e))) :
    Safe Tx.ok Tx.next J K (exec c) τ := by
  refine ⟨hok, fun r => ?_⟩
  cases r with
  | ok r => exact hJ r
  | error e => exact hK e

theorem safe_exec_bind {c : Cmd} {f : c.Resp → App β} (hok : τ.ok c)
    (hf : ∀ r, Safe Tx.ok Tx.next J K (f r) (τ.next c (.ok r))) (hK : ∀ e, K (τ.next c (.error e))) :
    Safe Tx.ok Tx.next J K (exec c >>= f) τ := by
  refine ⟨hok, fun r => ?_⟩
  cases r with
  | ok r => exact hf r
  | error e => exact hK e

theorem makes_withConn {p : App α} (hp : App.Prepares pg change p τ) : App.Makes pg change (withConn p) τ := by
  refine Safe.bind (Safe.tryCatch hp fun e τ h => ?_) fun a τ h => ?_
  · exact ⟨(h.rollback (.ok ())).1, fun r => (h.rollback r).2⟩
  · obtain ⟨hok, hsettled, hreleased⟩ := h.commit
    exact safe_exec_bind hok (fun _ => hsettled) hreleased

theorem makes_transaction {p : App α} {autocommit : Bool} (hp : App.Prepares pg change p .reading) :
    App.Makes pg change (transaction p) (.start autocommit) :=
  safe_exec_bind trivial (fun _ => makes_withConn hp) fun _ => trivial

theorem makes_tenantConn {claims : TokenClaims} {body : App α} (hbody : App.Prepares pg change body .reading) :
    App.Makes pg change (tenantConn claims body) (.start false) := by
  refine makes_withConn ((makes_transaction ?_).mono (fun _ => Tx.Settled.ready) fun _ => Tx.Released.unkept)
  exact safe_exec_bind trivial (fun _ => hbody) fun _ => trivial

/-- A query. -/
theorem prepares_read {stmt : Stmt} {f : stmt.Resp → App α} (hs : stmt.changes = false)
    (hf : ∀ r, App.Prepares pg none (f r) .reading) : App.Prepares pg none (sql stmt >>= f) .reading := by
  refine safe_exec_bind trivial (fun r => ?_) fun _ => trivial
  show Safe _ _ _ _ _ (if stmt.changes then _ else Tx.reading)
  rw [if_neg (Bool.not_eq_true _ ▸ hs)]
  exact hf r

theorem makes_requireAdmin {claims : TokenClaims} {p : App α} (hp : App.Makes pg change p (.start false)) :
    App.Makes pg change (requireAdmin claims >>= fun _ => p) (.start false) := by
  unfold requireAdmin
  split
  · exact hp
  · trivial

end

section
variable {pg : Pg}

theorem one_insertUser (username passwordHash : Str) (role : Role) (tenant : Str) (r : Unit) :
    (Stmt.insertUser username passwordHash role tenant).One pg r := by
  rintro ws ⟨ctx, db, hx⟩
  simp only [Stmt.exec] at hx
  split_ifs at hx
  cases hx
  exact ⟨_, rfl⟩

theorem one_insertEvent (e : NormalizedEvent) (r : Unit) : (Stmt.insertEvent e).One pg r := by
  rintro ws ⟨ctx, db, hx⟩
  simp only [Stmt.exec] at hx
  split at hx
  · cases hx
  split_ifs at hx
  cases hx
  exact ⟨_, rfl⟩

theorem one_insertRule (rule : NewRule) (row : AlertRule) : (Stmt.insertRule rule).One pg row := by
  rintro ws ⟨ctx, db, hx⟩
  exact ⟨_, (exec_insertRule_ok hx).2.1⟩

theorem one_updateRule (set : RuleUpdate) (ruleId : Int) (row : AlertRule) :
    (Stmt.updateRule set ruleId).One pg (some row) := by
  rintro ws ⟨ctx, db, hx⟩
  rcases exec_updateRule_ok hx with ⟨hnone, -⟩ | ⟨r, -, -, -, -, hws⟩
  · cases hnone
  · exact ⟨_, hws⟩

theorem makes_writeEvent (e : NormalizedEvent) (autocommit : Bool) :
    App.Makes pg (some (.insertEvent e)) (writeEvent e) (.start autocommit) := by
  refine makes_transaction (safe_exec_bind trivial (fun _ => ?_) fun _ => trivial)
  exact safe_exec_of trivial (fun r => ⟨rfl, one_insertEvent e r⟩) fun _ => trivial

end

/-- Every program makes the change of its call, once, or raises. -/
theorem Call.makes (w : World) (call : Call) :
    App.Makes w.pg (call.change w) (call.app w) (.start call.autocommit) := by
  cases call with
  | login username password =>
    refine makes_withConn (safe_exec_bind trivial (fun row => ?_) fun _ => trivial)
    split <;> trivial
  | ingest body now claims =>
    refine makes_requireAdmin (makes_withConn ?_)
    show App.Prepares w.pg ((ingested w.py body now claims).toOption.map _) _ _
    unfold ingested
    split
    · rename_i e he
      rw [he]
      exact ((makes_writeEvent e false).mono (fun _ => Tx.Settled.ready) fun _ => Tx.Released.unkept).bind fun _ _ h => h
    · trivial
  | writeEvent e => exact Safe.bind (makes_writeEvent e true) fun _ _ h => h
  | search req claims => exact makes_tenantConn (prepares_read rfl fun _ => rfl)
  | top req claims => exact makes_tenantConn (prepares_read rfl fun _ => rfl)
  | timeline req claims => exact makes_tenantConn (prepares_read rfl fun _ => rfl)
  | listAlertRules claims => exact makes_tenantConn (prepares_read rfl fun _ => rfl)
  | createAlertRule body claims =>
    refine makes_requireAdmin (makes_tenantConn ?_)
    refine Safe.bind (Safe.tryCatch (L := (· = .closed)) ?_ fun e τ h => ?_) fun row τ h => h
    · exact safe_exec_of trivial (fun row => ⟨rfl, one_insertRule _ row⟩) fun _ => rfl
    · subst h
      split <;> trivial
  | updateAlertRule ruleId body claims =>
    refine makes_requireAdmin (makes_tenantConn ?_)
    split
    · trivial
    · refine safe_exec_bind trivial (fun found => ?_) fun _ => trivial
      cases found with
      | none => trivial
      | some row => exact ⟨rfl, one_updateRule _ _ row⟩
  | listAlerts req claims => exact makes_tenantConn (prepares_read rfl fun _ => rfl)
  | health =>
    refine Safe.tryCatch (L := Tx.Released) (makes_withConn ?_) fun _ _ h => h
    exact safe_exec_bind trivial (fun _ => rfl) fun _ => trivial
  | createUser username passwordHash role tenant =>
    exact safe_exec_bind trivial (fun r => ⟨rfl, one_insertUser _ _ _ _ r⟩) fun _ => trivial

/-! ### All requests -/

/-- What holds of a request at every point of its run. -/
def Underway (w : World) (t : Task Cmd.Answer Exn Response Running) : Prop :=
  ∃ τ, App.Makes w.pg (t.state.call.change w) t.prog τ ∧ τ.Holds w.pg t.state

/-- The changes of one request. -/
def madeBy (i : Nat) (history : List (Nat × Write)) : List Write := (history.filter (·.1 = i)).map (·.2)

/-- `history` is what was committed since `db`, each change beside the request that made it. -/
structure Serial (db : Db) (m : Traffic) (history : List (Nat × Write)) : Prop where
  rows : m.shared.rows = (db.applyAll (history.map (·.2))).rows
  free : ∀ i, m.tasks i = none → madeBy i history = []
  task : ∀ i t, m.tasks i = some t → madeBy i history = t.state.written

section
variable {w : World} {m m' : Traffic} {t : Task Cmd.Answer Exn Response Running} {db : Db} {history : List (Nat × Write)}

theorem madeBy_append (i : Nat) (history later : List (Nat × Write)) :
    madeBy i (history ++ later) = madeBy i history ++ madeBy i later := by
  simp [madeBy]

theorem madeBy_self (i : Nat) (ws : List Write) : madeBy i (ws.map (i, ·)) = ws := by
  induction ws with
  | nil => rfl
  | cons w ws ih => simpa [madeBy] using ih

theorem madeBy_other {i j : Nat} (h : j ≠ i) (ws : List Write) : madeBy j (ws.map (i, ·)) = [] := by
  induction ws with
  | nil => rfl
  | cons w ws ih => simp [madeBy, h.symm]

/-- A request stays on its way, whatever the others do. -/
theorem keeps_underway (w : World) :
    Keeps (programs w) (fun _ => True) (fun _ t => Underway w t) (fun _ _ => True) where
  symm _ _ h := h
  starts _ t _ ht := by
    obtain ⟨r, rfl, hidle, hauto⟩ := ht
    exact ⟨.start r.call.autocommit, Call.makes w r.call, hidle, hauto, rfl, rfl⟩
  apart _ _ _ _ _ := trivial
  own db c k q _ h := by
    obtain ⟨τ, ⟨hok, hmakes⟩, hholds⟩ := h
    exact ⟨trivial, _, hmakes _, hholds.carry hok db⟩
  other _ _ _ _ _ _ _ hu _ _ := ⟨hu, trivial⟩

theorem underway_of_reaches {m₀ : Traffic} (hnone : ∀ i, m₀.tasks i = none) (hr : Reaches (programs w) m₀ m) :
    ∀ i t, m.tasks i = some t → Underway w t := by
  have hstart : Coherent (fun _ => True) (fun _ t => Underway w t) (fun _ _ => True) m₀ := by
    refine ⟨trivial, fun i t hi => ?_, fun _ _ _ _ _ _ _ => trivial⟩
    rw [hnone i] at hi
    cases hi
  exact (hstart.reaches (keeps_underway w) hr).task

/-- A step adds to the history what its command commits. -/
theorem Serial.step (h : Serial db m history) (hs : Step (programs w) m m') : ∃ later, Serial db m' (history ++ later) := by
  cases hs with
  | start i t hfree ht =>
    refine ⟨[], ?_⟩
    rw [List.append_nil]
    refine ⟨h.rows, fun j hj => h.free j (ne_of_move_none hj).2, fun j u hj => ?_⟩
    rcases move_cases hj with ⟨rfl, rfl⟩ | ⟨-, hj⟩
    · obtain ⟨r, rfl, -⟩ := ht
      exact h.free _ hfree
    · exact h.task j u hj
  | call i c k q hi hgo =>
    have hrows := rows_handle w.pg c (s := q.on m.shared) fun _ => rfl
    have hback : ∀ ws : List Write, (ws.map (i, ·)).map (·.2) = ws := fun ws => by
      rw [List.map_map]
      exact List.map_id ws
    refine ⟨((q.on m.shared).commits w.pg c).map (i, ·), ?_, fun j hj => ?_, fun j u hj => ?_⟩
    · rw [List.map_append, hback, Db.applyAll, List.foldl_append]
      exact hrows.trans (Db.rows_applyAll_congr h.rows _)
    · obtain ⟨hij, hj⟩ := ne_of_move_none hj
      rw [madeBy_append, madeBy_other hij, List.append_nil]
      exact h.free j hj
    · rcases move_cases hj with ⟨rfl, rfl⟩ | ⟨hij, hj⟩
      · rw [madeBy_append, madeBy_self, h.task _ _ hi]
        rfl
      · rw [madeBy_append, madeBy_other hij, List.append_nil]
        exact h.task j u hj

theorem Serial.reaches (h : Serial db m history) (hr : Reaches (programs w) m m') :
    ∃ later, Serial db m' (history ++ later) := by
  induction hr with
  | refl => exact ⟨[], by rwa [List.append_nil]⟩
  | tail _ hs ih =>
    obtain ⟨later, hserial⟩ := ih
    obtain ⟨more, hserial'⟩ := hserial.step hs
    exact ⟨later ++ more, by rwa [← List.append_assoc]⟩

/-- A request that has committed its change has only to return. -/
theorem one_of_makes {stmt : Stmt} {r : stmt.Resp} {change : Option Stmt} {p : App Response}
    (h : App.Makes w.pg change p (.kept stmt r)) : change = some stmt ∧ stmt.One w.pg r := by
  induction p with
  | ret resp => exact h
  | raise e => cases h
  | call c k ih =>
    obtain ⟨hok, hmakes⟩ := h
    cases c with
    | commit => exact ih (.ok ()) (hmakes (.ok ()))
    | _ => cases hok

/-- At every point a request has made no change, or the one of its call. -/
theorem Underway.written (h : Underway w t) :
    t.state.written = [] ∨ ∃ stmt r write, t.state.call.change w = some stmt ∧ stmt.Made w.pg r [write] ∧
      t.state.written = [write] := by
  obtain ⟨τ, hmakes, hholds⟩ := h
  cases τ with
  | start autocommit => exact .inl hholds.2.2.2
  | reading => exact .inl hholds.2.2
  | wrote stmt r => exact .inl hholds.2.2
  | kept stmt r =>
    obtain ⟨hchange, hone⟩ := one_of_makes hmakes
    obtain ⟨write, hwrite⟩ := hone _ hholds.2.2
    exact .inr ⟨stmt, r, write, hchange, hwrite ▸ hholds.2.2, hwrite⟩
  | closed => exact .inl hholds.2
  | impossible => cases hholds

theorem Underway.of_ret (h : Underway w t) {resp : Response} (hret : t.prog = .ret resp) :
    t.state.written = [] ↔ t.state.call.change w = none := by
  obtain ⟨τ, hmakes, hholds⟩ := h
  rw [hret] at hmakes
  cases τ with
  | start autocommit => exact iff_of_true hholds.2.2.2 hmakes
  | reading => exact iff_of_true hholds.2.2 hmakes
  | wrote stmt r => cases hmakes
  | kept stmt r =>
    obtain ⟨hchange, hone⟩ := hmakes
    obtain ⟨write, hwrite⟩ := hone _ hholds.2.2
    refine iff_of_false ?_ ?_
    · rw [hwrite]
      exact List.cons_ne_nil _ _
    · rw [hchange]
      exact Option.some_ne_none _
  | closed => exact iff_of_true hholds.2 hmakes
  | impossible => cases hholds

theorem Underway.of_raise (h : Underway w t) {e : Exn} (hraise : t.prog = .raise e) : t.state.written = [] := by
  obtain ⟨τ, hmakes, hholds⟩ := h
  rw [hraise] at hmakes
  cases τ with
  | start autocommit => exact hholds.2.2.2
  | reading => exact hholds.2.2
  | wrote stmt r => exact hholds.2.2
  | kept stmt r => cases hmakes
  | closed => exact hholds.2
  | impossible => cases hholds

end

/-- In every interleaving of requests the tables are a history of single changes, to which later steps only add. Each
change is the one of its request; one that has returned has made it if it has one to make, one that has raised has not. -/
theorem requests_serialized (w : World) {m₀ m : Traffic} (hnone : ∀ i, m₀.tasks i = none)
    (hr : Reaches (programs w) m₀ m) :
    ∃ history, Serial m₀.shared m history ∧
      (∀ m', Reaches (programs w) m m' → ∃ later, Serial m₀.shared m' (history ++ later)) ∧
      ∀ i t, m.tasks i = some t →
        (madeBy i history = [] ∨ ∃ stmt r write, t.state.call.change w = some stmt ∧ stmt.Made w.pg r [write] ∧
          madeBy i history = [write]) ∧
        (∀ resp, t.prog = .ret resp → (madeBy i history = [] ↔ t.state.call.change w = none)) ∧
        ∀ e, t.prog = .raise e → madeBy i history = [] := by
  have hserial : Serial m₀.shared m₀ [] := by
    refine ⟨rfl, fun _ _ => rfl, fun i t hi => ?_⟩
    rw [hnone i] at hi
    cases hi
  obtain ⟨history, h⟩ := hserial.reaches hr
  rw [List.nil_append] at h
  refine ⟨history, h, fun m' hr' => h.reaches hr', fun i t hi => ?_⟩
  have hunderway := underway_of_reaches hnone hr i t hi
  rw [h.task i t hi]
  exact ⟨hunderway.written, fun _ => hunderway.of_ret, fun _ => hunderway.of_raise⟩

def Traffic.empty : Traffic := ⟨{}, fun _ => none⟩

/-- A POST of an admin of `demoA`. -/
def Traffic.post : Task Cmd.Answer Exn Response Running :=
  let r : Request := ⟨.createAlertRule .standard ⟨str "admin_a", .admin, str "demoA"⟩, { autocommit := false }, fun _ => {}⟩
  ⟨r.call.app .sample, r.running⟩

/-- Two of them, after `n` turns: the second comes when the first has written its row, and again when it has committed. -/
def Traffic.posts (n : Nat) : Traffic :=
  ([0, 0, 0, 1, 1, 1, 0, 0, 1, 1, 1].take n).foldl (Ensemble.turn (programs .sample) 2)
    ((Traffic.empty.move 0 {} post).move 1 {} post)

theorem Traffic.reaches_posts (n : Nat) : Reaches (programs .sample) Traffic.empty (Traffic.posts n) :=
  have hstarts : (programs .sample).Starts Traffic.post := ⟨_, rfl, rfl, rfl⟩
  reaches_two _ hstarts hstarts _

theorem Traffic.waiting_posts : Waiting (programs .sample) (Traffic.posts 5) 1 0 :=
  ⟨_, _, _, _, rfl, rfl, _, List.mem_singleton_self _, rfl, rfl⟩

/-- The INSERT of the second POST waits for the first. Only the change of the first is in the history. -/
theorem requests_serialized_posts : Waiting (programs .sample) (Traffic.posts 5) 1 0 ∧
    ∃ history write, Serial {} (Traffic.posts 11) history ∧ madeBy 0 history = [write] ∧
      madeBy 1 history = [] := by
  obtain ⟨history, hserial, -, htasks⟩ := requests_serialized .sample (fun _ => rfl)
    (Traffic.reaches_posts 11)
  have hfirst : ∃ resp q, (Traffic.posts 11).tasks 0 = some ⟨.ret resp, q⟩ ∧
      (q.call.change .sample).isSome := ⟨_, _, rfl, rfl⟩
  have hsecond : ∃ e q, (Traffic.posts 11).tasks 1 = some ⟨.raise e, q⟩ := ⟨_, _, rfl⟩
  obtain ⟨resp, q, hi, hchange⟩ := hfirst
  obtain ⟨e, q', hi'⟩ := hsecond
  obtain ⟨hmade, hret, -⟩ := htasks 0 _ hi
  obtain ⟨-, -, hraise⟩ := htasks 1 _ hi'
  refine ⟨Traffic.waiting_posts, history, ?_⟩
  rcases hmade with hnone | ⟨stmt, r, write, -, -, hwrite⟩
  · rw [(hret resp rfl).1 hnone] at hchange
    cases hchange
  · exact ⟨write, hserial, hwrite, hraise e rfl⟩

end LogMgmt
