import LogMgmt.Evaluation
import LogMgmt.Pool
import LogMgmt.Twin
import LogMgmt.Lib.Agree

/-!
# Twin runs

Two sessions on twin databases that run the same program, or programs that name the same rows, under the
tenant of the twins. What a command keeps of them is `TwinSessions`; `AgreeIn` are the rules for programs.
-/

namespace LogMgmt
open Prog

/-! ### Connections -/

/-- Connections that differ at most in the `app.tenant` of the session level. -/
structure Conn.Like (a b : Conn) : Prop where
  autocommit : a.autocommit = b.autocommit
  status : a.status = b.status
  localTenant : a.localTenant = b.localTenant

namespace Conn.Like
variable {a b : Conn}

theorem endTx (h : a.Like b) : a.endTx.Like b.endTx := ⟨h.autocommit, rfl, rfl⟩

theorem ran (h : a.Like b) : a.ran.Like b.ran := by
  unfold Conn.ran
  rw [h.status, h.autocommit]
  split
  · exact h
  · exact ⟨rfl, rfl, h.localTenant⟩

theorem fail (h : a.Like b) : a.fail.Like b.fail := by
  unfold Conn.fail
  rw [h.status, h.autocommit]
  split
  · exact h
  · exact ⟨rfl, rfl, h.localTenant⟩

theorem setTenant (h : a.Like b) (t : Str) : (a.setTenant t).Like (b.setTenant t) := by
  unfold Conn.setTenant
  rw [h.status, h.autocommit]
  split
  · exact ⟨rfl, rfl, rfl⟩
  · exact ⟨rfl, rfl, rfl⟩

end Conn.Like

/-- A statement that ends outside a transaction was a transaction of its own. -/
theorem Conn.next_sql_idle {conn : Conn} {stmt : Stmt} {r : stmt.Resp}
    (h : (conn.next (.sql stmt) (.ok r)).status = .idle) : conn.status = .idle ∧ conn.autocommit := by
  by_contra hc
  have hran : conn.ran.status = .inTx := by rw [Conn.ran, if_neg hc]
  cases stmt with
  | setTenant t =>
    have hset : conn.setTenant t = { conn with status := .inTx, localTenant := some t } := if_neg hc
    have h : (conn.setTenant t).status = .idle := h
    rw [hset] at h
    cases h
  | _ =>
    have h : conn.ran.status = .idle := h
    rw [hran] at h
    cases h

theorem Conn.fail_idle {conn : Conn} (h : conn.fail.status = .idle) : conn.status = .idle := by
  unfold Conn.fail at h
  split at h
  · exact h
  · cases h

/-! ### Sessions -/

/-- Sessions with the same choices to come, on twin databases, nothing else going on. -/
structure TwinSessions (κ : Renaming Table) (tenant : Str) (ρ : Renaming Table) (s t : Session) : Prop where
  committed : Twin tenant ρ s.db t.db
  view : Alike κ tenant ρ s.view t.view
  conn : s.conn.Like t.conn
  startedAt : s.startedAt = t.startedAt
  nature : s.nature = t.nature
  alone : (∀ n, s.others n = id) ∧ ∀ n, t.others n = id
  idle : s.conn.status = .idle → s.pending = [] ∧ t.pending = []

theorem Db.applyAll_with_sequences (db : Db) (q : Sequences) (ws : List Write) :
    ({ db with sequences := q } : Db).applyAll ws = { db.applyAll ws with sequences := q } := by
  induction ws generalizing db with
  | nil => rfl
  | cons w ws ih =>
    have happly : ({ db with sequences := q } : Db).apply w = { db.apply w with sequences := q } := by
      cases w <;> rfl
    rw [applyAll, List.foldl_cons, happly]
    exact ih _

namespace TwinSessions
variable {κ ρ ρ' : Renaming Table} {tenant : Str} {s t : Session}

theorem interfere (h : TwinSessions κ tenant ρ s t) : s.interfere = s ∧ t.interfere = t := by
  unfold Session.interfere
  rw [h.alone.1 0, h.alone.2 0]
  exact ⟨rfl, rfl⟩

theorem now (h : TwinSessions κ tenant ρ s t) : s.now = t.now := by
  unfold Session.now
  rw [h.conn.status, h.nature, h.startedAt]

/-- The databases once the open transactions are given up. -/
theorem alike_db (h : TwinSessions κ tenant ρ s t) : Alike κ tenant ρ s.db t.db := by
  have hs : s.view.sequences = s.db.sequences := Db.applyAll_sequences _ _
  have ht : t.view.sequences = t.db.sequences := Db.applyAll_sequences _ _
  refine ⟨h.committed, ?_, ?_⟩
  · rw [← hs, ← ht]
    exact h.view.userId
  · rw [← hs, ← ht]
    exact h.view.fresh

/-- Both commands are answered, and what was written so far stands. -/
theorem answered (h : TwinSessions κ tenant ρ s t) {c c' : Cmd} (r : c.Answer) (r' : c'.Answer)
    (hconn : (s.conn.next c r).Like (t.conn.next c' r'))
    (hidle : (s.conn.next c r).status = .idle → s.conn.status = .idle) :
    TwinSessions κ tenant ρ (s.answered c r) (t.answered c' r') where
  committed := h.committed
  view := h.view
  conn := hconn
  startedAt := h.startedAt
  nature := by
    rw [Session.answered, Session.answered, h.nature]
  alone := ⟨fun n => h.alone.1 (n + 1), fun n => h.alone.2 (n + 1)⟩
  idle hi := h.idle (hidle hi)

theorem discarded (h : TwinSessions κ tenant ρ s t) (c : Cmd) (r : c.Answer)
    (hconn : (s.conn.next c r).Like (t.conn.next c r)) (log log' : Log) :
    TwinSessions κ tenant ρ { s.answered c r with pending := [], log := log }
      { t.answered c r with pending := [], log := log' } where
  committed := h.committed
  view := h.alike_db
  conn := hconn
  startedAt := h.startedAt
  nature := by
    show (fun n => s.nature (n + 1)) = fun n => t.nature (n + 1)
    rw [h.nature]
  alone := ⟨fun n => h.alone.1 (n + 1), fun n => h.alone.2 (n + 1)⟩
  idle _ := ⟨rfl, rfl⟩

theorem committedAt (h : TwinSessions κ tenant ρ s t) (log log' : Log) :
    TwinSessions κ tenant ρ { s.answered .commit (.ok ()) with db := s.view, pending := [], log := log }
      { t.answered .commit (.ok ()) with db := t.view, pending := [], log := log' } where
  committed := h.view.toTwin
  view := h.view
  conn := h.conn.endTx
  startedAt := h.startedAt
  nature := by
    show (fun n => s.nature (n + 1)) = fun n => t.nature (n + 1)
    rw [h.nature]
  alone := ⟨fun n => h.alone.1 (n + 1), fun n => h.alone.2 (n + 1)⟩
  idle _ := ⟨rfl, rfl⟩

end TwinSessions

/-! ### Commands -/

section
variable {pg : Pg} {κ ρ ρ' : Renaming Table} {tenant : Str} {s t : Session} {J : Conn → Prop}

/-- Both commands return, with answers in `V`, or raise the same; `J` holds of the connection if they return. -/
def TwinAnswers (κ : Renaming Table) (tenant : Str) (c c' : Cmd) (J : Conn → Prop)
    (V : Renaming Table → c.Resp → c'.Resp → Prop) (ρ : Renaming Table) :
    c.Answer × Session → c'.Answer × Session → Prop
  | (.ok r, s), (.ok r', t) => ∃ ρ', ρ ≤ ρ' ∧ (TwinSessions κ tenant ρ' s t ∧ J s.conn) ∧ V ρ' r r'
  | (.error e, s), (.error e', t) => e = e' ∧ TwinSessions κ tenant ρ s t
  | _, _ => False

/-- The programs agree on twin sessions; `J` holds of the connection if they return. -/
abbrev AgreeIn (pg : Pg) (κ : Renaming Table) (tenant : Str) (J : Conn → Prop) {α β : Type}
    (V : Renaming Table → α → β → Prop) (ρ : Renaming Table) (p : App α) (p' : App β) (s t : Session) : Prop :=
  Agree (handle pg) (handle pg) (fun ρ s t => TwinSessions κ tenant ρ s t ∧ J s.conn) (TwinSessions κ tenant) V ρ p p'
    s t

theorem agree_exec {c c' : Cmd} {V : Renaming Table → c.Resp → c'.Resp → Prop}
    (h : TwinAnswers κ tenant c c' J V ρ (handle pg c s) (handle pg c' t)) :
    AgreeIn pg κ tenant J V ρ (exec c) (exec c') s t := by
  unfold AgreeIn Agree wp₂
  rw [run_exec, run_exec]
  revert h
  rcases handle pg c s with ⟨_ | _, _⟩ <;> rcases handle pg c' t with ⟨_ | _, _⟩
  · exact fun h => ⟨h.1, ρ, le_rfl, h.2⟩
  · exact id
  · exact id
  · exact id

theorem twin_begin (pg : Pg) (h : TwinSessions κ tenant ρ s t) :
    (handle pg .begin s).1 = (handle pg .begin t).1 ∧
      TwinSessions κ tenant ρ (handle pg .begin s).2 (handle pg .begin t).2 := by
  show s.interfere.doBegin.1 = t.interfere.doBegin.1 ∧
    TwinSessions κ tenant ρ s.interfere.doBegin.2 t.interfere.doBegin.2
  rw [h.interfere.1, h.interfere.2]
  unfold Session.doBegin
  rw [← h.nature]
  split
  · exact ⟨rfl, h.answered _ _ h.conn id⟩
  · refine ⟨rfl, h.committed, h.alike_db, ⟨h.conn.autocommit, rfl, h.conn.localTenant⟩, rfl, ?_,
      ⟨fun n => h.alone.1 (n + 1), fun n => h.alone.2 (n + 1)⟩, fun _ => ⟨rfl, rfl⟩⟩
    show (fun n => s.nature (n + 1)) = fun n => t.nature (n + 1)
    rw [h.nature]

theorem twin_commit (pg : Pg) (h : TwinSessions κ tenant ρ s t) :
    (handle pg .commit s).1 = (handle pg .commit t).1 ∧
      TwinSessions κ tenant ρ (handle pg .commit s).2 (handle pg .commit t).2 := by
  show s.interfere.doCommit.1 = t.interfere.doCommit.1 ∧
    TwinSessions κ tenant ρ s.interfere.doCommit.2 t.interfere.doCommit.2
  rw [h.interfere.1, h.interfere.2]
  unfold Session.doCommit
  rw [← h.nature, ← h.conn.status]
  by_cases hidle : s.conn.status = .idle
  · rw [if_pos hidle, if_pos hidle]
    exact ⟨rfl, h.answered _ _ h.conn.endTx fun _ => hidle⟩
  rw [if_neg hidle, if_neg hidle]
  split
  · exact ⟨rfl, h.discarded .commit _ h.conn.endTx _ _⟩
  split
  · exact ⟨rfl, h.discarded .commit _ h.conn.endTx _ _⟩
  · exact ⟨rfl, h.committedAt _ _⟩

theorem twin_rollback (pg : Pg) (h : TwinSessions κ tenant ρ s t) :
    (handle pg .rollback s).1 = (handle pg .rollback t).1 ∧
      TwinSessions κ tenant ρ (handle pg .rollback s).2 (handle pg .rollback t).2 := by
  show s.interfere.doRollback.1 = t.interfere.doRollback.1 ∧
    TwinSessions κ tenant ρ s.interfere.doRollback.2 t.interfere.doRollback.2
  rw [h.interfere.1, h.interfere.2]
  unfold Session.doRollback
  rw [← h.nature, ← h.conn.status]
  exact ⟨rfl, h.discarded .rollback _ h.conn.endTx _ _⟩

theorem twin_sendWebhook (h : TwinSessions κ tenant ρ s t) (hJ : J s.conn) (url : Str) (payload payload' : WebhookPayload) :
    TwinAnswers κ tenant (.sendWebhook url payload) (.sendWebhook url payload') J (fun _ => Eq) ρ
      (handle pg (.sendWebhook url payload) s) (handle pg (.sendWebhook url payload') t) := by
  show TwinAnswers κ tenant _ _ _ _ ρ (s.interfere.doSendWebhook url payload) (t.interfere.doSendWebhook url payload')
  rw [h.interfere.1, h.interfere.2]
  unfold Session.doSendWebhook
  rw [← h.nature]
  have ha : TwinSessions κ tenant ρ (s.answered (.sendWebhook url payload) (.ok (s.nature 0).accepted))
      (t.answered (.sendWebhook url payload') (.ok (s.nature 0).accepted)) := h.answered _ _ h.conn id
  dsimp only
  split
  · refine ⟨ρ, le_rfl, ⟨⟨ha.committed, ha.view, ha.conn, ha.startedAt, ha.nature, ha.alone, ha.idle⟩, hJ⟩, rfl⟩
  · exact ⟨ρ, le_rfl, ⟨ha, hJ⟩, rfl⟩

/-! ### SQL commands -/

theorem view_takeId (s : Session) (stmt : Stmt) : (s.takeId stmt).view = s.view.after stmt [] := by
  have hseq : s.view.sequences = s.db.sequences := Db.applyAll_sequences _ _
  unfold Session.view Session.takeId Db.after
  rw [Db.applyAll_with_sequences, ← hseq]
  rfl

theorem view_written (s : Session) (stmt : Stmt) (ws : List Write) :
    ((s.takeId stmt).db.applyAll (s.pending ++ ws)) = s.view.after stmt ws := by
  have htake : (s.takeId stmt).db.applyAll s.pending = s.view.after stmt [] := view_takeId s stmt
  rw [Db.applyAll_append, htake]
  exact Db.applyAll_with_sequences _ _ _

theorem twin_sql (pg : Pg) {stmt stmt' : Stmt} {V : Renaming Table → stmt.Resp → stmt'.Resp → Prop}
    (h : TwinSessions κ tenant ρ s t) (hx : Stmt.Alike pg κ tenant stmt stmt' V ρ s.ctx t.ctx s.view t.view)
    (hconn : ∀ r r', (s.conn.next (.sql stmt) (.ok r)).Like (t.conn.next (.sql stmt') (.ok r')))
    (hJ : ∀ r, J (s.conn.next (.sql stmt) (.ok r))) :
    TwinAnswers κ tenant (.sql stmt) (.sql stmt') J V ρ (handle pg (.sql stmt) s) (handle pg (.sql stmt') t) := by
  have hfail : ∀ e, (s.conn.next (.sql stmt) (.error e)).Like (t.conn.next (.sql stmt') (.error e)) := fun e => by
    cases stmt <;> cases stmt' <;> exact h.conn.fail
  have hfail_idle : ∀ e, (s.conn.next (.sql stmt) (.error e)).status = .idle → s.conn.status = .idle := fun e he =>
    Conn.fail_idle (by cases stmt <;> exact he)
  show TwinAnswers κ tenant _ _ _ _ ρ (s.interfere.doSql pg stmt) (t.interfere.doSql pg stmt')
  rw [h.interfere.1, h.interfere.2]
  unfold Session.doSql
  rw [← h.nature, ← h.conn.status, ← h.conn.autocommit]
  split
  · exact ⟨rfl, h.answered _ _ (hfail _) (hfail_idle _)⟩
  split
  · exact ⟨rfl, h.answered _ _ (hfail _) (hfail_idle _)⟩
  unfold Stmt.Alike at hx
  have hnature : (fun n => s.nature (n + 1)) = fun n => t.nature (n + 1) := by rw [h.nature]
  have halone : (∀ n, s.others (n + 1) = id) ∧ ∀ n, t.others (n + 1) = id :=
    ⟨fun n => h.alone.1 (n + 1), fun n => h.alone.2 (n + 1)⟩
  rcases hs : stmt.exec pg s.ctx s.view with e | ⟨r, ws⟩ <;>
    rcases ht : stmt'.exec pg t.ctx t.view with e' | ⟨r', ws'⟩ <;> rw [hs, ht] at hx
  · obtain ⟨rfl, hview⟩ := hx
    refine ⟨rfl, h.committed.sequences _ _, ?_, hfail _, h.startedAt, hnature, halone,
      fun he => h.idle (hfail_idle _ he)⟩
    show Alike κ tenant ρ (s.takeId stmt).view (t.takeId stmt').view
    rw [view_takeId, view_takeId]
    exact hview
  · exact hx.elim
  · exact hx.elim
  · obtain ⟨ρ', hρ, hview, hV⟩ := hx
    refine ⟨ρ', hρ, ?_, hV⟩
    by_cases hauto : s.conn.status = .idle ∧ s.conn.autocommit
    · obtain ⟨hps, hpt⟩ := h.idle hauto.1
      have hdb : (s.takeId stmt).db.applyAll ws = s.view.after stmt ws := by
        rw [← view_written, hps, List.nil_append]
      have hdb' : (t.takeId stmt').db.applyAll ws' = t.view.after stmt' ws' := by
        rw [← view_written, hpt, List.nil_append]
      rw [if_pos hauto, if_pos hauto]
      refine ⟨⟨?_, ?_, hconn r r', h.startedAt, hnature, halone, fun _ => ⟨hps, hpt⟩⟩, hJ r⟩
      · show Twin tenant ρ' ((s.takeId stmt).db.applyAll ws) ((t.takeId stmt').db.applyAll ws')
        rw [hdb, hdb']
        exact hview.toTwin
      · show Alike κ tenant ρ' (((s.takeId stmt).db.applyAll ws).applyAll s.pending)
          (((t.takeId stmt').db.applyAll ws').applyAll t.pending)
        rw [hdb, hdb', hps, hpt]
        exact hview
    · rw [if_neg hauto, if_neg hauto]
      refine ⟨⟨(h.committed.of_le hρ).sequences _ _, ?_, hconn r r', h.now, hnature, halone, fun hi => ?_⟩, hJ r⟩
      · show Alike κ tenant ρ' ((s.takeId stmt).db.applyAll (s.pending ++ ws))
          ((t.takeId stmt').db.applyAll (t.pending ++ ws'))
        rw [view_written, view_written]
        exact hview
      · exact absurd (Conn.next_sql_idle hi) hauto

/-! ### Programs -/

theorem agree_tenantSql {stmt stmt' : Stmt} {V : Renaming Table → stmt.Resp → stmt'.Resp → Prop}
    (h : TwinSessions κ tenant ρ s t) (hin : InTenant tenant s.conn) (hs : stmt.tenantTable) (hs' : stmt'.tenantTable)
    (hx : s.ctx = t.ctx → s.ctx.tenant = some tenant →
      Stmt.Alike pg κ tenant stmt stmt' V ρ s.ctx s.ctx s.view t.view) :
    AgreeIn pg κ tenant (InTenant tenant) V ρ (sql stmt) (sql stmt') s t := by
  have htenant : s.conn.tenant = some tenant := by rw [Conn.tenant, hin.tenant]; rfl
  have htenant' : t.conn.tenant = some tenant := by rw [Conn.tenant, ← h.conn.localTenant, hin.tenant]; rfl
  have hctx : s.ctx = t.ctx := by
    unfold Session.ctx
    rw [h.now, htenant, htenant', h.nature]
  have hx := hx hctx htenant
  nth_rewrite 2 [hctx] at hx
  refine agree_exec (twin_sql pg h hx (fun r r' => ?_) (hin.ran hs))
  have hran : s.conn.ran.Like t.conn.ran := h.conn.ran
  cases stmt with
  | setTenant _ => cases hs
  | _ =>
    cases stmt' with
    | setTenant _ => cases hs'
    | _ => exact hran

theorem agree_sql {stmt : Stmt} {V : Renaming Table → stmt.Resp → stmt.Resp → Prop}
    (h : TwinSessions κ tenant ρ s t) (hx : s.ctx.now = t.ctx.now → s.ctx.order = t.ctx.order →
      Stmt.Alike pg κ tenant stmt stmt V ρ s.ctx t.ctx s.view t.view) :
    AgreeIn pg κ tenant (fun _ => True) V ρ (sql stmt) (sql stmt) s t := by
  have hx := hx h.now (congrArg Choice.order (congrFun h.nature 0))
  refine agree_exec (twin_sql pg h hx (fun r r' => ?_) fun _ => trivial)
  have hran : s.conn.ran.Like t.conn.ran := h.conn.ran
  cases stmt with
  | setTenant _ => exact h.conn.setTenant _
  | _ => exact hran

/-- A command that leaves the renaming as it is, and what follows. -/
theorem agree_next {α β : Type} {c : Cmd} {V : Renaming Table → α → β → Prop} {f : c.Answer → App α}
    {f' : c.Answer → App β} (hans : (handle pg c s).1 = (handle pg c t).1)
    (hf : AgreeIn pg κ tenant J V ρ (f (handle pg c s).1) (f' (handle pg c s).1) (handle pg c s).2 (handle pg c t).2) :
    AgreeIn pg κ tenant J V ρ (perform c >>= f) (perform c >>= f') s t := by
  have hs : run (handle pg) (perform c >>= f) s = run (handle pg) (f (handle pg c s).1) (handle pg c s).2 := rfl
  have ht : run (handle pg) (perform c >>= f') t = run (handle pg) (f' (handle pg c t).1) (handle pg c t).2 := rfl
  unfold AgreeIn Agree wp₂ at hf ⊢
  rw [hs, ht, ← hans]
  exact hf

/-- What comes after a command that may raise. -/
def afterAnswer {α : Type} {c : Cmd} (f : c.Resp → App α) : c.Answer → App α
  | .ok r => f r
  | .error e => throw e

theorem exec_bind {α : Type} {c : Cmd} (f : c.Resp → App α) : (exec c >>= f) = perform c >>= afterAnswer f := by
  unfold exec
  rw [bind_assoc]
  refine congrArg _ (funext fun r => ?_)
  cases r <;> rfl

theorem agree_exec_next {α β : Type} {c : Cmd} {V : Renaming Table → α → β → Prop} {f : c.Resp → App α}
    {f' : c.Resp → App β} (hans : (handle pg c s).1 = (handle pg c t).1)
    (hs : TwinSessions κ tenant ρ (handle pg c s).2 (handle pg c t).2)
    (hf : ∀ r, (handle pg c s).1 = .ok r →
      AgreeIn pg κ tenant J V ρ (f r) (f' r) (handle pg c s).2 (handle pg c t).2) :
    AgreeIn pg κ tenant J V ρ (exec c >>= f) (exec c >>= f') s t := by
  rw [exec_bind, exec_bind]
  refine agree_next hans ?_
  cases hr : (handle pg c s).1 with
  | ok r => exact hf r hr
  | error e => exact Agree.throw hs

theorem agree_withConn {α β : Type} {V : Renaming Table → α → β → Prop} {p : App α} {p' : App β}
    (hp : AgreeIn pg κ tenant J V ρ p p' s t) :
    AgreeIn pg κ tenant (fun _ => True) V ρ (withConn p) (withConn p') s t := by
  refine Agree.bind (Agree.tryCatch hp fun ρ' e s t _ hs => ?_) fun ρ' a b s t _ hs hV => ?_
  · exact agree_next (twin_rollback pg hs).1 (Agree.throw (twin_rollback pg hs).2)
  · have hcommit := twin_commit pg hs.1
    exact agree_exec_next (J := fun _ => True) hcommit.1 hcommit.2 fun _ _ => Agree.pure ⟨hcommit.2, trivial⟩ hV

theorem begin_ok (pg : Pg) (h : (handle pg .begin s).1 = .ok ()) :
    (handle pg .begin s).2.conn.status = .inTx ∧ (handle pg .begin s).2.view = s.interfere.db := by
  change s.interfere.doBegin.1 = .ok () at h
  show s.interfere.doBegin.2.conn.status = .inTx ∧ s.interfere.doBegin.2.view = s.interfere.db
  unfold Session.doBegin at h ⊢
  split at h
  · cases h
  · rename_i hfault
    rw [if_neg hfault]
    exact ⟨rfl, rfl⟩

theorem twin_setTenant (pg : Pg) (h : TwinSessions κ tenant ρ s t) (t' : Str) :
    (handle pg (.sql (.setTenant t')) s).1 = (handle pg (.sql (.setTenant t')) t).1 ∧
      TwinSessions κ tenant ρ (handle pg (.sql (.setTenant t')) s).2 (handle pg (.sql (.setTenant t')) t).2 := by
  have hx := twin_sql pg (J := fun _ => True) h (alike_setTenant h.view s.ctx t.ctx t')
    (fun _ _ => h.conn.setTenant t') fun _ => trivial
  revert hx
  rcases handle pg (.sql (.setTenant t')) s with ⟨_ | _, _⟩ <;>
    rcases handle pg (.sql (.setTenant t')) t with ⟨_ | _, _⟩
  · rintro ⟨rfl, hs⟩
    exact ⟨rfl, hs⟩
  · exact False.elim
  · exact False.elim
  · rintro ⟨_, -, hs, rfl⟩
    exact ⟨rfl, hs.1⟩

theorem setTenant_ok (pg : Pg) (hs : s.conn.status = .inTx) {t' : Str}
    (h : (handle pg (.sql (.setTenant t')) s).1 = .ok ()) :
    InTenant t' (handle pg (.sql (.setTenant t')) s).2.conn ∧
      (handle pg (.sql (.setTenant t')) s).2.view.alertRules = s.interfere.view.alertRules := by
  rcases Session.handle_sql_cases pg hs (.setTenant t') with ⟨r, ws, -, hx, hok⟩ | ⟨e, s', herr, -⟩
  · have hws : ws = [] := by
      cases Stmt.exec_writes hx
      rfl
    have hset : s.conn.setTenant t' = { s.conn with status := .inTx, localTenant := some t' } :=
      if_neg fun hc => by cases hs.symm.trans hc.1
    rw [hok]
    refine ⟨?_, ?_⟩
    · show InTenant t' (s.conn.setTenant t')
      rw [hset]
      exact ⟨rfl, rfl⟩
    · show ((s.interfere.takeId (.setTenant t')).db.applyAll (s.interfere.pending ++ ws)).alertRules = _
      rw [view_written, hws]
      rfl
  · rw [herr] at h
    cases h

/-- A transaction that first sets the tenant; nothing has changed the rules when its body begins. -/
theorem agree_tenantTransaction {α β : Type} {V : Renaming Table → α → β → Prop} {p : App α} {p' : App β}
    (h : TwinSessions κ tenant ρ s t)
    (hp : ∀ s' t', TwinSessions κ tenant ρ s' t' → InTenant tenant s'.conn → s'.view.alertRules = s.db.alertRules →
      t'.view.alertRules = t.db.alertRules → AgreeIn pg κ tenant (InTenant tenant) V ρ p p' s' t') :
    AgreeIn pg κ tenant (fun _ => True) V ρ (transaction do sql (.setTenant tenant); p)
      (transaction do sql (.setTenant tenant); p') s t := by
  have hb := twin_begin pg h
  refine agree_exec_next hb.1 hb.2 fun _ hok => agree_withConn (J := InTenant tenant) ?_
  have hs := begin_ok pg hok
  have ht := begin_ok pg (hb.1.symm.trans hok)
  rw [h.interfere.1] at hs
  rw [h.interfere.2] at ht
  have hset := twin_setTenant pg hb.2 tenant
  refine agree_exec_next hset.1 hset.2 fun _ hok' => ?_
  have hs' := setTenant_ok pg hs.1 hok'
  have ht' := setTenant_ok pg ht.1 (hset.1.symm.trans hok')
  rw [hb.2.interfere.1, hs.2] at hs'
  rw [hb.2.interfere.2, ht.2] at ht'
  exact hp _ _ hset.2 hs'.1 hs'.2 ht'.2

theorem agree_tenantConn {α β : Type} {V : Renaming Table → α → β → Prop} {claims : TokenClaims} {p : App α}
    {p' : App β} (htenant : claims.tenant = tenant) (h : TwinSessions κ tenant ρ s t)
    (hp : ∀ s' t', TwinSessions κ tenant ρ s' t' → InTenant tenant s'.conn → s'.view.alertRules = s.db.alertRules →
      t'.view.alertRules = t.db.alertRules → AgreeIn pg κ tenant (InTenant tenant) V ρ p p' s' t') :
    AgreeIn pg κ tenant (fun _ => True) V ρ (tenantConn claims p) (tenantConn claims p') s t := by
  unfold tenantConn
  rw [htenant]
  exact agree_withConn (agree_tenantTransaction h hp)

theorem agree_requireAdmin {α β : Type} {V : Renaming Table → α → β → Prop} {claims : TokenClaims}
    {f : Unit → App α} {f' : Unit → App β} (h : TwinSessions κ tenant ρ s t)
    (hf : AgreeIn pg κ tenant J V ρ (f ()) (f' ()) s t) :
    AgreeIn pg κ tenant J V ρ (requireAdmin claims >>= f) (requireAdmin claims >>= f') s t := by
  unfold requireAdmin
  split
  · exact hf
  · exact Agree.throw h

end

end LogMgmt
