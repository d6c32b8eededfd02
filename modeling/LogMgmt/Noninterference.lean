import LogMgmt.OtherTenants
import LogMgmt.TwinCalls

/-!
# Tenant noninterference

Two runs of the system whose steps differ in what is done for other tenants. What one tenant sees in them, its
rows and the answers to its requests, differs at most in the ids.
-/

namespace LogMgmt
open Prog
open List (Forall₂)

/-! ### The engine's connection -/

/-- Between two transactions of the engine. -/
structure Conn.Resting (conn : Conn) : Prop where
  autocommit : conn.autocommit
  status : conn.status = .idle
  localTenant : conn.localTenant = none

section
variable {α : Type} {conn : Conn} {pg : Pg} {s : Session}

theorem Conn.Resting.like {a b : Conn} (ha : a.Resting) (hb : b.Resting) : a.Like b :=
  ⟨ha.autocommit.trans hb.autocommit.symm, ha.status.trans hb.status.symm, ha.localTenant.trans hb.localTenant.symm⟩

theorem Conn.resting_endTx (h : conn.autocommit) : conn.endTx.Resting := ⟨h, rfl, rfl⟩

theorem Conn.next_autocommit (conn : Conn) (c : Cmd) (r : c.Answer) : (conn.next c r).autocommit = conn.autocommit := by
  have hran : conn.ran.autocommit = conn.autocommit := by unfold ran; split <;> rfl
  have hfail : conn.fail.autocommit = conn.autocommit := by unfold fail; split <;> rfl
  cases c with
  | begin => cases r <;> rfl
  | commit => rfl
  | rollback => rfl
  | sendWebhook url payload => rfl
  | sql stmt =>
    cases r with
    | error e => cases stmt <;> exact hfail
    | ok r =>
      cases stmt with
      | setTenant tenant =>
        show (conn.setTenant tenant).autocommit = _
        unfold setTenant
        split <;> rfl
      | _ => exact hran

theorem safe_autocommit (p : App α) (h : conn.autocommit) :
    Safe (fun _ _ => True) Conn.next (fun conn => conn.autocommit) (fun conn => conn.autocommit) p conn := by
  induction p generalizing conn with
  | ret a => exact h
  | raise e => exact h
  | call c k ih => exact ⟨trivial, fun r => ih r (by rw [Conn.next_autocommit]; exact h)⟩

/-- `async with conn` ends the transaction. -/
theorem safe_withConn_resting (p : App α) (h : conn.autocommit) :
    Safe (fun _ _ => True) Conn.next Conn.Resting Conn.Resting (withConn p) conn := by
  refine Safe.bind (J := fun conn => conn.autocommit) (Safe.tryCatch (safe_autocommit p h) fun e conn h => ?_)
    fun a conn h => ?_
  · exact ⟨trivial, fun _ => Conn.resting_endTx h⟩
  · refine Safe.bind (J := Conn.Resting) ⟨trivial, fun r => ?_⟩ fun _ _ h => h
    cases r <;> exact Conn.resting_endTx h

theorem safe_evaluateTenant_resting (url : Option Str) (t : Str) (h : conn.Resting) :
    Safe (fun _ _ => True) Conn.next Conn.Resting Conn.Resting (evaluateTenant url t) conn := by
  refine Safe.bind (J := fun conn => conn.autocommit) ⟨trivial, fun r => ?_⟩ fun _ conn h => safe_withConn_resting _ h
  cases r with
  | ok _ => exact h.autocommit
  | error _ => exact h

/-- Whatever goes wrong in an evaluation, the tick goes on with the next tenant. -/
theorem run_tryEvaluateTenant_resting (pg : Pg) (url : Option Str) (t : Str) (h : s.conn.Resting) :
    ((tryEvaluateTenant url t).run (handle pg) s).1 = .ok () ∧
      ((tryEvaluateTenant url t).run (handle pg) s).2.conn.Resting := by
  have hwp : wp (handle pg) (tryEvaluateTenant url t) (fun _ s' => s'.conn.Resting) (fun _ _ => False) s := by
    unfold tryEvaluateTenant
    rw [wp_tryCatch]
    refine wp_mono (Safe.wp (h := handle pg) (I := fun _ => True) (f := Session.conn)
      (safe_evaluateTenant_resting url t h) (handle_conn pg) (fun _ _ _ _ => trivial) trivial) (fun _ _ hs => hs.2) ?_
    rintro _ s' ⟨-, hs'⟩
    rw [wp_exec]
    have hconn := handle_conn pg .rollback s'
    have hok : (handle pg .rollback s').1 = .ok () := by
      simp [handle, Session.doRollback, hs'.status]
    revert hconn hok
    rcases handle pg .rollback s' with ⟨r, s''⟩
    rintro hconn ⟨⟩
    show s''.conn.Resting
    rw [hconn]
    exact Conn.resting_endTx hs'.autocommit
  unfold wp at hwp
  revert hwp
  rcases (tryEvaluateTenant url t).run (handle pg) s with ⟨_ | ⟨⟨⟩⟩, s'⟩
  · exact False.elim
  · exact fun hs' => ⟨rfl, hs'⟩

theorem discover_resting (pg : Pg) (h : s.conn.Resting) :
    ((sql .discoverTenants).run (handle pg) s).2.conn.Resting := by
  have hran : s.conn.ran.Resting := by
    rw [Conn.ran, if_pos ⟨h.status, h.autocommit⟩]
    exact h
  have hfail : s.conn.fail.Resting := by
    rw [Conn.fail, if_pos ⟨h.status, h.autocommit⟩]
    exact h
  unfold sql
  rw [run_exec, handle_conn]
  show (s.conn.next (.sql .discoverTenants) _).Resting
  cases (handle pg (.sql .discoverTenants) s).1 with
  | ok r => exact hran
  | error e => exact hfail

end

/-! ### Twin systems -/

/-- No other session commits between the commands of the step. -/
def alone : Nat → List Request := fun _ => []

structure TwinSystems (κ : Renaming Table) (tenant : Str) (ρ : Renaming Table) (s t : System) : Prop where
  db : Alike κ tenant ρ s.db t.db
  queue : s.queue = t.queue
  left : s.conn.Resting
  right : t.conn.Resting

/-- Both runs return, with results in `V`, or raise the same. -/
inductive AnswerTwin {α β : Type} (V : α → β → Prop) : Except Exn α → Except Exn β → Prop
  | ok {a : α} {b : β} (h : V a b) : AnswerTwin V (.ok a) (.ok b)
  | error (e : Exn) : AnswerTwin V (.error e) (.error e)

theorem AnswerTwin.eq {α : Type} {r r' : Except Exn α} (h : AnswerTwin (· = ·) r r') : r = r' := by
  cases h with
  | ok h => rw [h]
  | error e => rfl

theorem AnswerTwin.imp {α β : Type} {V V' : α → β → Prop} {r : Except Exn α} {r' : Except Exn β}
    (h : AnswerTwin V r r') (hV : ∀ a b, V a b → V' a b) : AnswerTwin V' r r' := by
  cases h with
  | ok h => exact .ok (hV _ _ h)
  | error e => exact .error e

section
variable {pg : Pg} {κ ρ : Renaming Table} {tenant : Str} {db db' : Db} {s t : Session}

theorem TwinSessions.of_alike (h : Alike κ tenant ρ db db') {a b : Conn} (hconn : a.Like b) (ν : Nat → Choice)
    (others others' : Nat → Db → Db) (ho : ∀ n, others n = id) (ho' : ∀ n, others' n = id) (log log' : Log) :
    TwinSessions κ tenant ρ { db, conn := a, nature := ν, others, log }
      { db := db', conn := b, nature := ν, others := others', log := log' } where
  committed := h.toTwin
  view := h
  conn := hconn
  startedAt := rfl
  nature := rfl
  alone := ⟨ho, ho'⟩
  idle _ := ⟨rfl, rfl⟩

theorem AgreeIn.run {α β : Type} {J : Conn → Prop} {V : Renaming Table → α → β → Prop} {p : App α} {p' : App β}
    (h : AgreeIn pg κ tenant J V ρ p p' s t) :
    ∃ ρ', ρ ≤ ρ' ∧ AnswerTwin (V ρ') (p.run (handle pg) s).1 (p'.run (handle pg) t).1 ∧
      TwinSessions κ tenant ρ' (p.run (handle pg) s).2 (p'.run (handle pg) t).2 := by
  unfold AgreeIn Agree wp₂ at h
  revert h
  rcases p.run (handle pg) s with ⟨_ | _, _⟩ <;> rcases p'.run (handle pg) t with ⟨_ | _, _⟩
  · rintro ⟨rfl, ρ', hρ, hs⟩
    exact ⟨ρ', hρ, .error _, hs⟩
  · exact False.elim
  · exact False.elim
  · rintro ⟨ρ', hρ, hs, hV⟩
    exact ⟨ρ', hρ, .ok hV, hs.1⟩

end

namespace System
variable {w : World} {url : Option Str} {s : System}

/-- An evaluation always ends, and the connection is at rest again. -/
theorem step_evaluate (w : World) (url : Option Str) (h : s.conn.Resting) {tenant : Str} {queue : List Str}
    (hq : s.queue = tenant :: queue) (ν : Nat → Choice) : ∃ s' : Session,
      s' = ((tryEvaluateTenant url tenant).run (handle w.pg) (s.session w ν alone)).2 ∧ s'.conn.Resting ∧
      s.step w url (.evaluate ν alone) = ⟨s'.db, s'.conn, queue, s'.log⟩ := by
  obtain ⟨hok, hrest⟩ := run_tryEvaluateTenant_resting w.pg url tenant (s := s.session w ν alone) h
  refine ⟨_, rfl, hrest, ?_⟩
  simp only [step, hq]
  rw [hok]
  rfl

end System

namespace TwinSystems
variable {w : World} {url : Option Str} {κ ρ : Renaming Table} {tenant : Str} {s t : System}

/-- A request for the tenant, or for nobody in particular. -/
theorem request (w : World) (url : Option Str) (h : TwinSystems κ tenant ρ s t) {r r' : Request}
    (hown : ¬r.call.Foreign tenant)
    (hcall : Call.Twin tenant s.db t.db r.call r'.call) (hconn : r.conn.Like r'.conn) (hnature : r.nature = r'.nature) :
    ∃ ρ', ρ ≤ ρ' ∧ AnswerTwin (ResponseTwin ρ') (r.run w s.db).1 (r'.run w t.db).1 ∧
      TwinSystems κ tenant ρ' (s.step w url (.request r)) (t.step w url (.request r')) := by
  obtain ⟨call', conn', nature'⟩ := r'
  subst hnature
  have hs := TwinSessions.of_alike h.db hconn r.nature (fun _ => id) (fun _ => id) (fun _ => rfl) (fun _ => rfl) {} {}
  obtain ⟨ρ', hρ, hanswer, hs'⟩ := (agree_call w hs hown hcall).run
  exact ⟨ρ', hρ, hanswer, hs'.alike_db, h.queue, h.left, h.right⟩

/-- A request for another tenant, in the first run. -/
theorem request_left (h : TwinSystems κ tenant ρ s t) (hκ : ∀ c i j, κ c i j) {r : Request}
    (hr : r.call.Foreign tenant) : TwinSystems κ tenant ρ (s.step w url (.request r)) t :=
  ⟨h.db.leftAlone hκ (r.leftAlone w hr s.db) (.refl tenant t.db), h.queue, h.left, h.right⟩

/-- A request for another tenant, in the second run. -/
theorem request_right (h : TwinSystems κ tenant ρ s t) (hκ : ∀ c i j, κ c i j) {r : Request}
    (hr : r.call.Foreign tenant) : TwinSystems κ tenant ρ s (t.step w url (.request r)) :=
  ⟨h.db.leftAlone hκ (.refl tenant s.db) (r.leftAlone w hr t.db), h.queue, h.left, h.right⟩

theorem sessions (w : World) (h : TwinSystems κ tenant ρ s t) (ν : Nat → Choice) :
    TwinSessions κ tenant ρ (s.session w ν alone) (t.session w ν alone) :=
  .of_alike h.db (h.left.like h.right) ν _ _ (fun _ => rfl) (fun _ => rfl) s.log t.log

theorem discover (h : TwinSystems κ tenant ρ s t) (ν : Nat → Choice) :
    ∃ ρ', ρ ≤ ρ' ∧ TwinSystems κ tenant ρ' (s.step w url (.discover ν alone)) (t.step w url (.discover ν alone)) := by
  simp only [System.step]
  rw [← h.queue]
  split
  · have hs := sessions w h ν
    obtain ⟨ρ', hρ, hanswer, hs'⟩ := (agree_sql hs fun _ horder => alike_discoverTenants hs.view horder).run
    refine ⟨ρ', hρ, hs'.alike_db, ?_, discover_resting w.pg h.left, discover_resting w.pg h.right⟩
    unfold System.after
    dsimp only
    rw [hanswer.eq]
  · exact ⟨ρ, le_rfl, h⟩

theorem evaluate (w : World) (url : Option Str) (h : TwinSystems κ tenant ρ s t) {queue : List Str}
    (hq : s.queue = tenant :: queue) (ν : Nat → Choice) :
    ∃ ρ', ρ ≤ ρ' ∧ TwinSystems κ tenant ρ' (s.step w url (.evaluate ν alone)) (t.step w url (.evaluate ν alone)) := by
  obtain ⟨s', hs', hrest, hstep⟩ := System.step_evaluate w url h.left hq ν
  obtain ⟨t', ht', hrest', hstep'⟩ := System.step_evaluate w url h.right (h.queue ▸ hq) ν
  obtain ⟨ρ', hρ, -, htwin⟩ := (agree_tryEvaluateTenant w.pg (sessions w h ν) url).run
  rw [← hs', ← ht'] at htwin
  rw [hstep, hstep']
  exact ⟨ρ', hρ, htwin.alike_db, rfl, hrest, hrest'⟩

theorem evaluate_other (h : TwinSystems κ tenant ρ s t) (hκ : ∀ c i j, κ c i j) {other : Str} {queue : List Str}
    (hq : s.queue = other :: queue) (hother : other ≠ tenant) (ν ν' : Nat → Choice) :
    TwinSystems κ tenant ρ (s.step w url (.evaluate ν alone)) (t.step w url (.evaluate ν' alone)) := by
  obtain ⟨s', hs', hrest, hstep⟩ := System.step_evaluate w url h.left hq ν
  obtain ⟨t', ht', hrest', hstep'⟩ := System.step_evaluate w url h.right (h.queue ▸ hq) ν'
  have hleft : s.db.LeftAlone tenant s'.db :=
    hs' ▸ (elsewhere_tryEvaluateTenant url hother s.conn).leftAlone (s := s.session w ν alone) (fun _ => rfl) rfl
  have hright : t.db.LeftAlone tenant t'.db :=
    ht' ▸ (elsewhere_tryEvaluateTenant url hother t.conn).leftAlone (s := t.session w ν' alone) (fun _ => rfl) rfl
  rw [hstep, hstep']
  exact ⟨h.db.leftAlone hκ hleft hright, rfl, hrest, hrest'⟩

end TwinSystems

/-! ### Runs -/

instance (tenant : Str) (call : Call) : Decidable (call.Foreign tenant) :=
  decidable_of_iff (call.tenant.any fun t => decide (t ≠ tenant)) (by
    unfold Call.Foreign
    rw [Option.any_eq_true]
    exact exists_congr fun t => and_congr Iff.rfl decide_eq_true_iff)

namespace System

/-- What the tenant's callers are answered, and those of nobody in particular. -/
def answers (w : World) (url : Option Str) (tenant : Str) : System → List Action → List (Except Exn Response)
  | _, [] => []
  | s, a :: actions =>
    let rest := answers w url tenant (s.step w url a) actions
    match a with
    | .request r => if r.call.Foreign tenant then rest else (r.run w s.db).1 :: rest
    | _ => rest

/-- Two lists of steps, taken from two states, that differ in the steps made for tenants other than `tenant`. Of the
others, `own` says which calls correspond. Each step runs alone. -/
inductive SameFor (w : World) (url : Option Str) (tenant : Str) (own : Db → Db → Call → Call → Prop) :
    System → System → List Action → List Action → Prop
  | nil (s t : System) : SameFor w url tenant own s t [] []
  | left {s t : System} {as bs : List Action} (r : Request) (hr : r.call.Foreign tenant)
    (h : SameFor w url tenant own (s.step w url (.request r)) t as bs) :
    SameFor w url tenant own s t (.request r :: as) bs
  | right {s t : System} {as bs : List Action} (r : Request) (hr : r.call.Foreign tenant)
    (h : SameFor w url tenant own s (t.step w url (.request r)) as bs) :
    SameFor w url tenant own s t as (.request r :: bs)
  | request {s t : System} {as bs : List Action} (r r' : Request) (hr : ¬r.call.Foreign tenant)
    (hr' : ¬r'.call.Foreign tenant) (hcall : own s.db t.db r.call r'.call) (hconn : r.conn.Like r'.conn)
    (hnature : r.nature = r'.nature)
    (h : SameFor w url tenant own (s.step w url (.request r)) (t.step w url (.request r')) as bs) :
    SameFor w url tenant own s t (.request r :: as) (.request r' :: bs)
  | discover {s t : System} {as bs : List Action} (ν : Nat → Choice)
    (h : SameFor w url tenant own (s.step w url (.discover ν alone)) (t.step w url (.discover ν alone)) as bs) :
    SameFor w url tenant own s t (.discover ν alone :: as) (.discover ν alone :: bs)
  | evaluate {s t : System} {as bs : List Action} (ν ν' : Nat → Choice) (hν : s.queue.head? = some tenant → ν = ν')
    (h : SameFor w url tenant own (s.step w url (.evaluate ν alone)) (t.step w url (.evaluate ν' alone)) as bs) :
    SameFor w url tenant own s t (.evaluate ν alone :: as) (.evaluate ν' alone :: bs)

end System

section
variable {w : World} {url : Option Str} {κ ρ : Renaming Table} {tenant : Str} {s t : System} {as bs : List Action}

theorem TwinSystems.run (h : TwinSystems κ tenant ρ s t) (hκ : ∀ c i j, κ c i j)
    (hsame : System.SameFor w url tenant (Call.Twin tenant) s t as bs) :
    ∃ ρ', ρ ≤ ρ' ∧ TwinSystems κ tenant ρ' (s.run w url as) (t.run w url bs) ∧
      Forall₂ (AnswerTwin (ResponseTwin ρ')) (s.answers w url tenant as) (t.answers w url tenant bs) := by
  induction hsame generalizing ρ with
  | nil s t => exact ⟨ρ, le_rfl, h, .nil⟩
  | left r hr _ ih =>
    obtain ⟨ρ', hρ, hrun, hanswers⟩ := ih (h.request_left hκ hr)
    refine ⟨ρ', hρ, hrun, ?_⟩
    rw [System.answers, if_pos hr]
    exact hanswers
  | right r hr _ ih =>
    obtain ⟨ρ', hρ, hrun, hanswers⟩ := ih (h.request_right hκ hr)
    refine ⟨ρ', hρ, hrun, ?_⟩
    rw [System.answers, if_pos hr]
    exact hanswers
  | request r r' hr hr' hcall hconn hnature _ ih =>
    obtain ⟨ρ', hρ, hanswer, hstep⟩ := h.request w url hr hcall hconn hnature
    obtain ⟨ρ'', hρ', hrun, hanswers⟩ := ih hstep
    refine ⟨ρ'', hρ.trans hρ', hrun, ?_⟩
    rw [System.answers, System.answers, if_neg hr, if_neg hr']
    exact .cons (hanswer.imp fun _ _ => .of_le hρ') hanswers
  | discover ν _ ih =>
    obtain ⟨ρ', hρ, hstep⟩ := h.discover ν
    obtain ⟨ρ'', hρ', hrun, hanswers⟩ := ih hstep
    exact ⟨ρ'', hρ.trans hρ', hrun, hanswers⟩
  | @evaluate s t as bs ν ν' hν _ ih =>
    have hstep : ∃ ρ', ρ ≤ ρ' ∧
        TwinSystems κ tenant ρ' (s.step w url (.evaluate ν alone)) (t.step w url (.evaluate ν' alone)) := by
      cases hq : s.queue with
      | nil =>
        have hq' : t.queue = [] := h.queue ▸ hq
        simp only [System.step, hq, hq']
        exact ⟨ρ, le_rfl, h⟩
      | cons other queue =>
        by_cases hother : other = tenant
        · subst hother
          obtain rfl : ν = ν' := hν (by rw [hq]; rfl)
          exact h.evaluate w url hq ν
        · exact ⟨ρ, le_rfl, h.evaluate_other hκ hq hother ν ν'⟩
    obtain ⟨ρ', hρ, hstep⟩ := hstep
    obtain ⟨ρ'', hρ', hrun, hanswers⟩ := ih hstep
    exact ⟨ρ'', hρ.trans hρ', hrun, hanswers⟩

end

/-! ### Hidden rows -/

/-- The database without the rows of one tenant. -/
def Db.hide (db : Db) (tenant : Str) : Db :=
  { db with
    events := db.events.filter (·.tenant ≠ tenant)
    alertRules := db.alertRules.filter (·.tenant ≠ tenant)
    alerts := db.alerts.filter (·.tenant ≠ tenant) }

section
variable {w : World} {url : Option Str} {ρ : Renaming Table} {tenant t : Str} {db : Db} {s : System}

/-- The rows of another tenant are all there. -/
theorem filter_rls_hide {α : Type} (l : List α) (f : α → Str) (h : t ≠ tenant) :
    (l.filter fun a => decide (f a ≠ tenant)).filter (fun a => rls (some t) (f a)) =
      l.filter fun a => rls (some t) (f a) := by
  rw [List.filter_filter]
  refine List.filter_congr fun a _ => ?_
  rw [rls_some, Bool.and_eq_left_iff_imp]
  intro ha
  rw [decide_eq_true_eq] at ha ⊢
  rw [ha]
  exact h

/-- The identity values taken so far, each as itself. -/
def Sequences.taken (q : Sequences) : Renaming Table := fun c i j => i = j ∧ i < q.next c

theorem Sequences.fresh_taken (q : Sequences) : Renaming.Fresh (fun _ => Eq) q.taken q.next q.next where
  within _ _ _ h := h.1
  next _ _ := rfl
  left _ _ _ _ h h' := h.1.symm.trans h'.1
  right _ _ _ _ h h' := h.1.trans h'.1.symm
  lt _ _ _ h := ⟨h.2, h.1 ▸ h.2⟩

theorem Alike.hide {κ : Renaming Table} (h : Alike κ t ρ db db) (ht : t ≠ tenant) :
    Alike (fun _ => Eq) t db.sequences.taken db (db.hide tenant) where
  users := rfl
  events := by
    have heq : (db.hide tenant).visibleEvents (some t) = db.visibleEvents (some t) :=
      filter_rls_hide db.events (fun e => e.tenant) ht
    rw [heq]
    have hself := List.forall₂_same.1 h.events
    exact List.forall₂_same.2 fun e he => ⟨⟨rfl, (h.fresh.lt _ _ _ (hself e he).id).1⟩, rfl⟩
  rules := by
    have heq : (db.hide tenant).visibleRules (some t) = db.visibleRules (some t) :=
      filter_rls_hide db.alertRules (fun r => r.tenant) ht
    rw [heq]
    have hself := List.forall₂_same.1 h.rules
    exact List.forall₂_same.2 fun r hr => ⟨⟨rfl, (h.fresh.lt _ _ _ (hself r hr).id).1⟩, rfl⟩
  alerts := by
    have heq : (db.hide tenant).visibleAlerts (some t) = db.visibleAlerts (some t) :=
      filter_rls_hide db.alerts (fun a => a.tenant) ht
    rw [heq]
    have hself := List.forall₂_same.1 h.alerts
    exact List.forall₂_same.2 fun a ha =>
      ⟨⟨rfl, (h.fresh.lt _ _ _ (hself a ha).id).1⟩, ⟨rfl, (h.fresh.lt _ _ _ (hself a ha).rule).1⟩, rfl⟩
  one_rule := h.one_rule
  userId := rfl
  fresh := db.sequences.fresh_taken

/-- Twins without a renaming have the same rows. -/
theorem Alike.sameRows {db' : Db} (h : Alike (fun _ => Eq) t ρ db db') : Db.SameRows t db db' where
  events := (h.events.eq_of fun _ _ => EventTwin.same h.fresh.within).symm
  rules := (h.rules.eq_of fun _ _ => RuleTwin.same h.fresh.within).symm
  alerts := (h.alerts.eq_of fun _ _ => AlertTwin.same h.fresh.within).symm

end

/-! ### Noninterference -/

/-- The step runs alone. -/
def Action.Alone : Action → Prop
  | .request _ => True
  | .discover _ between => between = alone
  | .evaluate _ between => between = alone

namespace System

/-- The tenant that a step is made for. -/
def tenantOf (s : System) : Action → Option Str
  | .request r => r.call.tenant
  | .discover _ _ => none
  | .evaluate _ _ => s.queue.head?

/-- What a step answers its caller. -/
def answer (w : World) (s : System) : Action → Option (Except Exn Response)
  | .request r => some (r.run w s.db).1
  | _ => none

def hide (s : System) (tenant : Str) : System := { s with db := s.db.hide tenant }

variable {w : World} {url : Option Str} {κ ρ : Renaming Table} {tenant t : Str} {s : System} {a : Action}

theorem SameFor.refl (w : World) (url : Option Str) (tenant : Str) {actions : List Action}
    (h : ∀ a ∈ actions, a.Alone) :
    SameFor w url tenant (Call.Twin tenant) s s actions actions := by
  induction actions generalizing s with
  | nil => exact .nil s s
  | cons a actions ih =>
    have hrest : ∀ s, SameFor w url tenant (Call.Twin tenant) s s actions actions := fun s =>
      ih fun a ha => h a (List.mem_cons_of_mem _ ha)
    have ha := h a List.mem_cons_self
    cases a with
    | request r =>
      by_cases hr : r.call.Foreign tenant
      · exact .left r hr (.right r hr (hrest _))
      · exact .request r r hr hr (.self (fun _ => Iff.rfl) r.call) ⟨rfl, rfl, rfl⟩ rfl (hrest _)
    | discover ν between =>
      obtain rfl : between = alone := ha
      exact .discover ν (hrest _)
    | evaluate ν between =>
      obtain rfl : between = alone := ha
      exact .evaluate ν ν (fun _ => rfl) (hrest _)

/-- A step for another tenant leaves the tenant's rows, and does not depend on them. -/
theorem confined (h : TwinSystems κ t ρ s s) (ha : a.Alone) (htenant : s.tenantOf a = some t) (ht : t ≠ tenant) :
    Db.SameRows tenant s.db (s.step w url a).db ∧ s.answer w a = (s.hide tenant).answer w a ∧
      Db.SameRows t (s.step w url a).db ((s.hide tenant).step w url a).db := by
  have hhide : TwinSystems (fun _ => Eq) t s.db.sequences.taken s (s.hide tenant) := ⟨h.db.hide ht, rfl, h.left, h.right⟩
  cases a with
  | discover ν between => cases htenant
  | request r =>
    have hown : ¬r.call.Foreign t := by
      rintro ⟨t', ht', hne⟩
      exact hne (Option.some.inj (ht'.symm.trans htenant))
    have hnames : ∀ ruleId, s.db.HasRule t ruleId ↔ (s.hide tenant).db.HasRule t ruleId := fun ruleId => by
      unfold Db.HasRule
      rw [hhide.db.sameRows.rules]
    obtain ⟨ρ', -, hanswer, hstep⟩ := hhide.request w url hown (.self hnames r.call) ⟨rfl, rfl, rfl⟩ rfl
    have hsame := (hanswer.imp fun _ _ => ResponseTwin.same hstep.db.fresh.within).eq
    exact ⟨(r.leftAlone w ⟨t, htenant, ht⟩ s.db).toSameRows, congrArg some hsame, hstep.db.sameRows⟩
  | evaluate ν between =>
    obtain rfl : between = alone := ha
    obtain ⟨queue, hq⟩ : ∃ queue, s.queue = t :: queue := List.head?_eq_some_iff.1 htenant
    obtain ⟨s', hs', -, hstep⟩ := step_evaluate w url h.left hq ν
    have hleft : s.db.LeftAlone tenant s'.db :=
      hs' ▸ (elsewhere_tryEvaluateTenant url ht s.conn).leftAlone (s := s.session w ν alone) (fun _ => rfl) rfl
    obtain ⟨ρ', -, htwin⟩ := hhide.evaluate w url hq ν
    refine ⟨?_, rfl, htwin.db.sameRows⟩
    rw [hstep]
    exact hleft.toSameRows

end System

/-- `POST /alert-rules` by the admin of the tenant. -/
def postRule (tenant : Str) : Request where
  call := .createAlertRule .standard ⟨str "admin", .admin, tenant⟩
  conn := { autocommit := false }
  nature _ := {}

/-- `PATCH /alert-rules/{ruleId}` by the admin of the tenant. -/
def patchRule (tenant : Str) (ruleId : Int) : Request where
  call := .updateAlertRule ruleId { threshold := some (some 7) } ⟨str "admin", .admin, tenant⟩
  conn := { autocommit := false }
  nature _ := {}

section
variable {w : World} {url : Option Str} {tenant : Str}

theorem TwinSystems.init (tenant : Str) : TwinSystems (fun _ _ _ => True) tenant .empty {} {} where
  db := ⟨⟨rfl, .nil, .nil, .nil, Nat.zero_le 1⟩, rfl, .empty fun _ _ => trivial⟩
  queue := rfl
  left := ⟨rfl, rfl, rfl⟩
  right := ⟨rfl, rfl, rfl⟩

/-- Two runs that differ in what is done for other tenants, where the tenant's rule is named in both by its own id or in
neither, show the tenant the same up to the ids; and a step for another tenant neither changes the tenant's rows nor
depends on them. -/
theorem noninterference (w : World) (url : Option Str) (tenant : Str) :
    (∀ as bs, System.SameFor w url tenant (Call.Twin tenant) {} {} as bs →
      ∃ ρ : Renaming Table, ρ.OneToOne ∧ Twin tenant ρ (System.run w url {} as).db (System.run w url {} bs).db ∧
        Forall₂ (AnswerTwin (ResponseTwin ρ)) (System.answers w url tenant {} as)
          (System.answers w url tenant {} bs)) ∧
    ∀ actions, (∀ a ∈ actions, a.Alone) → ∀ s, s = System.run w url {} actions →
      ∀ a t, a.Alone → s.tenantOf a = some t → t ≠ tenant →
        Db.SameRows tenant s.db (s.step w url a).db ∧ s.answer w a = (s.hide tenant).answer w a ∧
        Db.SameRows t (s.step w url a).db ((s.hide tenant).step w url a).db := by
  constructor
  · intro as bs hsame
    obtain ⟨ρ, -, hrun, hanswers⟩ := (TwinSystems.init tenant).run (fun _ _ _ => trivial) hsame
    exact ⟨ρ, hrun.db.fresh.toOneToOne, hrun.db.toTwin, hanswers⟩
  · rintro actions hactions s rfl a t ha htenant ht
    obtain ⟨ρ, -, hrun, -⟩ := (TwinSystems.init t).run (fun _ _ _ => trivial) (.refl w url t hactions)
    exact System.confined hrun ha htenant ht

/-- Another tenant's rule takes the id 1, and another tenant names the rule of the tenant. -/
theorem noninterference_sample :
    (∃ ρ : Renaming Table, ρ.OneToOne ∧
      Twin (str "demoA") ρ
        (System.run .sample none {} [.request (postRule (str "demoB")), .request (postRule (str "demoA")),
          .request (patchRule (str "demoA") 2)]).db
        (System.run .sample none {} [.request (postRule (str "demoA")), .request (patchRule (str "demoA") 1)]).db ∧
      Forall₂ (AnswerTwin (ResponseTwin ρ))
        (System.answers .sample none (str "demoA") {} [.request (postRule (str "demoB")),
          .request (postRule (str "demoA")), .request (patchRule (str "demoA") 2)])
        (System.answers .sample none (str "demoA") {} [.request (postRule (str "demoA")),
          .request (patchRule (str "demoA") 1)])) ∧
    let s := System.run .sample none {} [.request (postRule (str "demoA"))]
    let a := Action.request (patchRule (str "demoB") 1)
    Db.SameRows (str "demoA") s.db (s.step .sample none a).db ∧
      s.answer .sample a = (s.hide (str "demoA")).answer .sample a ∧
      Db.SameRows (str "demoB") (s.step .sample none a).db ((s.hide (str "demoA")).step .sample none a).db := by
  have hforeign : (postRule (str "demoB")).call.Foreign (str "demoA") := ⟨str "demoB", rfl, by decide⟩
  have hpost : ¬(postRule (str "demoA")).call.Foreign (str "demoA") := by decide
  have hpatch : ∀ ruleId, ¬(patchRule (str "demoA") ruleId).call.Foreign (str "demoA") := by
    rintro ruleId ⟨t, ⟨⟩, ht⟩
    exact ht rfl
  obtain ⟨hruns, hstep⟩ := noninterference .sample none (str "demoA")
  refine ⟨hruns _ _ (.left _ hforeign (.request _ _ hpost hpost (.refl _ (by simp [postRule])) ⟨rfl, rfl, rfl⟩ rfl
    (.request _ _ (hpatch 2) (hpatch 1) (.updateAlertRule 2 1 _ _ ?_) ⟨rfl, rfl, rfl⟩ rfl (.nil _ _)))), ?_⟩
  · exact iff_of_true ⟨_, List.mem_cons_self, rfl⟩ ⟨_, List.mem_cons_self, rfl⟩
  · exact hstep [.request (postRule (str "demoA"))] (by simp [Action.Alone]) _ rfl _ (str "demoB") trivial rfl (by decide)

/-- The same `PATCH` names the tenant's rule in one run and not in the other, where another tenant's rule took the id. -/
theorem patch_depends_on_others : ¬∀ as bs, System.SameFor World.sample none (str "demoA") (fun _ _ => Eq) {} {} as bs →
    ∃ ρ : Renaming Table, ρ.OneToOne ∧
      Twin (str "demoA") ρ (System.run World.sample none {} as).db (System.run World.sample none {} bs).db ∧
      Forall₂ (AnswerTwin (ResponseTwin ρ)) (System.answers World.sample none (str "demoA") {} as)
        (System.answers World.sample none (str "demoA") {} bs) := by
  intro h
  have hforeign : (postRule (str "demoB")).call.Foreign (str "demoA") := ⟨str "demoB", rfl, by decide⟩
  have hown : ∀ r, r = postRule (str "demoA") ∨ r = patchRule (str "demoA") 1 → ¬r.call.Foreign (str "demoA") := by
    rintro r (rfl | rfl) <;> decide
  obtain ⟨ρ, -, -, hanswers⟩ := h
    [.request (postRule (str "demoB")), .request (postRule (str "demoA")), .request (patchRule (str "demoA") 1)]
    [.request (postRule (str "demoA")), .request (patchRule (str "demoA") 1)]
    (.left _ hforeign (.request _ _ (hown _ (.inl rfl)) (hown _ (.inl rfl)) rfl ⟨rfl, rfl, rfl⟩ rfl
      (.request _ _ (hown _ (.inr rfl)) (hown _ (.inr rfl)) rfl ⟨rfl, rfl, rfl⟩ rfl (.nil _ _))))
  cases hanswers with
  | cons _ htail =>
    cases htail with
    | cons hanswer _ => cases hanswer

end

end LogMgmt
