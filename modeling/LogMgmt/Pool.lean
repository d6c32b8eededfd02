import LogMgmt.Api
import LogMgmt.Dispatcher
import LogMgmt.Transactions
import Mathlib.Logic.Function.Basic
import Mathlib.Logic.Relation

/-!
# The connection pool

`backend/db.py`: requests share the connections of a pool. A connection is idle or serves one request,
which issues its next command at any time and may be ended by an exception at any point; the pool then
ends the transaction and takes the connection back. The answers are arbitrary: what is shown here
(`Pool.Inv`) rests on the order in which the programs issue their commands and on how `app.tenant`
follows the transactions (`Conn.next`), not on what the database holds.
-/

namespace LogMgmt
open Prog

/-! ### The machine -/

inductive Slot where
  | idle (conn : Conn)
  | busy (conn : Conn) (call : Call) (rest : App Response)

def Slot.conn : Slot → Conn
  | idle conn => conn
  | busy conn _ _ => conn

/-- A statement that was sent to the server, with `app.tenant` as it was then. -/
structure Executed where
  stmt : Stmt
  call : Call
  setting : Option Str

def Cmd.executed (conn : Conn) (call : Call) : Cmd → List Executed
  | sql stmt => [⟨stmt, call, conn.tenant⟩]
  | _ => []

structure Pool (n : Nat) where
  slots : Fin n → Slot
  log : List Executed

namespace Pool
variable {n : Nat}

/-- New connections only. -/
def init (autocommit : Fin n → Bool) : Pool n where
  slots i := .idle { autocommit := autocommit i }
  log := []

def set (p : Pool n) (i : Fin n) (slot : Slot) : Pool n :=
  { p with slots := Function.update p.slots i slot }

inductive Step (w : World) : Pool n → Pool n → Prop
  /-- A request gets an idle connection. -/
  | checkout (p : Pool n) (i : Fin n) (conn : Conn) (call : Call) (h : p.slots i = .idle conn) :
    Step w p (p.set i (.busy conn call (call.app w)))
  /-- A request issues its next command and gets some answer. -/
  | command (p : Pool n) (i : Fin n) (conn : Conn) (call : Call) (c : Cmd) (k : c.Answer → App Response)
      (r : c.Answer) (h : p.slots i = .busy conn call (.call c k)) :
    Step w p { p.set i (.busy (conn.next c r) call (k r)) with log := p.log ++ c.executed conn call }
  /-- A request ends: it is done, it has raised, or an exception hits it at this point. -/
  | leave (p : Pool n) (i : Fin n) (conn : Conn) (call : Call) (rest : App Response)
      (h : p.slots i = .busy conn call rest) : Step w p (p.set i (.idle conn.endTx))
  /-- The pool replaces a connection that it found closed. -/
  | replace (p : Pool n) (i : Fin n) (conn : Conn) (h : p.slots i = .idle conn) :
    Step w p (p.set i (.idle { autocommit := conn.autocommit }))

/-- What some interleaving of requests leads to. -/
def Reachable (w : World) (p : Pool n) : Prop :=
  ∃ autocommit, Relation.ReflTransGen (Step w) (init autocommit) p

end Pool

/-! ### The programs -/

/-- The command may run: if it is on a tenant's table, `app.tenant` is the tenant of the call. -/
def TenantSet (tenant : Option Str) (conn : Conn) : Cmd → Prop
  | .sql stmt => stmt.tenantTable → ∃ t, tenant = some t ∧ conn.tenant = some t
  | _ => True

/-- In a transaction that has set its tenant. -/
structure InTenant (t : Str) (conn : Conn) : Prop where
  status : conn.status = .inTx
  tenant : conn.localTenant = some t

/-- Whatever the answers, the program runs its statements under the tenant `t`. -/
abbrev App.Sets (tenant : Option Str) (p : App α) (conn : Conn) : Prop :=
  Safe (TenantSet tenant) Conn.next (fun _ => True) (fun _ => True) p conn

section
variable {α : Type} {tenant : Option Str} {t : Str} {conn : Conn} {J : Conn → Prop}

theorem safe_exec {c : Cmd} (hc : TenantSet tenant conn c) (hJ : ∀ r, J (conn.next c (.ok r))) :
    Safe (TenantSet tenant) Conn.next J (fun _ => True) (exec c) conn := by
  refine ⟨hc, fun r => ?_⟩
  cases r with
  | ok r => exact hJ r
  | error e => trivial

theorem safe_untenanted {stmt : Stmt} (hs : stmt.tenantTable = false) : App.Sets tenant (sql stmt) conn :=
  safe_exec (by simp [TenantSet, hs]) fun _ => trivial

theorem safe_withConn {p : App α} (hp : App.Sets tenant p conn) : App.Sets tenant (withConn p) conn := by
  refine Safe.bind (Safe.tryCatch (L := fun _ => True) hp fun e conn _ => ?_) fun a conn _ => ?_
  · exact ⟨trivial, fun _ => trivial⟩
  · exact Safe.bind (J := fun _ => True) (safe_exec trivial fun _ => trivial) fun _ _ _ => trivial

theorem InTenant.ran {stmt : Stmt} (h : InTenant t conn) (hs : stmt.tenantTable) (r : stmt.Resp) :
    InTenant t (conn.next (.sql stmt) (.ok r)) := by
  have hran : InTenant t conn.ran := ⟨by simp [Conn.ran, h.status], by simp [Conn.ran, h.status, h.tenant]⟩
  cases stmt with
  | setTenant _ => simp [Stmt.tenantTable] at hs
  | _ => exact hran

theorem safe_sql {stmt : Stmt} (h : InTenant t conn) (hs : stmt.tenantTable) :
    Safe (TenantSet (some t)) Conn.next (InTenant t) (fun _ => True) (sql stmt) conn :=
  safe_exec (fun _ => ⟨t, rfl, by rw [Conn.tenant, h.tenant]; rfl⟩) (h.ran hs)

theorem safe_tenantTransaction {body : App α}
    (hbody : ∀ conn, InTenant t conn → App.Sets (some t) body conn) :
    App.Sets (some t) (transaction do sql (.setTenant t); body) conn := by
  refine Safe.bind (J := fun conn => conn.status = .inTx) (safe_exec trivial fun _ => rfl) fun _ conn hs => ?_
  refine safe_withConn (Safe.bind (J := InTenant t) (safe_exec (by simp [TenantSet, Stmt.tenantTable]) ?_)
    fun _ conn h => hbody conn h)
  intro r
  show InTenant t (conn.setTenant t)
  simp only [Conn.setTenant, hs, reduceCtorEq, false_and, ↓reduceIte]
  exact ⟨rfl, rfl⟩

theorem safe_tenantConn {claims : TokenClaims} {body : App α}
    (hbody : ∀ conn, InTenant claims.tenant conn → App.Sets (some claims.tenant) body conn) :
    App.Sets (some claims.tenant) (tenantConn claims body) conn :=
  safe_withConn (safe_tenantTransaction hbody)

theorem safe_requireAdmin (claims : TokenClaims) : App.Sets tenant (requireAdmin claims) conn := by
  unfold requireAdmin
  split <;> trivial

theorem safe_writeEvent (e : NormalizedEvent) : App.Sets (some e.tenant) (writeEvent e) conn :=
  safe_tenantTransaction fun _ h => (safe_sql h rfl).mono (fun _ _ => trivial) fun _ _ => trivial

theorem safe_query {stmt : Stmt} (hs : stmt.tenantTable) {f : stmt.Resp → App α}
    (hf : ∀ r conn, App.Sets (some t) (f r) conn) (h : InTenant t conn) :
    App.Sets (some t) (sql stmt >>= f) conn :=
  Safe.bind (safe_sql h hs) fun r conn _ => hf r conn

end

/-- Every program runs its statements on a tenant's tables under the tenant of its call. -/
theorem Call.sets (w : World) (call : Call) (conn : Conn) : App.Sets call.tenant (call.app w) conn := by
  cases call with
  | login username password =>
    refine safe_withConn (Safe.bind (safe_untenanted rfl) fun row conn _ => ?_)
    split <;> trivial
  | ingest body now claims =>
    refine Safe.bind (safe_requireAdmin claims) fun _ conn _ => safe_withConn ?_
    split
    · rename_i e he
      have hten : claims.tenant = e.tenant := by
        simpa using EventArgs.strField_eq_some.1 (normalize_tenant he)
      simp only [Call.tenant, hten]
      exact Safe.bind (safe_writeEvent e) fun _ _ _ => trivial
    · trivial
  | writeEvent e => exact Safe.bind (safe_writeEvent e) fun _ _ _ => trivial
  | search req claims => exact safe_tenantConn fun _ => safe_query rfl fun _ _ => trivial
  | top req claims => exact safe_tenantConn fun _ => safe_query rfl fun _ _ => trivial
  | timeline req claims => exact safe_tenantConn fun _ => safe_query rfl fun _ _ => trivial
  | listAlertRules claims => exact safe_tenantConn fun _ => safe_query rfl fun _ _ => trivial
  | createAlertRule body claims =>
    refine Safe.bind (safe_requireAdmin claims) fun _ conn _ => safe_tenantConn fun conn h => ?_
    refine Safe.bind (J := fun _ => True) (Safe.tryCatch (L := fun _ => True) ?_ fun e conn _ => ?_)
      fun _ _ _ => trivial
    · exact (safe_sql h rfl).mono (fun _ _ => trivial) fun _ _ => trivial
    · split <;> trivial
  | updateAlertRule ruleId body claims =>
    refine Safe.bind (safe_requireAdmin claims) fun _ conn _ => safe_tenantConn fun conn h => ?_
    split
    · trivial
    · refine safe_query rfl (fun r conn => ?_) h
      split <;> trivial
  | listAlerts req claims => exact safe_tenantConn fun _ => safe_query rfl fun _ _ => trivial
  | health =>
    refine Safe.tryCatch (L := fun _ => True) (safe_withConn ?_) fun _ _ _ => trivial
    exact Safe.bind (safe_untenanted rfl) fun _ _ _ => trivial
  | createUser username passwordHash role tenant => exact Safe.bind (safe_untenanted rfl) fun _ _ _ => trivial

/-! ### The invariant -/

namespace Conn

/-- Nothing but `''` is left at session level. -/
def Clean (conn : Conn) : Prop := conn.sessionTenant = none ∨ conn.sessionTenant = some []

theorem Clean.endTx {conn : Conn} (h : conn.Clean) : conn.endTx.Clean := by
  unfold Clean Conn.endTx at *
  dsimp only
  split
  · rcases h with h | h <;> simp [h]
  · exact h

theorem Clean.next {conn : Conn} (h : conn.Clean) (c : Cmd) (r : c.Answer) : (conn.next c r).Clean := by
  have hran : conn.ran.Clean := by unfold Conn.ran; split <;> exact h
  have hfail : conn.fail.Clean := by unfold Conn.fail; split <;> exact h
  cases c with
  | begin => cases r <;> exact h
  | commit => exact h.endTx
  | rollback => exact h.endTx
  | sendWebhook url payload => exact h
  | sql stmt =>
    cases r with
    | error e => cases stmt <;> exact hfail
    | ok r =>
      cases stmt with
      | setTenant tenant =>
        show (conn.setTenant tenant).Clean
        unfold Conn.setTenant
        split
        · exact Clean.endTx h
        · exact h
      | _ => exact hran

end Conn

namespace Pool
variable {n : Nat} {w : World} {p p' : Pool n}

structure Inv (p : Pool n) : Prop where
  clean : ∀ i, (p.slots i).conn.Clean
  idle : ∀ i conn, p.slots i = .idle conn → conn.localTenant = none
  busy : ∀ i conn call rest, p.slots i = .busy conn call rest → App.Sets call.tenant rest conn
  log : ∀ x ∈ p.log, x.stmt.tenantTable → ∃ t, x.call.tenant = some t ∧ x.setting = some t

theorem Inv.init (autocommit : Fin n → Bool) : Inv (init autocommit) where
  clean _ := .inl rfl
  idle _ _ h := by cases h; rfl
  busy _ _ _ _ h := by cases h
  log _ h := by cases h

theorem Inv.set (h : Inv p) (i : Fin n) (slot : Slot) (hclean : slot.conn.Clean)
    (hidle : ∀ conn, slot = .idle conn → conn.localTenant = none)
    (hbusy : ∀ conn call rest, slot = .busy conn call rest → App.Sets call.tenant rest conn) :
    Inv (p.set i slot) where
  clean j := by
    by_cases hj : j = i
    · subst hj; simpa [Pool.set] using hclean
    · simpa [Pool.set, hj] using h.clean j
  idle j conn hs := by
    by_cases hj : j = i
    · subst hj; exact hidle conn (by simpa [Pool.set] using hs)
    · exact h.idle j conn (by simpa [Pool.set, hj] using hs)
  busy j conn call rest hs := by
    by_cases hj : j = i
    · subst hj; exact hbusy conn call rest (by simpa [Pool.set] using hs)
    · exact h.busy j conn call rest (by simpa [Pool.set, hj] using hs)
  log := h.log

theorem Inv.step (h : Inv p) (hs : Step w p p') : Inv p' := by
  cases hs with
  | checkout i conn call hi =>
    refine h.set i _ (by simpa [hi, Slot.conn] using h.clean i) (by simp) ?_
    rintro _ _ _ ⟨⟩
    exact call.sets w conn
  | command i conn call c k r hi =>
    have hc : conn.Clean := by simpa [hi, Slot.conn] using h.clean i
    have hsets := h.busy i _ _ _ hi
    have hset := h.set i (.busy (conn.next c r) call (k r)) (hc.next c r) (by simp)
      (by rintro _ _ _ ⟨⟩; exact hsets.2 r)
    refine ⟨hset.clean, hset.idle, hset.busy, fun x hx => ?_⟩
    rcases List.mem_append.1 hx with hx | hx
    · exact h.log x hx
    · cases c with
      | sql stmt =>
        rw [Cmd.executed, List.mem_singleton] at hx
        subst hx
        exact hsets.1
      | _ => simp [Cmd.executed] at hx
  | leave i conn call rest hi =>
    have hc : conn.Clean := by simpa [hi, Slot.conn] using h.clean i
    refine h.set i _ hc.endTx ?_ (by simp)
    rintro _ ⟨⟩
    rfl
  | replace i conn hi =>
    refine h.set i _ (.inl rfl) ?_ (by simp)
    rintro _ ⟨⟩
    rfl

theorem Inv.of_reachable (h : Reachable w p) : Inv p := by
  obtain ⟨autocommit, hr⟩ := h
  induction hr with
  | refl => exact .init autocommit
  | tail _ hs ih => exact ih.step hs

/-- Statements on a tenant's tables run under the tenant of their request, and an idle connection has
`app.tenant` unset or `''`. -/
theorem tenant_setting {w : World} {p : Pool n} (h : Reachable w p) :
    (∀ x ∈ p.log, x.stmt.tenantTable → ∃ t, x.call.tenant = some t ∧ x.setting = some t) ∧
    ∀ i conn, p.slots i = .idle conn → conn.tenant = none ∨ conn.tenant = some [] := by
  have hinv := Inv.of_reachable h
  refine ⟨hinv.log, fun i conn hi => ?_⟩
  have hc : conn.Clean := by simpa [hi, Slot.conn] using hinv.clean i
  rw [Conn.tenant, hinv.idle i conn hi]
  exact hc

/-- One connection, one `GET /search`: its SELECT has run, and the connection is back in the pool. -/
theorem search_setting : ∃ p : Pool 1, (∃ x ∈ p.log, x.stmt.tenantTable) ∧
    (∀ x ∈ p.log, x.stmt.tenantTable → ∃ t, x.call.tenant = some t ∧ x.setting = some t) ∧
    ∀ i conn, p.slots i = .idle conn → conn.tenant = none ∨ conn.tenant = some [] := by
  let call : Call := .search {} ⟨str "viewer_a", .viewer, str "demoA"⟩
  have hrun := (((((Relation.ReflTransGen.refl (r := Step World.sample) (a := init fun _ : Fin 1 => false)).tail
    (.checkout _ 0 _ call rfl)).tail
    (.command _ 0 _ call .begin _ (.ok ()) rfl)).tail
    (.command _ 0 _ call (.sql (.setTenant (str "demoA"))) _ (.ok ()) rfl)).tail
    (.command _ 0 _ call (.sql (.searchEvents {} 51 0)) _ (.ok []) rfl)).tail
    (.leave _ 0 _ call _ rfl)
  refine ⟨_, ⟨⟨.searchEvents {} 51 0, call, some (str "demoA")⟩, ?_, rfl⟩, tenant_setting ⟨_, hrun⟩⟩
  simp [Pool.set, Cmd.executed, init, call, Conn.tenant, Conn.next, Conn.setTenant]

end Pool

end LogMgmt
