import LogMgmt.Pool
import LogMgmt.Ticks
import LogMgmt.Twin

/-!
# Steps for other tenants

What a request or an evaluation made for another tenant leaves as it was: every row of the tenant, and the
users. It can take ids.
-/

namespace LogMgmt
open Prog

/-! ### Changes -/

/-- The tenant whose row a change is about. -/
def Write.tenant : Write → Option Str
  | insertUser _ => none
  | insertEvent row => some row.tenant
  | insertRule row => some row.tenant
  | updateRule tenant _ _ _ => some tenant
  | insertAlert row => some row.tenant
  | markWebhookSent tenant _ _ => some tenant

/-- Row level security: the changes of a statement are to rows of the tenant that is set. -/
theorem Stmt.exec_tenant {pg : Pg} {ctx : Ctx} {db : Db} {stmt : Stmt} {r : stmt.Resp} {ws : List Write}
    (hx : stmt.exec pg ctx db = .ok (r, ws)) {w : Write} (hw : w ∈ ws) {t : Str} (ht : w.tenant = some t) :
    ctx.tenant = some t := by
  have hrls : ∀ {t' : Str}, ¬(!rls ctx.tenant t') = true → ctx.tenant = some t' := fun {t'} h => by
    rw [Bool.not_eq_true', Bool.not_eq_false, rls, beq_iff_eq] at h
    exact h
  cases stmt with
  | insertUser username passwordHash role tenant =>
    simp only [exec] at hx
    split_ifs at hx
    cases hx
    rw [List.mem_singleton.1 hw] at ht
    cases ht
  | insertEvent e =>
    simp only [exec] at hx
    split at hx
    · cases hx
    rename_i cols hcols
    split_ifs at hx with h
    cases hx
    rw [List.mem_singleton.1 hw] at ht
    have htenant : cols.tenant = t := Option.some.inj ht
    rw [← htenant, EventColumns.ofParams_tenant hcols]
    exact hrls h
  | insertRule r =>
    simp only [exec] at hx
    split_ifs at hx with _ h
    cases hx
    rw [List.mem_singleton.1 hw] at ht
    exact (hrls h).trans ht
  | updateRule set ruleId =>
    simp only [exec] at hx
    split at hx
    · cases hx
    split at hx
    · cases hx
      cases hw
    rename_i r hr
    split_ifs at hx
    cases hx
    rw [List.mem_singleton.1 hw] at ht
    have hvis := List.of_mem_filter (List.mem_of_find?_eq_some hr)
    rw [rls, beq_iff_eq] at hvis
    exact hvis.trans ht
  | insertAlert a =>
    simp only [exec] at hx
    split_ifs at hx with _ h
    cases hx
    rw [List.mem_singleton.1 hw] at ht
    exact (hrls h).trans ht
  | markWebhookSent id =>
    simp only [exec] at hx
    split at hx
    · cases hx
      cases hw
    · rename_i a ha
      cases hx
      rw [List.mem_singleton.1 hw] at ht
      have hvis := List.of_mem_filter (List.mem_of_find?_eq_some ha)
      rw [rls, beq_iff_eq] at hvis
      exact hvis.trans ht
  | _ =>
    simp only [exec] at hx
    repeat' split at hx
    all_goals first | (obtain ⟨-, -, rfl⟩ := loaded_eq_ok.1 hx; cases hw) | (cases hx; cases hw) | cases hx

/-- Under the setting of `t` the changes are to rows of `t`. -/
theorem Stmt.exec_own {pg : Pg} {ctx : Ctx} {db : Db} {stmt : Stmt} {r : stmt.Resp} {ws : List Write} {t : Str}
    (hok : stmt.tenantTable → ctx.tenant = some t) (hx : stmt.exec pg ctx db = .ok (r, ws)) {w : Write} (hw : w ∈ ws)
    {t' : Str} (ht' : w.tenant = some t') : t' = t := by
  have hset : ctx.tenant = some t' := Stmt.exec_tenant hx hw ht'
  have htable : stmt.tenantTable → t' = t := fun htable => Option.some.inj (hset.symm.trans (hok htable))
  cases Stmt.exec_writes hx with
  | none => cases hw
  | insertUser =>
    rw [List.mem_singleton.1 hw] at ht'
    cases ht'
  | _ => exact htable rfl

/-! ### What stays -/

/-- The tenant's rows are the same, ids included. -/
structure Db.SameRows (tenant : Str) (db db' : Db) : Prop where
  events : db'.visibleEvents (some tenant) = db.visibleEvents (some tenant)
  rules : db'.visibleRules (some tenant) = db.visibleRules (some tenant)
  alerts : db'.visibleAlerts (some tenant) = db.visibleAlerts (some tenant)

/-- The tenant's rows are as in `db₀`, and ids have been taken at most. -/
structure Db.Untouched (tenant : Str) (db₀ db : Db) : Prop extends Db.SameRows tenant db₀ db where
  next : ∀ c, db₀.sequences.next c ≤ db.sequences.next c

/-- And so are the users. -/
structure Db.LeftAlone (tenant : Str) (db₀ db : Db) : Prop extends Db.Untouched tenant db₀ db where
  users : db.users = db₀.users
  userId : db.sequences.user = db₀.sequences.user

section
variable {pg : Pg} {tenant t : Str} {db₀ db : Db}

theorem Db.Untouched.refl (tenant : Str) (db : Db) : db.Untouched tenant db := ⟨⟨rfl, rfl, rfl⟩, fun _ => le_rfl⟩

theorem Db.LeftAlone.refl (tenant : Str) (db : Db) : db.LeftAlone tenant db := ⟨.refl tenant db, rfl, rfl⟩

/-- Rows of others are not seen. -/
theorem filter_append_of_not {α : Type} {p : α → Bool} (l : List α) {a : α} (ha : ¬p a) :
    (l ++ [a]).filter p = l.filter p := by
  rw [List.filter_append, List.filter_cons_of_neg ha, List.filter_nil, List.append_nil]

/-- A change to rows of others, which keeps their tenant, is not seen. -/
theorem filter_map_of_not {α : Type} {p : α → Bool} {f : α → α} (l : List α) (hp : ∀ a, p (f a) = p a)
    (hf : ∀ a, p a → f a = a) : (l.map f).filter p = l.filter p := by
  have hcomp : p ∘ f = p := funext hp
  rw [List.filter_map, hcomp, List.map_congr_left fun a ha => hf a (List.of_mem_filter ha), List.map_id']

theorem rls_of_ne (h : t ≠ tenant) : ¬rls (some tenant) t := by
  rw [rls, beq_iff_eq, Option.some.injEq]
  exact h.symm

theorem Db.Untouched.apply (h : db₀.Untouched tenant db) {w : Write} (hw : w.tenant ≠ some tenant) :
    db₀.Untouched tenant (db.apply w) := by
  have hne : ∀ {t : Str}, w.tenant = some t → t ≠ tenant := fun ht htt => hw (htt ▸ ht)
  cases w with
  | insertUser row => exact ⟨⟨h.events, h.rules, h.alerts⟩, h.next⟩
  | insertEvent row =>
    have hevents := filter_append_of_not db.events (p := fun e : EventRow => rls (some tenant) e.tenant)
      (rls_of_ne (hne rfl))
    exact ⟨⟨hevents.trans h.events, h.rules, h.alerts⟩, h.next⟩
  | insertRule row =>
    have hrules := filter_append_of_not db.alertRules (p := fun r : AlertRule => rls (some tenant) r.tenant)
      (rls_of_ne (hne rfl))
    exact ⟨⟨h.events, hrules.trans h.rules, h.alerts⟩, h.next⟩
  | insertAlert row =>
    have halerts := filter_append_of_not db.alerts (p := fun a : Alert => rls (some tenant) a.tenant)
      (rls_of_ne (hne rfl))
    exact ⟨⟨h.events, h.rules, halerts.trans h.alerts⟩, h.next⟩
  | updateRule t id set now =>
    refine ⟨⟨h.events, (filter_map_of_not db.alertRules (fun r => ?_) fun r hr => ?_).trans h.rules, h.alerts⟩, h.next⟩
    · split <;> rfl
    · have htenant : r.tenant = tenant := by rwa [rls_some, decide_eq_true_eq] at hr
      exact if_neg fun hc => hne rfl (hc.1.symm.trans htenant)
  | markWebhookSent t id now =>
    refine ⟨⟨h.events, h.rules, (filter_map_of_not db.alerts (fun a => ?_) fun a ha => ?_).trans h.alerts⟩, h.next⟩
    · split <;> rfl
    · have htenant : a.tenant = tenant := by rwa [rls_some, decide_eq_true_eq] at ha
      exact if_neg fun hc => hne rfl (hc.1.symm.trans htenant)

theorem next_le_nextval (stmt : Stmt) (q : Sequences) (c : Table) : q.next c ≤ (stmt.nextval q).next c := by
  cases stmt <;> cases c <;> first | exact le_rfl | exact Nat.le_succ _

theorem kept_untouched (pg : Pg) (ht : t ≠ tenant) (db₀ : Db) :
    Kept pg (fun setting stmt => stmt.tenantTable → setting = some t) (db₀.Untouched tenant)
      (fun w => w.tenant ≠ some tenant) where
  apply _ _ hdb hw := hdb.apply hw
  nextval _ _ _ _ hdb := ⟨⟨hdb.events, hdb.rules, hdb.alerts⟩, fun c => (hdb.next c).trans (next_le_nextval _ _ _)⟩
  writes _ _ _ _ _ hok _ hx _ hw htenant := ht (Stmt.exec_own hok hx hw htenant).symm

theorem kept_users (pg : Pg) (users : List User) (next : Nat) :
    Kept pg (fun _ stmt => stmt.sparesUsers) (fun db => db.users = users ∧ db.sequences.user = next)
      (fun w => ∀ row, w ≠ .insertUser row) where
  apply db w hdb hw := by
    cases w with
    | insertUser row => exact absurd rfl (hw row)
    | _ => exact hdb
  nextval _ stmt db hok hdb := by
    cases stmt with
    | insertUser _ _ _ _ => cases hok
    | _ => exact hdb
  writes stmt ctx db r ws hok _ hx w hw row := by
    rintro rfl
    cases Stmt.exec_writes hx with
    | none => cases hw
    | insertUser => cases hok
    | _ => cases List.mem_singleton.1 hw

/-! ### Programs -/

/-- A program that runs under another tenant's setting and does not write users. -/
structure App.Elsewhere (tenant : Str) {α : Type} (p : App α) (conn : Conn) : Prop where
  sets : ∃ t, t ≠ tenant ∧ App.Sets (some t) p conn
  users : Issues (Cmd.Only fun stmt => stmt.sparesUsers) p

theorem App.Sets.only {α : Type} {p : App α} {conn : Conn} (hp : App.Sets (some t) p conn) :
    Safe (fun conn c => c.Only fun stmt => stmt.tenantTable → conn.tenant = some t) Conn.next
      (fun _ => True) (fun _ => True) p conn := by
  refine Safe.imp hp fun conn c hc => ?_
  cases c with
  | sql stmt =>
    intro htable
    obtain ⟨t', ht', hconn⟩ := hc htable
    exact hconn.trans ht'.symm
  | _ => trivial

theorem Session.Alone.holds {P : Db → Prop} {W : Write → Prop} {s : Session} (h : s.Alone) (hpending : s.pending = [])
    (hdb : P s.db) : s.Holds P W where
  db := hdb
  others n db hdb := by
    rw [h n]
    exact hdb
  pending := by simp [hpending]

theorem App.Elsewhere.leftAlone {α : Type} {p : App α} {s : Session} (hp : App.Elsewhere tenant p s.conn)
    (halone : s.Alone) (hpending : s.pending = []) : s.db.LeftAlone tenant (p.run (handle pg) s).2.db := by
  obtain ⟨⟨t, ht, hsets⟩, husers⟩ := hp
  have hrows := ((kept_untouched pg ht s.db).run_setting hsets.only (halone.holds hpending (.refl tenant s.db))).db
  have hu := ((kept_users pg s.db.users s.db.sequences.user).run husers (halone.holds hpending ⟨rfl, rfl⟩)).db
  exact ⟨hrows, hu.1, hu.2⟩

theorem Call.elsewhere (w : World) {call : Call} (h : call.Foreign tenant) (conn : Conn) :
    App.Elsewhere tenant (call.app w) conn := by
  obtain ⟨t, ht, hne⟩ := h
  refine ⟨⟨t, hne, ht ▸ call.sets w conn⟩, call.issues w fun stmt _ hspares => ?_⟩
  exact hspares.resolve_right fun hnone => by rw [hnone] at ht; cases ht

theorem Request.leftAlone (w : World) {r : Request} (h : r.call.Foreign tenant) (db : Db) :
    db.LeftAlone tenant (r.commits w db) :=
  (r.call.elsewhere w h r.conn).leftAlone (s := { db, conn := r.conn, nature := r.nature }) (fun _ => rfl) rfl

/-! ### Evaluations -/

theorem safe_notify (url : Option Str) (rule : RuleConfig) (c : Candidate) (alertId : Nat) {conn : Conn}
    (h : InTenant t conn) :
    Safe (TenantSet (some t)) Conn.next (InTenant t) (fun _ => True) (notify url t rule c alertId) conn := by
  unfold notify
  split
  · exact h
  · exact h
  · refine Safe.bind (J := InTenant t) (safe_exec trivial fun _ => h) fun delivered conn h => ?_
    split
    · exact safe_sql h rfl
    · exact h

theorem safe_evaluateCandidate (url : Option Str) (rule : RuleConfig) (c : Candidate) {conn : Conn}
    (h : InTenant t conn) :
    Safe (TenantSet (some t)) Conn.next (InTenant t) (fun _ => True) (evaluateCandidate url t rule c) conn := by
  unfold evaluateCandidate
  refine Safe.bind (safe_sql h rfl) fun past conn h => ?_
  split
  · exact Safe.bind (safe_sql h rfl) fun alertId conn h => safe_notify url rule c alertId h
  · exact h

theorem sets_evaluateTenant (url : Option Str) (t : Str) (conn : Conn) : App.Sets (some t) (evaluateTenant url t) conn := by
  refine safe_tenantTransaction fun conn h => Safe.bind (safe_sql h rfl) fun o conn h => ?_
  split
  · trivial
  · rename_i rule
    refine Safe.bind (safe_sql h rfl) fun candidates conn h => ?_
    exact (Safe.forM (fun c _ conn h => safe_evaluateCandidate url rule c h) h).mono (fun _ _ => trivial)
      fun _ _ => trivial

theorem sets_tryEvaluateTenant (url : Option Str) (t : Str) (conn : Conn) :
    App.Sets (some t) (tryEvaluateTenant url t) conn :=
  Safe.tryCatch (L := fun _ => True) (sets_evaluateTenant url t conn) fun _ _ _ => safe_exec trivial fun _ => trivial

/-- The engine writes alerts only. -/
theorem sends_evaluateTenant (url : Option Str) (t : Str) :
    Issues (Cmd.Only fun stmt => stmt.reads ∨ stmt.sparesAlerts = false) (evaluateTenant url t) := by
  have hread : ∀ {stmt : Stmt}, stmt.reads →
      Issues (Cmd.Only fun stmt => stmt.reads ∨ stmt.sparesAlerts = false) (sql stmt) := fun h => issues_exec (.inl h)
  have hwrite : ∀ {stmt : Stmt}, stmt.sparesAlerts = false →
      Issues (Cmd.Only fun stmt => stmt.reads ∨ stmt.sparesAlerts = false) (sql stmt) := fun h => issues_exec (.inr h)
  refine issues_transaction (Issues.bind (hread rfl) fun _ => Issues.bind (hread rfl) fun o => ?_)
  split
  · trivial
  refine Issues.bind (hread rfl) fun candidates => Safe.forM (fun c _ _ _ => ?_) trivial
  refine Issues.bind (hread rfl) fun past => ?_
  split
  · refine Issues.bind (hwrite rfl) fun alertId => ?_
    unfold notify
    split
    · trivial
    · trivial
    · refine Issues.bind (issues_exec trivial) fun delivered => ?_
      split
      · exact hwrite rfl
      · trivial
  · trivial

theorem sends_tryEvaluateTenant (url : Option Str) (t : Str) :
    Issues (Cmd.Only fun stmt => stmt.reads ∨ stmt.sparesAlerts = false) (tryEvaluateTenant url t) :=
  Issues.tryCatch (sends_evaluateTenant url t) fun _ => issues_exec trivial

theorem issues_tryEvaluateTenant (url : Option Str) (t : Str) :
    Issues (Cmd.Only fun stmt => stmt.sparesUsers) (tryEvaluateTenant url t) := by
  refine (sends_tryEvaluateTenant url t).imp fun _ c hc => ?_
  cases c with
  | sql stmt =>
    rcases hc with hc | hc
    · cases stmt <;> first | rfl | cases hc
    · cases stmt <;> first | rfl | cases hc
  | _ => trivial

theorem elsewhere_tryEvaluateTenant (url : Option Str) (h : t ≠ tenant) (conn : Conn) :
    App.Elsewhere tenant (tryEvaluateTenant url t) conn :=
  ⟨⟨t, h, sets_tryEvaluateTenant url t conn⟩, issues_tryEvaluateTenant url t⟩

/-! ### Twins -/

/-- Twins stay twins when other tenants take ids on each side. -/
theorem Alike.leftAlone {κ ρ : Renaming Table} {db' d d' : Db} (h : Alike κ tenant ρ db db') (hκ : ∀ c i j, κ c i j)
    (hd : db.LeftAlone tenant d) (hd' : db'.LeftAlone tenant d') : Alike κ tenant ρ d d' where
  users := by rw [hd.users, hd'.users, h.users]
  events := by
    rw [hd.events, hd'.events]
    exact h.events
  rules := by
    rw [hd.rules, hd'.rules]
    exact h.rules
  alerts := by
    rw [hd.alerts, hd'.alerts]
    exact h.alerts
  one_rule := by
    rw [hd.rules]
    exact h.one_rule
  userId := by rw [hd.userId, hd'.userId, h.userId]
  fresh := h.fresh.grow hκ hd.next hd'.next

end

end LogMgmt
