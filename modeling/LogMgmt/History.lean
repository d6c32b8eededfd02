import LogMgmt.RuleStore
import LogMgmt.Cooldown

/-!
# What is committed stays

No request and no step of the engine deletes a row. Users, events and alerts stay as they were committed, in their order;
a rule keeps what names it. `Db.Extends` says so of two states of the tables, and every command of every program leads to
an extension of what it found (`kept_extends`).
-/

namespace LogMgmt
open Prog

theorem AlertRule.Same.refl (r : AlertRule) : r.Same r := ⟨rfl, rfl, rfl, rfl⟩

instance instReflSame : Std.Refl AlertRule.Same := ⟨.refl⟩

instance instIsTransSame : IsTrans AlertRule AlertRule.Same := ⟨fun _ _ _ => .trans⟩

/-! ### Rows that stay -/

section
variable {α : Type} {R : α → α → Prop}

theorem exists_of_sublistForall₂ {l l' : List α} (h : List.SublistForall₂ R l l') {a : α} (ha : a ∈ l) :
    ∃ b ∈ l', R a b := by
  induction h with
  | nil => cases ha
  | @cons a₁ a₂ l₁ l₂ hR _ ih =>
    rcases List.mem_cons.1 ha with rfl | ha
    · exact ⟨a₂, List.mem_cons_self, hR⟩
    · obtain ⟨b, hb, hab⟩ := ih ha
      exact ⟨b, List.mem_cons_of_mem _ hb, hab⟩
  | cons_right _ ih =>
    obtain ⟨b, hb, hab⟩ := ih ha
    exact ⟨b, List.mem_cons_of_mem _ hb, hab⟩

theorem sublistForall₂_append_right [Std.Refl R] (l l' : List α) : List.SublistForall₂ R l (l ++ l') :=
  List.sublistForall₂_iff.2 ⟨l, List.forall₂_refl l, List.sublist_append_left l l'⟩

theorem sublistForall₂_map_right {f : α → α} (h : ∀ a, R a (f a)) (l : List α) : List.SublistForall₂ R l (l.map f) :=
  List.sublistForall₂_iff.2 ⟨l.map f, List.forall₂_map_right_iff.2 (List.forall₂_same.2 fun a _ => h a), .refl _⟩

end

/-- The users, events and rules of `db` are still there. -/
structure Db.Extends (db db' : Db) : Prop where
  users : db.users <+: db'.users
  events : db.events <+: db'.events
  rules : List.SublistForall₂ AlertRule.Same db.alertRules db'.alertRules

namespace Db.Extends
variable {db db' db'' : Db}

theorem refl (db : Db) : db.Extends db where
  users := List.prefix_refl _
  events := List.prefix_refl _
  rules := Std.Refl.refl _

theorem trans (h : db.Extends db') (h' : db'.Extends db'') : db.Extends db'' where
  users := h.users.trans h'.users
  events := h.events.trans h'.events
  rules := IsTrans.trans _ _ _ h.rules h'.rules

theorem rule (h : db.Extends db') {r : AlertRule} (hr : r ∈ db.alertRules) : ∃ r' ∈ db'.alertRules, r.Same r' :=
  exists_of_sublistForall₂ h.rules hr

end Db.Extends

theorem Db.extends_apply (db : Db) (w : Write) : db.Extends (db.apply w) := by
  cases w with
  | insertUser row => exact { Extends.refl db with users := List.prefix_append _ _ }
  | insertEvent row => exact { Extends.refl db with events := List.prefix_append _ _ }
  | insertRule row => exact { Extends.refl db with rules := sublistForall₂_append_right _ _ }
  | updateRule tenant id set now =>
    refine { Extends.refl db with rules := sublistForall₂_map_right (fun r => ?_) _ }
    split
    · exact ⟨rfl, rfl, rfl, rfl⟩
    · exact .refl r
  | insertAlert row | markWebhookSent tenant id now => exact { Extends.refl db with }

theorem kept_extends (pg : Pg) (db₀ : Db) : Kept pg (fun _ _ => True) db₀.Extends (fun _ => True) where
  apply db w hdb _ := hdb.trans (db.extends_apply w)
  nextval _ _ _ _ hdb := ⟨hdb.users, hdb.events, hdb.rules⟩
  writes _ _ _ _ _ _ _ _ _ _ := trivial

theorem commits_extends (w : World) (rs : List Request) (db : Db) : db.Extends (rs.foldl (Request.commits w) db) := by
  induction rs generalizing db with
  | nil => exact .refl db
  | cons r rs ih => exact ((kept_extends w.pg db).commits (issues_any _) (.refl db)).trans (ih _)

/-! ### The engine -/

/-- Other sessions only extend the rows. -/
def Session.Extending (s : Session) : Prop := ∀ n (db : Db), db.Extends (s.others n db)

theorem Session.Extending.holds {s : Session} (h : s.Extending) {db₀ : Db} (hdb : db₀.Extends s.db) :
    s.Holds db₀.Extends (fun _ => True) :=
  ⟨hdb, fun n db hdb => hdb.trans (h n db), fun _ _ => trivial⟩

/-- An evaluation that has returned leaves an extension of the rows in which it read the rule, and of those in which
it looked for candidates if it did. -/
theorem wp_evaluateTenant_extends (pg : Pg) (url : Option Str) (tenant : Str) {s : Session} (h : s.Extending) :
    wp (handle pg) (evaluateTenant url tenant)
      (fun _ s' => (s.seenAt 2).Extends s'.db ∧ ((s.seenAt 2).ruleOf tenant ≠ none → (s.seenAt 3).Extends s'.db))
      (fun _ _ => True) s := by
  -- up to `DETECT_SQL` the session writes nothing and is on `seenAt`; `hrest` is what any commands after that keep
  have hrest : ∀ {s₁ : Session} {p : App Unit} {Q : Session → Prop}, s₁.Extending →
      (∀ s'' : Session, s₁.db.Extends s''.db → Q s'') →
      wp (handle pg) p (fun _ s' => Ends (fun _ => Q) (fun _ _ => True) (handle pg .commit s')) (fun _ _ => True) s₁ := by
    intro s₁ p Q hs₁ hQ
    have hkept := kept_extends pg s₁.db
    have hp := (issues_any p).wp (h := handle pg) (fun c s _ hs => hkept.handle (by cases c <;> trivial) hs)
      (hs₁.holds (.refl s₁.db))
    refine wp_mono hp (fun _ s' hs' => ?_) fun _ _ _ => trivial
    have hcommit := (hkept.handle (c := .commit) trivial hs').db
    rcases hh : handle pg .commit s' with ⟨_ | _, s''⟩ <;> rw [hh] at hcommit
    · trivial
    · exact hQ s'' hcommit
  have hmono : (s.seenAt 2).Extends (s.seenAt 3) := h 3 _
  unfold evaluateTenant
  rw [wp_transaction]
  cases hν : (s.nature 0).fault with
  | true =>
    rw [Session.handle_begin_fault pg hν]
    trivial
  | false =>
  rw [Session.handle_begin pg hν, ends_ok, wp_withConn, wp_bind, wp_sql]
  rcases Session.handle_sql_cases pg (s := s.opened) rfl (.setTenant tenant) with ⟨u, ws, -, hx, hh⟩ | ⟨e, s', hh, -⟩
  swap
  · rw [hh]
    trivial
  obtain rfl : ws = [] := by
    cases Stmt.exec_writes hx
    rfl
  rw [hh, ends_ok, wp_bind, wp_sql]
  rcases Session.handle_sql_cases pg (s := s.opened.ran (.setTenant tenant) u []) rfl (.selectRule .failedLoginBurst) with
    ⟨rule, ws, -, hx, hh⟩ | ⟨e, s', hh, -⟩
  swap
  · rw [hh]
    trivial
  have hrule : (.ok ((s.seenAt 2).ruleOf tenant, []) : Except SqlError _) = .ok (rule, ws) := hx
  have hrule := (Prod.mk.inj (Except.ok.inj hrule)).1
  rw [hh, ends_ok]
  obtain ⟨s₃, hs₃⟩ :
      ∃ s₃, s₃ = (s.opened.ran (.setTenant tenant) u []).ran (.selectRule .failedLoginBurst) rule ws := ⟨_, rfl⟩
  have hdb : s₃.db = s.seenAt 2 := by rw [hs₃]; rfl
  have hothers : s₃.others = fun n => s.others (n + 3) := by rw [hs₃]; rfl
  have hstatus : s₃.conn.status = .inTx := by rw [hs₃]; rfl
  rw [← hs₃]
  cases rule with
  | none =>
    refine hrest (p := pure ()) (fun n db => ?_) fun s'' hs'' => ⟨hdb ▸ hs'', fun hne => absurd hrule hne⟩
    rw [hothers]
    exact h _ db
  | some rule =>
    rw [wp_bind, wp_sql]
    rcases Session.handle_sql_cases pg hstatus (.detect rule.windowSeconds rule.threshold) with
      ⟨found, ws', -, -, hh⟩ | ⟨e, s', hh, -⟩
    swap
    · rw [hh]
      trivial
    rw [hh, ends_ok]
    have hdb₄ : (s₃.ran (.detect rule.windowSeconds rule.threshold) found ws').db = s.seenAt 3 := by
      show s₃.others 0 s₃.db = _
      rw [hothers, hdb]
      rfl
    refine hrest (fun n db => ?_) fun s'' hs'' => ?_
    · show db.Extends (s₃.others (n + 1) db)
      rw [hothers]
      exact h _ db
    · rw [hdb₄] at hs''
      exact ⟨hmono.trans hs'', fun _ => hs''⟩

/-- An evaluation that commits, without the `try` around it. -/
theorem run_of_commits {pg : Pg} {url : Option Str} {tenant : Str} {s : Session} (hc : Commits pg url tenant s = true) :
    (evaluateTenant url tenant).run (handle pg) s = (.ok (), ((tryEvaluateTenant url tenant).run (handle pg) s).2) := by
  unfold tryEvaluateTenant
  rw [run_tryCatch]
  unfold Commits at hc
  rcases hrun : (evaluateTenant url tenant).run (handle pg) s with ⟨e | u, s'⟩ <;> rw [hrun] at hc
  cases hc

/-! ### Runs -/

namespace System
variable {w : World} {url : Option Str} {s : System}

theorem session_extending (w : World) (s : System) (ν : Nat → Choice) (between : Nat → List Request) :
    (s.session w ν between).Extending :=
  fun n db => commits_extends w (between n) db

theorem step_extends (w : World) (url : Option Str) (s : System) (a : Action) : s.db.Extends (s.step w url a).db := by
  have hsession : ∀ ν between, (s.session w ν between).Holds s.db.Extends (fun _ => True) :=
    fun ν between => (session_extending w s ν between).holds (.refl s.db)
  cases a with
  | request r => exact commits_extends w [r] s.db
  | discover ν between =>
    simp only [step]
    split
    · exact ((kept_extends w.pg s.db).run (issues_any (sql .discoverTenants)) (hsession ν between)).db
    · exact .refl _
  | evaluate ν between =>
    simp only [step]
    split
    · exact .refl _
    · exact ((kept_extends w.pg s.db).run (issues_any (tryEvaluateTenant url _)) (hsession ν between)).db

/-- The rows in which an evaluation that commits has read its rule and its candidates are still there after it. -/
theorem seenAt_extends (w : World) (url : Option Str) (s : System) {tenant : Str} {ν : Nat → Choice}
    {between : Nat → List Request} (hc : Commits w.pg url tenant (s.session w ν between) = true) {s' : Session}
    (hs' : s' = ((tryEvaluateTenant url tenant).run (handle w.pg) (s.session w ν between)).2) :
    ((s.session w ν between).seenAt 2).Extends s'.db ∧
      (((s.session w ν between).seenAt 2).ruleOf tenant ≠ none → ((s.session w ν between).seenAt 3).Extends s'.db) := by
  have hw := wp_evaluateTenant_extends w.pg url tenant (session_extending w s ν between)
  unfold wp at hw
  rw [run_of_commits hc, ← hs'] at hw
  exact hw

theorem run_extends (w : World) (url : Option Str) (s : System) (actions : List Action) :
    s.db.Extends (s.run w url actions).db := by
  induction actions generalizing s with
  | nil => exact .refl _
  | cons a actions ih => exact (step_extends w url s a).trans (ih _)

theorem step_alerts (url : Option Str) (hid : ∀ a ∈ s.db.alerts, a.id < s.db.sequences.alert) (a : Action) :
    s.db.alerts <+: (s.step w url a).db.alerts := by
  cases step_cases w url hid a with
  | quiet _ h => rw [h.alerts]
  | evaluate tenant queue ν between s' _ _ _ hdb _ h =>
    obtain ⟨news, halerts, -⟩ := h.alerts
    rw [hdb, halerts]
    exact List.prefix_append _ _

theorem run_alerts (h : s.Inv) (actions : List Action) : s.db.alerts <+: (s.run w url actions).db.alerts := by
  induction actions generalizing s with
  | nil => exact List.prefix_refl _
  | cons a actions ih => exact (step_alerts url h.ids a).trans (ih (h.step a))

end System

/-- Whatever is done to a database that requests, `create_user` and the engine have filled, in any order and with any
failures: no user, event or alert that was there is changed, removed or moved, and every rule keeps its id, tenant, type
and creation time. -/
theorem history_kept (w : World) (url : Option Str) (before after : List Action) :
    let s := System.run w url {} before
    let s' := s.run w url after
    s.db.users <+: s'.db.users ∧ s.db.events <+: s'.db.events ∧ s.db.alerts <+: s'.db.alerts ∧
      List.SublistForall₂ AlertRule.Same s.db.alertRules s'.db.alertRules := by
  intro s s'
  have hextends : s.db.Extends s'.db := System.run_extends w url s after
  exact ⟨hextends.users, hextends.events, System.run_alerts (System.Inv.init.run before) after, hextends.rules⟩

end LogMgmt
