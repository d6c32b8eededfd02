import LogMgmt.Transactions
import LogMgmt.Lib.Renaming

/-!
# Twin databases

Two databases whose rows of one tenant are the same but for their ids. A statement that runs in both under
that tenant answers and writes the same again, whatever rows of other tenants there are (`Stmt.Alike`).
-/

namespace LogMgmt
open List (Forall₂)

/-- The tables under the `tenant_isolation` policy. -/
inductive Table where
  | events
  | rules
  | alerts
deriving DecidableEq

/-- The next id of each table. -/
def Sequences.next (q : Sequences) : Table → Nat
  | .events => q.event
  | .rules => q.rule
  | .alerts => q.alert

/-! ### Rows -/

structure EventTwin (ρ : Renaming Table) (e e' : EventRow) : Prop where
  id : ρ .events e.id e'.id
  eq : e' = { e with id := e'.id }

structure RuleTwin (ρ : Renaming Table) (r r' : AlertRule) : Prop where
  id : ρ .rules r.id r'.id
  eq : r' = { r with id := r'.id }

structure AlertTwin (ρ : Renaming Table) (a a' : Alert) : Prop where
  id : ρ .alerts a.id a'.id
  rule : ρ .rules a.ruleId a'.ruleId
  eq : a' = { a with id := a'.id, ruleId := a'.ruleId }

section
variable {ρ ρ' : Renaming Table} {γ : Type}

/-- What does not look at the id is the same. -/
theorem EventTwin.congr {e e' : EventRow} (h : EventTwin ρ e e') {f : EventRow → γ}
    (hf : ∀ e id, f { e with id := id } = f e) : f e = f e' := by
  rw [h.eq]
  exact (hf _ _).symm

theorem RuleTwin.congr {r r' : AlertRule} (h : RuleTwin ρ r r') {f : AlertRule → γ}
    (hf : ∀ r id, f { r with id := id } = f r) : f r = f r' := by
  rw [h.eq]
  exact (hf _ _).symm

theorem AlertTwin.congr {a a' : Alert} (h : AlertTwin ρ a a') {f : Alert → γ}
    (hf : ∀ a id ruleId, f { a with id := id, ruleId := ruleId } = f a) : f a = f a' := by
  rw [h.eq]
  exact (hf _ _ _).symm

theorem EventTwin.filter {l l' : List EventRow} (h : Forall₂ (EventTwin ρ) l l') {p : EventRow → Bool}
    (hp : ∀ e id, p { e with id := id } = p e) : Forall₂ (EventTwin ρ) (l.filter p) (l'.filter p) :=
  List.rel_filter (fun {_ _} he => Iff.of_eq (congrArg (· = true) (he.congr hp))) h

theorem AlertTwin.filter {l l' : List Alert} (h : Forall₂ (AlertTwin ρ) l l') {p : Alert → Bool}
    (hp : ∀ a id ruleId, p { a with id := id, ruleId := ruleId } = p a) :
    Forall₂ (AlertTwin ρ) (l.filter p) (l'.filter p) :=
  List.rel_filter (fun {_ _} ha => Iff.of_eq (congrArg (· = true) (ha.congr hp))) h

theorem EventTwin.of_le (hρ : ρ ≤ ρ') {e e' : EventRow} (h : EventTwin ρ e e') : EventTwin ρ' e e' :=
  ⟨hρ _ _ _ h.id, h.eq⟩

theorem RuleTwin.of_le (hρ : ρ ≤ ρ') {r r' : AlertRule} (h : RuleTwin ρ r r') : RuleTwin ρ' r r' :=
  ⟨hρ _ _ _ h.id, h.eq⟩

theorem AlertTwin.of_le (hρ : ρ ≤ ρ') {a a' : Alert} (h : AlertTwin ρ a a') : AlertTwin ρ' a a' :=
  ⟨hρ _ _ _ h.id, hρ _ _ _ h.rule, h.eq⟩

theorem EventTwin.same (hρ : ρ ≤ fun _ => Eq) {e e' : EventRow} (h : EventTwin ρ e e') : e = e' := by
  rw [h.eq, ← hρ _ _ _ h.id]

theorem RuleTwin.same (hρ : ρ ≤ fun _ => Eq) {r r' : AlertRule} (h : RuleTwin ρ r r') : r = r' := by
  rw [h.eq, ← hρ _ _ _ h.id]

theorem AlertTwin.same (hρ : ρ ≤ fun _ => Eq) {a a' : Alert} (h : AlertTwin ρ a a') : a = a' := by
  rw [h.eq, ← hρ _ _ _ h.id, ← hρ _ _ _ h.rule]

end

/-! ### Databases -/

/-- The tenant's rows are the same up to the renaming, and so are the users. -/
structure Twin (tenant : Str) (ρ : Renaming Table) (db db' : Db) : Prop where
  users : db.users = db'.users
  events : Forall₂ (EventTwin ρ) (db.visibleEvents (some tenant)) (db'.visibleEvents (some tenant))
  rules : Forall₂ (RuleTwin ρ) (db.visibleRules (some tenant)) (db'.visibleRules (some tenant))
  alerts : Forall₂ (AlertTwin ρ) (db.visibleAlerts (some tenant)) (db'.visibleAlerts (some tenant))
  one_rule : (db.visibleRules (some tenant)).length ≤ 1

/-- Twins whose next ids fit the renaming. -/
structure Alike (κ : Renaming Table) (tenant : Str) (ρ : Renaming Table) (db db' : Db) : Prop
    extends Twin tenant ρ db db' where
  userId : db.sequences.user = db'.sequences.user
  fresh : Renaming.Fresh κ ρ db.sequences.next db'.sequences.next

section
variable {κ ρ ρ' : Renaming Table} {tenant : Str} {db db' : Db}

theorem Twin.of_le (hρ : ρ ≤ ρ') (h : Twin tenant ρ db db') : Twin tenant ρ' db db' where
  users := h.users
  events := h.events.imp fun _ _ => .of_le hρ
  rules := h.rules.imp fun _ _ => .of_le hρ
  alerts := h.alerts.imp fun _ _ => .of_le hρ
  one_rule := h.one_rule

theorem Twin.sequences (h : Twin tenant ρ db db') (q q' : Sequences) :
    Twin tenant ρ { db with sequences := q } { db' with sequences := q' } :=
  ⟨h.users, h.events, h.rules, h.alerts, h.one_rule⟩

/-- The rows after a statement, and the next ids. -/
def Db.after (db : Db) (stmt : Stmt) (ws : List Write) : Db :=
  { db.applyAll ws with sequences := stmt.nextval db.sequences }

end

/-! ### Statements -/

/-- What a statement does in one database its twin does in the other. -/
def Stmt.Alike (pg : Pg) (κ : Renaming Table) (tenant : Str) (stmt stmt' : Stmt)
    (V : Renaming Table → stmt.Resp → stmt'.Resp → Prop) (ρ : Renaming Table) (ctx ctx' : Ctx) (db db' : Db) :
    Prop :=
  match stmt.exec pg ctx db, stmt'.exec pg ctx' db' with
  | .ok (r, ws), .ok (r', ws') =>
    ∃ ρ', ρ ≤ ρ' ∧ LogMgmt.Alike κ tenant ρ' (db.after stmt ws) (db'.after stmt' ws') ∧ V ρ' r r'
  | .error e, .error e' => e = e' ∧ LogMgmt.Alike κ tenant ρ (db.after stmt []) (db'.after stmt' [])
  | _, _ => False

section
variable {pg : Pg} {κ ρ ρ' : Renaming Table} {tenant : Str} {db db' : Db} {ctx ctx' : Ctx} {stmt stmt' : Stmt}
  {V : Renaming Table → stmt.Resp → stmt'.Resp → Prop}

theorem Stmt.Alike.ok {r : stmt.Resp} {r' : stmt'.Resp} {ws ws' : List Write}
    (hx : stmt.exec pg ctx db = .ok (r, ws)) (hx' : stmt'.exec pg ctx' db' = .ok (r', ws')) (hρ : ρ ≤ ρ')
    (h : LogMgmt.Alike κ tenant ρ' (db.after stmt ws) (db'.after stmt' ws')) (hV : V ρ' r r') :
    Stmt.Alike pg κ tenant stmt stmt' V ρ ctx ctx' db db' := by
  rw [Stmt.Alike, hx, hx']
  exact ⟨ρ', hρ, h, hV⟩

theorem Stmt.Alike.read {r : stmt.Resp} {r' : stmt'.Resp} (hx : stmt.exec pg ctx db = .ok (r, []))
    (hx' : stmt'.exec pg ctx' db' = .ok (r', []))
    (h : LogMgmt.Alike κ tenant ρ (db.after stmt []) (db'.after stmt' [])) (hV : V ρ r r') :
    Stmt.Alike pg κ tenant stmt stmt' V ρ ctx ctx' db db' :=
  .ok hx hx' le_rfl h hV

theorem Stmt.Alike.error {e : SqlError} (hx : stmt.exec pg ctx db = .error e)
    (hx' : stmt'.exec pg ctx' db' = .error e) (h : LogMgmt.Alike κ tenant ρ (db.after stmt []) (db'.after stmt' [])) :
    Stmt.Alike pg κ tenant stmt stmt' V ρ ctx ctx' db db' := by
  rw [Stmt.Alike, hx, hx']
  exact ⟨rfl, h⟩

/-- Two reads of which psycopg loads both results or neither. -/
theorem Stmt.Alike.loaded {r : stmt.Resp} {r' : stmt'.Resp} {b b' : Bool}
    (hx : stmt.exec pg ctx db = if b then .ok (r, []) else .error .invalidTimestamp)
    (hx' : stmt'.exec pg ctx' db' = if b' then .ok (r', []) else .error .invalidTimestamp) (hb : b = b')
    (h : LogMgmt.Alike κ tenant ρ (db.after stmt []) (db'.after stmt' [])) (hV : V ρ r r') :
    Stmt.Alike pg κ tenant stmt stmt' V ρ ctx ctx' db db' := by
  subst hb
  cases b with
  | false => exact .error hx hx' h
  | true => exact .read hx hx' h hV

end

/-! ### Statements on no tenant's table -/

section
variable {pg : Pg} {κ ρ : Renaming Table} {tenant : Str} {db db' : Db}

theorem alike_setTenant (h : Alike κ tenant ρ db db') (ctx ctx' : Ctx) (t : Str) :
    Stmt.Alike pg κ tenant (.setTenant t) (.setTenant t) (fun ρ' _ _ => ρ' = ρ) ρ ctx ctx' db db' := by
  by_cases ht : textOk t
  · exact .read (if_pos ht) (if_pos ht) h rfl
  · exact .error (if_neg ht) (if_neg ht) h

theorem alike_selectOne (h : Alike κ tenant ρ db db') (ctx ctx' : Ctx) :
    Stmt.Alike pg κ tenant .selectOne .selectOne (fun _ _ _ => True) ρ ctx ctx' db db' :=
  .ok rfl rfl le_rfl h trivial

theorem alike_selectUser (h : Alike κ tenant ρ db db') (ctx ctx' : Ctx) (username : Str) :
    Stmt.Alike pg κ tenant (.selectUser username) (.selectUser username) (fun _ => Eq) ρ ctx ctx'
      db db' := by
  by_cases ht : textOk username
  · exact .ok (if_pos ht) (if_pos ht) le_rfl h (by rw [h.users])
  · exact .error (if_neg ht) (if_neg ht) h

theorem alike_discoverTenants (h : Alike κ tenant ρ db db') {ctx ctx' : Ctx} (horder : ctx.order = ctx'.order) :
    Stmt.Alike pg κ tenant .discoverTenants .discoverTenants (fun _ => Eq) ρ ctx ctx' db db' :=
  .ok rfl rfl le_rfl h (by rw [h.users, horder])

end

/-! ### Reading the tenant's rows -/

section
variable {pg : Pg} {κ ρ : Renaming Table} {tenant : Str} {db db' : Db}

theorem arrange_of_length_le_one {α : Type} (o : RowOrder) (key : α → Int) {l : List α} (h : l.length ≤ 1) :
    o.arrange key l = l := by
  match l with
  | [] => exact List.perm_nil.1 (o.arrange_perm key [])
  | [a] => exact List.perm_singleton.1 (o.arrange_perm key [a])

theorem alike_searchEvents (h : Alike κ tenant ρ db db') {ctx : Ctx} (hctx : ctx.tenant = some tenant)
    (f : EventFilter) (fetchLimit offset : Nat) :
    Stmt.Alike pg κ tenant (.searchEvents f fetchLimit offset) (.searchEvents f fetchLimit offset)
      (fun ρ => Forall₂ (EventTwin ρ)) ρ ctx ctx db db' := by
  by_cases htext : [f.source, f.eventType, f.user].all textParamOk
  swap
  · exact .error (by simp only [Stmt.exec, htext]; rfl) (by simp only [Stmt.exec, htext]; rfl) h
  by_cases hoff : int8Ok offset
  swap
  · exact .error (by simp only [Stmt.exec, htext, hoff]; rfl) (by simp only [Stmt.exec, htext, hoff]; rfl) h
  cases hip : inetParam pg f.srcIp with
  | error e =>
    exact .error (by simp only [Stmt.exec, htext, hoff, hip]; rfl) (by simp only [Stmt.exec, htext, hoff, hip]; rfl) h
  | ok ip =>
    have hrows := EventTwin.filter h.events (p := f.matches ip) fun _ _ => rfl
    have hkeys := hrows.map_eq fun e e' he => he.congr (f := fun e => -e.eventTime) fun _ _ => rfl
    have hfetched := List.forall₂_take fetchLimit (List.forall₂_drop offset (ctx.order.arrange_forall₂ hrows hkeys))
    exact .loaded (by simp only [Stmt.exec, htext, hoff, hip, hctx]; rfl)
      (by simp only [Stmt.exec, htext, hoff, hip, hctx]; rfl)
      (hfetched.all_eq _ _ fun e e' he => he.congr (f := fun e => timeOk e.eventTime) fun _ _ => rfl) h hfetched

theorem alike_topEvents (h : Alike κ tenant ρ db db') {ctx : Ctx} (hctx : ctx.tenant = some tenant)
    (field : TopField) (startTime endTime : Option Time) (limit : Nat) :
    Stmt.Alike pg κ tenant (.topEvents field startTime endTime limit)
      (.topEvents field startTime endTime limit) (fun _ => Eq) ρ ctx ctx db db' := by
  refine .read rfl rfl h ?_
  have hrows := EventTwin.filter h.events (p := fun e => inRange startTime endTime e.eventTime) fun _ _ => rfl
  have hcols := hrows.filterMap_eq fun e e' he => he.congr (f := field.column) fun _ _ => by cases field <;> rfl
  rw [hctx, hcols]

theorem alike_timeline (h : Alike κ tenant ρ db db') {ctx : Ctx} (hctx : ctx.tenant = some tenant)
    (interval : Interval) (startTime endTime : Option Time) :
    Stmt.Alike pg κ tenant (.timeline interval startTime endTime)
      (.timeline interval startTime endTime) (fun _ => Eq) ρ ctx ctx db db' := by
  have hrows := EventTwin.filter h.events (p := fun e => inRange startTime endTime e.eventTime) fun _ _ => rfl
  have hcols := hrows.map_eq fun e e' he => he.congr (f := fun e => interval.trunc e.eventTime) fun _ _ => rfl
  refine .loaded rfl rfl ?_ h ?_ <;> rw [hctx, hcols]

theorem alike_listRules (h : Alike κ tenant ρ db db') {ctx : Ctx} (hctx : ctx.tenant = some tenant) :
    Stmt.Alike pg κ tenant .listRules .listRules (fun ρ => Forall₂ (RuleTwin ρ)) ρ ctx ctx db
      db' := by
  refine .read rfl rfl h ?_
  rw [hctx, arrange_of_length_le_one _ _ h.one_rule,
    arrange_of_length_le_one _ _ (h.rules.length_eq.symm.trans_le h.one_rule)]
  exact h.rules

theorem alike_listAlerts (h : Alike κ tenant ρ db db') {ctx : Ctx} (hctx : ctx.tenant = some tenant)
    (f : AlertFilter) (fetchLimit offset : Nat) :
    Stmt.Alike pg κ tenant (.listAlerts f fetchLimit offset) (.listAlerts f fetchLimit offset)
      (fun ρ => Forall₂ (AlertTwin ρ)) ρ ctx ctx db db' := by
  by_cases hoff : int8Ok offset
  swap
  · exact .error (by simp only [Stmt.exec, hoff]; rfl) (by simp only [Stmt.exec, hoff]; rfl) h
  cases hip : inetParam pg f.srcIp with
  | error e =>
    exact .error (by simp only [Stmt.exec, hoff, hip]; rfl) (by simp only [Stmt.exec, hoff, hip]; rfl) h
  | ok ip =>
    have hrows := AlertTwin.filter h.alerts (p := f.matches ip) fun _ _ _ => rfl
    have hkeys := hrows.map_eq fun a a' ha => ha.congr (f := fun a => -a.triggeredAt) fun _ _ _ => rfl
    have hfetched := List.forall₂_take fetchLimit (List.forall₂_drop offset (ctx.order.arrange_forall₂ hrows hkeys))
    exact .loaded (by simp only [Stmt.exec, hoff, hip, hctx]; rfl) (by simp only [Stmt.exec, hoff, hip, hctx]; rfl)
      (hfetched.all_eq _ _ fun a a' ha => ha.congr (f := Alert.timesOk) fun _ _ _ => rfl) h hfetched

/-- Twin rows of `SELECT_RULE_SQL`. -/
structure ConfigTwin (ρ : Renaming Table) (c c' : RuleConfig) : Prop where
  id : ρ .rules c.id c'.id
  eq : c' = { c with id := c'.id }

theorem alike_selectRule (h : Alike κ tenant ρ db db') {ctx : Ctx} (hctx : ctx.tenant = some tenant)
    (ruleType : RuleType) :
    Stmt.Alike pg κ tenant (.selectRule ruleType) (.selectRule ruleType)
      (fun ρ => Option.Rel (ConfigTwin ρ)) ρ ctx ctx db db' := by
  refine .read rfl rfl h ?_
  rw [hctx]
  have hfind := h.rules.find?_rel (fun r => r.ruleType = ruleType ∧ r.enabled) (fun r => r.ruleType = ruleType ∧ r.enabled)
    fun r r' hr => hr.congr (f := fun r => decide (r.ruleType = ruleType ∧ r.enabled)) fun _ _ => rfl
  exact hfind.map_rel fun r r' hr => ⟨hr.id, by rw [hr.eq]⟩

theorem EventTwin.candidates {l l' : List EventRow} (h : Forall₂ (EventTwin ρ) l l') (threshold : Int) :
    candidates threshold l = candidates threshold l' := by
  have hips := h.filterMap_eq fun e e' he => he.congr (f := fun e => e.srcIp) fun _ _ => rfl
  have hof : Candidate.ofRows l = Candidate.ofRows l' := by
    funext ip
    have hip : Forall₂ (EventTwin ρ) (fromIp ip l) (fromIp ip l') :=
      EventTwin.filter h (p := fun e => e.srcIp = some ip) fun _ _ => rfl
    have htimes := hip.map_eq fun e e' he => he.congr (f := fun e => e.eventTime) fun _ _ => rfl
    unfold Candidate.ofRows
    rw [hip.length_eq, htimes]
  unfold LogMgmt.candidates
  rw [hips, hof]

theorem alike_detect (h : Alike κ tenant ρ db db') {ctx : Ctx} (hctx : ctx.tenant = some tenant)
    (windowSeconds threshold : Int) :
    Stmt.Alike pg κ tenant (.detect windowSeconds threshold) (.detect windowSeconds threshold)
      (fun _ => Eq) ρ ctx ctx db db' := by
  have hrows : Forall₂ (EventTwin ρ) (db.failedLogins (some tenant) pg (ctx.now - seconds windowSeconds))
      (db'.failedLogins (some tenant) pg (ctx.now - seconds windowSeconds)) :=
    EventTwin.filter h.events fun _ _ => rfl
  refine .loaded rfl rfl ?_ h ?_ <;> rw [hctx, EventTwin.candidates hrows]

theorem alike_pastCooldown (h : Alike κ tenant ρ db db') {ctx : Ctx} (hctx : ctx.tenant = some tenant)
    {ruleId ruleId' : Nat} (hrule : ρ .rules ruleId ruleId') (srcIp : Inet) (cooldownSeconds : Int) :
    Stmt.Alike pg κ tenant (.pastCooldown tenant ruleId srcIp cooldownSeconds)
      (.pastCooldown tenant ruleId' srcIp cooldownSeconds) (fun _ => Eq) ρ ctx ctx db db' := by
  refine .read rfl rfl h ?_
  have hrows : Forall₂ (AlertTwin ρ) (db.alertsOf (some tenant) tenant ruleId srcIp)
      (db'.alertsOf (some tenant) tenant ruleId' srcIp) := by
    refine List.rel_filter (fun {a a'} ha => ?_) h.alerts
    have hid := h.fresh.eq_iff ha.rule hrule
    have hrest := ha.congr (f := fun a => (a.tenant, a.srcIp)) fun _ _ _ => rfl
    simp only [Prod.mk.injEq] at hrest
    simp only [decide_eq_true_eq, hid, hrest.1, hrest.2]
  have htimes := hrows.map_eq fun a a' ha => ha.congr (f := fun a => a.triggeredAt) fun _ _ _ => rfl
  rw [hctx, htimes]

end

/-! ### Writing the tenant's rows -/

section
variable {κ ρ : Renaming Table} {tenant : Str} {db db' : Db}

theorem taken_event (q : Sequences) : Renaming.Taken .events q.next { q with event := q.event + 1 }.next :=
  ⟨rfl, fun c hc => by cases c <;> first | rfl | exact absurd rfl hc⟩

theorem taken_rule (q : Sequences) : Renaming.Taken .rules q.next { q with rule := q.rule + 1 }.next :=
  ⟨rfl, fun c hc => by cases c <;> first | rfl | exact absurd rfl hc⟩

theorem taken_alert (q : Sequences) : Renaming.Taken .alerts q.next { q with alert := q.alert + 1 }.next :=
  ⟨rfl, fun c hc => by cases c <;> first | rfl | exact absurd rfl hc⟩

/-- Both databases have given an id away. -/
theorem Alike.take (h : Alike κ tenant ρ db db') {c : Table} {q q' : Sequences}
    (hq : Renaming.Taken c db.sequences.next q.next) (hq' : Renaming.Taken c db'.sequences.next q'.next)
    (huser : q.user = q'.user) : Alike κ tenant ρ { db with sequences := q } { db' with sequences := q' } where
  toTwin := h.toTwin.sequences q q'
  userId := huser
  fresh := h.fresh.take hq hq'

theorem rls_self (tenant : Str) : rls (some tenant) tenant := beq_self_eq_true _

theorem filter_append_of {α : Type} {p : α → Bool} (l : List α) {a : α} (ha : p a) :
    (l ++ [a]).filter p = l.filter p ++ [a] := by
  rw [List.filter_append, List.filter_cons_of_pos ha, List.filter_nil]

theorem visibleEvents_insert (db : Db) (stmt : Stmt) {row : EventRow} (h : row.tenant = tenant) :
    (db.after stmt [.insertEvent row]).visibleEvents (some tenant) = db.visibleEvents (some tenant) ++ [row] := by
  subst h
  exact filter_append_of (p := fun e : EventRow => rls (some row.tenant) e.tenant) db.events (rls_self _)

theorem visibleRules_insert (db : Db) (stmt : Stmt) {row : AlertRule} (h : row.tenant = tenant) :
    (db.after stmt [.insertRule row]).visibleRules (some tenant) = db.visibleRules (some tenant) ++ [row] := by
  subst h
  exact filter_append_of (p := fun r : AlertRule => rls (some row.tenant) r.tenant) db.alertRules (rls_self _)

theorem visibleAlerts_insert (db : Db) (stmt : Stmt) {row : Alert} (h : row.tenant = tenant) :
    (db.after stmt [.insertAlert row]).visibleAlerts (some tenant) = db.visibleAlerts (some tenant) ++ [row] := by
  subst h
  exact filter_append_of (p := fun a : Alert => rls (some row.tenant) a.tenant) db.alerts (rls_self _)

theorem Alike.insertEvent (h : Alike κ tenant ρ db db') (e : NormalizedEvent) {row row' : EventRow}
    (hrow : row.tenant = tenant) (hid : row.id = db.sequences.event) (hid' : row'.id = db'.sequences.event)
    (heq : row' = { row with id := row'.id }) :
    Alike κ tenant (ρ.add .events db.sequences.event db'.sequences.event)
      (db.after (.insertEvent e) [.insertEvent row]) (db'.after (.insertEvent e) [.insertEvent row']) := by
  have hle := ρ.le_add .events db.sequences.event db'.sequences.event
  have htwin : EventTwin (ρ.add .events db.sequences.event db'.sequences.event) row row' :=
    ⟨hid ▸ hid' ▸ ρ.add_self _ _ _, heq⟩
  have hrow' : row'.tenant = tenant := (htwin.congr (f := fun e => e.tenant) fun _ _ => rfl).symm.trans hrow
  refine ⟨⟨h.users, ?_, h.rules.imp fun _ _ => .of_le hle, h.alerts.imp fun _ _ => .of_le hle, h.one_rule⟩, h.userId,
    h.fresh.add (taken_event _) (taken_event _)⟩
  rw [visibleEvents_insert db _ hrow, visibleEvents_insert db' _ hrow']
  exact List.rel_append (h.events.imp fun _ _ => .of_le hle) (.cons htwin .nil)

theorem Alike.insertRule (h : Alike κ tenant ρ db db') (r : NewRule) {row row' : AlertRule}
    (hrow : row.tenant = tenant) (hid : row.id = db.sequences.rule) (hid' : row'.id = db'.sequences.rule)
    (heq : row' = { row with id := row'.id }) (hnone : db.visibleRules (some tenant) = []) :
    Alike κ tenant (ρ.add .rules db.sequences.rule db'.sequences.rule)
      (db.after (.insertRule r) [.insertRule row]) (db'.after (.insertRule r) [.insertRule row']) := by
  have hle := ρ.le_add .rules db.sequences.rule db'.sequences.rule
  have htwin : RuleTwin (ρ.add .rules db.sequences.rule db'.sequences.rule) row row' :=
    ⟨hid ▸ hid' ▸ ρ.add_self _ _ _, heq⟩
  have hrow' : row'.tenant = tenant := (htwin.congr (f := fun r => r.tenant) fun _ _ => rfl).symm.trans hrow
  refine ⟨⟨h.users, h.events.imp fun _ _ => .of_le hle, ?_, h.alerts.imp fun _ _ => .of_le hle, ?_⟩, h.userId,
    h.fresh.add (taken_rule _) (taken_rule _)⟩
  · rw [visibleRules_insert db _ hrow, visibleRules_insert db' _ hrow']
    exact List.rel_append (h.rules.imp fun _ _ => .of_le hle) (.cons htwin .nil)
  · rw [visibleRules_insert db _ hrow, hnone]
    exact le_rfl

theorem Alike.insertAlert (h : Alike κ tenant ρ db db') (a a' : NewAlert) {row row' : Alert}
    (hrow : row.tenant = tenant) (hid : row.id = db.sequences.alert) (hid' : row'.id = db'.sequences.alert)
    (hrule : ρ .rules row.ruleId row'.ruleId) (heq : row' = { row with id := row'.id, ruleId := row'.ruleId }) :
    Alike κ tenant (ρ.add .alerts db.sequences.alert db'.sequences.alert)
      (db.after (.insertAlert a) [.insertAlert row]) (db'.after (.insertAlert a') [.insertAlert row']) := by
  have hle := ρ.le_add .alerts db.sequences.alert db'.sequences.alert
  have htwin : AlertTwin (ρ.add .alerts db.sequences.alert db'.sequences.alert) row row' :=
    ⟨hid ▸ hid' ▸ ρ.add_self _ _ _, hle _ _ _ hrule, heq⟩
  have hrow' : row'.tenant = tenant := (htwin.congr (f := fun a => a.tenant) fun _ _ _ => rfl).symm.trans hrow
  refine ⟨⟨h.users, h.events.imp fun _ _ => .of_le hle, h.rules.imp fun _ _ => .of_le hle, ?_, h.one_rule⟩, h.userId,
    h.fresh.add (taken_alert _) (taken_alert _)⟩
  rw [visibleAlerts_insert db _ hrow, visibleAlerts_insert db' _ hrow']
  exact List.rel_append (h.alerts.imp fun _ _ => .of_le hle) (.cons htwin .nil)

theorem visibleRules_update (db : Db) (stmt : Stmt) (tenant : Str) (id : Nat) (set : RuleUpdate) (now : Time) :
    (db.after stmt [.updateRule tenant id set now]).visibleRules (some tenant) =
      (db.visibleRules (some tenant)).map fun r => if r.tenant = tenant ∧ r.id = id then set.applyTo now r else r := by
  show List.filter _ (List.map _ _) = _
  rw [List.filter_map]
  refine congrArg (List.map _) (List.filter_congr fun r _ => ?_)
  rw [Function.comp_apply]
  split <;> rfl

theorem visibleAlerts_mark (db : Db) (stmt : Stmt) (tenant : Str) (id : Nat) (now : Time) :
    (db.after stmt [.markWebhookSent tenant id now]).visibleAlerts (some tenant) =
      (db.visibleAlerts (some tenant)).map fun a =>
        if a.tenant = tenant ∧ a.id = id then { a with webhookSentAt := some now } else a := by
  show List.filter _ (List.map _ _) = _
  rw [List.filter_map]
  refine congrArg (List.map _) (List.filter_congr fun a _ => ?_)
  rw [Function.comp_apply]
  split <;> rfl

theorem RuleTwin.applyTo {r r' : AlertRule} (h : RuleTwin ρ r r') (set : RuleUpdate) (now : Time) :
    RuleTwin ρ (set.applyTo now r) (set.applyTo now r') :=
  ⟨h.id, by rw [h.eq]; rfl⟩

theorem Alike.updateRule (h : Alike κ tenant ρ db db') {stmt stmt' : Stmt} (hstmt : ∀ q, stmt.nextval q = q)
    (hstmt' : ∀ q, stmt'.nextval q = q) {id id' : Nat} (hid : ρ .rules id id') (set : RuleUpdate) (now : Time) :
    Alike κ tenant ρ (db.after stmt [.updateRule tenant id set now])
      (db'.after stmt' [.updateRule tenant id' set now]) := by
  have hseq : (db.after stmt [.updateRule tenant id set now]).sequences = db.sequences := hstmt _
  have hseq' : (db'.after stmt' [.updateRule tenant id' set now]).sequences = db'.sequences := hstmt' _
  refine ⟨⟨h.users, h.events, ?_, h.alerts, ?_⟩, ?_, ?_⟩
  · rw [visibleRules_update, visibleRules_update]
    refine List.rel_map (fun {r r'} hr => ?_) h.rules
    have htenant : r.tenant = tenant ↔ r'.tenant = tenant :=
      Iff.of_eq (hr.congr (f := fun r => r.tenant = tenant) fun _ _ => rfl)
    simp only [h.fresh.eq_iff hr.id hid, htenant]
    split
    · exact hr.applyTo set now
    · exact hr
  · rw [visibleRules_update, List.length_map]
    exact h.one_rule
  · rw [hseq, hseq']
    exact h.userId
  · rw [hseq, hseq']
    exact h.fresh

theorem AlertTwin.sent {a a' : Alert} (h : AlertTwin ρ a a') (now : Time) :
    AlertTwin ρ { a with webhookSentAt := some now } { a' with webhookSentAt := some now } :=
  ⟨h.id, h.rule, by rw [h.eq]⟩

theorem Alike.markWebhookSent (h : Alike κ tenant ρ db db') {id id' : Nat} (hid : ρ .alerts id id') (now : Time) :
    Alike κ tenant ρ (db.after (.markWebhookSent id) [.markWebhookSent tenant id now])
      (db'.after (.markWebhookSent id') [.markWebhookSent tenant id' now]) := by
  refine ⟨⟨h.users, h.events, h.rules, ?_, h.one_rule⟩, h.userId, h.fresh⟩
  rw [visibleAlerts_mark, visibleAlerts_mark]
  refine List.rel_map (fun {a a'} ha => ?_) h.alerts
  have htenant : a.tenant = tenant ↔ a'.tenant = tenant :=
    Iff.of_eq (ha.congr (f := fun a => a.tenant = tenant) fun _ _ _ => rfl)
  simp only [h.fresh.eq_iff ha.id hid, htenant]
  split
  · exact ha.sent now
  · exact ha

end

/-! ### Writing statements -/

section
variable {pg : Pg} {κ ρ : Renaming Table} {tenant : Str} {db db' : Db}

theorem alike_insertUser (h : Alike κ tenant ρ db db') {ctx ctx' : Ctx} (hnow : ctx.now = ctx'.now)
    (username passwordHash : Str) (role : Role) (t : Str) :
    Stmt.Alike pg κ tenant (.insertUser username passwordHash role t)
      (.insertUser username passwordHash role t) (fun _ _ _ => True) ρ ctx ctx' db db' := by
  have htake : Alike κ tenant ρ (db.after (.insertUser username passwordHash role t) [])
      (db'.after (.insertUser username passwordHash role t) []) :=
    ⟨h.toTwin.sequences _ _, congrArg (· + 1) h.userId, h.fresh⟩
  unfold Stmt.Alike
  simp only [Stmt.exec, ← h.users]
  split_ifs
  · exact ⟨rfl, htake⟩
  · exact ⟨rfl, htake⟩
  · exact ⟨rfl, htake⟩
  · refine ⟨ρ, le_rfl, ⟨⟨?_, h.events, h.rules, h.alerts, h.one_rule⟩, htake.userId, h.fresh⟩, trivial⟩
    show db.users ++ [_] = db'.users ++ [_]
    rw [h.users, h.userId, hnow]

theorem alike_insertEvent (h : Alike κ tenant ρ db db') {ctx : Ctx} (hctx : ctx.tenant = some tenant)
    (e : NormalizedEvent) :
    Stmt.Alike pg κ tenant (.insertEvent e) (.insertEvent e) (fun _ _ _ => True) ρ ctx ctx db
      db' := by
  have htake : Alike κ tenant ρ (db.after (.insertEvent e) []) (db'.after (.insertEvent e) []) :=
    h.take (taken_event _) (taken_event _) h.userId
  unfold Stmt.Alike
  simp only [Stmt.exec]
  cases hcols : EventColumns.ofParams e with
  | error err => exact ⟨rfl, htake⟩
  | ok cols =>
    dsimp only
    split_ifs with hrls
    · exact ⟨rfl, htake⟩
    · exact ⟨rfl, htake⟩
    · have htenant : e.tenant = tenant := by
        rw [hctx, Bool.not_eq_true', Bool.not_eq_false, rls, beq_iff_eq] at hrls
        exact (Option.some.inj hrls).symm
      have hrow := (EventColumns.ofParams_tenant hcols).trans htenant
      exact ⟨_, ρ.le_add _ _ _, h.insertEvent e hrow rfl rfl rfl, trivial⟩

/-- A condition on the tenant's rules looks at the visible ones only. -/
theorem Db.any_alertRules (db : Db) {tenant : Str} {p : AlertRule → Bool} {q : AlertRule → Bool}
    (hp : ∀ r, p r = (rls (some tenant) r.tenant && q r)) :
    db.alertRules.any p = (db.visibleRules (some tenant)).any q := by
  rw [visibleRules, List.any_filter]
  exact congrArg (db.alertRules.any ·) (funext hp)

theorem rls_some (tenant t : Str) : rls (some tenant) t = decide (t = tenant) := by
  rw [rls, Bool.eq_iff_iff, beq_iff_eq, decide_eq_true_eq, Option.some.injEq]
  exact eq_comm

theorem alike_insertRule (h : Alike κ tenant ρ db db') (ctx : Ctx) {r : NewRule} (hr : r.tenant = tenant) :
    Stmt.Alike pg κ tenant (.insertRule r) (.insertRule r) RuleTwin ρ ctx ctx db db' := by
  have htake : Alike κ tenant ρ (db.after (.insertRule r) []) (db'.after (.insertRule r) []) :=
    h.take (taken_rule _) (taken_rule _) h.userId
  have hany : ∀ d : Db, (d.alertRules.any fun r' => decide (r'.tenant = r.tenant ∧ r'.ruleType = r.ruleType)) =
      (d.visibleRules (some tenant)).any fun _ => true := fun d => d.any_alertRules fun r' => by
    rw [rls_some, hr, Bool.and_true]
    exact decide_eq_decide.2 (and_iff_left rfl)
  -- the id of the row is in no constraint
  let row (id : Nat) : AlertRule := { r with id, createdAt := ctx.now, updatedAt := ctx.now }
  have hx : ∀ d : Db, (Stmt.insertRule r).exec pg ctx d =
      if !([r.threshold, r.windowSeconds, r.cooldownSeconds].all int4Ok) then .error .outOfRange
      else if !rls ctx.tenant r.tenant then .error .rowSecurity
      else if !(row 0).checked then .error .checkViolation
      else if (d.visibleRules (some tenant)).any fun _ => true then .error .uniqueViolation
      else .ok (row d.sequences.rule, [.insertRule (row d.sequences.rule)]) := fun d => by
    rw [← hany d]
    rfl
  rw [Stmt.Alike, hx, hx, ← h.rules.any_eq (fun _ => true) (fun _ => true) fun _ _ _ => rfl]
  split_ifs with _ _ _ hnone
  · exact ⟨rfl, htake⟩
  · exact ⟨rfl, htake⟩
  · exact ⟨rfl, htake⟩
  · exact ⟨rfl, htake⟩
  · have hnil : db.visibleRules (some tenant) = [] := by
      cases hl : db.visibleRules (some tenant) with
      | nil => rfl
      | cons r' l => exact absurd (by rw [hl]; rfl) hnone
    exact ⟨_, ρ.le_add _ _ _, h.insertRule r hr rfl rfl rfl hnil, ρ.add_self _ _ _, rfl⟩

/-- A tenant with at most one rule names it by its id in both databases or in neither. -/
theorem RuleTwin.find? {l l' : List AlertRule} (hl : Forall₂ (RuleTwin ρ) l l') (hone : l.length ≤ 1)
    (p p' : AlertRule → Bool) (hp : (∃ r ∈ l, p r) ↔ ∃ r ∈ l', p' r) :
    Option.Rel (RuleTwin ρ) (l.find? p) (l'.find? p') := by
  cases hl with
  | nil => exact .none
  | @cons r r' l l' hr htail =>
    have hnil : l = [] := List.eq_nil_of_length_eq_zero (Nat.le_zero.1 (Nat.le_of_succ_le_succ hone))
    subst hnil
    cases htail
    have hrr : p r = p' r' := by
      rw [Bool.eq_iff_iff]
      simpa using hp
    rw [List.find?_cons, List.find?_cons, hrr]
    split
    · exact .some hr
    · exact .none

theorem alike_updateRule (h : Alike κ tenant ρ db db') {ctx : Ctx} (hctx : ctx.tenant = some tenant)
    (set : RuleUpdate) {i j : Int} (hname : (∃ r ∈ db.visibleRules (some tenant), (r.id : Int) = i) ↔
      ∃ r ∈ db'.visibleRules (some tenant), (r.id : Int) = j) :
    Stmt.Alike pg κ tenant (.updateRule set i) (.updateRule set j)
      (fun ρ => Option.Rel (RuleTwin ρ)) ρ ctx ctx db db' := by
  have hfind := RuleTwin.find? h.rules h.one_rule (fun r => (r.id : Int) = i) (fun r => (r.id : Int) = j)
    (by simpa only [decide_eq_true_eq] using hname)
  have htenant : ∀ r, (db.visibleRules (some tenant)).find? (fun r => (r.id : Int) = i) = some r → r.tenant = tenant :=
    fun r hr => by
      have hrls := List.of_mem_filter (List.mem_of_find?_eq_some hr)
      rwa [rls_some, decide_eq_true_eq] at hrls
  simp only [Stmt.Alike, Stmt.exec, hctx]
  by_cases hrange : set.inRange
  swap
  · simp only [hrange]
    exact ⟨rfl, h⟩
  simp only [hrange]
  generalize (db.visibleRules (some tenant)).find? (fun r => (r.id : Int) = i) = o at hfind htenant
  generalize (db'.visibleRules (some tenant)).find? (fun r => (r.id : Int) = j) = o' at hfind
  cases hfind with
  | none => exact ⟨ρ, le_rfl, h, .none⟩
  | @some r r' hr =>
    have htr : r.tenant = tenant := htenant r rfl
    have htr' : r'.tenant = tenant := (hr.congr (f := fun r => r.tenant) fun _ _ => rfl).symm.trans htr
    have hchecked := (hr.applyTo set ctx.now).congr (f := fun r => r.checked) fun _ _ => rfl
    dsimp only
    rw [hchecked, htr, htr']
    by_cases hnull : set.notNull
    swap
    · simp only [hnull]
      exact ⟨rfl, h⟩
    by_cases hok : (set.applyTo ctx.now r').checked
    swap
    · simp only [hnull, hok]
      exact ⟨rfl, h⟩
    simp only [hnull, hok]
    exact ⟨ρ, le_rfl, h.updateRule (fun _ => rfl) (fun _ => rfl) hr.id set ctx.now, .some (hr.applyTo set ctx.now)⟩

theorem alike_insertAlert (h : Alike κ tenant ρ db db') (ctx : Ctx) {a a' : NewAlert} (ha : a.tenant = tenant)
    (hrule : ρ .rules a.ruleId a'.ruleId) (heq : a' = { a with ruleId := a'.ruleId }) :
    Stmt.Alike pg κ tenant (.insertAlert a) (.insertAlert a') (fun ρ => ρ .alerts) ρ ctx ctx db
      db' := by
  have htake : Alike κ tenant ρ (db.after (.insertAlert a) []) (db'.after (.insertAlert a') []) :=
    h.take (taken_alert _) (taken_alert _) h.userId
  have hany : ∀ (d : Db) (id : Nat), (d.alertRules.any fun r => decide (r.tenant = a.tenant ∧ r.id = id)) =
      (d.visibleRules (some tenant)).any fun r => decide (r.id = id) := fun d id => d.any_alertRules fun r => by
    rw [rls_some, ha, Bool.decide_and]
  have hfk : (db.visibleRules (some tenant)).any (fun r => decide (r.id = a.ruleId)) =
      (db'.visibleRules (some tenant)).any fun r => decide (r.id = a'.ruleId) :=
    h.rules.any_eq _ _ fun r r' hr => decide_eq_decide.2 (h.fresh.eq_iff hr.id hrule)
  have hx : ∀ (d : Db) (ruleId : Nat), (Stmt.insertAlert { a with ruleId }).exec pg ctx d =
      if !([a.eventCount, a.threshold, a.windowSeconds].all int4Ok) then .error .outOfRange
      else if !rls ctx.tenant a.tenant then .error .rowSecurity
      else if a.tenant = [] then .error .checkViolation
      else if !(d.visibleRules (some tenant)).any fun r => decide (r.id = ruleId) then .error .foreignKeyViolation
      else .ok (d.sequences.alert, [.insertAlert { a with
        ruleId, id := d.sequences.alert, triggeredAt := ctx.now, webhookSentAt := none }]) := fun d ruleId => by
    rw [← hany d]
    rfl
  have hx' := hx db' a'.ruleId
  rw [← heq] at hx'
  rw [Stmt.Alike, hx', show Stmt.exec pg ctx db (.insertAlert a) = _ from hx db a.ruleId, hfk]
  split_ifs
  · exact ⟨rfl, htake⟩
  · exact ⟨rfl, htake⟩
  · exact ⟨rfl, htake⟩
  · exact ⟨rfl, htake⟩
  · exact ⟨_, ρ.le_add _ _ _, h.insertAlert a a' ha rfl rfl hrule rfl, ρ.add_self _ _ _⟩

theorem alike_markWebhookSent (h : Alike κ tenant ρ db db') {ctx : Ctx} (hctx : ctx.tenant = some tenant)
    {id id' : Nat} (hid : ρ .alerts id id') :
    Stmt.Alike pg κ tenant (.markWebhookSent id) (.markWebhookSent id') (fun _ _ _ => True) ρ ctx ctx
      db db' := by
  have hfind := h.alerts.find?_rel (fun a => a.id = id) (fun a => a.id = id')
    fun a a' ha => decide_eq_decide.2 (h.fresh.eq_iff ha.id hid)
  have hfound : ∀ a, (db.visibleAlerts (some tenant)).find? (fun a => a.id = id) = some a →
      a.tenant = tenant ∧ a.id = id := fun a ha => by
    have hrls := List.of_mem_filter (List.mem_of_find?_eq_some ha)
    rw [rls_some, decide_eq_true_eq] at hrls
    have hsome := List.find?_some ha
    exact ⟨hrls, decide_eq_true_eq.mp hsome⟩
  simp only [Stmt.Alike, Stmt.exec, hctx]
  generalize (db.visibleAlerts (some tenant)).find? (fun a => a.id = id) = o at hfind hfound
  generalize (db'.visibleAlerts (some tenant)).find? (fun a => a.id = id') = o' at hfind
  cases hfind with
  | none => exact ⟨ρ, le_rfl, h, trivial⟩
  | @some a a' ha =>
    obtain ⟨hta, hida⟩ := hfound a rfl
    have hta' : a'.tenant = tenant := (ha.congr (f := fun a => a.tenant) fun _ _ _ => rfl).symm.trans hta
    have hida' : a'.id = id' := (h.fresh.eq_iff ha.id hid).1 hida
    dsimp only
    rw [hta, hta', hida, hida']
    exact ⟨ρ, le_rfl, h.markWebhookSent hid ctx.now, trivial⟩

end

end LogMgmt
