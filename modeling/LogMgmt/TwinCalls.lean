import LogMgmt.Engine
import LogMgmt.TwinRuns

/-!
# Twin requests

A request of the tenant, or of nobody in particular, is answered alike on twin databases and leaves twins, and
so is an evaluation of the tenant by the alert engine.
-/

namespace LogMgmt
open Prog
open List (Forall₂)

/-! ### Responses -/

structure ItemTwin (ρ : Renaming Table) (i i' : SearchResultItem) : Prop where
  id : ρ .events i.id i'.id
  eq : i' = { i with id := i'.id }

/-- Responses that differ in nothing but the ids of corresponding rows. -/
inductive ResponseTwin (ρ : Renaming Table) : Response → Response → Prop
  | token (claims : TokenClaims) : ResponseTwin ρ (.token claims) (.token claims)
  | accepted (tenant source eventType : Str) :
    ResponseTwin ρ (.accepted tenant source eventType) (.accepted tenant source eventType)
  | search {items items' : List SearchResultItem} (limit offset : Nat) (hasMore : Bool)
    (h : Forall₂ (ItemTwin ρ) items items') :
    ResponseTwin ρ (.search ⟨items, limit, offset, hasMore⟩) (.search ⟨items', limit, offset, hasMore⟩)
  | top (items : List (Str × Nat)) : ResponseTwin ρ (.top items) (.top items)
  | timeline (buckets : List (Time × Nat)) : ResponseTwin ρ (.timeline buckets) (.timeline buckets)
  | rules {rs rs' : List AlertRule} (h : Forall₂ (RuleTwin ρ) rs rs') : ResponseTwin ρ (.rules rs) (.rules rs')
  | rule {r r' : AlertRule} (h : RuleTwin ρ r r') : ResponseTwin ρ (.rule r) (.rule r')
  | alerts {items items' : List Alert} (limit offset : Nat) (hasMore : Bool)
    (h : Forall₂ (AlertTwin ρ) items items') :
    ResponseTwin ρ (.alerts ⟨items, limit, offset, hasMore⟩) (.alerts ⟨items', limit, offset, hasMore⟩)
  | health : ResponseTwin ρ .health .health
  | done : ResponseTwin ρ .done .done

section
variable {ρ ρ' : Renaming Table} {r r' : Response}

theorem ItemTwin.of_le (hρ : ρ ≤ ρ') {i i' : SearchResultItem} (h : ItemTwin ρ i i') : ItemTwin ρ' i i' :=
  ⟨hρ _ _ _ h.id, h.eq⟩

theorem ItemTwin.same (hρ : ρ ≤ fun _ => Eq) {i i' : SearchResultItem} (h : ItemTwin ρ i i') : i = i' := by
  rw [h.eq, ← hρ _ _ _ h.id]

theorem ResponseTwin.of_le (hρ : ρ ≤ ρ') (h : ResponseTwin ρ r r') : ResponseTwin ρ' r r' := by
  cases h with
  | token claims => exact .token claims
  | accepted tenant source eventType => exact .accepted tenant source eventType
  | search limit offset hasMore h => exact .search limit offset hasMore (h.imp fun _ _ => .of_le hρ)
  | top items => exact .top items
  | timeline buckets => exact .timeline buckets
  | rules h => exact .rules (h.imp fun _ _ => .of_le hρ)
  | rule h => exact .rule (h.of_le hρ)
  | alerts limit offset hasMore h => exact .alerts limit offset hasMore (h.imp fun _ _ => .of_le hρ)
  | health => exact .health
  | done => exact .done

theorem ResponseTwin.same (hρ : ρ ≤ fun _ => Eq) (h : ResponseTwin ρ r r') : r = r' := by
  cases h with
  | search limit offset hasMore h => rw [h.eq_of fun _ _ => ItemTwin.same hρ]
  | rules h => rw [h.eq_of fun _ _ => RuleTwin.same hρ]
  | rule h => rw [h.same hρ]
  | alerts limit offset hasMore h => rw [h.eq_of fun _ _ => AlertTwin.same hρ]
  | _ => rfl

end

/-! ### Calls -/

/-- The tenant has a rule of this id. -/
def Db.HasRule (db : Db) (tenant : Str) (ruleId : Int) : Prop :=
  ∃ r ∈ db.visibleRules (some tenant), (r.id : Int) = ruleId

/-- The calls are the same; where they name a rule they name the tenant's own in both databases or in neither. -/
inductive Call.Twin (tenant : Str) (db db' : Db) : Call → Call → Prop
  | refl (call : Call) (h : ∀ ruleId body claims, call ≠ .updateAlertRule ruleId body claims) : Twin tenant db db' call call
  | updateAlertRule (ruleId ruleId' : Int) (body : AlertRuleUpdate) (claims : TokenClaims)
    (h : db.HasRule tenant ruleId ↔ db'.HasRule tenant ruleId') :
    Twin tenant db db' (.updateAlertRule ruleId body claims) (.updateAlertRule ruleId' body claims)

theorem Call.Twin.self {tenant : Str} {db db' : Db} (h : ∀ ruleId, db.HasRule tenant ruleId ↔ db'.HasRule tenant ruleId)
    (call : Call) : Call.Twin tenant db db' call call := by
  cases call with
  | updateAlertRule ruleId body claims => exact .updateAlertRule ruleId ruleId body claims (h ruleId)
  | _ => exact .refl _ (by simp)

section
variable {pg : Pg} {κ ρ : Renaming Table} {tenant : Str} {s t : Session}

theorem Db.hasRule_congr {db db' : Db} (h : db.alertRules = db'.alertRules) (ruleId : Int) :
    db.HasRule tenant ruleId ↔ db'.HasRule tenant ruleId := by
  unfold HasRule visibleRules
  rw [h]

theorem agree_login (w : World) (h : TwinSessions κ tenant ρ s t) (username password : Str) :
    AgreeIn pg κ tenant (fun _ => True) ResponseTwin ρ (login w.bcrypt username password)
      (login w.bcrypt username password) s t := by
  refine agree_withConn (J := fun _ => True) ?_
  refine Agree.bind (agree_sql h fun _ _ => alike_selectUser h.view _ _ username) fun ρ' row _ s t _ hs hrow => ?_
  subst hrow
  dsimp only
  split
  · exact Agree.pure ⟨hs.1, trivial⟩ (.token _)
  · exact Agree.throw hs.1
  · exact Agree.throw hs.1

theorem agree_writeEvent (h : TwinSessions κ tenant ρ s t) {e : NormalizedEvent} (he : e.tenant = tenant) :
    AgreeIn pg κ tenant (fun _ => True) (fun _ _ _ => True) ρ (writeEvent e) (writeEvent e) s t := by
  unfold writeEvent
  rw [he]
  refine agree_tenantTransaction h fun s t hs hin _ _ => ?_
  exact agree_tenantSql hs hin rfl rfl fun _ htenant => alike_insertEvent hs.view htenant e

theorem agree_ingest (w : World) (h : TwinSessions κ tenant ρ s t) (body : PyDict) (now : DateTime)
    {claims : TokenClaims} (hclaims : claims.tenant = tenant) :
    AgreeIn pg κ tenant (fun _ => True) ResponseTwin ρ (ingest w.py body now claims) (ingest w.py body now claims) s
      t := by
  refine agree_requireAdmin h (agree_withConn (J := fun _ => True) ?_)
  split
  · rename_i e he
    have htenant : claims.tenant = e.tenant := by
      simpa using EventArgs.strField_eq_some.1 (normalize_tenant he)
    refine Agree.bind (agree_writeEvent h (htenant.symm.trans hclaims)) fun ρ' _ _ s t _ hs _ => ?_
    exact Agree.pure hs (.accepted _ _ _)
  · exact Agree.throw h

theorem agree_search (h : TwinSessions κ tenant ρ s t) (req : SearchRequest) {claims : TokenClaims}
    (hclaims : claims.tenant = tenant) :
    AgreeIn pg κ tenant (fun _ => True) ResponseTwin ρ (search req claims) (search req claims) s t := by
  refine agree_tenantConn hclaims h fun s t hs hin _ _ => ?_
  refine Agree.bind (agree_tenantSql hs hin rfl rfl fun _ htenant =>
    alike_searchEvents hs.view htenant _ _ _) fun ρ' rows rows' s t _ hs hrows => ?_
  refine Agree.pure hs ?_
  rw [hrows.length_eq]
  exact .search _ _ _ (List.rel_map (fun {_ _} he => ⟨he.id, by rw [he.eq]; rfl⟩) (List.forall₂_take _ hrows))

theorem agree_top (h : TwinSessions κ tenant ρ s t) (req : TopRequest) {claims : TokenClaims}
    (hclaims : claims.tenant = tenant) :
    AgreeIn pg κ tenant (fun _ => True) ResponseTwin ρ (top req claims) (top req claims) s t := by
  refine agree_tenantConn hclaims h fun s t hs hin _ _ => ?_
  refine Agree.bind (agree_tenantSql hs hin rfl rfl fun _ htenant =>
    alike_topEvents hs.view htenant _ _ _ _) fun ρ' items _ s t _ hs hitems => ?_
  subst hitems
  exact Agree.pure hs (.top _)

theorem agree_timeline (h : TwinSessions κ tenant ρ s t) (req : TimelineRequest) {claims : TokenClaims}
    (hclaims : claims.tenant = tenant) :
    AgreeIn pg κ tenant (fun _ => True) ResponseTwin ρ (timeline req claims) (timeline req claims) s t := by
  refine agree_tenantConn hclaims h fun s t hs hin _ _ => ?_
  refine Agree.bind (agree_tenantSql hs hin rfl rfl fun _ htenant =>
    alike_timeline hs.view htenant _ _ _) fun ρ' buckets _ s t _ hs hbuckets => ?_
  subst hbuckets
  exact Agree.pure hs (.timeline _)

theorem agree_listAlertRules (h : TwinSessions κ tenant ρ s t) {claims : TokenClaims}
    (hclaims : claims.tenant = tenant) :
    AgreeIn pg κ tenant (fun _ => True) ResponseTwin ρ (listAlertRules claims) (listAlertRules claims) s t := by
  refine agree_tenantConn hclaims h fun s t hs hin _ _ => ?_
  refine Agree.bind (agree_tenantSql hs hin rfl rfl fun _ htenant =>
    alike_listRules hs.view htenant) fun ρ' rs rs' s t _ hs hrs => ?_
  exact Agree.pure hs (.rules hrs)

theorem agree_createAlertRule (h : TwinSessions κ tenant ρ s t) (body : AlertRuleCreate) {claims : TokenClaims}
    (hclaims : claims.tenant = tenant) :
    AgreeIn pg κ tenant (fun _ => True) ResponseTwin ρ (createAlertRule body claims) (createAlertRule body claims) s
      t := by
  refine agree_requireAdmin h (agree_tenantConn hclaims h fun s t hs hin _ _ => ?_)
  refine Agree.bind (Agree.tryCatch (agree_tenantSql hs hin rfl rfl fun _ _ =>
    alike_insertRule hs.view _ hclaims) fun ρ' e s t _ hs => ?_) fun ρ' r r' s t _ hs hr => Agree.pure hs (.rule hr)
  split <;> exact Agree.throw hs

theorem agree_updateAlertRule (h : TwinSessions κ tenant ρ s t) (body : AlertRuleUpdate) {claims : TokenClaims}
    (hclaims : claims.tenant = tenant) {ruleId ruleId' : Int}
    (hname : s.db.HasRule tenant ruleId ↔ t.db.HasRule tenant ruleId') :
    AgreeIn pg κ tenant (fun _ => True) ResponseTwin ρ (updateAlertRule ruleId body claims)
      (updateAlertRule ruleId' body claims) s t := by
  refine agree_requireAdmin h (agree_tenantConn hclaims h fun s' t' hs hin hrules hrules' => ?_)
  split
  · exact Agree.throw hs
  · refine Agree.bind (agree_tenantSql hs hin rfl rfl fun _ htenant =>
      alike_updateRule hs.view htenant body.toRuleUpdate ?_) fun ρ' o o' s t _ hs ho => ?_
    · exact (Db.hasRule_congr hrules ruleId).trans (hname.trans (Db.hasRule_congr hrules' ruleId').symm)
    · cases ho with
      | none => exact Agree.throw hs.1
      | some hr => exact Agree.pure hs (.rule hr)

theorem agree_listAlerts (h : TwinSessions κ tenant ρ s t) (req : AlertsRequest) {claims : TokenClaims}
    (hclaims : claims.tenant = tenant) :
    AgreeIn pg κ tenant (fun _ => True) ResponseTwin ρ (listAlerts req claims) (listAlerts req claims) s t := by
  refine agree_tenantConn hclaims h fun s t hs hin _ _ => ?_
  refine Agree.bind (agree_tenantSql hs hin rfl rfl fun _ htenant =>
    alike_listAlerts hs.view htenant _ _ _) fun ρ' rows rows' s t _ hs hrows => ?_
  refine Agree.pure hs ?_
  rw [hrows.length_eq]
  exact .alerts _ _ _ (List.forall₂_take _ hrows)

theorem agree_health (h : TwinSessions κ tenant ρ s t) :
    AgreeIn pg κ tenant (fun _ => True) ResponseTwin ρ health health s t := by
  refine Agree.tryCatch (agree_withConn (J := fun _ => True) ?_) fun ρ' e s t _ hs => Agree.throw hs
  refine Agree.bind (agree_sql h fun _ _ => alike_selectOne h.view _ _) fun ρ' _ _ s t _ hs _ => ?_
  exact Agree.pure hs .health

theorem agree_createUser (h : TwinSessions κ tenant ρ s t) (username passwordHash : Str) (role : Role) (t' : Str) :
    AgreeIn pg κ tenant (fun _ => True) ResponseTwin ρ (createUser username passwordHash role t')
      (createUser username passwordHash role t') s t := by
  refine Agree.bind (agree_sql h fun hnow _ => alike_insertUser h.view hnow _ _ _ _) fun ρ' _ _ s t _ hs _ => ?_
  exact Agree.pure hs .done

/-- A call for the tenant, or for nobody in particular, is answered alike. -/
theorem agree_call (w : World) (h : TwinSessions κ tenant ρ s t) {call call' : Call} (hown : ¬call.Foreign tenant)
    (hcall : Call.Twin tenant s.db t.db call call') :
    AgreeIn pg κ tenant (fun _ => True) ResponseTwin ρ (call.app w) (call'.app w) s t := by
  have howner : ∀ t', call.tenant = some t' → t' = tenant := fun t' ht => by
    by_contra hne
    exact hown ⟨t', ht, hne⟩
  cases hcall with
  | updateAlertRule ruleId ruleId' body claims hname => exact agree_updateAlertRule h body (howner _ rfl) hname
  | refl call hnot =>
    cases call with
    | login username password => exact agree_login w h username password
    | ingest body now claims => exact agree_ingest w h body now (howner _ rfl)
    | writeEvent e =>
      exact Agree.bind (agree_writeEvent h (howner _ rfl)) fun ρ' _ _ s t _ hs _ => Agree.pure hs .done
    | search req claims => exact agree_search h req (howner _ rfl)
    | top req claims => exact agree_top h req (howner _ rfl)
    | timeline req claims => exact agree_timeline h req (howner _ rfl)
    | listAlertRules claims => exact agree_listAlertRules h (howner _ rfl)
    | createAlertRule body claims => exact agree_createAlertRule h body (howner _ rfl)
    | updateAlertRule ruleId body claims => exact absurd rfl (hnot ruleId body claims)
    | listAlerts req claims => exact agree_listAlerts h req (howner _ rfl)
    | health => exact agree_health h
    | createUser username passwordHash role t' => exact agree_createUser h username passwordHash role t'

end

/-! ### Evaluations -/

section
variable {pg : Pg} {κ ρ ρ' : Renaming Table} {tenant : Str} {s t : Session} {rule rule' : RuleConfig}

theorem ConfigTwin.of_le (hρ : ρ ≤ ρ') (h : ConfigTwin ρ rule rule') : ConfigTwin ρ' rule rule' :=
  ⟨hρ _ _ _ h.id, h.eq⟩

theorem agree_notify (h : TwinSessions κ tenant ρ s t) (hin : InTenant tenant s.conn) (url : Option Str)
    (c : Candidate) {alertId alertId' : Nat} (hid : ρ .alerts alertId alertId') :
    AgreeIn pg κ tenant (InTenant tenant) (fun _ _ _ => True) ρ (notify url tenant rule c alertId)
      (notify url tenant rule' c alertId') s t := by
  unfold notify
  split
  · exact Agree.pure ⟨h, hin⟩ trivial
  · exact Agree.pure ⟨h, hin⟩ trivial
  · refine Agree.bind (agree_exec (twin_sendWebhook h hin _ _ _)) fun ρ' delivered _ s t hρ hs hd => ?_
    subst hd
    split
    · exact agree_tenantSql hs.1 hs.2 rfl rfl fun _ htenant =>
        alike_markWebhookSent hs.1.view htenant (hρ _ _ _ hid)
    · exact Agree.pure hs trivial

theorem agree_evaluateCandidate (h : TwinSessions κ tenant ρ s t) (hin : InTenant tenant s.conn)
    (url : Option Str) (hrule : ConfigTwin ρ rule rule') (c : Candidate) :
    AgreeIn pg κ tenant (InTenant tenant) (fun _ _ _ => True) ρ (evaluateCandidate url tenant rule c)
      (evaluateCandidate url tenant rule' c) s t := by
  have hcooldown : rule'.cooldownSeconds = rule.cooldownSeconds := by rw [hrule.eq]
  have hthreshold : rule'.threshold = rule.threshold := by rw [hrule.eq]
  have hwindow : rule'.windowSeconds = rule.windowSeconds := by rw [hrule.eq]
  unfold evaluateCandidate
  rw [hcooldown, hthreshold, hwindow]
  refine Agree.bind (agree_tenantSql h hin rfl rfl fun _ htenant =>
    alike_pastCooldown h.view htenant hrule.id _ _) fun ρ' past _ s t hρ hs hpast => ?_
  subst hpast
  split
  · refine Agree.bind (agree_tenantSql hs.1 hs.2 rfl rfl fun _ _ =>
      alike_insertAlert hs.1.view _ rfl (hρ _ _ _ hrule.id) rfl) fun ρ'' alertId alertId' s t _ hs hid => ?_
    exact agree_notify hs.1 hs.2 url c hid
  · exact Agree.pure hs trivial

theorem agree_evaluateTenant (h : TwinSessions κ tenant ρ s t) (url : Option Str) :
    AgreeIn pg κ tenant (fun _ => True) (fun _ _ _ => True) ρ (evaluateTenant url tenant) (evaluateTenant url tenant) s
      t := by
  refine agree_tenantTransaction h fun s t hs hin _ _ => ?_
  refine Agree.bind (agree_tenantSql hs hin rfl rfl fun _ htenant =>
    alike_selectRule hs.view htenant _) fun ρ' o o' s t _ hs ho => ?_
  cases ho with
  | none => exact Agree.pure hs trivial
  | @some rule rule' hrule =>
    have hthreshold : rule'.threshold = rule.threshold := by rw [hrule.eq]
    have hwindow : rule'.windowSeconds = rule.windowSeconds := by rw [hrule.eq]
    dsimp only
    rw [hthreshold, hwindow]
    refine Agree.bind (agree_tenantSql hs.1 hs.2 rfl rfl fun _ htenant =>
      alike_detect hs.1.view htenant _ _) fun ρ'' candidates _ s t hρ hs hc => ?_
    subst hc
    refine Agree.forM (fun c _ ρ₃ s t hρ' hs => ?_) hs
    exact agree_evaluateCandidate hs.1 hs.2 url (hrule.of_le (hρ.trans hρ')) c

theorem agree_tryEvaluateTenant (pg : Pg) (h : TwinSessions κ tenant ρ s t) (url : Option Str) :
    AgreeIn pg κ tenant (fun _ => True) (fun _ _ _ => True) ρ (tryEvaluateTenant url tenant)
      (tryEvaluateTenant url tenant) s t := by
  refine Agree.tryCatch (agree_evaluateTenant h url) fun ρ' _ s t _ hs => ?_
  have hr := twin_rollback pg hs
  rw [← bind_pure (exec .rollback)]
  exact agree_exec_next (J := fun _ => True) hr.1 hr.2 fun _ _ => Agree.pure ⟨hr.2, trivial⟩ trivial

end

end LogMgmt
