import LogMgmt.Gateway

/-!
# Who writes what

Over HTTP only an admin writes, only events and rules, and only rows of the tenant that the token names; the
token was issued to a user with these claims (`api_writes`). The `tenant` in the body of `POST /ingest` has no
part in what is stored.
-/

namespace LogMgmt
open Prog

/-! ### Rows of one tenant -/

/-- Rows inserted or changed are events and rules of the tenant. -/
structure Db.ChangedFor (tenant : Str) (db db' : Db) : Prop where
  users : db'.users = db.users
  alerts : db'.alerts = db.alerts
  events : db'.events.filter (·.tenant ≠ tenant) = db.events.filter (·.tenant ≠ tenant)
  rules : db'.alertRules.filter (·.tenant ≠ tenant) = db.alertRules.filter (·.tenant ≠ tenant)

section
variable {w : World} {t : Str} {db : Db} {r : Request}

/-- Statements under the setting of `t` leave the events and rules of the others. -/
theorem kept_others (pg : Pg) (t : Str) (events : List EventRow) (rules : List AlertRule) :
    Kept pg (fun setting stmt => stmt.tenantTable → setting = some t)
      (fun db => db.events.filter (·.tenant ≠ t) = events ∧ db.alertRules.filter (·.tenant ≠ t) = rules)
      (fun w => ∀ t', w.tenant = some t' → t' = t) where
  apply db w hdb hw := by
    obtain ⟨hevents, hrules⟩ := hdb
    cases w with
    | insertEvent row =>
      refine ⟨?_, hrules⟩
      rw [← hevents]
      exact filter_append_of_not db.events (by simp [hw _ rfl])
    | insertRule row =>
      refine ⟨hevents, ?_⟩
      rw [← hrules]
      exact filter_append_of_not db.alertRules (by simp [hw _ rfl])
    | updateRule t' id set now =>
      refine ⟨hevents, ?_⟩
      rw [← hrules]
      refine filter_map_of_not db.alertRules (fun r => ?_) fun r hr => ?_
      · split <;> rfl
      · rw [decide_eq_true_eq] at hr
        exact if_neg fun hc => hr (hc.1.trans (hw t' rfl))
    | _ => exact ⟨hevents, hrules⟩
  nextval _ _ _ _ hdb := hdb
  writes stmt ctx db r ws hok _ hx w hw t' ht' := Stmt.exec_own hok hx hw ht'

theorem Request.changedFor (w : World) (h : r.call.tenant = some t) (db : Db) : db.ChangedFor t (r.commits w db) := by
  have halone : ({ db, conn := r.conn, nature := r.nature } : Session).Alone := fun _ => rfl
  have hsets : App.Sets (some t) (r.call.app w) r.conn := h ▸ r.call.sets w r.conn
  have hspares : Issues (Cmd.Only fun stmt => stmt.sparesUsers) (r.call.app w) := r.call.issues w fun stmt _ hspares =>
    hspares.resolve_right fun hnone => by rw [hnone] at h; cases h
  have hothers := ((kept_others w.pg t _ _).run_setting hsets.only (halone.holds rfl ⟨rfl, rfl⟩)).db
  exact ⟨((kept_users w.pg db.users db.sequences.user).commits hspares ⟨rfl, rfl⟩).1,
    ((kept_alerts w.pg db.alerts db.sequences.alert).commits (r.call.sparesAlerts w) ⟨rfl, rfl⟩).1, hothers.1, hothers.2⟩

theorem kept_same (pg : Pg) (db₀ : Db) : Kept pg (fun _ stmt => stmt.reads) (· = db₀) (fun _ => False) where
  apply _ _ _ hw := hw.elim
  nextval _ stmt db hok hdb := by
    cases stmt with
    | insertUser _ _ _ _ | insertEvent _ | insertRule _ | insertAlert _ => cases hok
    | _ => exact hdb
  writes stmt ctx db r ws hok _ hx w hw := by
    cases Stmt.exec_writes hx with
    | none => cases hw
    | _ => cases hok

theorem Request.commits_eq (w : World) (h : ∀ stmt, ¬r.call.Writes stmt) (db : Db) : r.commits w db = db := by
  refine (kept_same w.pg db).commits ((r.call.sends w).imp fun _ c hc => ?_) rfl
  cases c with
  | sql stmt => exact hc.resolve_right (h stmt)
  | _ => trivial

end

/-! ### Tokens -/

/-- The texts of a user were parameters of an INSERT. -/
def Db.UserTexts (db : Db) : Prop := ∀ u ∈ db.users, textOk u.username ∧ textOk u.tenant

theorem kept_userTexts (pg : Pg) :
    Kept pg (fun _ _ => True) Db.UserTexts fun w => ∀ u, w = .insertUser u → textOk u.username ∧ textOk u.tenant where
  apply db w hdb hw := by
    cases w with
    | insertUser u => exact List.forall_mem_append.2 ⟨hdb, List.forall_mem_singleton.2 (hw u rfl)⟩
    | _ => exact hdb
  nextval _ _ _ _ hdb := hdb
  writes stmt ctx db r ws _ _ hx w hw u hu := by
    cases stmt with
    | insertUser username passwordHash role tenant =>
      simp only [Stmt.exec] at hx
      split_ifs at hx with htexts
      cases hx
      cases hu.symm.trans (List.mem_singleton.1 hw)
      simpa using htexts
    | _ =>
      cases Stmt.exec_writes hx with
      | none => cases hw
      | _ => cases hu.symm.trans (List.mem_singleton.1 hw)

theorem Db.UserTexts.commits {db : Db} (h : db.UserTexts) (w : World) (r : Request) : (r.commits w db).UserTexts :=
  (kept_userTexts w.pg).commits ((r.call.sends w).imp fun _ c _ => by cases c <;> trivial) h

theorem TokenClaims.Of.textsOk {db : Db} {claims : TokenClaims} (h : claims.Of db.users) (hdb : db.UserTexts) :
    claims.textsOk := by
  obtain ⟨u, hu, hname, -, htenant⟩ := h
  rw [TokenClaims.textsOk, ← hname, ← htenant, Bool.and_eq_true]
  exact hdb u hu

/-- The issue is of a token that `create_access_token` made for a user of that moment. -/
structure Issue.Genuine (jwt : Jwt) (i : Issue) : Prop where
  token : ∃ now, i.token = createAccessToken jwt i.claims now
  claims : i.claims.Of i.users
  texts : i.claims.textsOk

namespace Gateway
variable {w : World} {jwt : Jwt} {g g' : Gateway} {r : HttpRequest}

/-- What a request does, by what becomes of it. -/
inductive HttpCases (w : World) (jwt : Jwt) (g : Gateway) (r : HttpRequest) : Prop where
  | answered (h : ∀ c, r.dispatch jwt ≠ .ok (.inr c)) (hg : (g.http w jwt r).2 = g)
  | called (c : Call) (h : r.dispatch jwt = .ok (.inr c)) (hdb : (g.http w jwt r).2.db = (r.on c).commits w g.db)
      (hissued : (g.http w jwt r).2.issued = g.issued ∨ ∃ claims, claims.Of g.db.users ∧
        (g.http w jwt r).2.issued = g.issued ++ [⟨createAccessToken jwt claims r.now.instant, claims, g.db.users⟩])

theorem http_cases (w : World) (jwt : Jwt) (g : Gateway) (r : HttpRequest) : HttpCases w jwt g r := by
  rcases hd : r.dispatch jwt with e | claims | c
  · exact .answered (by simp [hd]) (by simp [http, hd])
  · exact .answered (by simp [hd]) (by simp [http, hd])
  · rcases hr : ((r.on c).run w g.db).1 with e | response
    · exact .called c hd (by simp [http, hd, hr]) (.inl (by simp [http, hd, hr]))
    · cases response with
      | token claims =>
        exact .called c hd (by simp [http, hd, hr]) (.inr ⟨claims, Call.token_of hr, by simp [http, hd, hr]⟩)
      | _ => exact .called c hd (by simp [http, hd, hr]) (.inl (by simp [http, hd, hr]))

theorem Step.userTexts (hs : Step w jwt g g') (h : g.db.UserTexts) : g'.db.UserTexts := by
  cases hs with
  | createUser => exact h.commits w _
  | http r _ =>
    cases http_cases w jwt g r with
    | answered _ hg => rwa [hg]
    | called c _ hdb _ =>
      rw [hdb]
      exact h.commits w _

theorem Step.genuine (hs : Step w jwt g g') (htexts : g.db.UserTexts) (h : ∀ i ∈ g.issued, i.Genuine jwt) :
    ∀ i ∈ g'.issued, i.Genuine jwt := by
  cases hs with
  | createUser => exact h
  | http r _ =>
    cases http_cases w jwt g r with
    | answered _ hg => rwa [hg]
    | called c _ _ hissued =>
      rcases hissued with hissued | ⟨claims, hof, hissued⟩ <;> rw [hissued]
      · exact h
      · intro i hi
        rcases List.mem_append.1 hi with hi | hi
        · exact h i hi
        · rw [List.mem_singleton.1 hi]
          exact ⟨⟨_, rfl⟩, hof, hof.textsOk htexts⟩

theorem userTexts_of_reachable (h : Reachable w jwt g) : g.db.UserTexts := by
  induction h with
  | refl => exact fun _ hu => absurd hu List.not_mem_nil
  | tail _ hs ih => exact hs.userTexts ih

theorem genuine_of_reachable (h : Reachable w jwt g) : ∀ i ∈ g.issued, i.Genuine jwt := by
  induction h with
  | refl => exact fun _ hi => absurd hi List.not_mem_nil
  | tail hg hs ih => exact hs.genuine (userTexts_of_reachable hg) ih

theorem claims_issued (hjwt : jwt.Lawful) (hg : ∀ i ∈ g.issued, i.Genuine jwt) (hr : g.Unforged jwt r)
    {claims : TokenClaims} (h : r.claims jwt = .ok claims) :
    ∃ i ∈ g.issued, r.credentials = some i.token ∧ i.claims = claims ∧ claims.Of i.users := by
  unfold HttpRequest.claims at h
  cases hc : r.credentials with
  | none => simp [hc] at h
  | some token =>
    rw [hc] at h
    cases hd : decodeAccessToken jwt token r.now.instant with
    | none => simp [hd] at h
    | some claims' =>
      obtain rfl : claims' = claims := by simpa [hd] using h
      have hsome : (jwt.decode token r.now.instant).isSome := by
        obtain ⟨payload, hp, -⟩ := Option.map_eq_some_iff.1 hd
        rw [hp]
        rfl
      obtain ⟨i, hi, rfl⟩ := hr token hc hsome
      obtain ⟨⟨now, htoken⟩, hof, htexts⟩ := hg i hi
      rw [htoken] at hd
      obtain rfl := decode_createAccessToken hjwt htexts hd
      exact ⟨i, hi, rfl, rfl, hof⟩

/-- What lets a request write. -/
structure Authorized (jwt : Jwt) (g : Gateway) (r : HttpRequest) (claims : TokenClaims) : Prop where
  verified : r.claims jwt = .ok claims
  admin : claims.role = .admin
  issued : ∃ i ∈ g.issued, r.credentials = some i.token ∧ i.claims = claims ∧ claims.Of i.users

/-- A request whose call writes has an admin's claims, and the call is for their tenant. -/
theorem dispatch_writes {c : Call} {stmt : Stmt} (h : r.dispatch jwt = .ok (.inr c)) (hc : c.Writes stmt) :
    ∃ claims, r.claims jwt = .ok claims ∧ claims.role = .admin ∧ c.tenant = some claims.tenant := by
  unfold HttpRequest.dispatch at h
  cases he : r.endpoint with
  | login username password =>
    simp only [he, Except.ok.injEq, Sum.inr.injEq] at h
    subst h
    cases hc
  | health =>
    simp only [he, Except.ok.injEq, Sum.inr.injEq] at h
    subst h
    cases hc
  | refused status detail => simp [he] at h
  | secured e =>
    cases hclaims : r.claims jwt with
    | error exn => simp [he, hclaims] at h
    | ok claims =>
      have hcall : e.call claims r.now = some c := by
        cases hcall : e.call claims r.now with
        | none => simp [he, hclaims, hcall] at h
        | some c' => simpa [he, hclaims, hcall] using h
      refine ⟨claims, rfl, ?_⟩
      cases e with
      | me => cases hcall
      | ingest _ | createAlertRule _ | updateAlertRule _ _ =>
        cases hcall
        cases stmt <;> first | exact ⟨hc, rfl⟩ | cases hc
      | _ =>
        cases hcall
        cases hc

/-- A request without an admin's claims leaves the whole database. -/
theorem http_db_eq (w : World) (g : Gateway) (h : ∀ claims, r.claims jwt = .ok claims → claims.role ≠ .admin) :
    (g.http w jwt r).2.db = g.db := by
  cases http_cases w jwt g r with
  | answered _ hg => rw [hg]
  | called c hd hdb _ =>
    rw [hdb]
    refine Request.commits_eq w (fun stmt hc => ?_) g.db
    obtain ⟨claims, hclaims, hadmin, -⟩ := dispatch_writes hd hc
    exact h claims hclaims hadmin

theorem http_authorized (w : World) (hjwt : jwt.Lawful) (hg : ∀ i ∈ g.issued, i.Genuine jwt) (hr : g.Unforged jwt r) :
    (g.http w jwt r).2.db = g.db ∨
      ∃ claims, g.Authorized jwt r claims ∧ g.db.ChangedFor claims.tenant (g.http w jwt r).2.db := by
  cases http_cases w jwt g r with
  | answered _ hg => exact .inl (by rw [hg])
  | called c hd hdb _ =>
    rw [hdb]
    by_cases hc : ∃ stmt, c.Writes stmt
    · obtain ⟨stmt, hc⟩ := hc
      obtain ⟨claims, hclaims, hadmin, htenant⟩ := dispatch_writes hd hc
      exact .inr ⟨claims, ⟨hclaims, hadmin, claims_issued hjwt hg hr hclaims⟩, Request.changedFor w htenant g.db⟩
    · exact .inl (Request.commits_eq w (fun stmt h => hc ⟨stmt, h⟩) g.db)

end Gateway

/-! ### The body's tenant -/

section
variable {py : Py} {e e' : NormalizedEvent}

/-! ### What `POST /ingest` stores -/

section
variable {claims : TokenClaims} {now : DateTime} {body : PyDict} {s : Session}

/-- What the body is normalized to. -/
def ingested (py : Py) (body : PyDict) (now : DateTime) (claims : TokenClaims) : Except PyExc NormalizedEvent :=
  normalize py (body.get (str "source")) (.dict (body.without (str "tenant"))) (.str claims.tenant) now

/-- The rows that `POST /ingest` adds: none, or the one of the normalized event. -/
theorem wp_ingest (py : Py) (pg : Pg) (body : PyDict) (now : DateTime) (claims : TokenClaims) (halone : s.Alone) :
    wp (handle pg) (ingest py body now claims)
      (fun _ s' => claims.role = .admin ∧ ∃ e, ingested py body now claims = .ok e ∧ ∃ row : EventRow,
        EventColumns.ofParams e = .ok row.toEventFields ∧ row.checked ∧ s'.db.events = s.db.events ++ [row])
      (fun _ s' => s'.db.events = s.db.events ∧
        (s.Calm → claims.role = .admin → ∀ e, ingested py body now claims = .ok e → e.accepted = false)) s := by
  unfold ingest requireAdmin
  split
  swap
  · exact ⟨rfl, fun _ hrole => absurd hrole ‹_›⟩
  rename_i hrole
  unfold pooledConn
  rw [wp_bind, wp_pure, wp_withConn]
  have hrollback : (handle pg .rollback s).2.db.events = s.db.events := congrArg Db.events (congrFun (halone 0) s.db)
  split
  swap
  · rename_i exc hn
    refine ⟨hrollback, fun _ _ e he => ?_⟩
    rw [ingested, hn] at he
    cases he
  rename_i e he
  rw [wp_bind]
  refine wp_mono (wp_and (wp_writeEvent pg e s) (halone.wp pg (writeEvent e))) ?_ ?_
  · rintro _ s' ⟨⟨hidle, row, hrow, hchecked, -, hevents⟩, halone'⟩
    have hcommit : handle pg .commit s' = (.ok (), s'.interfere.answered .commit (.ok ())) := if_pos hidle
    rw [wp_pure, hcommit, ends_ok]
    refine ⟨hrole, e, he, row, hrow, hchecked, ?_⟩
    show s'.interfere.db.events = _
    rw [halone'.interfere, hevents halone]
  · rintro err s' ⟨⟨hacc, hevents⟩, halone'⟩
    refine ⟨?_, fun hcalm _ e' he' => ?_⟩
    · show (s'.others 0 s'.db).events = _
      rw [halone' 0, id, hevents halone]
    · obtain rfl : e = e' := Except.ok.inj (he.symm.trans he')
      exact hacc hcalm

end

/-- The same event, up to its id and what a clock gave: when it was ingested and, in a fallback event, its time. -/
structure EventRow.SameEvent (now now' : DateTime) (row row' : EventRow) : Prop where
  fields : { row.toEventFields with eventTime := row'.eventTime } = row'.toEventFields
  eventTime : row.eventTime = row'.eventTime ∨ (row.eventTime = now.instant ∧ row'.eventTime = now'.instant)

theorem sameEvent {body : PyDict} {claims : TokenClaims} {now now' : DateTime} {row row' : EventRow}
    (he : ingested py body now claims = .ok e) (he' : ingested py body now' claims = .ok e')
    (hrow : EventColumns.ofParams e = .ok row.toEventFields)
    (hrow' : EventColumns.ofParams e' = .ok row'.toEventFields) :
    row.SameEvent now now' row' := by
  obtain ⟨e₂, he₂, hclock⟩ := normalize_clock he now'
  obtain rfl : e₂ = e' := Except.ok.inj (he₂.symm.trans he')
  rcases hclock with rfl | ⟨-, htime, rfl⟩
  · have hfields : row.toEventFields = row'.toEventFields := Except.ok.inj (hrow.symm.trans hrow')
    have htime : row.eventTime = row'.eventTime := congrArg EventFields.eventTime hfields
    exact ⟨by rw [← htime, ← hfields], .inl htime⟩
  · obtain ⟨htime₁, hcols⟩ := ofParams_clock hrow now'
    have hfields := Except.ok.inj (hcols.symm.trans hrow')
    have htime' : row'.eventTime = now'.instant := (congrArg EventFields.eventTime hfields).symm
    exact ⟨by rw [htime', hfields], .inr ⟨by rw [htime₁, htime], htime'⟩⟩

theorem get_without (d : PyDict) {key key' : Str} (h : key ≠ key') : (d.without key').get key = d.get key := by
  have hfind : (d.without key').find? (fun kv => kv.1 == some key) = d.find? fun kv => kv.1 == some key := by
    rw [PyDict.without, List.find?_filter]
    congr 1
    funext kv
    by_cases hkv : kv.1 = some key <;> simp [hkv, h]
  rw [PyDict.get, PyDict.get?, hfind]
  rfl

theorem ingested_congr {body body' : PyDict} (h : body.without (str "tenant") = body'.without (str "tenant"))
    (now : DateTime) (claims : TokenClaims) : ingested py body now claims = ingested py body' now claims := by
  have hne : str "source" ≠ str "tenant" := by decide
  unfold ingested
  rw [← get_without body hne, ← get_without body' hne, h]

end

namespace HttpRequest

/-- No command of the request fails. -/
def Calm (r : HttpRequest) : Prop := ∀ n, (r.nature n).fault = false

/-- The request has an event for the table. -/
def Stores (w : World) (jwt : Jwt) (r : HttpRequest) (body : PyDict) : Prop :=
  ∃ claims, r.claims jwt = .ok claims ∧ claims.role = .admin ∧
    ∃ e, ingested w.py body r.now claims = .ok e ∧ e.accepted

end HttpRequest

section
variable {w : World} {jwt : Jwt} {body body' : PyDict} {r r' : HttpRequest}

theorem http_ingest (w : World) (jwt : Jwt) (g : Gateway) (hr : r.endpoint = .secured (.ingest body)) :
    ∃ new : Option EventRow, (g.http w jwt r).2.db.events = g.db.events ++ new.toList ∧
      (∀ row ∈ new, ∃ claims e, r.claims jwt = .ok claims ∧ ingested w.py body r.now claims = .ok e ∧
        EventColumns.ofParams e = .ok row.toEventFields) ∧
      (r.Calm → (new.isSome ↔ r.Stores w jwt body)) := by
  cases hclaims : r.claims jwt with
  | error exn =>
    have hg : (g.http w jwt r).2 = g := by simp [Gateway.http, HttpRequest.dispatch, hr, hclaims]
    refine ⟨none, by simp [hg], by simp, fun _ => iff_of_false (by simp) ?_⟩
    rintro ⟨claims, hc, -⟩
    rw [hclaims] at hc
    cases hc
  | ok claims =>
    have hdispatch : r.dispatch jwt = .ok (.inr (.ingest body r.now claims)) := by
      simp [HttpRequest.dispatch, hr, hclaims, Secured.call]
    have hdb : (g.http w jwt r).2.db = (r.on (.ingest body r.now claims)).commits w g.db := by
      cases Gateway.http_cases w jwt g r with
      | answered h _ => exact absurd hdispatch (h _)
      | called c hc hdb _ =>
        rw [hdispatch] at hc
        cases hc
        exact hdb
    let s : Session := { db := g.db, conn := r.conn, nature := r.nature }
    have hw := wp_ingest w.py w.pg body r.now claims (s := s) fun _ => rfl
    unfold wp at hw
    rw [hdb]
    rcases hrun : (ingest w.py body r.now claims).run (handle w.pg) s with ⟨_ | _, s'⟩ <;> rw [hrun] at hw
    all_goals
      have hcommits : (r.on (.ingest body r.now claims)).commits w g.db = s'.db := congrArg (·.2.db) hrun
      rw [hcommits]
    · obtain ⟨hevents, hrejected⟩ := hw
      refine ⟨none, by simpa using hevents, by simp, fun hcalm => iff_of_false (by simp) ?_⟩
      rintro ⟨claims', hclaims', hadmin, e, he, hacc⟩
      obtain rfl : claims = claims' := Except.ok.inj (hclaims.symm.trans hclaims')
      rw [hrejected hcalm hadmin e he] at hacc
      cases hacc
    · obtain ⟨hadmin, e, he, row, hrow, hchecked, hevents⟩ := hw
      refine ⟨some row, hevents, ?_, fun _ => iff_of_true rfl ?_⟩
      · rintro _ ⟨⟩
        exact ⟨claims, e, rfl, he, hrow⟩
      · exact ⟨claims, hclaims, hadmin, e, he, EventFields.accepted_iff.2 ⟨_, hrow, hchecked⟩⟩

theorem stores_congr (hbody : body.without (str "tenant") = body'.without (str "tenant"))
    (hclaims : r.claims jwt = r'.claims jwt) (h : r.Stores w jwt body) : r'.Stores w jwt body' := by
  obtain ⟨claims, hc, hadmin, e, he, hacc⟩ := h
  rw [ingested_congr hbody] at he
  obtain ⟨e', he', hclock⟩ := normalize_clock he r'.now
  refine ⟨claims, hclaims ▸ hc, hadmin, e', he', ?_⟩
  rcases hclock with rfl | ⟨-, -, rfl⟩
  · exact hacc
  · rwa [accepted_clock]

/-- Over HTTP a row is inserted or changed only for the tenant of a token with the role `admin`, issued to a user
with the same claims; no other request changes anything. Two `POST /ingest` whose bodies differ in `tenant` at most
store the same event. -/
theorem api_writes (w : World) (jwt : Jwt) (hjwt : jwt.Lawful) :
    (∀ (g : Gateway) (r : HttpRequest), Gateway.Reachable w jwt g → g.Unforged jwt r →
      (g.http w jwt r).2.db = g.db ∨
        ∃ claims, g.Authorized jwt r claims ∧ g.db.ChangedFor claims.tenant (g.http w jwt r).2.db) ∧
    (∀ (g : Gateway) (r : HttpRequest), (∀ claims, r.claims jwt = .ok claims → claims.role ≠ .admin) →
      (g.http w jwt r).2.db = g.db) ∧
    ∀ (g g' : Gateway) (r r' : HttpRequest) (body body' : PyDict), r.endpoint = .secured (.ingest body) →
      r'.endpoint = .secured (.ingest body') → body.without (str "tenant") = body'.without (str "tenant") →
      r.claims jwt = r'.claims jwt →
      ∃ new new' : Option EventRow, (g.http w jwt r).2.db.events = g.db.events ++ new.toList ∧
        (g'.http w jwt r').2.db.events = g'.db.events ++ new'.toList ∧
        (∀ row ∈ new, ∀ row' ∈ new', row.SameEvent r.now r'.now row') ∧
        (r.Calm → r'.Calm → new.isSome = new'.isSome) := by
  refine ⟨fun g r hg hr => Gateway.http_authorized w hjwt (Gateway.genuine_of_reachable hg) hr,
    fun g r h => Gateway.http_db_eq w g h, ?_⟩
  intro g g' r r' body body' hr hr' hbody hclaims
  obtain ⟨new, hevents, hnew, hstores⟩ := http_ingest w jwt g hr
  obtain ⟨new', hevents', hnew', hstores'⟩ := http_ingest w jwt g' hr'
  refine ⟨new, new', hevents, hevents', fun row hrow row' hrow' => ?_, fun hcalm hcalm' => ?_⟩
  · obtain ⟨claims, e, hc, he, hcols⟩ := hnew row hrow
    obtain ⟨claims', e', hc', he', hcols'⟩ := hnew' row' hrow'
    obtain rfl : claims = claims' := Except.ok.inj (hc.symm.trans (hclaims.trans hc'))
    rw [ingested_congr hbody] at he
    exact sameEvent he he' hcols hcols'
  · rw [Bool.eq_iff_iff, hstores hcalm, hstores' hcalm']
    exact ⟨stores_congr hbody hclaims, stores_congr hbody.symm hclaims.symm⟩

end

/-- A PyJWT that signs one payload. -/
def Jwt.sample : Jwt where
  encode payload := if payload = ⟨⟨str "a", .admin, str "A"⟩, 0, seconds 3600⟩ then str "t" else []
  decode token now :=
    if token = str "t" ∧ now < seconds 3600 then some ⟨⟨str "a", .admin, str "A"⟩, 0, seconds 3600⟩ else none
  expireMinutes := 60

theorem Jwt.sample_lawful : Jwt.sample.Lawful := by
  intro payload t payload' _ h
  simp only [Jwt.sample] at h
  split_ifs at h with hp _ ht
  · rw [hp, ← Option.some.inj h]
    decide
  · exact absurd ht.1 (by decide)

/-- After `create_user` and a login, the admin's event is stored. -/
theorem api_writes_sample :
    ∃ (g : Gateway) (r : HttpRequest), (g.http World.sample Jwt.sample r).2.db.events.length = 1 ∧
    ((g.http World.sample Jwt.sample r).2.db = g.db ∨
      ∃ claims, g.Authorized Jwt.sample r claims ∧
        g.db.ChangedFor claims.tenant (g.http World.sample Jwt.sample r).2.db) := by
  let nature : Nat → Choice := fun _ => {}
  let request (endpoint : Endpoint) (credentials : Option Str) : HttpRequest :=
    { endpoint, credentials, now := ⟨0, some 0⟩, nature }
  let g₀ : Gateway :=
    { db := Request.commits World.sample {}
        ⟨.createUser (str "a") (str "p") .admin (str "A"), { autocommit := true }, nature⟩ }
  let g := (g₀.http World.sample Jwt.sample (request (.login (str "a") (str "p")) none)).2
  have hg : Gateway.Reachable World.sample Jwt.sample g :=
    (Relation.ReflTransGen.refl.tail
      (.createUser {} (str "a") (str "p") .admin (str "A") { autocommit := true } nature)).tail
      (.http g₀ _ fun _ h => by cases h)
  have hissued : ∃ i ∈ g.issued, i.token = str "t" := ⟨⟨str "t", _, _⟩, List.mem_singleton.2 rfl, rfl⟩
  refine ⟨g, request (.secured (.ingest [])) (some (str "t")), by decide,
    (api_writes World.sample Jwt.sample Jwt.sample_lawful).1 _ _ hg ?_⟩
  rintro token ⟨⟩ _
  exact hissued

end LogMgmt
