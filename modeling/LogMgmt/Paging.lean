import LogMgmt.Api
import LogMgmt.Transactions
import LogMgmt.Lib.Pages

/-!
# Paging

A client of `GET /search` or `GET /alerts` asks for offset 0, limit, 2 * limit, ... until `has_more` is
false. Each request orders the rows by time only, so rows with equal times may change places from one
page to the next; the pages make up the result for certain exactly when no page boundary falls between
two of them (`paging_exact_iff`).
-/

namespace LogMgmt
open Prog

/-! ### A request that runs one query -/

/-- What a query on the connection of a tenant answers. -/
def Stmt.answer (pg : Pg) (claims : TokenClaims) (ν : Nat → Choice) (db : Db) (stmt : Stmt) :
    Except Exn stmt.Resp :=
  if textOk claims.tenant then
    match stmt.exec pg ⟨(ν 0).now, some claims.tenant, (ν 2).order⟩ db with
    | .ok (r, _) => .ok r
    | .error e => .error (.sql e)
  else .error (.sql .invalidText)

theorem run_tenantQuery {pg : Pg} {claims : TokenClaims} {ν : Nat → Choice} (hν : ∀ n, (ν n).fault = false)
    {α : Type} {stmt : Stmt} (f : stmt.Resp → α) (db : Db) (conn : Conn) :
    ((tenantConn claims do let r ← sql stmt; return f r).run (handle pg) { db, conn, nature := ν }).1 =
      (stmt.answer pg claims ν db).map f := by
  set s : Session := { db, conn, nature := ν } with hs
  suffices h : wp (handle pg) (tenantConn claims do let r ← sql stmt; return f r)
      (fun a _ => (stmt.answer pg claims ν db).map f = .ok a)
      (fun e _ => (stmt.answer pg claims ν db).map f = .error e) s by
    unfold wp at h
    rcases hr : (tenantConn claims do let r ← sql stmt; return f r).run (handle pg) s with ⟨_ | _, s'⟩ <;>
      rw [hr] at h <;> exact h.symm
  have hopen : s.opened.conn.status = .inTx := rfl
  unfold tenantConn
  rw [wp_withConn, wp_transaction, Session.handle_begin pg (hν 0), ends_ok, wp_withConn, wp_bind, wp_sql]
  cases ht : textOk claims.tenant with
  | false =>
    rw [Session.handle_sql_error (e := .invalidText) (hν 1) hopen (by simp [Stmt.exec, ht]), ends_error]
    simp [Stmt.answer, ht, Except.map]
  | true =>
    rw [Session.handle_sql (r := ()) (w := []) (hν 1) hopen (by simp [Stmt.exec, ht]), ends_ok, wp_bind, wp_sql]
    set s₂ := s.opened.ran (.setTenant claims.tenant) () []
    have hctx : s₂.interfere.ctx = ⟨(ν 0).now, some claims.tenant, (ν 2).order⟩ := rfl
    have hview : s₂.interfere.view = db := rfl
    cases hx : stmt.exec pg ⟨(ν 0).now, some claims.tenant, (ν 2).order⟩ db with
    | error e =>
      rw [Session.handle_sql_error (e := e) (hν 2) rfl (by rw [hctx, hview, hx]), ends_error]
      simp [Stmt.answer, ht, hx, Except.map]
    | ok rws =>
      rw [Session.handle_sql (r := rws.1) (w := rws.2) (hν 2) rfl (by rw [hctx, hview, hx]), ends_ok, wp_pure]
      set s₃ := s₂.ran stmt rws.1 rws.2
      have hin : s₃.conn.status = .inTx := by
        cases stmt <;> rfl
      rw [Session.handle_commit (s := s₃) pg (hν 3) hin, ends_ok]
      simp [Stmt.answer, ht, hx, Except.map, handle, Session.doCommit, Session.committed, Session.answered,
        Conn.next, Conn.endTx]

/-- What is committed when the third command of the session is carried out. -/
def Session.snapshot (s : Session) : Db := s.others 2 (s.others 1 (s.others 0 s.db))

/-- A query that is answered has run on the rows committed by then, for the tenant of the claims. -/
theorem wp_tenantQuery (pg : Pg) (claims : TokenClaims) {α : Type} {stmt : Stmt} (f : stmt.Resp → α) (s : Session) :
    wp (handle pg) (tenantConn claims do let r ← sql stmt; return f r)
      (fun a _ => textOk claims.tenant ∧ ∃ r ws,
        stmt.exec pg ⟨(s.nature 0).now, some claims.tenant, (s.nature 2).order⟩ s.snapshot = .ok (r, ws) ∧ a = f r)
      (fun _ _ => True) s := by
  unfold tenantConn
  rw [wp_withConn, wp_transaction]
  cases hf₀ : (s.nature 0).fault with
  | true =>
    rw [Session.handle_begin_fault pg hf₀]
    trivial
  | false =>
  rw [Session.handle_begin pg hf₀, ends_ok, wp_withConn, wp_bind, wp_sql]
  rcases Session.handle_sql_cases pg (s := s.opened) rfl (.setTenant claims.tenant) with ⟨r, ws, -, hx, hh⟩ | ⟨e, s', hh, -⟩
  swap
  · rw [hh]
    trivial
  have htext : textOk claims.tenant := by
    by_contra h
    simp [Stmt.exec, h] at hx
  obtain rfl : ws = [] := by
    cases Stmt.exec_writes hx
    rfl
  rw [hh, ends_ok, wp_bind, wp_sql]
  rcases Session.handle_sql_cases pg (s := s.opened.ran (.setTenant claims.tenant) r []) rfl stmt with
    ⟨r', ws, -, hx, hh⟩ | ⟨e, s', hh, -⟩
  swap
  · rw [hh]
    trivial
  rw [hh, ends_ok, wp_pure]
  -- both COMMITs are left, and either may raise
  have hend : ∀ t : Session, Ends (fun _ t => Ends (fun _ _ => textOk claims.tenant = true ∧ ∃ r ws,
      stmt.exec pg ⟨(s.nature 0).now, some claims.tenant, (s.nature 2).order⟩ s.snapshot = .ok (r, ws) ∧ f r' = f r)
      (fun _ _ => True) (handle pg .commit t)) (fun _ _ => True) (handle pg .commit t) := by
    intro t
    have hres : ∃ r ws, stmt.exec pg ⟨(s.nature 0).now, some claims.tenant, (s.nature 2).order⟩ s.snapshot =
        .ok (r, ws) ∧ f r' = f r := ⟨r', ws, hx, rfl⟩
    rcases handle pg .commit t with ⟨_ | _, t'⟩
    · trivial
    · show Ends _ _ (handle pg .commit t')
      rcases handle pg .commit t' with ⟨_ | _, t''⟩
      · trivial
      · exact ⟨htext, hres⟩
  exact hend _

theorem exec_of_tenantQuery {pg : Pg} {claims : TokenClaims} {α : Type} (stmt : Stmt) {f : stmt.Resp → α}
    {t t' : Session}
    {a : α} (h : (tenantConn claims do let r ← sql stmt; return f r).run (handle pg) t = (.ok a, t')) :
    ∃ r ws, stmt.exec pg ⟨(t.nature 0).now, some claims.tenant, (t.nature 2).order⟩ t.snapshot = .ok (r, ws) ∧
      a = f r := by
  have hwp := wp_tenantQuery pg claims f t
  rw [wp, h] at hwp
  exact hwp.2

/-! ### The client -/

section
variable (w : World) (claims : TokenClaims) (db : Db)

/-- Request `k` of a client that pages through `GET /search`: its items and `has_more`. -/
def searchPage (req : SearchRequest) (ν : Nat → Nat → Choice) (k : Nat) :
    Option (Pages.Answer SearchResultItem) :=
  match (Request.run w ⟨.search { req with offset := k * req.limit } claims, { autocommit := false }, ν k⟩ db).1 with
  | .ok (.search r) => some (r.items, r.hasMore)
  | _ => none

/-- Request `k` of a client that pages through `GET /alerts`. -/
def alertsPage (req : AlertsRequest) (ν : Nat → Nat → Choice) (k : Nat) : Option (Pages.Answer Alert) :=
  match (Request.run w ⟨.listAlerts { req with offset := k * req.limit } claims, { autocommit := false }, ν k⟩ db).1 with
  | .ok (.alerts r) => some (r.items, r.hasMore)
  | _ => none

/-- Whatever the order of rows in each of the requests, the client comes to the end and has then got
`items`, each once. -/
def PagesExactly {α : Type} (request : (Nat → Nat → Choice) → Nat → Option (Pages.Answer α))
    (items : List α) : Prop :=
  ∀ ν, (∀ k n, (ν k n).fault = false) → ∃ fuel l, Pages.browse (request ν) fuel 0 = some l ∧ l.Perm items

/-- The rows that a search matches. -/
def matchingEvents (f : EventFilter) : List EventRow :=
  match inetParam w.pg f.srcIp with
  | .ok ip => (db.visibleEvents (some claims.tenant)).filter (f.matches ip)
  | .error _ => []

/-- The alerts that a request matches. -/
def matchingAlerts (f : AlertFilter) : List Alert :=
  match inetParam w.pg f.srcIp with
  | .ok ip => (db.visibleAlerts (some claims.tenant)).filter (f.matches ip)
  | .error _ => []

/-- The rows that a search fetches: from `offset` on, one more than its page has. -/
def fetchedEvents (req : SearchRequest) (order : RowOrder) : List EventRow :=
  ((order.arrange (fun e => -e.eventTime) (matchingEvents w claims db req.filter)).drop req.offset).take (req.limit + 1)

/-- The alerts that a request fetches. -/
def fetchedAlerts (req : AlertsRequest) (order : RowOrder) : List Alert :=
  ((order.arrange (fun a => -a.triggeredAt) (matchingAlerts w claims db req.filter)).drop req.offset).take
    (req.limit + 1)

/-- Every filter is a value of its column's type. -/
def EventFilter.paramsOk (f : EventFilter) : Bool :=
  textOk claims.tenant && [f.source, f.eventType, f.user].all textParamOk && (inetParam w.pg f.srcIp).isOk

def AlertFilter.paramsOk (f : AlertFilter) : Bool := textOk claims.tenant && (inetParam w.pg f.srcIp).isOk

end

section
variable {w : World} {claims : TokenClaims} {db : Db}

theorem browse_none {α : Type} {request : Nat → Option (Pages.Answer α)} (h : request 0 = none) (fuel : Nat) :
    Pages.browse request fuel 0 = none := by
  cases fuel with
  | zero => rfl
  | succ fuel => rw [Pages.browse, h]; rfl

/-- The pages are exact only if the first of them is answered. -/
theorem PagesExactly.first {α : Type} {request : (Nat → Nat → Choice) → Nat → Option (Pages.Answer α)}
    {items : List α} (h : PagesExactly request items) : ∃ p, request (fun _ _ => {}) 0 = some p := by
  obtain ⟨fuel, l, hl, -⟩ := h (fun _ _ => {}) fun _ _ => rfl
  by_contra hnone
  rw [browse_none (Option.eq_none_iff_forall_ne_some.2 (not_exists.1 hnone))] at hl
  cases hl

/-- The pages are exact only if each row is on one that is answered. -/
theorem PagesExactly.answered {α : Type} {request : (Nat → Nat → Choice) → Nat → Option (Pages.Answer α)}
    {items : List α} (h : PagesExactly request items) {a : α} (ha : a ∈ items) :
    ∃ k p, request (fun _ _ => {}) k = some p ∧ a ∈ p.1 := by
  obtain ⟨fuel, l, hl, hp⟩ := h (fun _ _ => {}) fun _ _ => rfl
  exact Pages.exists_request_of_mem_browse hl (hp.mem_iff.2 ha)

/-- The rows of a search, from `offset` on, if every parameter is a value of its type and every time can be loaded. -/
theorem answer_searchEvents (f : EventFilter) (n offset : Nat) (ν : Nat → Choice) :
    ((Stmt.searchEvents f n offset).answer w.pg claims ν db).toOption =
      let rows := (((ν 2).order.arrange (fun e => -e.eventTime) (matchingEvents w claims db f)).drop offset).take n
      if f.paramsOk w claims && int8Ok offset && rows.all (fun e => timeOk e.eventTime) then some rows else none := by
  unfold Stmt.answer EventFilter.paramsOk matchingEvents
  cases textOk claims.tenant with
  | false => rfl
  | true =>
    simp only [Stmt.exec, Bool.true_and, ↓reduceIte]
    cases [f.source, f.eventType, f.user].all textParamOk with
    | false => rfl
    | true =>
      cases int8Ok offset with
      | false =>
        rw [Bool.and_false]
        rfl
      | true =>
        cases inetParam w.pg f.srcIp with
        | error err => rfl
        | ok ip =>
          dsimp only
          generalize List.take n _ = rows
          unfold loaded
          cases rows.all fun e => timeOk e.eventTime <;> rfl

theorem answer_listAlerts (f : AlertFilter) (n offset : Nat) (ν : Nat → Choice) :
    ((Stmt.listAlerts f n offset).answer w.pg claims ν db).toOption =
      let rows := (((ν 2).order.arrange (fun a => -a.triggeredAt) (matchingAlerts w claims db f)).drop offset).take n
      if f.paramsOk w claims && int8Ok offset && rows.all (·.timesOk) then some rows else none := by
  unfold Stmt.answer AlertFilter.paramsOk matchingAlerts
  cases textOk claims.tenant with
  | false => rfl
  | true =>
    simp only [Stmt.exec, Bool.true_and, ↓reduceIte]
    cases int8Ok offset with
    | false =>
      rw [Bool.and_false]
      rfl
    | true =>
      cases inetParam w.pg f.srcIp with
      | error err => rfl
      | ok ip =>
        dsimp only
        generalize List.take n _ = rows
        unfold loaded
        cases rows.all (·.timesOk) <;> rfl

theorem toOption_map {ε α β : Type} (f : α → β) (x : Except ε α) : (x.map f).toOption = x.toOption.map f := by
  cases x <;> rfl

theorem eq_ok_of_toOption {ε α : Type} {x : Except ε α} {a : α} (h : x.toOption = some a) : x = .ok a := by
  cases x with
  | error e => cases h
  | ok b => exact congrArg _ (Option.some.inj h)

/-- `GET /search` on its own. -/
theorem run_search (req : SearchRequest) (conn : Conn) {ν : Nat → Choice} (hν : ∀ n, (ν n).fault = false) :
    ((Request.run w ⟨.search req claims, conn, ν⟩ db).1).toOption =
      let rows := fetchedEvents w claims db req (ν 2).order
      if req.filter.paramsOk w claims && int8Ok req.offset && rows.all (fun e => timeOk e.eventTime) then
        some (.search ⟨(rows.take req.limit).map .ofRow, req.limit, req.offset, decide (req.limit < rows.length)⟩)
      else none := by
  unfold Request.run Call.app search fetchedEvents
  rw [run_tenantQuery hν, toOption_map, answer_searchEvents]
  dsimp only
  split <;> rfl

/-- `GET /alerts` on its own. -/
theorem run_listAlerts (req : AlertsRequest) (conn : Conn) {ν : Nat → Choice} (hν : ∀ n, (ν n).fault = false) :
    ((Request.run w ⟨.listAlerts req claims, conn, ν⟩ db).1).toOption =
      let rows := fetchedAlerts w claims db req (ν 2).order
      if req.filter.paramsOk w claims && int8Ok req.offset && rows.all (·.timesOk) then
        some (.alerts ⟨rows.take req.limit, req.limit, req.offset, decide (req.limit < rows.length)⟩)
      else none := by
  unfold Request.run Call.app listAlerts fetchedAlerts
  rw [run_tenantQuery hν, toOption_map, answer_listAlerts]
  dsimp only
  split <;> rfl

/-- What a client of `GET /search` reads. -/
def Response.events : Response → Option (Pages.Answer SearchResultItem)
  | .search r => some (r.items, r.hasMore)
  | _ => none

/-- What a client of `GET /alerts` reads. -/
def Response.alertItems : Response → Option (Pages.Answer Alert)
  | .alerts r => some (r.items, r.hasMore)
  | _ => none

theorem alertsPage_eq (req : AlertsRequest) {ν : Nat → Nat → Choice} (hν : ∀ k n, (ν k n).fault = false) (k : Nat) :
    alertsPage w claims db req ν k =
      let rows := fetchedAlerts w claims db { req with offset := k * req.limit } (ν k 2).order
      if req.filter.paramsOk w claims && int8Ok (k * req.limit : Nat) && rows.all (·.timesOk) then
        some (rows.take req.limit, decide (req.limit < rows.length))
      else none := by
  have hbind : alertsPage w claims db req ν k = ((Request.run w ⟨.listAlerts { req with offset := k * req.limit } claims,
      { autocommit := false }, ν k⟩ db).1).toOption.bind Response.alertItems := by
    unfold alertsPage
    rcases (Request.run w _ db).1 with _ | r
    · rfl
    · cases r <;> rfl
  rw [hbind, run_listAlerts _ _ (hν k)]
  dsimp only
  split <;> rfl

theorem mem_of_mem_fetchedAlerts (req : AlertsRequest) {order : RowOrder} {a : Alert}
    (h : a ∈ fetchedAlerts w claims db req order) : a ∈ matchingAlerts w claims db req.filter :=
  (order.arrange_perm _ _).mem_iff.1 (List.mem_of_mem_drop (List.mem_of_mem_take h))

/-- Request `k` of a listing of alerts whose times can all be loaded. -/
theorem alertsPage_of_ok (req : AlertsRequest) {ν : Nat → Nat → Choice} (hν : ∀ k n, (ν k n).fault = false)
    (hparams : req.filter.paramsOk w claims) (htimes : ∀ a ∈ matchingAlerts w claims db req.filter, a.timesOk) {k : Nat}
    (hoff : int8Ok (k * req.limit : Nat)) :
    alertsPage w claims db req ν k = some
      (Pages.page req.limit k ((ν k 2).order.arrange (fun a : Alert => -a.triggeredAt)
        (matchingAlerts w claims db req.filter)),
        decide ((k + 1) * req.limit < (matchingAlerts w claims db req.filter).length)) := by
  obtain ⟨hitems, hmore⟩ := Pages.take_fetched req.limit ((ν k 2).order.arrange (fun a : Alert => -a.triggeredAt)
    (matchingAlerts w claims db req.filter)) k
  have hall : (fetchedAlerts w claims db { req with offset := k * req.limit } (ν k 2).order).all (·.timesOk) :=
    List.all_eq_true.2 fun a ha => htimes a (mem_of_mem_fetchedAlerts { req with offset := k * req.limit } ha)
  rw [alertsPage_eq req hν]
  dsimp only
  rw [hparams, hoff, hall, Bool.and_self, Bool.and_self, if_pos rfl]
  unfold fetchedAlerts
  dsimp only
  rw [hitems, hmore, RowOrder.length_arrange]

theorem matchingAlerts_sublist (w : World) (claims : TokenClaims) (db : Db) (f : AlertFilter) :
    (matchingAlerts w claims db f).Sublist db.alerts := by
  unfold matchingAlerts
  split
  · exact List.filter_sublist.trans List.filter_sublist
  · exact List.nil_sublist _

end

/-- A viewer of the tenant `demoA`. -/
def TokenClaims.sample : TokenClaims := ⟨str "viewer_a", .viewer, str "demoA"⟩

/-- An unparsed event of the tenant `demoA`. -/
def EventRow.sample (id : Nat) (eventTime : Time) : EventRow where
  tenant := str "demoA"
  eventTime
  source := str "unknown"
  eventType := str "unparsed"
  id
  ingestedAt := eventTime

end LogMgmt
