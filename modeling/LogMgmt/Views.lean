import LogMgmt.AuthContext
import LogMgmt.Authority
import LogMgmt.OneTenant

/-!
# What a page shows

`App.jsx` renders a page inside `ProtectedRoute`: it is mounted once somebody is logged in, sends requests of its own and
is gone with the token, and what is answered to a page that is gone is shown by nobody. `Browser` is a tab with its page.
As long as nobody submits the login form while another login is on its way, all that a page shows has been answered to
the token that the tab holds, and would be answered the same if the tables had no rows but those of the tenant of this
token (`pages_confined`).
-/

namespace LogMgmt
open Prog Client

/-! ### The tab -/

/-- A page of the routes inside `ProtectedRoute`, with what it has been answered. -/
structure Page where
  /-- which of the pages mounted so far -/
  mount : Nat
  shown : List Response := []

/-- The callbacks of a page that is mounted. -/
def Page.take (p : Page) (page : Option Nat) : Option (Except Exn Answer) → Page
  | some (.ok (.response r)) => if page = some p.mount then { p with shown := p.shown ++ [r] } else p
  | _ => p

structure Browser where
  auth : AuthProvider
  page : Option Page := none
  mounts : Nat := 0

structure BrowserQuery where
  query : AuthQuery
  /-- the page that awaits the answer -/
  page : Option Nat

inductive BrowserEvent where
  | effect
  | login (username password : Str)
  | logout
  /-- to `/dashboard`, `/search` or `/alerts` -/
  | navigate
  /-- the page that is mounted sends a request -/
  | request (e : Secured)

namespace Browser
variable (blocked : Bool)

/-- The provider has changed and is rendered: without `ProtectedRoute` there is no page. -/
def after (b : Browser) (r : AuthProvider × List AuthQuery) (page : Option Nat) : Browser × List BrowserQuery :=
  ({ b with auth := r.1, page := if r.1.protectedRoute then b.page else none }, r.2.map (⟨·, page⟩))

def act (b : Browser) : BrowserEvent → Browser × List BrowserQuery
  | .effect => b.after (b.auth.act blocked .effect) none
  | .login username password => b.after (b.auth.act blocked (.login username password)) none
  | .logout => b.after (b.auth.act blocked .logout) none
  | .navigate =>
    if b.auth.protectedRoute then ({ b with page := some { mount := b.mounts }, mounts := b.mounts + 1 }, []) else (b, [])
  | .request e =>
    match b.page with
    | some p => b.after (b.auth.act blocked (.request (.secured e))) (some p.mount)
    | none => (b, [])

/-- The page that awaits the answer has it, if it is still there. -/
def hand (b : Browser) (q : BrowserQuery) (answer : Option (Except Exn Answer)) : Browser :=
  { b with page := b.page.map (·.take q.page answer) }

def onAnswer (b : Browser) (q : BrowserQuery) (answer : Option (Except Exn Answer)) : Browser × List BrowserQuery :=
  (b.hand q answer).after (b.auth.onAnswer blocked q.query answer) none

end Browser

def browserClient (w : World) (jwt : Jwt) (blocked : Bool) : Client Browser BrowserEvent BrowserQuery Reply where
  act := Browser.act blocked
  take b q reply := b.onAnswer blocked q (reply.answer w jwt q.query)

abbrev BrowserTab := Tab Browser BrowserQuery Reply

/-- The reply that a server without the rows of other tenants gives. -/
def Reply.only (tenant : Str) : Reply → Reply
  | served g now conn nature => served (g.only tenant) now conn nature
  | lost => lost

namespace BrowserTab

/-- The tab with what its sessionStorage has. -/
def opened (blocked : Bool) (stored : Option Str) : BrowserTab :=
  { state := { auth := { stored, token := if blocked then none else stored } } }

/-- `LoginPage` disables its button until the login is answered, but a new `LoginPage` does not know of it. -/
def OneLogin (t : BrowserTab) : Event BrowserEvent Reply → Prop
  | .act (.login _ _) => ∀ i q, t.Outstanding i q → q.query.fetch ≠ .login
  | _ => True

/-- A request of the tab, sent with the token, was answered so, and would have been without the rows of other tenants. -/
def Answered (w : World) (jwt : Jwt) (t : BrowserTab) (token tenant : Str) (r : Response) : Prop :=
  ∃ call ∈ t.calls, ∃ reply ∈ call.answer, call.query.query.credentials = some token ∧
    reply.answer w jwt call.query.query = some (.ok (.response r)) ∧
    (reply.only tenant).answer w jwt call.query.query = some (.ok (.response r))

/-! ### What a run keeps -/

structure Gave (w : World) (jwt : Jwt) (token : Str) (r : Response) (call : Client.Call BrowserQuery Reply) : Prop where
  credentials : call.query.query.credentials = some token
  endpoint : ∃ e, call.query.query.endpoint = .secured e
  answer : ∃ reply ∈ call.answer, reply.answer w jwt call.query.query = some (.ok (.response r))

structure Confined (w : World) (jwt : Jwt) (blocked : Bool) (t : BrowserTab) : Prop where
  stored : ∀ token ∈ t.state.auth.getToken blocked, t.state.auth.token = some token
  sent : ∀ q ∈ t.queries, q.query.Sound
  /-- Nobody logs in twice at a time. -/
  login : ∀ i q, t.Outstanding i q → q.query.fetch = .login →
    t.state.auth.token = none ∧ ∀ j q', t.Outstanding j q' → q'.query.fetch = .login → j = i
  mounted : ∀ p ∈ t.state.page, t.state.auth.protectedRoute ∧ p.mount < t.state.mounts
  awaited : ∀ q ∈ t.queries, ∀ m ∈ q.page, m < t.state.mounts ∧ ∃ e, q.query.endpoint = .secured e
  /-- The requests of the page were sent under the token that is held. -/
  asked : ∀ p ∈ t.state.page, ∀ q ∈ t.queries, q.page = some p.mount → q.query.sender = t.state.auth.token
  shown : ∀ p ∈ t.state.page, ∀ r ∈ p.shown, ∃ token ∈ t.state.auth.token, ∃ call ∈ t.calls, Gave w jwt token r call

variable {w : World} {jwt : Jwt} {blocked : Bool} {t : BrowserTab} {q : BrowserQuery}

theorem confined_opened (stored : Option Str) : Confined w jwt blocked (opened blocked stored) where
  stored token h := by simpa [opened, AuthProvider.getToken] using h
  sent := by simp [opened, Tab.queries]
  login i q h := by simp [opened, Tab.Outstanding] at h
  mounted := by simp [opened]
  awaited := by simp [opened, Tab.queries]
  asked := by simp [opened]
  shown := by simp [opened]

/-- The provider has changed. A page that stays keeps its token. -/
theorem Confined.after (h : Confined w jwt blocked t) {r : AuthProvider × List AuthQuery} {page : Option Nat}
    (stored : ∀ token ∈ r.1.getToken blocked, r.1.token = some token)
    (kept : ∀ p ∈ t.state.page, r.1.protectedRoute → r.1.token = t.state.auth.token)
    (sent : ∀ q ∈ r.2, q.Sound)
    (login : ∀ i q, t.Outstanding i q → q.query.fetch = .login → r.1.token = none)
    (submitted : ∀ q ∈ r.2, q.fetch = .login →
      r.2 = [q] ∧ r.1.token = none ∧ ∀ i q, t.Outstanding i q → q.query.fetch ≠ .login)
    (awaited : ∀ q ∈ r.2, ∀ m ∈ page, m < t.state.mounts ∧ (∃ e, q.endpoint = .secured e) ∧ q.sender = r.1.token) :
    Confined w jwt blocked (t.send (t.state.after r page)) := by
  have hpage : ∀ p ∈ (t.state.after r page).1.page, r.1.protectedRoute ∧ p ∈ t.state.page := by
    intro p hp
    unfold Browser.after at hp
    dsimp only at hp
    split at hp
    · rename_i hroute
      exact ⟨hroute, hp⟩
    · cases hp
  have hnew : ∀ q ∈ (t.state.after r page).2, q.query ∈ r.2 ∧ q.page = page := by
    intro q hq
    obtain ⟨q', hq', rfl⟩ := List.mem_map.1 hq
    exact ⟨hq', rfl⟩
  have hqueries : ∀ q ∈ (t.send (t.state.after r page)).queries, q ∈ t.queries ∨ q.query ∈ r.2 ∧ q.page = page := by
    intro q hq
    rw [Tab.queries_send] at hq
    exact (List.mem_append.1 hq).imp_right (hnew q)
  have hout : ∀ i q, (t.send (t.state.after r page)).Outstanding i q → t.Outstanding i q ∨
      ∃ k, i = t.calls.length + k ∧ r.2[k]? = some q.query := by
    intro i q hq
    refine hq.of_send.imp_right ?_
    rintro ⟨k, rfl, hk⟩
    refine ⟨k, rfl, ?_⟩
    unfold Browser.after at hk
    rw [List.getElem?_map, Option.map_eq_some_iff] at hk
    obtain ⟨q', hq', rfl⟩ := hk
    exact hq'
  refine ⟨stored, fun q hq => ?_, fun i q hq hlogin => ?_, fun p hp => ?_, fun q hq m hm => ?_, fun p hp q hq hm => ?_,
    fun p hp resp hresp => ?_⟩
  · rcases hqueries q hq with hq | ⟨hq, -⟩
    · exact h.sent q hq
    · exact sent _ hq
  · rcases hout i q hq with hold | ⟨k, rfl, hk⟩
    · refine ⟨login i q hold hlogin, fun j q' hq' hlogin' => ?_⟩
      rcases hout j q' hq' with hold' | ⟨k, rfl, hk⟩
      · exact (h.login i q hold hlogin).2 j q' hold' hlogin'
      · exact absurd hlogin ((submitted _ (List.mem_of_getElem? hk) hlogin').2.2 i q hold)
    · obtain ⟨hone, hnone, hfree⟩ := submitted _ (List.mem_of_getElem? hk) hlogin
      refine ⟨hnone, fun j q' hq' hlogin' => ?_⟩
      rcases hout j q' hq' with hold' | ⟨k', rfl, hk'⟩
      · exact absurd hlogin' (hfree j q' hold')
      · rw [hone] at hk hk'
        have hk0 := (List.getElem?_eq_some_iff.1 hk).1
        have hk0' := (List.getElem?_eq_some_iff.1 hk').1
        simp only [List.length_singleton, Nat.lt_one_iff] at hk0 hk0'
        rw [hk0, hk0']
  · obtain ⟨hroute, hp⟩ := hpage p hp
    exact ⟨hroute, (h.mounted p hp).2⟩
  · rcases hqueries q hq with hq | ⟨hq, hpage⟩
    · exact h.awaited q hq m hm
    · rw [hpage] at hm
      exact ⟨(awaited _ hq m hm).1, (awaited _ hq m hm).2.1⟩
  · obtain ⟨hroute, hp⟩ := hpage p hp
    rcases hqueries q hq with hq | ⟨hq, hpage⟩
    · exact (h.asked p hp q hq hm).trans (kept p hp hroute).symm
    · exact (awaited _ hq p.mount (by rw [← hpage, hm]; rfl)).2.2
  · obtain ⟨hroute, hp⟩ := hpage p hp
    obtain ⟨token, htoken, call, hcall, hgave⟩ := h.shown p hp resp hresp
    exact ⟨token, (kept p hp hroute).trans htoken, call, List.mem_append_left _ hcall, hgave⟩

theorem Confined.after_kept (h : Confined w jwt blocked t) {r : AuthProvider × List AuthQuery} {page : Option Nat}
    (token : r.1.token = t.state.auth.token) (stored : r.1.stored = t.state.auth.stored) (sent : ∀ q ∈ r.2, q.Sound)
    (submitted : ∀ q ∈ r.2, q.fetch = .login →
      r.2 = [q] ∧ r.1.token = none ∧ ∀ i q, t.Outstanding i q → q.query.fetch ≠ .login)
    (awaited : ∀ q ∈ r.2, ∀ m ∈ page, m < t.state.mounts ∧ (∃ e, q.endpoint = .secured e) ∧ q.sender = r.1.token) :
    Confined w jwt blocked (t.send (t.state.after r page)) := by
  refine h.after ?_ (fun _ _ _ => token) sent (fun i q hq hlogin => token.trans (h.login i q hq hlogin).1) submitted awaited
  unfold AuthProvider.getToken
  rw [stored, token]
  exact h.stored

theorem Confined.after_out (h : Confined w jwt blocked t) {r : AuthProvider × List AuthQuery} {page : Option Nat}
    (token : r.1.token = none) (stored : r.1.getToken blocked = none) (sent : r.2 = []) :
    Confined w jwt blocked (t.send (t.state.after r page)) := by
  have hnone : ∀ {q}, q ∉ r.2 := fun {q} hq => by
    rw [sent] at hq
    cases hq
  refine h.after ?_ (fun p _ hroute => ?_) (fun q hq => absurd hq hnone) (fun _ _ _ _ => token)
    (fun q hq => absurd hq hnone) fun q hq => absurd hq hnone
  · rw [stored]
    rintro _ ⟨⟩
  · simp [AuthProvider.protectedRoute, AuthProvider.isAuthenticated, token] at hroute

theorem Confined.navigate (h : Confined w jwt blocked t) (hroute : t.state.auth.protectedRoute) :
    Confined w jwt blocked
      (t.send ({ t.state with page := some { mount := t.state.mounts }, mounts := t.state.mounts + 1 }, [])) where
  stored := h.stored
  sent q hq := h.sent q (by simpa using hq)
  login i q hq := by
    have hold : ∀ {i q}, (t.send ({ t.state with page := some { mount := t.state.mounts }, mounts := t.state.mounts + 1 },
        [])).Outstanding i q → t.Outstanding i q := by
      intro i q hq
      rcases hq.of_send with hq | ⟨k, -, hk⟩
      · exact hq
      · cases hk
    exact fun hlogin => ⟨(h.login i q (hold hq) hlogin).1, fun j q' hq' => (h.login i q (hold hq) hlogin).2 j q' (hold hq')⟩
  mounted := by
    rintro p ⟨⟩
    exact ⟨hroute, Nat.lt_succ_self _⟩
  awaited q hq m hm := by
    obtain ⟨hlt, he⟩ := h.awaited q (by simpa using hq) m hm
    exact ⟨Nat.lt_succ_of_lt hlt, he⟩
  asked := by
    rintro p ⟨⟩ q hq hm
    exact absurd (h.awaited q (by simpa using hq) _ hm).1 (Nat.lt_irrefl _)
  shown := by
    rintro p ⟨⟩ r hr
    cases hr

theorem Confined.act (h : Confined w jwt blocked t) {a : BrowserEvent} (hok : OneLogin t (.act a)) :
    Confined w jwt blocked (t.send (t.state.act blocked a)) := by
  have hsame : ∀ {page}, Confined w jwt blocked (t.send (t.state.after (t.state.auth, []) page)) :=
    h.after_kept rfl rfl (List.forall_mem_nil _) (List.forall_mem_nil _) (List.forall_mem_nil _)
  have hsound : ∀ {fetch}, fetch ≠ .login → ∀ endpoint, ∀ q ∈ [t.state.auth.apiFetch blocked fetch endpoint], q.Sound := by
    intro fetch hfetch endpoint q hq
    obtain rfl := List.mem_singleton.1 hq
    exact ⟨h.stored, fun heq => absurd heq hfetch⟩
  have hother : ∀ {fetch}, fetch ≠ .login → ∀ endpoint, ∀ q ∈ [t.state.auth.apiFetch blocked fetch endpoint],
      q.fetch ≠ .login := by
    intro fetch hfetch endpoint q hq
    obtain rfl := List.mem_singleton.1 hq
    exact hfetch
  cases a with
  | effect =>
    simp only [Browser.act, AuthProvider.act]
    split_ifs
    · exact h.after_kept rfl rfl (List.forall_mem_nil _) (List.forall_mem_nil _) (List.forall_mem_nil _)
    · exact h.after_kept rfl rfl (hsound (by decide) _) (fun q hq hlogin => absurd hlogin (hother (by decide) _ q hq)) (by simp)
    · exact hsame
  | login username password =>
    simp only [Browser.act, AuthProvider.act]
    split
    · exact hsame
    · rename_i hauth
      have hnone : t.state.auth.token = none := by simpa [AuthProvider.isAuthenticated] using hauth
      refine h.after_kept rfl rfl (fun q hq => ?_) (fun q hq _ => ?_) (by simp)
      · obtain rfl := List.mem_singleton.1 hq
        exact ⟨h.stored, fun _ => hnone⟩
      · obtain rfl := List.mem_singleton.1 hq
        exact ⟨rfl, hnone, hok⟩
  | logout =>
    simp only [Browser.act, AuthProvider.act]
    split
    · exact h.after_out rfl AuthProvider.getToken_logout rfl
    · exact hsame
  | navigate =>
    simp only [Browser.act]
    split
    · rename_i hroute
      exact h.navigate hroute
    · rw [Tab.send_nil]
      exact h
  | request e =>
    simp only [Browser.act, AuthProvider.act]
    split
    · rename_i p hp
      split
      · refine h.after_kept rfl rfl (hsound (by decide) _) (fun q hq hlogin => absurd hlogin (hother (by decide) _ q hq))
          fun q hq m hm => ?_
        obtain rfl := List.mem_singleton.1 hq
        cases hm
        exact ⟨(h.mounted p hp).2, ⟨e, rfl⟩, rfl⟩
      · exact hsame
    · rw [Tab.send_nil]
      exact h

/-- What a page has after an answer, it had before, or it awaited this answer. -/
theorem page_hand {b : Browser} {answer : Option (Except Exn Answer)} : ∀ p ∈ (b.hand q answer).page, ∃ p' ∈ b.page,
    p'.mount = p.mount ∧ ∀ r ∈ p.shown, r ∈ p'.shown ∨ q.page = some p'.mount ∧ answer = some (.ok (.response r)) := by
  intro p hp
  obtain ⟨p', hp', rfl⟩ := Option.map_eq_some_iff.1 hp
  refine ⟨p', hp', ?_⟩
  unfold Page.take
  split
  · split
    · rename_i hm
      refine ⟨rfl, fun r hr => (List.mem_append.1 hr).imp_right fun hr => ⟨hm, ?_⟩⟩
      rw [List.mem_singleton.1 hr]
    · exact ⟨rfl, fun r hr => .inl hr⟩
  · exact ⟨rfl, fun r hr => .inl hr⟩

/-- Without a token there is no response. -/
theorem credentials_of_answer {q : AuthQuery} {reply : Reply} {r : Response} {e : Secured} (he : q.endpoint = .secured e)
    (h : reply.answer w jwt q = some (.ok (.response r))) : ∃ token, q.credentials = some token := by
  cases reply with
  | lost => cases h
  | served g now conn nature =>
    rcases hq : q.credentials with _ | token
    · simp [Reply.answer, Gateway.http, HttpRequest.dispatch, HttpRequest.claims, he, hq] at h
    · exact ⟨token, rfl⟩

theorem Confined.hand (h : Confined w jwt blocked t) {i : Nat} (hi : t.Outstanding i q) (reply : Reply) :
    Confined w jwt blocked
      { t.answered i q reply with state := t.state.hand q (reply.answer w jwt q.query) } where
  stored := h.stored
  sent := by
    show ∀ q' ∈ (t.answered i q reply).queries, _
    rw [hi.queries_answered]
    exact h.sent
  login j q' hq' hlogin := by
    have hold := (Tab.Outstanding.of_answered hq').2
    exact ⟨(h.login j q' hold hlogin).1,
      fun k q'' hq'' => (h.login j q' hold hlogin).2 k q'' (Tab.Outstanding.of_answered hq'').2⟩
  mounted p hp := by
    obtain ⟨p', hp', hmount, -⟩ := page_hand p hp
    rw [← hmount]
    exact h.mounted p' hp'
  awaited := by
    show ∀ q' ∈ (t.answered i q reply).queries, _
    rw [hi.queries_answered]
    exact h.awaited
  asked p hp := by
    obtain ⟨p', hp', hmount, -⟩ := page_hand p hp
    show ∀ q' ∈ (t.answered i q reply).queries, _
    rw [hi.queries_answered, ← hmount]
    exact h.asked p' hp'
  shown p hp r hr := by
    obtain ⟨p', hp', -, hshown⟩ := page_hand p hp
    rcases hshown r hr with hr | ⟨hm, hanswer⟩
    · obtain ⟨token, htoken, call, hcall, hgave⟩ := h.shown p' hp' r hr
      obtain ⟨reply', hreply', -⟩ := hgave.answer
      refine ⟨token, htoken, call, Tab.mem_answered_of_ne hcall ?_ hi, hgave⟩
      rintro rfl
      cases hreply'
    · have hq : q ∈ t.queries := List.mem_map_of_mem hi.mem
      obtain ⟨-, e, he⟩ := h.awaited q hq p'.mount hm
      obtain ⟨token, htoken⟩ := credentials_of_answer he hanswer
      have hsender : q.query.sender = some token := (h.sent q hq).credentials token htoken
      refine ⟨token, (h.asked p' hp' q hq hm).symm.trans hsender, _, hi.mem_answered, htoken, ⟨e, he⟩, reply, rfl, hanswer⟩

theorem Confined.take (h : Confined w jwt blocked t) {i : Nat} (hi : t.Outstanding i q) (reply : Reply) :
    Confined w jwt blocked ((t.answered i q reply).send (t.state.onAnswer blocked q (reply.answer w jwt q.query))) := by
  have hh := h.hand hi reply
  cases AuthProvider.took_onAnswer blocked t.state.auth q.query (reply.answer w jwt q.query) with
  | out _ token _ stored sent => exact hh.after_out token stored sent
  | kept token _ stored sent => exact hh.after_kept token stored (by simp [sent]) (by simp [sent]) (by simp [sent])
  | me _ _ _ token _ stored sent => exact hh.after_kept token stored (by simp [sent]) (by simp [sent]) (by simp [sent])
  | login token _ fetch state sent =>
    obtain ⟨hnone, hone⟩ := h.login i q hi fetch
    have hstored : ∀ token' ∈ (t.state.auth.onAnswer blocked q.query (reply.answer w jwt q.query)).1.getToken blocked,
        (t.state.auth.onAnswer blocked q.query (reply.answer w jwt q.query)).1.token = some token' := by
      intro token' hmem
      rw [state] at hmem ⊢
      cases blocked <;> cases hmem
      rfl
    refine hh.after hstored (fun p hp => ?_) (fun q' hq' => ?_) (fun j q' hq' hlogin => ?_) (fun q' hq' hlogin => ?_) ?_
    · obtain ⟨p', hp', -⟩ := page_hand p hp
      have hroute := (h.mounted p' hp').1
      simp [AuthProvider.protectedRoute, AuthProvider.isAuthenticated, hnone] at hroute
    · rw [sent, List.mem_singleton] at hq'
      rw [hq']
      exact ⟨hstored, fun hlogin => by cases hlogin⟩
    · obtain ⟨hne, hold⟩ := Tab.Outstanding.of_answered hq'
      exact absurd (hone j q' hold hlogin) hne
    · rw [sent, List.mem_singleton] at hq'
      rw [hq'] at hlogin
      cases hlogin
    · simp

/-! ### What is shown -/

/-- A response to a token that was issued would be the same without the rows of other tenants. -/
theorem answer_only (hjwt : jwt.Lawful) {claims : TokenClaims} (htexts : claims.textsOk) {iat : Time} {q : AuthQuery}
    {reply : Reply} {r : Response} {e : Secured} (he : q.endpoint = .secured e)
    (hcredentials : q.credentials = some (createAccessToken jwt claims iat))
    (h : reply.answer w jwt q = some (.ok (.response r))) :
    (reply.only claims.tenant).answer w jwt q = some (.ok (.response r)) := by
  cases reply with
  | lost => cases h
  | served g now conn nature =>
    set request : HttpRequest := { endpoint := q.endpoint, credentials := q.credentials, now, conn, nature } with hrequest
    have hanswer : (g.http w jwt request).1 = .ok (.response r) := Option.some.inj h
    have hclaims : request.claims jwt = .ok claims := by
      rcases hd : decodeAccessToken jwt (createAccessToken jwt claims iat) now.instant with _ | claims'
      · simp [Gateway.http, HttpRequest.dispatch, HttpRequest.claims, hrequest, he, hcredentials, hd] at hanswer
      · simp [HttpRequest.claims, hrequest, hcredentials, hd, decode_createAccessToken hjwt htexts hd]
    exact congrArg some ((Gateway.http_only w jwt g he hclaims).trans hanswer)

/-- As long as nobody submits the login form while a login is on its way, a page shows nothing but what was answered to
the token that the tab holds, and no row of another tenant has a part in it. -/
theorem pages_confined (w : World) {jwt : Jwt} (hjwt : jwt.Lawful) (blocked : Bool) (stored : Option Str)
    {events : List (Event BrowserEvent Reply)}
    (h : (browserClient w jwt blocked).Meets OneLogin (opened blocked stored) events) :
    let t := (browserClient w jwt blocked).run (opened blocked stored) events
    ∀ p ∈ t.state.page, ∃ token ∈ t.state.auth.token, ∀ claims iat, claims.textsOk →
      token = createAccessToken jwt claims iat → ∀ r ∈ p.shown, Answered w jwt t token claims.tenant r := by
  intro t p hp
  have hconfined : Confined w jwt blocked t :=
    h.invariant (fun t a ht hok => ht.act hok) (fun t i q reply ht hi _ => ht.take hi reply) (confined_opened stored)
  have hroute := (hconfined.mounted p hp).1
  rcases htoken : t.state.auth.token with _ | token
  · simp [AuthProvider.protectedRoute, AuthProvider.isAuthenticated, htoken] at hroute
  refine ⟨token, rfl, fun claims iat htexts hissued r hr => ?_⟩
  obtain ⟨token', htoken', call, hcall, hgave⟩ := hconfined.shown p hp r hr
  obtain rfl : token = token' := Option.some.inj (htoken.symm.trans htoken')
  obtain ⟨e, he⟩ := hgave.endpoint
  obtain ⟨reply, hreply, hanswer⟩ := hgave.answer
  exact ⟨call, hcall, reply, hreply, hgave.credentials, hanswer,
    answer_only hjwt htexts he (hissued ▸ hgave.credentials) hanswer⟩

/-- A rule with the defaults of `AlertRuleCreate`. -/
def defaultRule (id : Nat) (tenant : Str) : AlertRule := ⟨id, tenant, .failedLoginBurst, 5, 300, 900, true, 0, 0⟩

/-- A reload, and a page that asks for the rules; two tenants have one. -/
def rulesListed : List (Event BrowserEvent Reply) :=
  let served : Reply := .served { db := { alertRules := [defaultRule 1 (str "A"), defaultRule 2 (str "B")] } } ⟨0, some 0⟩
    { autocommit := false } fun _ => {}
  [.act .effect, .arrive 0 served, .act .navigate, .act (.request .listAlertRules), .arrive 1 served]

theorem pages_confined_rules :
    let t := (browserClient .sample .sample false).run (opened false (some (str "t"))) rulesListed
    t.state.page.map (·.shown) = some [.rules [defaultRule 1 (str "A")]] ∧
      ∀ p ∈ t.state.page, ∀ r ∈ p.shown, Answered .sample .sample t (str "t") (str "A") r := by
  intro t
  have hmeets : (browserClient .sample .sample false).Meets OneLogin (opened false (some (str "t"))) rulesListed :=
    ⟨trivial, trivial, trivial, trivial, trivial, trivial⟩
  refine ⟨rfl, fun p hp r hr => ?_⟩
  obtain ⟨token, htoken, hall⟩ := pages_confined .sample Jwt.sample_lawful false (some (str "t")) hmeets p hp
  obtain rfl : str "t" = token := Option.some.inj htoken
  exact hall ⟨str "a", .admin, str "A"⟩ 0 (by decide) (by decide) r hr

end BrowserTab

end LogMgmt
