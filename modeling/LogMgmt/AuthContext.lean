import LogMgmt.Gateway
import LogMgmt.Lib.Client

/-!
# Sessions of a tab

`AuthContext.jsx` and `api/client.js`: the token is attached when a request is sent, but a response is taken without
a look at the token by then. A 401 logs out whoever is logged in, and the claims of `GET /auth/me` are set whoever they
are of. A session is left alone as long as such responses come while the token of their request is held
(`session_undisturbed`).
-/

namespace LogMgmt
open Client (Tab Event)

/-! ### The provider -/

/-- Whose callbacks take the response. -/
inductive Fetch where
  /-- `loginRequest` in `login` -/
  | login
  /-- `fetchCurrentUser` in `login` -/
  | loginMe
  /-- `fetchCurrentUser` in the effect -/
  | effectMe
  | page
deriving DecidableEq

structure AuthQuery where
  fetch : Fetch
  endpoint : Endpoint
  /-- the token in its header -/
  credentials : Option Str
  /-- the token of the session that sent it; the client has no such record -/
  sender : Option Str

/-- What becomes of a request: the gateway serves it, or there is no response. -/
inductive Reply where
  | served (g : Gateway) (now : DateTime) (conn : Conn) (nature : Nat → Choice)
  | lost

def Reply.answer (w : World) (jwt : Jwt) (q : AuthQuery) : Reply → Option (Except Exn Answer)
  | served g now conn nature =>
    some (g.http w jwt { endpoint := q.endpoint, credentials := q.credentials, now, conn, nature }).1
  | lost => none

/-- `response.status === 401` -/
def unauthorized : Option (Except Exn Answer) → Bool
  | some (.error (.http status _)) => status = 401
  | _ => false

structure AuthProvider where
  /-- the token in sessionStorage -/
  stored : Option Str
  token : Option Str
  claims : Option TokenClaims := none
  loading : Bool := true
  /-- the token has changed since the effect ran -/
  effectDue : Bool := true

inductive AuthEvent where
  | effect
  | login (username password : Str)
  | logout
  /-- a page sends a request -/
  | request (endpoint : Endpoint)

namespace AuthProvider

/-- `isAuthenticated` -/
def isAuthenticated (s : AuthProvider) : Bool := s.token.isSome

/-- `ProtectedRoute` shows the pages and the button of the layout. -/
def protectedRoute (s : AuthProvider) : Bool := !s.loading && s.isAuthenticated

/-- The effect depends on the token. -/
def setToken (s : AuthProvider) (token : Option Str) : AuthProvider :=
  { s with token, effectDue := s.effectDue || s.token ≠ token }

section
variable (blocked : Bool)

/-- Storage throws where it is blocked. -/
def getToken (s : AuthProvider) : Option Str := if blocked then none else s.stored

def store (s : AuthProvider) (token : Option Str) : AuthProvider := if blocked then s else { s with stored := token }

def logout (s : AuthProvider) : AuthProvider := { (s.store blocked none).setToken none with claims := none }

/-- `apiFetch` up to its `await` -/
def apiFetch (s : AuthProvider) (fetch : Fetch) (endpoint : Endpoint) : AuthQuery :=
  ⟨fetch, endpoint, s.getToken blocked, s.token⟩

def act (s : AuthProvider) : AuthEvent → AuthProvider × List AuthQuery
  | .effect =>
    if s.effectDue then
      if s.token = none then ({ s with effectDue := false, loading := false }, [])
      else ({ s with effectDue := false }, [s.apiFetch blocked .effectMe (.secured .me)])
    else (s, [])
  -- `LoginPage` redirects who is logged in
  | .login username password =>
    if s.isAuthenticated then (s, []) else (s, [s.apiFetch blocked .login (.login username password)])
  | .logout => if s.protectedRoute then (s.logout blocked, []) else (s, [])
  | .request endpoint => if s.protectedRoute then (s, [s.apiFetch blocked .page endpoint]) else (s, [])

/-- `apiFetch` after its `await`, then the callbacks of its caller. -/
def onAnswer (s : AuthProvider) (q : AuthQuery) (answer : Option (Except Exn Answer)) : AuthProvider × List AuthQuery :=
  let s := if unauthorized answer then s.logout blocked else s
  match q.fetch, answer with
  | .login, some (.ok (.token accessToken)) =>
    let s := (s.store blocked (some accessToken)).setToken (some accessToken)
    (s, [s.apiFetch blocked .loginMe (.secured .me)])
  | .loginMe, some (.ok (.me claims)) => ({ s with claims := some claims }, [])
  | .effectMe, some (.ok (.me claims)) => ({ s with claims := some claims, loading := false }, [])
  | .effectMe, _ => ({ s with loading := false }, [])
  | _, _ => (s, [])

end

/-- The claims are null, or those that the server reads from the token that is held. -/
def Matched (jwt : Jwt) (s : AuthProvider) : Prop :=
  ∀ claims ∈ s.claims, ∃ token ∈ s.token, ∃ now, decodeAccessToken jwt token now = some claims

end AuthProvider

def authClient (w : World) (jwt : Jwt) (blocked : Bool) : Client AuthProvider AuthEvent AuthQuery Reply where
  act := AuthProvider.act blocked
  take s q reply := s.onAnswer blocked q (reply.answer w jwt q)

abbrev AuthTab := Tab AuthProvider AuthQuery Reply

namespace AuthTab

def mounted (blocked : Bool) (stored : Option Str) : AuthTab :=
  { state := { stored, token := if blocked then none else stored } }

/-- A response to a request that was sent under an earlier token. -/
def Stale (t : AuthTab) : Event AuthEvent Reply → Prop
  | .arrive i _ => ∃ q token, t.Outstanding i q ∧ q.sender = some token ∧ t.state.token ≠ some token
  | .act _ => False

/-- A response sets nothing: a 401 where nobody is logged in, another failure, or what a page has asked for. -/
def Harmless (s : AuthProvider) (q : AuthQuery) (answer : Option (Except Exn Answer)) : Prop :=
  (unauthorized answer → s.token = none) ∧ ∀ a, answer = some (.ok a) → q.fetch = .page

/-- A response that is not harmless comes to the session that sent the request. -/
def Timely (w : World) (jwt : Jwt) (t : AuthTab) : Event AuthEvent Reply → Prop
  | .arrive i reply => ∀ q, t.Outstanding i q →
      q.sender = t.state.token ∨ Harmless t.state q (reply.answer w jwt q)
  | .act _ => True

end AuthTab

/-! ### What a response does -/

/-- The claims that `GET /auth/me` answers are read from the token of the request. -/
theorem Gateway.http_me {w : World} {jwt : Jwt} {g : Gateway} {r : HttpRequest} {claims : TokenClaims}
    (h : (g.http w jwt r).1 = .ok (.me claims)) :
    ∃ token ∈ r.credentials, decodeAccessToken jwt token r.now.instant = some claims := by
  have hdispatch : r.dispatch jwt = .ok (.inl claims) := by
    unfold http at h
    split at h
    · cases h
    · rename_i claims' hd
      cases h
      exact hd
    · dsimp only at h
      split at h <;> cases h
  unfold HttpRequest.dispatch at hdispatch
  split at hdispatch <;> try cases hdispatch
  split at hdispatch
  · cases hdispatch
  · rename_i claims' hclaims
    split at hdispatch <;> cases hdispatch
    unfold HttpRequest.claims at hclaims
    split at hclaims
    · cases hclaims
    · rename_i token htoken
      split at hclaims <;> cases hclaims
      rename_i hdecode
      exact ⟨token, htoken, hdecode⟩

theorem Reply.me_of_answer {w : World} {jwt : Jwt} {q : AuthQuery} {reply : Reply} {claims : TokenClaims}
    (h : reply.answer w jwt q = some (.ok (.me claims))) :
    ∃ token ∈ q.credentials, ∃ now, decodeAccessToken jwt token now = some claims := by
  cases reply with
  | served g now conn nature =>
    obtain ⟨token, htoken, hdecode⟩ := Gateway.http_me (Option.some.inj h)
    exact ⟨token, htoken, _, hdecode⟩
  | lost => cases h

namespace AuthProvider
variable {blocked : Bool} {jwt : Jwt} {s : AuthProvider} {q : AuthQuery} {answer : Option (Except Exn Answer)}

@[simp] theorem claims_store (token : Option Str) : (s.store blocked token).claims = s.claims := by
  cases blocked <;> rfl

@[simp] theorem getToken_logout : (s.logout blocked).getToken blocked = none := by
  cases blocked <;> rfl

theorem Matched.claims_none (h : s.Matched jwt) (htoken : s.token = none) : s.claims = none := by
  rcases hclaims : s.claims with _ | claims
  · rfl
  · obtain ⟨token, hmem, -⟩ := h claims hclaims
    rw [htoken] at hmem
    cases hmem

theorem Matched.congr (h : s.Matched jwt) {s' : AuthProvider} (htoken : s'.token = s.token) (hclaims : s'.claims = s.claims) :
    s'.Matched jwt := by
  unfold Matched
  rw [htoken, hclaims]
  exact h

theorem matched_none (h : s.claims = none) : s.Matched jwt := by
  simp [Matched, h]

inductive Took (blocked : Bool) (s : AuthProvider) (q : AuthQuery) (answer : Option (Except Exn Answer))
    (r : AuthProvider × List AuthQuery) : Prop
  | out (h : unauthorized answer) (token : r.1.token = none) (claims : r.1.claims = none)
      (stored : r.1.getToken blocked = none) (sent : r.2 = [])
  | kept (token : r.1.token = s.token) (claims : r.1.claims = s.claims) (stored : r.1.stored = s.stored) (sent : r.2 = [])
  | login (token : Str) (h : answer = some (.ok (.token token))) (fetch : q.fetch = .login)
      (state : r.1 = (s.store blocked (some token)).setToken (some token))
      (sent : r.2 = [r.1.apiFetch blocked .loginMe (.secured .me)])
  | me (claims : TokenClaims) (h : answer = some (.ok (.me claims))) (fetch : q.fetch ≠ .page)
      (token : r.1.token = s.token) (set : r.1.claims = some claims) (stored : r.1.stored = s.stored) (sent : r.2 = [])

theorem took_onAnswer (blocked : Bool) (s : AuthProvider) (q : AuthQuery) (answer : Option (Except Exn Answer)) :
    Took blocked s q answer (s.onAnswer blocked q answer) := by
  obtain ⟨fetch, endpoint, credentials, sender⟩ := q
  rcases answer with _ | e | a
  · cases fetch <;> exact .kept rfl rfl rfl rfl
  · unfold onAnswer
    split
    · rename_i hu
      cases fetch <;> exact .out hu rfl rfl getToken_logout rfl
    · cases fetch <;> exact .kept rfl rfl rfl rfl
  · cases a with
    | token token =>
      cases fetch with
      | login => exact .login token rfl rfl rfl rfl
      | loginMe | effectMe | page => exact .kept rfl rfl rfl rfl
    | me claims =>
      cases fetch with
      | loginMe | effectMe => exact .me claims rfl nofun rfl rfl rfl rfl
      | login | page => exact .kept rfl rfl rfl rfl
    | response r => cases fetch <;> exact .kept rfl rfl rfl rfl

end AuthProvider

/-! ### What a run keeps -/

/-- A request carries the token of its sender, if any, and a login has no sender. -/
structure AuthQuery.Sound (q : AuthQuery) : Prop where
  credentials : ∀ token ∈ q.credentials, q.sender = some token
  login : q.fetch = .login → q.sender = none

namespace AuthTab
variable {w : World} {jwt : Jwt} {blocked : Bool} {t : AuthTab} {s : AuthProvider} {q : AuthQuery}

structure Coherent (jwt : Jwt) (blocked : Bool) (t : AuthTab) : Prop where
  stored : ∀ token ∈ t.state.getToken blocked, t.state.token = some token
  matched : t.state.Matched jwt
  sent : ∀ q ∈ t.queries, q.Sound

theorem coherent_mounted (stored : Option Str) : Coherent jwt blocked (mounted blocked stored) where
  stored token h := by simpa [mounted, AuthProvider.getToken] using h
  matched := by simp [mounted, AuthProvider.Matched]
  sent := by simp [mounted, Tab.queries]

theorem Coherent.send (h : Coherent jwt blocked t) {r : AuthProvider × List AuthQuery}
    (stored : ∀ token ∈ r.1.getToken blocked, r.1.token = some token) (matched : r.1.Matched jwt)
    (sent : ∀ q ∈ r.2, q.Sound) : Coherent jwt blocked (t.send r) where
  stored := stored
  matched := matched
  sent := by
    rw [Tab.queries_send]
    exact List.forall_mem_append.2 ⟨h.sent, sent⟩

theorem Coherent.send_out (h : Coherent jwt blocked t) {r : AuthProvider × List AuthQuery}
    (hclaims : r.1.claims = none) (hstored : r.1.getToken blocked = none) (hsent : r.2 = []) :
    Coherent jwt blocked (t.send r) :=
  h.send (by simp [hstored]) (AuthProvider.matched_none hclaims) (by simp [hsent])

/-- What changes neither the token nor the claims, and sends only sound requests. -/
theorem Coherent.send_kept (h : Coherent jwt blocked t) {r : AuthProvider × List AuthQuery}
    (htoken : r.1.token = t.state.token) (hclaims : r.1.claims = t.state.claims) (hstored : r.1.stored = t.state.stored)
    (hsent : ∀ q ∈ r.2, q.Sound) : Coherent jwt blocked (t.send r) := by
  refine h.send ?_ (h.matched.congr htoken hclaims) hsent
  unfold AuthProvider.getToken
  rw [hstored, htoken]
  exact h.stored

theorem Coherent.act (h : Coherent jwt blocked t) (a : AuthEvent) : Coherent jwt blocked (t.send (t.state.act blocked a)) := by
  have hsound : ∀ {fetch}, fetch ≠ .login → ∀ endpoint, ∀ q ∈ [t.state.apiFetch blocked fetch endpoint], q.Sound := by
    intro fetch hfetch endpoint q hq
    obtain rfl := List.mem_singleton.1 hq
    exact ⟨h.stored, fun heq => absurd heq hfetch⟩
  cases a with
  | effect =>
    simp only [AuthProvider.act]
    split_ifs
    · exact h.send_kept rfl rfl rfl (List.forall_mem_nil _)
    · exact h.send_kept rfl rfl rfl (hsound (by decide) _)
    · exact h.send_kept rfl rfl rfl (List.forall_mem_nil _)
  | login username password =>
    simp only [AuthProvider.act]
    split
    · exact h.send_kept rfl rfl rfl (List.forall_mem_nil _)
    · rename_i hout
      have hnone : t.state.token = none := by simpa [AuthProvider.isAuthenticated] using hout
      refine h.send_kept rfl rfl rfl fun q hq => ?_
      obtain rfl := List.mem_singleton.1 hq
      exact ⟨h.stored, fun _ => hnone⟩
  | logout =>
    simp only [AuthProvider.act]
    split
    · exact h.send_out rfl AuthProvider.getToken_logout rfl
    · exact h.send_kept rfl rfl rfl (List.forall_mem_nil _)
  | request endpoint =>
    simp only [AuthProvider.act]
    split
    · exact h.send_kept rfl rfl rfl (hsound (by decide) _)
    · exact h.send_kept rfl rfl rfl (List.forall_mem_nil _)

/-- A login that nobody has claims to lose by. -/
theorem Coherent.send_login (h : Coherent jwt blocked t) (hnone : t.state.token = none) {token : Str}
    {r : AuthProvider × List AuthQuery} (state : r.1 = (t.state.store blocked (some token)).setToken (some token))
    (sent : r.2 = [r.1.apiFetch blocked .loginMe (.secured .me)]) : Coherent jwt blocked (t.send r) := by
  have hstored : ∀ token' ∈ r.1.getToken blocked, r.1.token = some token' := by
    intro token' hmem
    rw [state] at hmem ⊢
    cases blocked <;> cases hmem
    rfl
  refine h.send hstored (AuthProvider.matched_none ?_) fun q hq => ?_
  · rw [state]
    simpa [AuthProvider.setToken] using h.matched.claims_none hnone
  · rw [sent, List.mem_singleton] at hq
    rw [hq]
    exact ⟨hstored, nofun⟩

theorem Coherent.answered (h : Coherent jwt blocked t) {i : Nat} (hi : t.Outstanding i q) (reply : Reply) :
    Coherent jwt blocked (t.answered i q reply) where
  stored := h.stored
  matched := h.matched
  sent := by
    rw [hi.queries_answered]
    exact h.sent

theorem Coherent.take (h : Coherent jwt blocked t) {i : Nat} (hi : t.Outstanding i q) {reply : Reply}
    (hok : t.Timely w jwt (.arrive i reply)) :
    Coherent jwt blocked ((t.answered i q reply).send (t.state.onAnswer blocked q (reply.answer w jwt q))) := by
  have hq : q.Sound := h.sent q (List.mem_map_of_mem hi.mem)
  have hown := hok q hi
  replace h := h.answered hi reply
  cases AuthProvider.took_onAnswer blocked t.state q (reply.answer w jwt q) with
  | out _ _ claims stored sent => exact h.send_out claims stored sent
  | kept token claims stored sent => exact h.send_kept token claims stored (by simp [sent])
  | login token hanswer fetch state sent =>
    have hnone : t.state.token = none := by
      rcases hown with hown | hharmless
      · rw [← hown, hq.login fetch]
      · rw [hharmless.2 _ hanswer] at fetch
        cases fetch
    exact h.send_login hnone state sent
  | me claims hanswer fetch token set stored sent =>
    have hown : q.sender = t.state.token := hown.resolve_right fun hharmless => fetch (hharmless.2 _ hanswer)
    obtain ⟨token', hcredentials, hdecode⟩ := Reply.me_of_answer hanswer
    have hmatched : (t.state.onAnswer blocked q (reply.answer w jwt q)).1.Matched jwt := by
      intro claims' hclaims'
      rw [set] at hclaims'
      cases hclaims'
      exact ⟨token', by rw [token, ← hown, hq.credentials token' hcredentials]; rfl, hdecode⟩
    exact h.send (by rw [AuthProvider.getToken, stored, token]; exact h.stored) hmatched (by simp [sent])

/-- A response that comes under another token than its request was sent under changes nothing. -/
theorem Coherent.stale (h : Coherent jwt blocked t) {e : Event AuthEvent Reply} (hok : t.Timely w jwt e) (hstale : t.Stale e) :
    ((authClient w jwt blocked).step t e).state.token = t.state.token ∧
      ((authClient w jwt blocked).step t e).state.claims = t.state.claims := by
  cases e with
  | act a => cases hstale
  | arrive i reply =>
    obtain ⟨q, token, hi, hsender, hne⟩ := hstale
    have hharmless : Harmless t.state q (reply.answer w jwt q) :=
      (hok q hi).resolve_left fun heq => hne (heq.symm.trans hsender)
    rw [Client.step_arrive_of_outstanding hi, Tab.state_send]
    cases AuthProvider.took_onAnswer blocked t.state q (reply.answer w jwt q) with
    | out hu token claims _ _ =>
      have hnone := hharmless.1 hu
      exact ⟨token.trans hnone.symm, claims.trans (h.matched.claims_none hnone).symm⟩
    | kept token claims _ _ => exact ⟨token, claims⟩
    | login token hanswer fetch _ _ =>
      rw [hharmless.2 _ hanswer] at fetch
      cases fetch
    | me claims hanswer fetch _ _ _ _ => exact absurd (hharmless.2 _ hanswer) fetch

/-- As long as each response that is not harmless comes to the session that sent its request, the claims are those of
the token held, and no response to an earlier session changes anything. -/
theorem session_undisturbed (w : World) (jwt : Jwt) (blocked : Bool) (stored : Option Str)
    {events : List (Event AuthEvent Reply)}
    (h : (authClient w jwt blocked).Meets (Timely w jwt) (mounted blocked stored) events) :
    ((authClient w jwt blocked).run (mounted blocked stored) events).state.Matched jwt ∧
      ∀ before e after, events = before ++ e :: after →
        Stale ((authClient w jwt blocked).run (mounted blocked stored) before) e →
        ((authClient w jwt blocked).run (mounted blocked stored) (before ++ [e])).state.token =
            ((authClient w jwt blocked).run (mounted blocked stored) before).state.token ∧
          ((authClient w jwt blocked).run (mounted blocked stored) (before ++ [e])).state.claims =
            ((authClient w jwt blocked).run (mounted blocked stored) before).state.claims := by
  have hrun : ∀ {events}, (authClient w jwt blocked).Meets (Timely w jwt) (mounted blocked stored) events →
      Coherent jwt blocked ((authClient w jwt blocked).run (mounted blocked stored) events) := fun h =>
    h.invariant (fun t a ht _ => ht.act a) (fun t i q reply ht hi hok => ht.take hi hok) (coherent_mounted stored)
  refine ⟨(hrun h).matched, fun before e after heq hstale => ?_⟩
  subst heq
  obtain ⟨hbefore, hafter⟩ := Client.meets_append.1 h
  rw [Client.run_append]
  exact (hrun hbefore).stale hafter.1 hstale

/-- A PyJWT whose tokens show their user. -/
def namedTokens : Jwt where
  encode payload := payload.sub
  decode token now := if now < seconds 3600 then some ⟨⟨token, .viewer, str "A"⟩, 0, seconds 3600⟩ else none
  expireMinutes := 60

/-- Two users, each with their name for a password. -/
def twoUsers : Gateway :=
  { db := { users := [⟨1, str "a", str "a", .viewer, str "A", 0⟩, ⟨2, str "b", str "b", .viewer, str "A", 0⟩] } }

def servedAt (now : Time) : Reply := .served twoUsers ⟨now, some 0⟩ { autocommit := false } fun _ => {}

/-- A reload as `a`, then a login as `b`; the rules that a page had asked for come late. -/
def loginAfterReload : List (Event AuthEvent Reply) :=
  [.act .effect, .arrive 0 (servedAt 0), .act (.request (.secured .listAlertRules)), .act .logout, .act .effect,
    .act (.login (str "b") (str "b")), .arrive 2 (servedAt 1), .arrive 1 (servedAt 2), .arrive 3 (servedAt 3)]

theorem session_undisturbed_reload :
    ((authClient .sample namedTokens false).run (mounted false (some (str "a"))) loginAfterReload).state.Matched
      namedTokens := by
  have h : (authClient .sample namedTokens false).Meets (Timely .sample namedTokens) (mounted false (some (str "a")))
      loginAfterReload := by
    refine ⟨trivial, ?_, trivial, trivial, trivial, trivial, ?_, ?_, ?_, trivial⟩
    · rintro q ⟨⟩
      exact .inl rfl
    · rintro q ⟨⟩
      exact .inl rfl
    · rintro q ⟨⟩
      exact .inr ⟨nofun, fun _ _ => rfl⟩
    · rintro q ⟨⟩
      exact .inl rfl
  exact (session_undisturbed .sample namedTokens false (some (str "a")) h).1

/-- A tab in which `b` has logged in while the claims of `a` are still on their way. -/
def loginsInTurn : List (Event AuthEvent Reply) :=
  [.act .effect, .act (.login (str "a") (str "a")), .arrive 0 (servedAt 0), .act .effect, .act .logout, .act .effect,
    .act (.login (str "b") (str "b")), .arrive 3 (servedAt 1), .act .effect]

/-- The answer that was meant for `a` shows `b` as `a`, or, if it comes after the token of `a` has expired, logs `b` out. -/
theorem earlier_session_disturbs :
    let client := authClient .sample namedTokens false
    let t := client.run (mounted false none) loginsInTurn
    t.state.token = some (str "b") ∧ t.calls[1]?.map (·.query.sender) = some (some (str "a")) ∧
      ¬(client.step t (.arrive 1 (servedAt 2))).state.Matched namedTokens ∧
      (client.step t (.arrive 1 (servedAt (seconds 3600)))).state.token = none := by
  intro client t
  have htoken : (client.step t (.arrive 1 (servedAt 2))).state.token = some (str "b") := by decide +kernel
  have hclaims : (client.step t (.arrive 1 (servedAt 2))).state.claims = some ⟨str "a", .viewer, str "A"⟩ := by
    decide +kernel
  refine ⟨by decide +kernel, by decide +kernel, fun h => ?_, by decide +kernel⟩
  obtain ⟨token, hmem, now, hdecode⟩ := h _ hclaims
  rw [htoken] at hmem
  cases hmem
  unfold decodeAccessToken namedTokens at hdecode
  dsimp only at hdecode
  split at hdecode <;> cases hdecode

end AuthTab

end LogMgmt
