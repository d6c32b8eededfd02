import LogMgmt.Authority
import LogMgmt.Integrity

/-!
# Accounts

A user name belongs to one account for good: what a login answers depends on that account alone
(`login_exact`), and a token that is still accepted says what the account says now (`accounts_stable`). Behind every
token that is accepted there is a login with the password, not longer ago than a token lasts (`session_origin`).
-/

namespace LogMgmt
open Prog

/-- The claims that a login signs for the account. -/
def TokenClaims.ofUser (u : User) : TokenClaims where
  sub := u.username
  role := u.role
  tenant := u.tenant

/-- The refusal that does not say whether the account exists. -/
def invalidCredentials : Exn := .http 401 "invalid username or password"

/-- What the accounts say of a user name and a password. -/
def loginAnswer (bcrypt : Bcrypt) (users : List User) (username password : Str) : Except Exn TokenClaims :=
  match users.find? (·.username = username) with
  | some u =>
    match bcrypt.verifyPassword password u.passwordHash with
    | some true => .ok (.ofUser u)
    | some false => .error invalidCredentials
    | none => .error .python
  | none =>
    match bcrypt.verifyPassword password bcrypt.dummyPasswordHash with
    | some _ => .error invalidCredentials
    | none => .error .python

/-! ### Login -/

section
variable {pg : Pg} {s : Session}

/-- A COMMIT that does not fail returns, also if there is nothing to commit. -/
theorem handle_commit_ok (pg : Pg) (h : (s.nature 0).fault = false) : (handle pg .commit s).1 = .ok () := by
  show s.interfere.doCommit.1 = _
  unfold Session.doCommit
  rw [Session.interfere_nature, h]
  repeat' split
  · rfl
  · contradiction
  · rfl
  · rfl

/-- A read outside a failed transaction answers what the statement says of the committed rows. -/
theorem handle_read_ok (halone : s.Alone) (h : (s.nature 0).fault = false) (hs : s.conn.status ≠ .failed)
    (hpending : s.pending = []) {stmt : Stmt} {r : stmt.Resp} {ws : List Write}
    (hx : stmt.exec pg s.ctx s.db = .ok (r, ws)) : (handle pg (.sql stmt) s).1 = .ok r := by
  have hview : s.view = s.db := by rw [Session.view, hpending]; rfl
  show (s.interfere.doSql pg stmt).1 = _
  rw [halone.interfere]
  unfold Session.doSql
  rw [h, hview, hx]
  simp [hs]

theorem run_login (w : World) {username password : Str} (htext : textOk username) (halone : s.Alone) (hcalm : s.Calm)
    (hs : s.conn.status ≠ .failed) (hpending : s.pending = []) :
    ((login w.bcrypt username password).run (handle w.pg) s).1 =
      (loginAnswer w.bcrypt s.db.users username password).map .token := by
  have hx : (Stmt.selectUser username).exec w.pg s.ctx s.db = .ok (s.db.users.find? (·.username = username), []) :=
    if_pos htext
  have hok := handle_read_ok halone (hcalm 0) hs hpending hx
  have hcalm' := hcalm.handle w.pg (.sql (.selectUser username))
  suffices h : ∀ answer, answer = (loginAnswer w.bcrypt s.db.users username password).map Response.token →
      wp (handle w.pg) (login w.bcrypt username password) (fun a _ => answer = .ok a) (fun e _ => answer = .error e) s by
    have hw := h _ rfl
    unfold wp at hw
    rcases hr : (login w.bcrypt username password).run (handle w.pg) s with ⟨_ | _, _⟩ <;> rw [hr] at hw <;>
      exact hw.symm
  intro answer hanswer
  unfold loginAnswer at hanswer
  unfold login pooledConn
  rw [wp_withConn, wp_bind, wp_sql]
  rcases hh : handle w.pg (.sql (.selectUser username)) s with ⟨e | row, s'⟩ <;> rw [hh] at hok hcalm'
  · cases hok
  cases hok
  rw [ends_ok]
  cases hfind : s.db.users.find? (·.username = username) with
  | none =>
    rw [hfind] at hanswer
    dsimp only [Option.map_none, Bcrypt.verifyPasswordOrDummy] at hanswer ⊢
    cases hpw : w.bcrypt.verifyPassword password w.bcrypt.dummyPasswordHash <;> rw [hpw] at hanswer <;> exact hanswer
  | some u =>
    rw [hfind] at hanswer
    have hname : u.username = username := by simpa using List.find?_some hfind
    dsimp only [Option.map_some, Bcrypt.verifyPasswordOrDummy] at hanswer ⊢
    rcases hpw : w.bcrypt.verifyPassword password u.passwordHash with _ | _ | _ <;> rw [hpw] at hanswer
    · exact hanswer
    · exact hanswer
    · have hcommit := handle_commit_ok w.pg (hcalm' 0)
      simp only [wp_pure]
      rcases hc : handle w.pg .commit s' with ⟨_ | _, s''⟩ <;> rw [hc] at hcommit
      · cases hcommit
      · rw [ends_ok, hanswer, TokenClaims.ofUser, hname]
        rfl

theorem find?_username {users : List User} (hnames : (users.map (·.username)).Nodup) {u : User} (hu : u ∈ users) :
    users.find? (·.username = u.username) = some u := by
  cases hfind : users.find? (·.username = u.username) with
  | none => exact absurd (decide_eq_true rfl) (List.find?_eq_none.1 hfind u hu)
  | some u' =>
    have hname : u'.username = u.username := by simpa using List.find?_some hfind
    rw [List.inj_on_of_nodup_map hnames (List.mem_of_find?_eq_some hfind) hu hname]

/-- The check of the password raises: against the hash of the account, or the dummy hash if there is none. -/
def Bcrypt.Raises (bcrypt : Bcrypt) (users : List User) (username password : Str) : Prop :=
  (∃ u ∈ users, u.username = username ∧ bcrypt.verifyPassword password u.passwordHash = none) ∨
    ((∀ u ∈ users, u.username ≠ username) ∧ bcrypt.verifyPassword password bcrypt.dummyPasswordHash = none)

/-- With unique names the account of the name decides, and every refusal is the same. -/
theorem loginAnswer_cases (bcrypt : Bcrypt) {users : List User} (hnames : (users.map (·.username)).Nodup)
    (username password : Str) :
    (∃ u ∈ users, u.username = username ∧ bcrypt.verifyPassword password u.passwordHash = some true ∧
      loginAnswer bcrypt users username password = .ok (.ofUser u)) ∨
    ((∀ u ∈ users, u.username = username → bcrypt.verifyPassword password u.passwordHash = some false) ∧
      loginAnswer bcrypt users username password = .error invalidCredentials) ∨
    (bcrypt.Raises users username password ∧ loginAnswer bcrypt users username password = .error .python) := by
  unfold loginAnswer
  by_cases hexists : ∃ u ∈ users, u.username = username
  · obtain ⟨u, hu, rfl⟩ := hexists
    rw [find?_username hnames hu]
    rcases hpw : bcrypt.verifyPassword password u.passwordHash with _ | _ | _
    · exact .inr (.inr ⟨.inl ⟨u, hu, rfl, hpw⟩, by simp [hpw]⟩)
    · refine .inr (.inl ⟨fun u' hu' hname => ?_, by simp [hpw]⟩)
      rw [List.inj_on_of_nodup_map hnames hu' hu hname, hpw]
    · exact .inl ⟨u, hu, rfl, hpw, by simp [hpw]⟩
  · have hno : ∀ u ∈ users, u.username ≠ username := fun u hu hname => hexists ⟨u, hu, hname⟩
    have hnone : users.find? (·.username = username) = none :=
      List.find?_eq_none.2 fun u hu => by simpa using hno u hu
    rw [hnone]
    cases hpw : bcrypt.verifyPassword password bcrypt.dummyPasswordHash with
    | none => exact .inr (.inr ⟨.inr ⟨hno, hpw⟩, rfl⟩)
    | some b => exact .inr (.inl ⟨fun u hu hname => absurd hname (hno u hu), rfl⟩)

end

/-! ### Over any requests -/

namespace Gateway
variable {w : World} {jwt : Jwt} {g g' : Gateway} {r : HttpRequest} {username password : Str}

theorem Step.extends (hs : Step w jwt g g') : g.db.Extends g'.db := by
  cases hs with
  | createUser => exact commits_extends w [_] g.db
  | http r _ =>
    cases http_cases w jwt g r with
    | answered _ hg =>
      rw [hg]
      exact .refl _
    | called c _ hdb _ =>
      rw [hdb]
      exact commits_extends w [_] g.db

theorem extends_of_later (h : Relation.ReflTransGen (Step w jwt) g g') : g.db.Extends g'.db := by
  induction h with
  | refl => exact .refl _
  | tail _ hs ih => exact ih.trans hs.extends

theorem Step.sound (hs : Step w jwt g g') (h : g.db.Sound) : g'.db.Sound := by
  cases hs with
  | createUser => exact commits_sound w [_] h
  | http r _ =>
    cases http_cases w jwt g r with
    | answered _ hg => rwa [hg]
    | called c _ hdb _ =>
      rw [hdb]
      exact commits_sound w [_] h

theorem sound_of_reachable (h : Reachable w jwt g) : g.db.Sound := by
  induction h with
  | refl => exact .empty
  | tail _ hs ih => exact hs.sound ih

/-- An issued token says what an account of its moment said, and so what that account says later. -/
theorem of_issued (hg : Reachable w jwt g) {i : Issue} (hi : i ∈ g.issued) : i.claims.Of g.db.users := by
  induction hg with
  | refl => cases hi
  | @tail g₁ g₂ _ hs ih =>
    have hlater : ∀ {claims : TokenClaims}, claims.Of g₁.db.users → claims.Of g₂.db.users := by
      rintro claims ⟨u, hu, hrest⟩
      exact ⟨u, hs.extends.users.subset hu, hrest⟩
    cases hs with
    | createUser => exact hlater (ih hi)
    | http r _ =>
      cases http_cases w jwt g₁ r with
      | answered _ hsame =>
        rw [hsame] at hi ⊢
        exact ih hi
      | called c _ _ hissued =>
        rcases hissued with hissued | ⟨claims, hof, hissued⟩ <;> rw [hissued] at hi
        · exact hlater (ih hi)
        · rcases List.mem_append.1 hi with hi | hi
          · exact hlater (ih hi)
          · rw [List.mem_singleton.1 hi]
            exact hlater hof

/-- Claims of accounts are the same if they are of the same user name. -/
theorem claims_eq_of_sub {users : List User} (hnames : (users.map (·.username)).Nodup) {claims claims' : TokenClaims}
    (h : claims.Of users) (h' : claims'.Of users) (hsub : claims.sub = claims'.sub) : claims = claims' := by
  obtain ⟨u, hu, hname, hrole, htenant⟩ := h
  obtain ⟨u', hu', hname', hrole', htenant'⟩ := h'
  obtain rfl : u = u' := List.inj_on_of_nodup_map hnames hu hu' (hname.trans (hsub.trans hname'.symm))
  rcases claims with ⟨sub, role, tenant⟩
  rcases claims' with ⟨sub', role', tenant'⟩
  cases hname
  cases hname'
  cases hrole
  cases hrole'
  cases htenant
  cases htenant'
  rfl

theorem http_login (w : World) (jwt : Jwt) (g : Gateway) (hr : r.endpoint = .login username password)
    (htext : textOk username) (hcalm : r.Calm) (hconn : r.conn.status = .idle) :
    (g.http w jwt r).1 = (loginAnswer w.bcrypt g.db.users username password).map fun claims =>
      .token (createAccessToken jwt claims r.now.instant) := by
  have hrun : ((r.on (.login username password)).run w g.db).1 =
      (loginAnswer w.bcrypt g.db.users username password).map .token :=
    run_login w (s := { db := g.db, conn := r.conn, nature := r.nature }) htext (fun _ => rfl) hcalm
      (by rw [hconn]; exact nofun) rfl
  have hdispatch : r.dispatch jwt = .ok (.inr (.login username password)) := by
    simp [HttpRequest.dispatch, hr]
  unfold http
  rw [hdispatch]
  dsimp only
  rw [hrun]
  cases loginAnswer w.bcrypt g.db.users username password <;> rfl

end Gateway

/-- In every state that requests and `create_user` lead to, a login on a connection that works answers with the token of
the one account of the user name if bcrypt accepts the password for it, with a refusal that is the same whether the
account exists or not if it does not, and with a failure of the server if the check itself raises. -/
theorem login_exact {w : World} {jwt : Jwt} {g : Gateway} {r : HttpRequest} {username password : Str}
    (hg : Gateway.Reachable w jwt g) (hr : r.endpoint = .login username password) (htext : textOk username)
    (hcalm : r.Calm) (hconn : r.conn.status = .idle) :
    (∃ u ∈ g.db.users, u.username = username ∧ w.bcrypt.verifyPassword password u.passwordHash = some true ∧
      (g.http w jwt r).1 = .ok (.token (createAccessToken jwt (.ofUser u) r.now.instant))) ∨
    ((∀ u ∈ g.db.users, u.username = username → w.bcrypt.verifyPassword password u.passwordHash = some false) ∧
      (g.http w jwt r).1 = .error invalidCredentials) ∨
    (w.bcrypt.Raises g.db.users username password ∧ (g.http w jwt r).1 = .error .python) := by
  rw [Gateway.http_login w jwt g hr htext hcalm hconn]
  rcases loginAnswer_cases w.bcrypt (Gateway.sound_of_reachable hg).usernames username password with
    ⟨u, hu, hname, hpw, hok⟩ | ⟨hall, herror⟩ | ⟨hraises, herror⟩
  · exact .inl ⟨u, hu, hname, hpw, by rw [hok]; rfl⟩
  · exact .inr (.inl ⟨hall, by rw [herror]; rfl⟩)
  · exact .inr (.inr ⟨hraises, by rw [herror]; rfl⟩)

/-- One account. -/
def Gateway.oneAccount : Gateway where
  db := Request.commits World.sample {}
    ⟨.createUser (str "a") (str "p") .admin (str "A"), { autocommit := true }, fun _ => {}⟩

theorem Gateway.reachable_oneAccount : Reachable World.sample Jwt.sample oneAccount :=
  Relation.ReflTransGen.refl.tail (.createUser {} (str "a") (str "p") .admin (str "A") { autocommit := true } fun _ => {})

/-- A login to it. -/
def HttpRequest.oneLogin (password : Str) : HttpRequest where
  endpoint := .login (str "a") password
  now := ⟨0, some 0⟩
  nature _ := {}

theorem Bcrypt.not_raises_sample {users : List User} {username password : Str} (h : unicodeOk password) :
    ¬sample.Raises users username password := by
  simp [Raises, verifyPassword, sample, h]

/-- The password, another one, and a lone surrogate. -/
theorem login_exact_oneAccount : ∃ token,
    (Gateway.oneAccount.http World.sample Jwt.sample (.oneLogin (str "p"))).1 = .ok (.token token) ∧
    (Gateway.oneAccount.http World.sample Jwt.sample (.oneLogin (str "q"))).1 = .error invalidCredentials ∧
    (Gateway.oneAccount.http World.sample Jwt.sample (.oneLogin [0xD800])).1 = .error .python := by
  have huser : ⟨1, str "a", str "p", .admin, str "A", 0⟩ ∈ Gateway.oneAccount.db.users := by decide
  have hlogin (password : Str) := login_exact (r := .oneLogin password) Gateway.reachable_oneAccount rfl (by decide)
    (fun _ => rfl) rfl
  have hq : ∀ u ∈ Gateway.oneAccount.db.users, World.sample.bcrypt.verifyPassword (str "q") u.passwordHash ≠ some true := by
    decide
  have hsurrogate : ∀ hash, World.sample.bcrypt.verifyPassword [0xD800] hash = none := fun _ => if_neg (by decide)
  rcases hlogin (str "p") with ⟨u, -, -, -, htoken⟩ | ⟨hall, -⟩ | ⟨hraises, -⟩
  · refine ⟨_, htoken, ?_, ?_⟩
    · rcases hlogin (str "q") with ⟨u, hu, -, hpw, -⟩ | ⟨-, hrefused⟩ | ⟨hraises, -⟩
      · exact absurd hpw (hq u hu)
      · exact hrefused
      · exact absurd hraises (Bcrypt.not_raises_sample (by decide))
    · rcases hlogin [0xD800] with ⟨u, -, -, hpw, -⟩ | ⟨hall, -⟩ | ⟨-, hfailed⟩
      · cases (hsurrogate _).symm.trans hpw
      · cases (hsurrogate _).symm.trans (hall _ huser rfl)
      · exact hfailed
  · cases hall _ huser rfl
  · exact absurd hraises (Bcrypt.not_raises_sample (by decide))

/-- Whatever requests and `create_user` calls come in between: who could log in still can, with the same claims; a token
that is accepted says what its account says at that moment; and all tokens of a user name ever issued say the same. -/
theorem accounts_stable {w : World} {jwt : Jwt} (hjwt : jwt.Lawful) {g g' : Gateway} (hg : Gateway.Reachable w jwt g)
    (hlater : Relation.ReflTransGen (Gateway.Step w jwt) g g') :
    (∀ username password claims, loginAnswer w.bcrypt g.db.users username password = .ok claims →
      loginAnswer w.bcrypt g'.db.users username password = .ok claims) ∧
    (∀ r : HttpRequest, g'.Unforged jwt r → ∀ claims, r.claims jwt = .ok claims → claims.Of g'.db.users) ∧
    ∀ i ∈ g.issued, ∀ j ∈ g'.issued, i.claims.sub = j.claims.sub → i.claims = j.claims := by
  have hg' : Gateway.Reachable w jwt g' := hg.trans hlater
  have hnames := (Gateway.sound_of_reachable hg').usernames
  have hextends := Gateway.extends_of_later hlater
  refine ⟨fun username password claims h => ?_, fun r hr claims h => ?_, fun i hi j hj hsub => ?_⟩
  · rcases loginAnswer_cases w.bcrypt (Gateway.sound_of_reachable hg).usernames username password with
      ⟨u, hu, rfl, hpw, hok⟩ | ⟨-, herror⟩ | ⟨-, herror⟩
    · rw [hok] at h
      rw [loginAnswer, find?_username hnames (hextends.users.subset hu)]
      dsimp only
      rwa [hpw]
    · rw [herror] at h
      cases h
    · rw [herror] at h
      cases h
  · obtain ⟨i, hi, -, rfl, -⟩ := Gateway.claims_issued hjwt (Gateway.genuine_of_reachable hg') hr h
    exact Gateway.of_issued hg' hi
  · obtain ⟨u, hu, hrest⟩ := Gateway.of_issued hg hi
    exact Gateway.claims_eq_of_sub hnames ⟨u, hextends.users.subset hu, hrest⟩ (Gateway.of_issued hg' hj) hsub

/-- The token of the account, in the state after its login. -/
theorem accounts_stable_oneAccount :
    let g' := (Gateway.oneAccount.http World.sample Jwt.sample (.oneLogin (str "p"))).2
    loginAnswer World.sample.bcrypt g'.db.users (str "a") (str "p") = .ok ⟨str "a", .admin, str "A"⟩ ∧
      TokenClaims.Of g'.db.users ⟨str "a", .admin, str "A"⟩ := by
  intro g'
  have hlater : Relation.ReflTransGen (Gateway.Step World.sample Jwt.sample) Gateway.oneAccount g' :=
    Relation.ReflTransGen.refl.tail (.http _ _ fun _ h => by cases h)
  obtain ⟨hlogin, hclaims, -⟩ := accounts_stable Jwt.sample_lawful Gateway.reachable_oneAccount hlater
  have hissued : ∃ i ∈ g'.issued, i.token = str "t" := ⟨⟨str "t", _, _⟩, List.mem_singleton.2 rfl, rfl⟩
  refine ⟨hlogin _ _ _ (by decide), hclaims
    { endpoint := .secured .me, credentials := some (str "t"), now := ⟨0, some 0⟩, nature := fun _ => {} } ?_ _ rfl⟩
  rintro token ⟨⟩ _
  exact hissued

/-! ### Where a token comes from -/

/-- A token is not decoded from the time on at which it expires. -/
def Jwt.Expires (jwt : Jwt) : Prop := ∀ payload t, (jwt.decode (jwt.encode payload) t).isSome → t < payload.exp

/-- What a login answers with claims has verified, whatever fails in its session. -/
theorem wp_login_verified (w : World) (username password : Str) {s : Session} (hothers : s.others 0 = id)
    (hpending : s.pending = []) :
    wp (handle w.pg) (login w.bcrypt username password)
      (fun a _ => ∀ claims, a = .token claims → ∃ u ∈ s.db.users, u.username = username ∧
        w.bcrypt.verifyPassword password u.passwordHash = some true ∧ claims = .ofUser u) (fun _ _ => True) s := by
  have hview : s.interfere.view.users = s.db.users := by
    simp [Session.view, Session.interfere, hothers, hpending, Db.applyAll]
  unfold login pooledConn
  rw [wp_withConn, wp_bind, wp_sql]
  rcases hh : handle w.pg (.sql (.selectUser username)) s with ⟨e | row, s'⟩
  · trivial
  obtain ⟨ws, hx⟩ := Session.exec_of_answer hh
  rw [ends_ok]
  cases row with
  | none =>
    dsimp only [Option.map_none, Bcrypt.verifyPasswordOrDummy]
    cases w.bcrypt.verifyPassword password w.bcrypt.dummyPasswordHash <;> trivial
  | some u =>
    dsimp only [Option.map_some, Bcrypt.verifyPasswordOrDummy]
    rcases hpw : w.bcrypt.verifyPassword password u.passwordHash with _ | _ | _
    · trivial
    · trivial
    simp only [Stmt.exec] at hx
    split at hx
    swap
    · cases hx
    rw [Except.ok.injEq, Prod.mk.injEq, hview] at hx
    have hu : u ∈ s.db.users := List.mem_of_find?_eq_some hx.1
    have hname : u.username = username := by simpa using List.find?_some hx.1
    rw [wp_pure]
    rcases handle w.pg .commit s' with ⟨_ | _, _⟩
    · trivial
    · rintro claims ⟨⟩
      exact ⟨u, hu, hname, hpw, by rw [TokenClaims.ofUser, hname]⟩

theorem login_of_token {w : World} {call : Call} {db : Db} {conn : Conn} {nature : Nat → Choice} {claims : TokenClaims}
    (h : (Request.run w ⟨call, conn, nature⟩ db).1 = .ok (.token claims)) :
    ∃ password, call = .login claims.sub password ∧
      ∃ u ∈ db.users, w.bcrypt.verifyPassword password u.passwordHash = some true ∧ claims = .ofUser u := by
  by_cases hlogin : ∃ username password, call = .login username password
  swap
  · have hret := Call.returns_token w call fun username password heq => hlogin ⟨username, password, heq⟩
    exact absurd rfl (hret.run (Prod.ext h rfl) claims)
  obtain ⟨username, password, rfl⟩ := hlogin
  have hw := wp_login_verified w username password (s := { db, conn, nature }) rfl rfl
  unfold wp at hw
  rcases hr : (LogMgmt.login w.bcrypt username password).run (handle w.pg) { db, conn, nature } with ⟨_ | a, s'⟩
  · rw [Request.run, Call.app, hr] at h
    cases h
  · rw [Request.run, Call.app, hr, Except.ok.injEq] at h
    rw [hr] at hw
    obtain ⟨u, hu, rfl, hpw, rfl⟩ := hw claims h
    exact ⟨password, rfl, u, hu, hpw, rfl⟩

namespace Gateway
variable {w : World} {jwt : Jwt} {g g' : Gateway} {r : HttpRequest}

/-- In the state `g` the request logs an account in with its password, and is answered with the token. -/
structure LogsIn (w : World) (jwt : Jwt) (g : Gateway) (login : HttpRequest) (claims : TokenClaims) (token : Str) :
    Prop where
  verified : ∃ password, login.endpoint = .login claims.sub password ∧
    ∃ u ∈ g.db.users, w.bcrypt.verifyPassword password u.passwordHash = some true ∧ claims = .ofUser u
  answer : (g.http w jwt login).1 = .ok (.token token)
  token : token = createAccessToken jwt claims login.now.instant

theorem dispatch_login {username password : Str} (h : r.dispatch jwt = .ok (.inr (.login username password))) :
    r.endpoint = .login username password := by
  unfold HttpRequest.dispatch at h
  cases hendpoint : r.endpoint with
  | login username' password' =>
    simp only [hendpoint, Except.ok.injEq, Sum.inr.injEq, Call.login.injEq] at h
    rw [h.1, h.2]
  | health | refused status detail => simp [hendpoint] at h
  | secured e =>
    cases hclaims : r.claims jwt with
    | error exn => simp [hendpoint, hclaims] at h
    | ok claims => cases e <;> simp [hendpoint, hclaims, Secured.call] at h

/-- A request issues nothing, or logs in. -/
theorem issued_cases (w : World) (jwt : Jwt) (g : Gateway) (r : HttpRequest) :
    (g.http w jwt r).2.issued = g.issued ∨ ∃ claims token, g.LogsIn w jwt r claims token ∧
      (g.http w jwt r).2.issued = g.issued ++ [⟨token, claims, g.db.users⟩] := by
  rcases hd : r.dispatch jwt with e | claims | c
  · exact .inl (by simp [http, hd])
  · exact .inl (by simp [http, hd])
  rcases hr : ((r.on c).run w g.db).1 with e | response
  · exact .inl (by simp [http, hd, hr])
  cases response with
  | token claims =>
    obtain ⟨password, rfl, hu⟩ := login_of_token hr
    exact .inr ⟨claims, _, ⟨⟨password, dispatch_login hd, hu⟩, by simp [http, hd, hr], rfl⟩, by simp [http, hd, hr]⟩
  | _ => exact .inl (by simp [http, hd, hr])

/-- Every token issued is the answer to a login on the way. -/
theorem login_of_issued (hg : Reachable w jwt g) {i : Issue} (hi : i ∈ g.issued) :
    ∃ g₀ login, Reachable w jwt g₀ ∧ g₀.LogsIn w jwt login i.claims i.token ∧
      Relation.ReflTransGen (Step w jwt) (g₀.http w jwt login).2 g := by
  induction hg with
  | refl => cases hi
  | @tail g₁ g₂ hreach hs ih =>
    have hearlier : i ∈ g₁.issued → ∃ g₀ login, Reachable w jwt g₀ ∧ g₀.LogsIn w jwt login i.claims i.token ∧
        Relation.ReflTransGen (Step w jwt) (g₀.http w jwt login).2 g₂ := fun hi => by
      obtain ⟨g₀, login, hg₀, hlogin, hlater⟩ := ih hi
      exact ⟨g₀, login, hg₀, hlogin, hlater.tail hs⟩
    cases hs with
    | createUser => exact hearlier hi
    | http r _ =>
      rcases issued_cases w jwt g₁ r with hsame | ⟨claims, token, hlogin, hissued⟩
      · exact hearlier (hsame ▸ hi)
      · rw [hissued] at hi
        rcases List.mem_append.1 hi with hi | hi
        · exact hearlier hi
        · obtain rfl := List.mem_singleton.1 hi
          exact ⟨g₁, r, hreach, hlogin, .refl⟩

end Gateway

/-- In every state that requests and `create_user` lead to: the claims of an accepted token are those of an account that
has logged in with its password before, with this token as the answer, and less than the lifetime of a token ago. -/
theorem session_origin {w : World} {jwt : Jwt} (hjwt : jwt.Lawful) (hexpires : jwt.Expires) {g : Gateway}
    (hg : Gateway.Reachable w jwt g) {r : HttpRequest} (hr : g.Unforged jwt r) {claims : TokenClaims}
    (h : r.claims jwt = .ok claims) :
    ∃ (g₀ : Gateway) (login : HttpRequest) (token : Str), Gateway.Reachable w jwt g₀ ∧
      g₀.LogsIn w jwt login claims token ∧ Relation.ReflTransGen (Gateway.Step w jwt) (g₀.http w jwt login).2 g ∧
      r.credentials = some token ∧ r.now.instant < login.now.instant + seconds (60 * jwt.expireMinutes) := by
  obtain ⟨i, hi, hcredentials, rfl, -⟩ := Gateway.claims_issued hjwt (Gateway.genuine_of_reachable hg) hr h
  obtain ⟨g₀, login, hg₀, hlogin, hlater⟩ := Gateway.login_of_issued hg hi
  refine ⟨g₀, login, i.token, hg₀, hlogin, hlater, hcredentials, ?_⟩
  have hdecodes : (jwt.decode i.token r.now.instant).isSome := by
    unfold HttpRequest.claims at h
    rw [hcredentials] at h
    cases hd : jwt.decode i.token r.now.instant with
    | none => simp [decodeAccessToken, hd] at h
    | some payload => rfl
  rw [hlogin.token] at hdecodes
  exact hexpires _ _ hdecodes

theorem Jwt.sample_expires : Jwt.sample.Expires := by
  intro payload t h
  by_cases hp : payload = ⟨⟨str "a", .admin, str "A"⟩, 0, seconds 3600⟩
  · by_cases ht : t < seconds 3600
    · rwa [hp]
    · simp [Jwt.sample, hp, ht] at h
  · have hne : ([] : Str) ≠ str "t" := by decide
    simp [Jwt.sample, hp, hne] at h

/-- The token of the account, half an hour after its login. -/
theorem session_origin_oneAccount : ∃ (g₀ : Gateway) (login : HttpRequest) (token : Str),
    Gateway.Reachable World.sample Jwt.sample g₀ ∧
      g₀.LogsIn World.sample Jwt.sample login ⟨str "a", .admin, str "A"⟩ token ∧
      seconds 1800 < login.now.instant + seconds 3600 := by
  have hreach : Gateway.Reachable World.sample Jwt.sample
      (Gateway.oneAccount.http World.sample Jwt.sample (.oneLogin (str "p"))).2 :=
    Gateway.reachable_oneAccount.tail (.http _ _ fun _ h => by cases h)
  have hunforged : (Gateway.oneAccount.http World.sample Jwt.sample (.oneLogin (str "p"))).2.Unforged Jwt.sample
      { endpoint := .secured .me, credentials := some (str "t"), now := ⟨seconds 1800, some 0⟩, nature := fun _ => {} } := by
    rintro token ⟨⟩ _
    exact ⟨⟨str "t", _, _⟩, List.mem_singleton.2 rfl, rfl⟩
  have hclaims : HttpRequest.claims Jwt.sample
      { endpoint := .secured .me, credentials := some (str "t"), now := ⟨seconds 1800, some 0⟩, nature := fun _ => {} } =
        .ok ⟨str "a", .admin, str "A"⟩ := rfl
  obtain ⟨g₀, login, token, hg₀, hlogin, -, -, htime⟩ :=
    session_origin Jwt.sample_lawful Jwt.sample_expires hreach hunforged hclaims
  exact ⟨g₀, login, token, hg₀, hlogin, htime⟩

end LogMgmt
