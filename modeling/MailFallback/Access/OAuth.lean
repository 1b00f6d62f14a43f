import MailFallback.Access.Semantics
import MailFallback.Library.Transition
import MailFallback.Sync.Actors

/-! # Signing an account in with Google or Microsoft

A start writes the account and a fresh state into the browser's session, the provider sends the
browser back to the callback. The session is a signed cookie: a browser can present any that it
was ever sent, and nothing of a session is kept on the server. -/

namespace MailFallback.OAuth

open Storage Transition Access

inductive Provider where
  | google | microsoft
  deriving DecidableEq, Repr

structure Session where
  userId : Option Id := none
  oauthAccountId : Option Id := none
  oauthState : Option String := none
  deriving DecidableEq, Repr

/-- The answer of a token endpoint, as far as it is read. -/
structure Token where
  accessToken : Option String
  refreshToken : Option String := none
  tokenType : Option String := none
  deriving DecidableEq, Repr

/-- What is stored for an account, encrypted. -/
structure TokenData where
  accessToken : String
  refreshToken : String
  tokenType : String
  provider : Option String
  deriving DecidableEq, Repr

/-- `none` is the `KeyError` of a token without `access_token`. -/
def Token.data (token : Token) (provider : Provider) : Option TokenData :=
  token.accessToken.map fun accessToken =>
    { accessToken := accessToken
      refreshToken := token.refreshToken.getD ""
      tokenType := token.tokenType.getD "Bearer"
      provider := if provider = .microsoft then some "microsoft" else none }

/-- `encrypt_credentials` of the JSON under the server's key, with the bytes it draws. -/
abbrev Encrypt := String → TokenData → String

structure Tables extends Db where
  /-- The accounts that rows point to which a deletion does not take along. -/
  referenced : List Id := []

inductive Reply where
  | provider (provider : Provider) (state : String)
  /-- A redirect to the account's page. -/
  | account (status : ℕ) (accountId : Id)
  /-- A redirect to `/accounts/new?oauth_failed=true` with these, quoted. -/
  | newAccount (reason email name : String)
  | home
  | error (e : HttpError)
  /-- An exception that nobody catches; no cookie goes out with it. -/
  | serverError
  deriving DecidableEq, Repr

/-! ## The routes -/

/-- The account if the session's user may sign it in. -/
def verifyOauthAccess (t : Tables) (session : Session) (accountId : Id) :
    Except HttpError Account :=
  if given session.userId = false then .error ⟨401, "Not authenticated"⟩
  else
    let userId := session.userId.getD ""
    match (t.users.get? userId).filter fun user => user.enabled with
    | none => .error ⟨401, "Not authenticated"⟩
    | some user =>
        match t.accounts.get? accountId with
        | none => .error ⟨404, "Account not found"⟩
        | some account =>
            if user.role ≠ .admin ∧ userId ∉ account.owners then
              .error ⟨403, "Not authorized for this account"⟩
            else .ok account

/-- `google_oauth_start`, `microsoft_oauth_start`: the session that goes back with the reply. -/
def oauthStart (t : Tables) (session : Session) (provider : Provider) (accountId : Id)
    (nonce : String) : Reply × Session :=
  match verifyOauthAccess t session accountId with
  | .error e => (.error e, session)
  | .ok _ => (.provider provider nonce,
      { session with oauthAccountId := some accountId, oauthState := some nonce })

/-- The sync jobs go with their account, other rows keep it from being deleted. -/
def Tables.deleteAccount (t : Tables) (accountId : Id) : Tables :=
  { t with
    accounts := t.accounts.filter fun k _ => k ≠ accountId
    syncJobs := t.syncJobs.filter fun _ job => job.accountId ≠ accountId }

def oauthFailureRedirect (t : Tables) (session : Session) (accountId : Option Id) (reason : String)
    (deleteStub : Bool) : Reply × Tables :=
  if given accountId = false then (.home, t)
  else
    let accountId := accountId.getD ""
    let userId := session.userId.getD ""
    let user := if given session.userId = true then t.users.get? userId else none
    match t.accounts.get? accountId, user with
    | some account, some user =>
        if deleteStub = true ∧ given account.credentials = false ∧
            (user.role = .admin ∨ userId ∈ account.owners) then
          if accountId ∈ t.referenced then (.serverError, t)
          else (.newAccount reason account.emailAddress account.name, t.deleteAccount accountId)
        else (.account 303 accountId, t)
    | _, _ => (.account 303 accountId, t)

/-- A callback that waits for the token endpoint, with its session after the two `pop`s. -/
structure Waiting where
  browser : ℕ
  provider : Provider
  session : Session
  accountId : Option Id
  state : String
  deriving DecidableEq, Repr

/-- The callbacks up to the exchange of the code, which nothing is done before but refuse. -/
def oauthCallback (t : Tables) (browser : ℕ) (session : Session) (provider : Provider)
    (code error state : Option String) : Reply × Tables ⊕ Waiting :=
  let accountId := session.oauthAccountId
  let expectedState := session.oauthState
  let session := { session with oauthAccountId := none, oauthState := none }
  if given state = false ∨ given expectedState = false ∨ state ≠ expectedState then
    .inl (oauthFailureRedirect t session accountId "invalid_state" false)
  else if given error = true ∨ given code = false then
    .inl (oauthFailureRedirect t session accountId
      (if given error = true then error.getD "" else "denied") true)
  else .inr ⟨browser, provider, session, accountId, state.getD ""⟩

/-- The condition of `_resume_after_reauth`. -/
def needsResume (account : Account) : Bool :=
  decide (account.syncState = .needsReauth) ||
    (decide (account.syncState = .error) &&
      decide (account.lastError = some tokenRefreshFailedText))

def resumeAfterReauth (db : Db) (accountId : Id) (account : Account) (jobId : Id) (now : Time) :
    Db :=
  if needsResume account = true then
    let db := setAccount accountId afterReauth db
    (createSyncJob accountId jobId now db).getD db
  else db

def signedIn (credentials : String) (account : Account) : Account :=
  { account with credentials := some credentials, authType := .oauth2 }

/-- The rest of a callback; no token means that the exchange has raised. -/
def oauthExchanged (encrypt : Encrypt) (t : Tables) (w : Waiting) (token : Option Token)
    (drawn : String) (jobId : Id) (now : Time) : Reply × Tables :=
  match token with
  | none => oauthFailureRedirect t w.session w.accountId "token_exchange" true
  | some token =>
      if given w.accountId = false then (.error ⟨400, "No account in session"⟩, t)
      else
        let accountId := w.accountId.getD ""
        match verifyOauthAccess t w.session accountId with
        | .error e => (.error e, t)
        | .ok account =>
            match token.data w.provider with
            | none => (.serverError, t)
            | some data =>
                let db := setAccount accountId (signedIn (encrypt drawn data)) t.toDb
                (.account 307 accountId,
                  { t with toDb := resumeAfterReauth db accountId account jobId now })

/-! ## Browsers and the server -/

/-- A start, with what the tables held at the time. -/
structure Started where
  browser : ℕ
  accountId : Id
  state : String
  session : Session
  tables : Tables

structure System where
  tables : Tables
  /-- The cookies that each browser was sent, the latest first. -/
  cookies : List (ℕ × Session) := []
  started : List Started := []
  waiting : List Waiting := []
  /-- The states whose callbacks have stored credentials. -/
  stored : List String := []

inductive Request where
  | start (provider : Provider) (accountId : Id) (nonce : String)
  | callback (provider : Provider) (code error state : Option String)
  /-- `/api/auth/login` and the OIDC callback, once they let the user in. -/
  | login (userId : Id)
  | logout
  deriving DecidableEq, Repr

inductive Event where
  | request (browser : ℕ) (session : Session) (request : Request)
  /-- The token endpoint has answered the callback at this place. -/
  | exchanged (i : ℕ) (token : Option Token) (drawn : String) (jobId : Id) (now : Time)
  /-- Anything else the server does to its tables. -/
  | elsewhere (tables : Tables)

/-- The cookie goes out with every reply that is one. -/
def System.respond (s : System) (browser : ℕ) (session : Session) (reply : Reply) : System :=
  if reply = .serverError then s else { s with cookies := (browser, session) :: s.cookies }

def System.handle (s : System) (browser : ℕ) (session : Session) : Request → Option System
  | .start provider accountId nonce =>
      if nonce = "" ∨ nonce ∈ s.started.map Started.state then none
      else
        let result := oauthStart s.tables session provider accountId nonce
        let s := s.respond browser result.2 result.1
        some (if result.1 = .provider provider nonce then
          { s with started := ⟨browser, accountId, nonce, session, s.tables⟩ :: s.started } else s)
  | .callback provider code error state =>
      match oauthCallback s.tables browser session provider code error state with
      | .inl result =>
          some ({ s with tables := result.2 }.respond browser
            { session with oauthAccountId := none, oauthState := none } result.1)
      | .inr w => some { s with waiting := s.waiting ++ [w] }
  | .login userId => some (s.respond browser { session with userId := some userId } .home)
  | .logout => some (s.respond browser {} .home)

/-- A browser has no cookie, or one that it was sent. -/
def System.next (encrypt : Encrypt) (s : System) : Event → Option System
  | .request browser session request =>
      if session = {} ∨ (browser, session) ∈ s.cookies then s.handle browser session request
      else none
  | .exchanged i token drawn jobId now =>
      match s.waiting[i]? with
      | none => none
      | some w =>
          if (s.tables.syncJobs.get? jobId).isSome = true then none
          else
            let result := oauthExchanged encrypt s.tables w token drawn jobId now
            let s := { s with tables := result.2, waiting := s.waiting.eraseIdx i }
            let s := s.respond w.browser w.session result.1
            some (if result.1 = .account 307 (w.accountId.getD "") then
              { s with stored := w.state :: s.stored } else s)
  | .elsewhere tables => some { s with tables := tables }

def System.boot (tables : Tables) : System := { tables := tables }

/-! ## What a route does -/

section Routes

variable {encrypt : Encrypt} {t t' : Tables} {session : Session} {accountId : Id}
  {account : Account}

/-- The session's user is there and an admin or an owner. -/
structure MayAct (t : Tables) (session : Session) (user : User) (account : Account) : Prop where
  known : given session.userId = true
  found : t.users.get? (session.userId.getD "") = some user
  right : user.role = .admin ∨ session.userId.getD "" ∈ account.owners

theorem mayAct_of_verify (h : verifyOauthAccess t session accountId = .ok account) :
    t.accounts.get? accountId = some account ∧
      ∃ user, MayAct t session user account ∧ user.enabled = true := by
  unfold verifyOauthAccess at h
  by_cases hknown : given session.userId = false
  · rw [if_pos hknown] at h
    cases h
  · rw [if_neg hknown] at h
    dsimp only at h
    cases huser : (t.users.get? (session.userId.getD "")).filter fun user => user.enabled with
    | none =>
        rw [huser] at h
        cases h
    | some user =>
        rw [huser] at h
        obtain ⟨hfound, henabled⟩ := Option.filter_eq_some_iff.mp huser
        cases hacc : t.accounts.get? accountId with
        | none =>
            rw [hacc] at h
            cases h
        | some account' =>
            rw [hacc] at h
            dsimp only at h
            split at h
            · cases h
            · rename_i hright
              obtain rfl := Except.ok.inj h
              have hright' : user.role = .admin ∨ session.userId.getD "" ∈ account'.owners := by
                by_contra hno
                exact hright (not_or.mp hno)
              exact ⟨rfl, user, ⟨by simpa using hknown, hfound, hright'⟩, henabled⟩

/-- A stub is gone: an account without credentials, and its sync jobs. -/
structure Deleted (t t' : Tables) (session : Session) (accountId : Id) : Prop where
  stub : ∃ account user, t.accounts.get? accountId = some account ∧
    given account.credentials = false ∧ MayAct t session user account
  free : accountId ∉ t.referenced
  accounts : ∀ k, t'.accounts.get? k = if k = accountId then none else t.accounts.get? k
  jobs : ∀ k, t'.syncJobs.get? k =
    (t.syncJobs.get? k).filter fun job => job.accountId ≠ accountId
  users : t'.users = t.users

theorem oauthFailureRedirect_keeps (reason : String) (id : Option Id) :
    (oauthFailureRedirect t session id reason false).2 = t := by
  unfold oauthFailureRedirect
  split
  · rfl
  · dsimp only
    split
    · rw [if_neg (by simp)]
    · rfl

theorem oauthFailureRedirect_cases (reason : String) (deleteStub : Bool) (id : Option Id) :
    (oauthFailureRedirect t session id reason deleteStub).2 = t ∨
      Deleted t (oauthFailureRedirect t session id reason deleteStub).2 session (id.getD "") := by
  unfold oauthFailureRedirect
  split
  · exact .inl rfl
  · dsimp only
    split
    · rename_i account user hacc huser
      split
      · rename_i hstub
        split
        · exact .inl rfl
        · rename_i hfree
          have hknown : given session.userId = true := by
            by_contra hno
            rw [if_neg hno] at huser
            cases huser
          rw [if_pos hknown] at huser
          have hact : MayAct t session user account := ⟨hknown, huser, hstub.2.2⟩
          refine .inr ⟨⟨account, user, hacc, hstub.2.1, hact⟩, hfree, ?_, ?_, rfl⟩
          · intro k
            rw [show ((t.deleteAccount (id.getD "")).accounts) =
              t.accounts.filter fun k _ => k ≠ id.getD "" from rfl, Table.get?_filter]
            by_cases hk : k = id.getD ""
            · rw [if_pos hk]
              simp [hk]
            · rw [if_neg hk]
              cases t.accounts.get? k <;> simp [hk]
          · exact fun k => Table.get?_filter ..
      · exact .inl rfl
    · exact .inl rfl

/-- No failure looks like a success. -/
theorem oauthFailureRedirect_ne (reason : String) (deleteStub : Bool) (id : Option Id) (k : Id) :
    (oauthFailureRedirect t session id reason deleteStub).1 ≠ .account 307 k := by
  unfold oauthFailureRedirect
  split
  · simp
  · dsimp only
    split
    · split
      · split
        · simp
        · simp
      · simp
    · simp

/-- The account has new credentials, and a sync if it had stopped for the lack of them. -/
structure Connected (encrypt : Encrypt) (t t' : Tables) (session : Session) (accountId : Id)
    (account : Account) : Prop where
  found : t.accounts.get? accountId = some account
  actor : ∃ user, MayAct t session user account ∧ user.enabled = true
  accounts : ∃ (token : Token) (provider : Provider) (data : TokenData) (drawn : String),
    token.data provider = some data ∧ ∀ k, t'.accounts.get? k =
      if k = accountId then some (afterReauth (signedIn (encrypt drawn data) account))
      else t.accounts.get? k
  users : t'.users = t.users
  /-- No job is lost or changed. -/
  jobs : ∀ k job, t.syncJobs.get? k = some job → t'.syncJobs.get? k = some job
  left : needsResume account = false → t'.syncJobs = t.syncJobs
  resumed : needsResume account = true → hasOpenJob t'.toDb accountId = true

theorem afterReauth_eq (account : Account) : afterReauth account =
    if needsResume account = true then { account with syncState := .idle, lastError := none }
    else account := by
  unfold afterReauth needsResume
  simp only [Bool.or_eq_true, decide_eq_true_eq, Bool.and_eq_true]

theorem createSyncJob_getD (db : Db) {jobId : Id} (hfree : db.syncJobs.get? jobId = none)
    (now : Time) (accountId : Id) :
    ((createSyncJob accountId jobId now db).getD db).accounts = db.accounts ∧
      ((createSyncJob accountId jobId now db).getD db).users = db.users ∧
      (∀ k job, db.syncJobs.get? k = some job →
        ((createSyncJob accountId jobId now db).getD db).syncJobs.get? k = some job) ∧
      hasOpenJob ((createSyncJob accountId jobId now db).getD db) accountId = true := by
  unfold createSyncJob
  by_cases hopen : hasOpenJob db accountId = true
  · rw [if_pos hopen]
    exact ⟨rfl, rfl, fun _ _ h => h, hopen⟩
  · rw [if_neg hopen, insertJob, dif_pos hfree]
    refine ⟨rfl, rfl, ?_, ?_⟩
    · intro k job hjob
      have hk : k ≠ jobId := by
        rintro rfl
        rw [hfree] at hjob
        cases hjob
      simp only [Option.getD_some, Table.get?_add, if_neg hk]
      exact hjob
    · simp [hasOpenJob, Table.add, newJob, JobStatus.isOpen]

theorem connected_of_signedIn {w : Waiting} {token : Token} {data : TokenData} {jobId : Id}
    (drawn : String) (now : Time) (hfree : t.syncJobs.get? jobId = none)
    (hverify : verifyOauthAccess t w.session accountId = .ok account)
    (hdata : token.data w.provider = some data) :
    Connected encrypt t
      { t with
        toDb := resumeAfterReauth (setAccount accountId (signedIn (encrypt drawn data)) t.toDb)
          accountId account jobId now }
      w.session accountId account := by
  obtain ⟨hfound, hactor⟩ := mayAct_of_verify hverify
  have hsigned : needsResume (signedIn (encrypt drawn data) account) = needsResume account := rfl
  unfold resumeAfterReauth
  by_cases hneeds : needsResume account = true
  · rw [if_pos hneeds]
    obtain ⟨haccounts, husers, hjobs, hopen⟩ := createSyncJob_getD (setAccount accountId afterReauth
      (setAccount accountId (signedIn (encrypt drawn data)) t.toDb)) hfree now accountId
    refine ⟨hfound, hactor, ⟨token, w.provider, data, drawn, hdata, ?_⟩, husers, hjobs, ?_,
      fun _ => hopen⟩
    · intro k
      rw [haccounts, setAccount, setAccount, Table.get?_modify, Table.get?_modify]
      by_cases hk : k = accountId
      · simp [hk, hfound]
      · simp [hk]
    · exact fun h => absurd hneeds (by simp [h])
  · rw [if_neg hneeds]
    refine ⟨hfound, hactor, ⟨token, w.provider, data, drawn, hdata, ?_⟩, rfl, fun _ _ h => h,
      fun _ => rfl, fun h => absurd h hneeds⟩
    intro k
    rw [setAccount, Table.get?_modify, afterReauth_eq, hsigned, if_neg hneeds]
    by_cases hk : k = accountId
    · simp [hk, hfound]
    · simp [hk]

variable (encrypt) in
theorem oauthExchanged_cases (w : Waiting) {jobId : Id} (token : Option Token) (drawn : String)
    (now : Time) (hfree : t.syncJobs.get? jobId = none) :
    ((oauthExchanged encrypt t w token drawn jobId now).1 ≠ .account 307 (w.accountId.getD "") ∧
      ((oauthExchanged encrypt t w token drawn jobId now).2 = t ∨
        Deleted t (oauthExchanged encrypt t w token drawn jobId now).2 w.session
          (w.accountId.getD ""))) ∨
    ((oauthExchanged encrypt t w token drawn jobId now).1 = .account 307 (w.accountId.getD "") ∧
      ∃ account, Connected encrypt t (oauthExchanged encrypt t w token drawn jobId now).2 w.session
        (w.accountId.getD "") account) := by
  unfold oauthExchanged
  cases token with
  | none => exact .inl ⟨oauthFailureRedirect_ne _ _ _ _, oauthFailureRedirect_cases ..⟩
  | some token =>
      dsimp only
      split
      · exact .inl ⟨by simp, .inl rfl⟩
      · cases hverify : verifyOauthAccess t w.session (w.accountId.getD "") with
        | error e => exact .inl ⟨by simp, .inl rfl⟩
        | ok account =>
            cases hdata : token.data w.provider with
            | none => exact .inl ⟨by simp, .inl rfl⟩
            | some data =>
                exact .inr ⟨rfl, account, connected_of_signedIn drawn now hfree hverify hdata⟩

variable (t session) in
/-- What is refused changes nothing, what waits has the state of its session. -/
theorem oauthCallback_cases (browser : ℕ) (provider : Provider) (code error state : Option String) :
    (∃ result : Reply × Tables,
      oauthCallback t browser session provider code error state = .inl result ∧
      (result.2 = t ∨ (∃ value, state = some value ∧ session.oauthState = some value) ∧
        Deleted t result.2 { session with oauthAccountId := none, oauthState := none }
          (session.oauthAccountId.getD ""))) ∨
    session.oauthState = some (state.getD "") ∧
      oauthCallback t browser session provider code error state = .inr ⟨browser, provider,
        { session with oauthAccountId := none, oauthState := none }, session.oauthAccountId,
        state.getD ""⟩ := by
  unfold oauthCallback
  dsimp only
  split
  · exact .inl ⟨_, rfl, .inl (oauthFailureRedirect_keeps ..)⟩
  · rename_i hvalid
    push Not at hvalid
    obtain ⟨hgiven, _, hsame⟩ := hvalid
    cases state with
    | none => exact absurd rfl hgiven
    | some value =>
        split
        · exact .inl ⟨_, rfl, (oauthFailureRedirect_cases ..).imp_right fun h =>
            ⟨⟨value, rfl, hsame.symm⟩, h⟩⟩
        · exact .inr ⟨hsame.symm, rfl⟩

end Routes

/-! ## What the browsers hold -/

def Started.Is (start : Started) (browser : ℕ) (accountId : Option Id) (state : String) : Prop :=
  start.browser = browser ∧ some start.accountId = accountId ∧ start.state = state

/-- A state in a cookie is one that a start has put there, for this browser and this account. -/
structure Tracked (s : System) : Prop where
  cookies : ∀ c ∈ s.cookies, ∀ state, c.2.oauthState = some state →
    ∃ start ∈ s.started, start.Is c.1 c.2.oauthAccountId state
  waiting : ∀ w ∈ s.waiting, w.session.oauthState = none ∧
    ∃ start ∈ s.started, start.Is w.browser w.accountId w.state
  states : (s.started.map Started.state).Nodup
  granted : ∀ start ∈ s.started, ∃ account,
    verifyOauthAccess start.tables start.session start.accountId = .ok account

section Runs

variable {encrypt : Encrypt} {s s' : System} {e : Event} {browser : ℕ} {session : Session}
  {reply : Reply}

@[simp] theorem respond_tables : (s.respond browser session reply).tables = s.tables := by
  unfold System.respond
  split <;> rfl

@[simp] theorem respond_started : (s.respond browser session reply).started = s.started := by
  unfold System.respond
  split <;> rfl

@[simp] theorem respond_waiting : (s.respond browser session reply).waiting = s.waiting := by
  unfold System.respond
  split <;> rfl

@[simp] theorem respond_stored : (s.respond browser session reply).stored = s.stored := by
  unfold System.respond
  split <;> rfl

theorem mem_respond {c : ℕ × Session} (h : c ∈ (s.respond browser session reply).cookies) :
    c = (browser, session) ∨ c ∈ s.cookies := by
  unfold System.respond at h
  split at h
  · exact .inr h
  · exact List.mem_cons.mp h

/-- The state of the session that a request presents. -/
theorem Tracked.presented (h : Tracked s) (hsession : session = {} ∨ (browser, session) ∈ s.cookies)
    {state : String} (hstate : session.oauthState = some state) :
    ∃ start ∈ s.started, start.Is browser session.oauthAccountId state := by
  obtain rfl | hmem := hsession
  · cases hstate
  · exact h.cookies _ hmem _ hstate

theorem Tracked.respond (h : Tracked s) (hsession : ∀ state, session.oauthState = some state →
    ∃ start ∈ s.started, start.Is browser session.oauthAccountId state) :
    Tracked (s.respond browser session reply) := by
  refine ⟨?_, by simpa using h.waiting, by simpa using h.states, by simpa using h.granted⟩
  intro c hc
  rw [respond_started]
  obtain rfl | hmem := mem_respond hc
  · exact hsession
  · exact h.cookies c hmem

theorem Tracked.start (h : Tracked s) {provider : Provider} {accountId : Id} {nonce : String}
    (hsession : session = {} ∨ (browser, session) ∈ s.cookies)
    (hnext : s.handle browser session (.start provider accountId nonce) = some s') :
    Tracked s' := by
  simp only [System.handle] at hnext
  obtain ⟨hnonce, hnext⟩ := Option.ite_none_left_eq_some.mp hnext
  obtain rfl := Option.some.inj hnext
  unfold oauthStart
  cases hverify : verifyOauthAccess s.tables session accountId with
  | error e =>
      rw [if_neg (by simp)]
      exact h.respond fun _ => h.presented hsession
  | ok account =>
      rw [if_pos rfl]
      have hgrow : ∀ {b id state}, (∃ start ∈ s.started, start.Is b id state) → ∃ start ∈
          (⟨browser, accountId, nonce, session, s.tables⟩ :: s.started : List Started),
            start.Is b id state := fun ⟨start, hmem, his⟩ => ⟨start, .tail _ hmem, his⟩
      refine ⟨?_, ?_, ?_, ?_⟩
      · intro c hc state hstate
        obtain rfl | hmem := mem_respond hc
        · exact ⟨_, .head _, rfl, rfl, Option.some.inj hstate⟩
        · exact hgrow (h.cookies c hmem state hstate)
      · intro w hw
        rw [respond_waiting] at hw
        exact ⟨(h.waiting w hw).1, hgrow (h.waiting w hw).2⟩
      · exact List.nodup_cons.mpr ⟨(not_or.mp hnonce).2, h.states⟩
      · intro start hstart
        obtain rfl | hmem := List.mem_cons.mp hstart
        · exact ⟨account, hverify⟩
        · exact h.granted start hmem

theorem Tracked.handle (h : Tracked s) {request : Request}
    (hsession : session = {} ∨ (browser, session) ∈ s.cookies)
    (hnext : s.handle browser session request = some s') : Tracked s' := by
  cases request with
  | start provider accountId nonce => exact h.start hsession hnext
  | callback provider code error state =>
      simp only [System.handle] at hnext
      obtain ⟨result, hresult, _⟩ | ⟨hstate, hwaiting⟩ := oauthCallback_cases s.tables
        session browser provider code error state
      · rw [hresult] at hnext
        obtain rfl := Option.some.inj hnext
        exact Tracked.respond ⟨h.cookies, h.waiting, h.states, h.granted⟩ nofun
      · rw [hwaiting] at hnext
        obtain rfl := Option.some.inj hnext
        refine ⟨h.cookies, ?_, h.states, h.granted⟩
        intro w hw
        obtain hw | hw := List.mem_append.mp hw
        · exact h.waiting w hw
        · obtain rfl := List.mem_singleton.mp hw
          exact ⟨rfl, h.presented hsession hstate⟩
  | login userId =>
      obtain rfl := Option.some.inj hnext
      exact h.respond fun _ => h.presented hsession
  | logout =>
      obtain rfl := Option.some.inj hnext
      exact h.respond nofun

theorem Tracked.next (h : Tracked s) (hnext : System.next encrypt s e = some s') : Tracked s' := by
  cases e with
  | request browser session request =>
      obtain ⟨hsession, hnext⟩ := Option.ite_none_right_eq_some.mp hnext
      exact h.handle hsession hnext
  | exchanged i token drawn jobId now =>
      simp only [System.next] at hnext
      cases hw : s.waiting[i]? with
      | none =>
          rw [hw] at hnext
          cases hnext
      | some w =>
          rw [hw] at hnext
          obtain ⟨_, hnext⟩ := Option.ite_none_left_eq_some.mp hnext
          obtain rfl := Option.some.inj hnext
          have hnone := (h.waiting w (List.mem_of_getElem? hw)).1
          have hafter : ∀ tables reply, Tracked (System.respond
              { s with tables := tables, waiting := s.waiting.eraseIdx i } w.browser w.session
              reply) :=
            fun tables reply => Tracked.respond ⟨h.cookies,
              fun w' hw' => h.waiting w' (List.mem_of_mem_eraseIdx hw'), h.states, h.granted⟩
              fun state hstate => by
                rw [hnone] at hstate
                cases hstate
          split
          · obtain ⟨hcookies, hwaiting, hstates, hgranted⟩ := hafter _ _
            exact ⟨hcookies, hwaiting, hstates, hgranted⟩
          · exact hafter ..
  | elsewhere tables =>
      obtain rfl := Option.some.inj hnext
      exact ⟨h.cookies, h.waiting, h.states, h.granted⟩

theorem tracked_boot (t : Tables) : Tracked (.boot t) := ⟨nofun, nofun, .nil, nofun⟩

/-! ## Who changes an account -/

/-- The event ends a callback of the browser, which came with this session and this state. -/
inductive Ends (s : System) : Event → ℕ → Session → String → Prop where
  | refused {browser session provider code error state} :
      Ends s (.request browser session (.callback provider code error (some state))) browser
        { session with oauthAccountId := none, oauthState := none } state
  | exchanged {i w token drawn jobId now} : s.waiting[i]? = some w →
      Ends s (.exchanged i token drawn jobId now) w.browser w.session w.state

/-- The one start that has given out the state: to this browser, for an account that its user
could sign in. -/
structure Answered (s : System) (browser : ℕ) (state : String) (start : Started) : Prop where
  mem : start ∈ s.started
  same : start.browser = browser
  named : start.state = state
  only : ∀ other ∈ s.started, other.state = state → other = start
  granted : ∃ account,
    verifyOauthAccess start.tables start.session start.accountId = .ok account

theorem Tracked.answered (h : Tracked s) {id : Option Id} {state : String} {start : Started}
    (hmem : start ∈ s.started) (his : start.Is browser id state) :
    Answered s browser state start ∧ id.getD "" = start.accountId := by
  obtain ⟨hbrowser, hid, hstate⟩ := his
  refine ⟨⟨hmem, hbrowser, hstate, ?_, h.granted start hmem⟩, by rw [← hid, Option.getD_some]⟩
  intro other hother hsame
  exact List.inj_on_of_nodup_map h.states hother hmem (hsame.trans hstate.symm)

/-- Whatever the browsers send and in whatever order the server works it off: if a request of
theirs changes the tables, then it ends a callback, and its state is one that a start has given
to the same browser. The account of this start loses its row if it never had credentials, or gets
new ones; the user of the callback is an admin or an owner in both cases. -/
theorem oauth_changes {t : Tables}
    (hrun : Reaches (System.next encrypt) (fun _ _ => True) (.boot t) s)
    (hnext : System.next encrypt s e = some s') (he : ∀ tables, e ≠ .elsewhere tables) :
    s'.tables = s.tables ∨ ∃ browser session state start, Ends s e browser session state ∧
      Answered s browser state start ∧
      (Deleted s.tables s'.tables session start.accountId ∨
        ∃ account, Connected encrypt s.tables s'.tables session start.accountId account) := by
  have h : Tracked s := hrun.invariant (tracked_boot t) fun _ _ _ h _ hnext => h.next hnext
  cases e with
  | request browser session request =>
      obtain ⟨hsession, hnext⟩ := Option.ite_none_right_eq_some.mp hnext
      cases request with
      | start provider accountId nonce =>
          simp only [System.handle] at hnext
          obtain ⟨_, hnext⟩ := Option.ite_none_left_eq_some.mp hnext
          obtain rfl := Option.some.inj hnext
          left
          split <;> simp
      | callback provider code error state =>
          simp only [System.handle] at hnext
          obtain ⟨result, hresult, hcase⟩ | ⟨_, hwaiting⟩ := oauthCallback_cases s.tables
            session browser provider code error state
          · rw [hresult] at hnext
            obtain rfl := Option.some.inj hnext
            rw [respond_tables]
            refine hcase.imp_right fun ⟨⟨value, hvalue, hstate⟩, hdeleted⟩ => ?_
            obtain rfl := hvalue
            obtain ⟨start, hmem, his⟩ := h.presented hsession hstate
            obtain ⟨hanswered, hid⟩ := h.answered hmem his
            exact ⟨_, _, _, start, .refused, hanswered, .inl (hid ▸ hdeleted)⟩
          · rw [hwaiting] at hnext
            obtain rfl := Option.some.inj hnext
            exact .inl rfl
      | login userId =>
          obtain rfl := Option.some.inj hnext
          exact .inl respond_tables
      | logout =>
          obtain rfl := Option.some.inj hnext
          exact .inl respond_tables
  | exchanged i token drawn jobId now =>
      simp only [System.next] at hnext
      cases hw : s.waiting[i]? with
      | none =>
          rw [hw] at hnext
          cases hnext
      | some w =>
          rw [hw] at hnext
          obtain ⟨hfree, hnext⟩ := Option.ite_none_left_eq_some.mp hnext
          obtain rfl := Option.some.inj hnext
          obtain ⟨start, hmem, his⟩ := (h.waiting w (List.mem_of_getElem? hw)).2
          obtain ⟨hanswered, hid⟩ := h.answered hmem his
          have htables : ∀ (c : Prop) [Decidable c] (s₁ : System) (stored : List String),
              (if c then { s₁ with stored := stored } else s₁).tables = s₁.tables := by
            intro c _ s₁ stored
            split <;> rfl
          rw [htables, respond_tables]
          obtain ⟨_, hkept | hdeleted⟩ | ⟨_, hconnected⟩ := oauthExchanged_cases encrypt w
            token drawn now (Option.not_isSome_iff_eq_none.mp hfree)
          · exact .inl hkept
          · exact .inr ⟨_, _, _, start, .exchanged hw, hanswered, .inl (hid ▸ hdeleted)⟩
          · exact .inr ⟨_, _, _, start, .exchanged hw, hanswered, .inr (hid ▸ hconnected)⟩
  | elsewhere tables => exact absurd rfl (he tables)

/-! ## One request at a time -/

def System.latest (s : System) (browser : ℕ) : Session :=
  ((s.cookies.find? fun c => c.1 = browser).map Prod.snd).getD {}

/-- A browser sends its latest cookie, and nothing before it has the reply to its last callback. -/
def Orderly (s : System) : Event → Prop
  | .request browser session _ =>
      session = s.latest browser ∧ browser ∉ s.waiting.map Waiting.browser
  | _ => True

structure Single (s : System) : Prop extends Tracked s where
  stored : s.stored.Nodup
  given : ∀ state ∈ s.stored, ∃ start ∈ s.started, start.state = state
  pending : ∀ w ∈ s.waiting, w.state ∉ s.stored
  one : (s.waiting.map Waiting.browser).Nodup
  current : ∀ browser state, (s.latest browser).oauthState = some state → state ∉ s.stored

theorem latest_mem (s : System) (browser : ℕ) :
    s.latest browser = {} ∨ (browser, s.latest browser) ∈ s.cookies := by
  unfold System.latest
  cases h : s.cookies.find? fun c => c.1 = browser with
  | none => exact .inl rfl
  | some c =>
      have hbrowser : c.1 = browser := by simpa using List.find?_some h
      exact .inr (hbrowser ▸ List.mem_of_find?_eq_some h)

variable (s browser session reply) in
theorem latest_respond (b : ℕ) : (s.respond browser session reply).latest b = s.latest b ∨
    b = browser ∧ (s.respond browser session reply).latest b = session := by
  unfold System.respond
  split
  · exact .inl rfl
  · by_cases hb : b = browser
    · exact .inr ⟨hb, by simp [System.latest, hb]⟩
    · exact .inl (by simp [System.latest, Ne.symm hb])

theorem latest_respond_self (h : reply ≠ .serverError) :
    (s.respond browser session reply).latest browser = session := by
  simp [System.respond, h, System.latest]

theorem Single.respond (h : Single s) (htracked : Tracked (s.respond browser session reply))
    (hsession : ∀ state, session.oauthState = some state → state ∉ s.stored) :
    Single (s.respond browser session reply) := by
  refine ⟨htracked, by simpa using h.stored, by simpa using h.given, by simpa using h.pending,
    by simpa using h.one, ?_⟩
  intro b state hstate
  rw [respond_stored]
  obtain hlatest | ⟨_, hlatest⟩ := latest_respond s browser session reply b
  · exact h.current b state (hlatest ▸ hstate)
  · exact hsession state (hlatest ▸ hstate)

theorem Single.handle (h : Single s) {request : Request}
    (horder : Orderly s (.request browser session request)) (htracked : Tracked s')
    (hnext : s.handle browser session request = some s') : Single s' := by
  obtain ⟨hlatest, hidle⟩ := horder
  have hpresented : ∀ state, session.oauthState = some state → state ∉ s.stored :=
    fun state hstate => h.current browser state (hlatest ▸ hstate)
  cases request with
  | start provider accountId nonce =>
      simp only [System.handle] at hnext
      obtain ⟨hnonce, hnext⟩ := Option.ite_none_left_eq_some.mp hnext
      have hfresh : nonce ∉ s.stored := by
        intro hmem
        obtain ⟨start, hstart, hstate⟩ := h.given nonce hmem
        exact (not_or.mp hnonce).2 (hstate ▸ List.mem_map_of_mem hstart)
      obtain rfl := Option.some.inj hnext
      revert htracked
      unfold oauthStart
      cases hverify : verifyOauthAccess s.tables session accountId with
      | error e =>
          rw [if_neg (by simp)]
          exact fun htracked => h.respond htracked hpresented
      | ok account =>
          rw [if_pos rfl]
          intro htracked
          refine ⟨htracked, by simpa using h.stored, ?_, by simpa using h.pending,
            by simpa using h.one, ?_⟩
          · intro state hstate
            rw [respond_stored] at hstate
            obtain ⟨start, hstart, hsame⟩ := h.given state hstate
            exact ⟨start, .tail _ hstart, hsame⟩
          · intro b state hstate
            rw [respond_stored]
            obtain hsame | ⟨_, hsame⟩ := latest_respond s browser
              { session with oauthAccountId := some accountId, oauthState := some nonce }
              (.provider provider nonce) b
            · exact h.current b state (hsame ▸ hstate)
            · obtain rfl : nonce = state := by
                have hstate' := (congrArg Session.oauthState hsame).symm.trans hstate
                exact Option.some.inj hstate'
              exact hfresh
  | callback provider code error state =>
      simp only [System.handle] at hnext
      obtain ⟨result, hresult, _⟩ | ⟨hstate, hwaiting⟩ := oauthCallback_cases s.tables
        session browser provider code error state
      · rw [hresult] at hnext
        obtain rfl := Option.some.inj hnext
        exact Single.respond ⟨⟨h.cookies, h.waiting, h.states, h.granted⟩, h.stored, h.given,
          h.pending, h.one, h.current⟩ htracked nofun
      · rw [hwaiting] at hnext
        obtain rfl := Option.some.inj hnext
        refine ⟨htracked, h.stored, h.given, ?_, ?_, h.current⟩
        · intro w hw
          obtain hw | hw := List.mem_append.mp hw
          · exact h.pending w hw
          · obtain rfl := List.mem_singleton.mp hw
            exact hpresented _ hstate
        · rw [List.map_append, List.nodup_append]
          refine ⟨h.one, List.nodup_singleton _, ?_⟩
          intro b hb b' hb'
          obtain rfl := List.mem_singleton.mp hb'
          exact fun hsame => hidle (hsame ▸ hb)
  | login userId =>
      obtain rfl := Option.some.inj hnext
      exact h.respond htracked hpresented
  | logout =>
      obtain rfl := Option.some.inj hnext
      exact h.respond htracked nofun

/-- A state has one browser. -/
theorem Tracked.browser_eq (h : Tracked s) {start start' : Started} {b b' : ℕ} {id id' : Option Id}
    {state : String} (hmem : start ∈ s.started) (hmem' : start' ∈ s.started)
    (his : start.Is b id state) (his' : start'.Is b' id' state) : b = b' := by
  have hsame := List.inj_on_of_nodup_map h.states hmem hmem' (his.2.2.trans his'.2.2.symm)
  rw [← his.1, ← his'.1, hsame]

theorem Single.next (h : Single s) (horder : Orderly s e)
    (hnext : System.next encrypt s e = some s') : Single s' := by
  have htracked : Tracked s' := h.toTracked.next hnext
  cases e with
  | request browser session request =>
      exact h.handle horder htracked (Option.ite_none_right_eq_some.mp hnext).2
  | exchanged i token drawn jobId now =>
      simp only [System.next] at hnext
      cases hw : s.waiting[i]? with
      | none =>
          rw [hw] at hnext
          cases hnext
      | some w =>
          rw [hw] at hnext
          obtain ⟨_, hnext⟩ := Option.ite_none_left_eq_some.mp hnext
          obtain rfl := Option.some.inj hnext
          obtain ⟨hnone, start, hmem, his⟩ := h.waiting w (List.mem_of_getElem? hw)
          generalize oauthExchanged encrypt s.tables w token drawn jobId now = result at htracked ⊢
          have hone : ((s.waiting.eraseIdx i).map Waiting.browser).Nodup :=
            ((List.eraseIdx_sublist ..).map _).nodup h.one
          split at htracked
          · rename_i hreply
            rw [if_pos hreply]
            refine ⟨htracked, ?_, ?_, ?_, by simpa using hone, ?_⟩
            · rw [respond_stored]
              exact List.nodup_cons.mpr ⟨h.pending w (List.mem_of_getElem? hw), h.stored⟩
            · intro state hstate
              rw [respond_stored] at hstate
              rw [respond_started]
              obtain rfl | hold := List.mem_cons.mp hstate
              · exact ⟨start, hmem, his.2.2⟩
              · exact h.given state hold
            · intro w' hw' hstate
              rw [respond_waiting] at hw'
              rw [respond_stored] at hstate
              obtain ⟨j, hj, hget⟩ := List.mem_eraseIdx_iff_getElem?.mp hw'
              have hw'mem := List.mem_of_getElem? hget
              obtain hsame | hold := List.mem_cons.mp hstate
              · obtain ⟨start', hmem', his'⟩ := (h.waiting w' hw'mem).2
                have hbrowser := h.browser_eq hmem' hmem (hsame ▸ his') his
                have hlength : j < (s.waiting.map Waiting.browser).length := by
                  rw [List.length_map]
                  exact (List.getElem?_eq_some_iff.mp hget).1
                exact hj ((List.getElem?_inj hlength h.one).mp (by simp [hget, hw, hbrowser]))
              · exact h.pending w' hw'mem hold
            · intro b state hstate hmem'
              rw [respond_stored] at hmem'
              have hsent : result.1 ≠ .serverError := by
                rw [hreply]
                nofun
              change (System.latest (System.respond { s with
                tables := result.2, waiting := s.waiting.eraseIdx i } w.browser w.session result.1)
                b).oauthState = some state at hstate
              by_cases hb : b = w.browser
              · rw [hb, latest_respond_self hsent, hnone] at hstate
                cases hstate
              · obtain hlatest | ⟨hb', _⟩ := latest_respond { s with
                  tables := result.2, waiting := s.waiting.eraseIdx i } w.browser w.session
                  result.1 b
                · rw [hlatest] at hstate
                  obtain hsame | hold := List.mem_cons.mp hmem'
                  · obtain ⟨start', hmem'', his'⟩ := h.presented (latest_mem s b) hstate
                    exact hb (h.browser_eq hmem'' hmem (hsame ▸ his') his)
                  · exact h.current b state hstate hold
                · exact hb hb'
          · rename_i hreply
            rw [if_neg hreply]
            have hold : ∀ w' ∈ s.waiting.eraseIdx i, w' ∈ s.waiting :=
              fun w' hw' => List.mem_of_mem_eraseIdx hw'
            exact Single.respond ⟨⟨h.cookies, fun w' hw' => h.waiting w' (hold w' hw'), h.states,
              h.granted⟩, h.stored, h.given, fun w' hw' => h.pending w' (hold w' hw'), hone,
              h.current⟩ htracked fun state hstate => by
                rw [hnone] at hstate
                cases hstate
  | elsewhere tables =>
      obtain rfl := Option.some.inj hnext
      exact ⟨htracked, h.stored, h.given, h.pending, h.one, h.current⟩

/-- Where every browser keeps to one request at a time and to its latest cookie, each start leads
to credentials at most once. -/
theorem stored_once {t : Tables} (hrun : Reaches (System.next encrypt) Orderly (.boot t) s) :
    s.stored.Nodup ∧ ∀ state ∈ s.stored, ∃ start ∈ s.started, start.state = state := by
  have h : Single s := hrun.invariant ⟨tracked_boot t, .nil, nofun, nofun, .nil, nofun⟩
    fun _ _ _ h horder hnext => h.next horder hnext
  exact ⟨h.stored, h.given⟩

end Runs

/-! ## A sign-in -/

def signInAccount : Account :=
  { maildirPath := "/m/a1", storeId := "st1", owners := ["u1"], syncState := .needsReauth }

def signInTables : Tables :=
  { users := ⟨[("u1", { username := "ann", storeId := "st1" })], by decide⟩
    accounts := ⟨[("a1", signInAccount)], by decide⟩ }

/-- The browser has logged in and been to the provider. -/
def signInSession : Session := ⟨some "u1", some "a1", some "n1"⟩

def signInEvents : List Event :=
  [.request 0 {} (.login "u1"), .request 0 ⟨some "u1", none, none⟩ (.start .google "a1" "n1"),
    .request 0 signInSession (.callback .google (some "code") none (some "n1"))]

def signInAnswer : Event := .exchanged 0 (some ⟨some "token", none, none⟩) "iv" "j1" 0

def sealed : Encrypt := fun drawn data => drawn ++ data.accessToken

def orderlyCheck (s : System) : Event → Bool
  | .request browser session _ =>
      decide (session = s.latest browser) && !(s.waiting.map Waiting.browser).contains browser
  | _ => true

theorem orderly_of_check (s : System) (e : Event) (h : orderlyCheck s e = true) : Orderly s e := by
  cases e with
  | request browser session request => simpa [orderlyCheck, Orderly] using h
  | _ => trivial

theorem stored_once_signIn : ∃ s, Reaches (System.next sealed) Orderly (.boot signInTables) s ∧
    decide (s.stored = ["n1"]) = true ∧ s.stored.Nodup := by
  have hrun : ((signInEvents ++ [signInAnswer]).foldlM (guarded orderlyCheck (System.next sealed))
      (.boot signInTables)).any (fun s => decide (s.stored = ["n1"])) = true := by decide +kernel
  obtain ⟨s, hs, hstored⟩ := Reaches.of_any hrun orderly_of_check
  exact ⟨s, hs, hstored, (stored_once hs).1⟩

def movesAccount (s : System) : Bool :=
  (System.next sealed s signInAnswer).any fun s' =>
    decide (s'.tables.accounts.get? "a1" ≠ s.tables.accounts.get? "a1")

theorem oauth_changes_signIn : ∃ s s', System.next sealed s signInAnswer = some s' ∧
    ∃ browser session state start, Ends s signInAnswer browser session state ∧
      Answered s browser state start ∧
      (Deleted s.tables s'.tables session start.accountId ∨
        ∃ account, Connected sealed s.tables s'.tables session start.accountId account) := by
  have hrun : (signInEvents.foldlM (guarded (fun _ _ => true) (System.next sealed))
      (.boot signInTables)).any movesAccount = true := by decide +kernel
  obtain ⟨s, hs, hmoves⟩ := Reaches.of_any hrun fun _ _ _ => trivial
  obtain ⟨s', hnext, hmoved⟩ := (Option.any_eq_true ..).mp hmoves
  refine ⟨s, s', hnext, ?_⟩
  obtain hsame | hchange := oauth_changes hs hnext nofun
  · exact absurd (by rw [hsame]) (of_decide_eq_true hmoved)
  · exact hchange

end MailFallback.OAuth
