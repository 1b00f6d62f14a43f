import MailFallback.Access.Semantics
import MailFallback.Tokens.Verification

/-! # The three surfaces of an access token

The same string is a password for IMAP, a bearer token for the HTTP API and one for the MCP
server. Each surface has its own code around `verify_credential`. -/

namespace MailFallback.Tokens

open Storage Transition PyString
open Access (HttpError)

section Surfaces

variable (keyed : Keyed)

/-- `str.lower`, of which only the ASCII letters can give the word it is compared with. -/
def lower (s : String) : String := String.ofList (s.toList.map Char.toLower)

/-! ## The HTTP API -/

structure Principal where
  userId : Id
  user : User
  /-- None for a session. -/
  credential : Option Id
  scopes : List String
  deriving DecidableEq, Repr

def getCurrentUser (db : TokenDb) (sessionUserId : Option Id) : Except HttpError (Id × User) :=
  if given sessionUserId = false then .error ⟨401, "Not authenticated"⟩
  else
    let userId := sessionUserId.getD ""
    match db.users.get? userId with
    | none => .error ⟨401, "User not found"⟩
    | some user =>
        if user.enabled = false then .error ⟨403, "Account disabled"⟩ else .ok (userId, user)

/-- The credential and its user as the session has loaded them. -/
def tokenPrincipal (db : TokenDb) (credentialId : Option Id) : Option Principal := do
  let id ← credentialId
  let cred ← db.credentials.get? id
  let user ← db.users.get? cred.userId
  return ⟨cred.userId, user, some id, cred.scopeSet⟩

/-- The header names the bearer scheme, with or without a token. -/
def isBearer (header : String) : Bool := decide (lower (partition header ' ').1 = "bearer")

def getCurrentPrincipal (db : TokenDb) (authorization : String) (sessionUserId : Option Id)
    (now : Time) : Except HttpError Principal × TokenDb :=
  if isBearer authorization = true then
    let token := strip (partition authorization ' ').2
    let verified := verifyCredential keyed db none token none "api" now
    match verified.1.1, tokenPrincipal db verified.1.2 with
    | .ok, some principal => (.ok principal, verified.2)
    | _, _ => (.error ⟨401, "Invalid access token"⟩, verified.2)
  else
    match getCurrentUser db sessionUserId with
    | .error e => (.error e, db)
    | .ok (userId, user) => (.ok ⟨userId, user, none, validScopes⟩, db)

/-- The dependency that `require_scope` makes. -/
def requireScope (scope : String) (principal : Except HttpError Principal) :
    Except HttpError Principal :=
  match principal with
  | .error e => .error e
  | .ok principal =>
      if scope ∈ principal.scopes then .ok principal
      else .error ⟨403, "Access token lacks the " ++ scope ++ " scope"⟩

/-! ## The MCP server -/

structure AccessToken where
  token : String
  clientId : String
  scopes : List String
  subject : Id
  deriving DecidableEq, Repr

/-- `MfbTokenVerifier._verify_sync` -/
def verifyToken (db : TokenDb) (token : String) (now : Time) : Option AccessToken × TokenDb :=
  let verified := verifyCredential keyed db none token none "mcp" now
  match verified.1.1, tokenPrincipal db verified.1.2 with
  | .ok, some principal =>
      (some ⟨token, principal.user.username, sortedSet principal.scopes, principal.userId⟩,
        verified.2)
  | _, _ => (none, verified.2)

/-- `_require_scope`: the user, or the text of a `PermissionError`. -/
def mcpRequireScope (scope : String) (access : AccessToken) : Except String Id :=
  if scope ∈ access.scopes then .ok access.subject
  else .error ("This access token lacks the " ++ scope ++ " scope")

/-! ## One token, one answer -/

variable {keyed} {db : TokenDb} {username : Option String} {token kind : String} {now : Time}

/-- A verification that succeeds names the credential whose prefix it has found. -/
theorem verifyCredential_id {requiredScope : Option String} {p secret : String} {id : Id}
    {cred : AppCredential} (hsplit : splitToken token = some (p, secret))
    (hlookup : db.byPrefix p = some (id, cred))
    (h : (verifyCredential keyed db username token requiredScope kind now).1.1 = .ok) :
    (verifyCredential keyed db username token requiredScope kind now).1.2 = some id := by
  unfold verifyCredential at h ⊢
  rw [hsplit] at h ⊢
  dsimp only at h ⊢
  rw [hlookup] at h ⊢
  dsimp only at h ⊢
  cases huser : db.users.get? cred.userId with
  | none =>
      rw [huser] at h
      cases h
  | some user =>
      rw [huser] at h
      dsimp only at h ⊢
      split at h
      · cases h
      · rename_i h₁
        split at h
        · cases h
        · rename_i h₂
          split at h
          · cases h
          · rename_i h₃
            split at h
            · cases h
            · rename_i h₄
              split at h
              · cases h
              · rename_i h₅
                rw [if_neg h₁, if_neg h₂, if_neg h₃, if_neg h₄, if_neg h₅]

/-- Whom a token stands for, and what it may ask for, whatever surface it is shown to. -/
structure Bears (keyed : Keyed) (db : TokenDb) (token : String) (now : Time)
    (principal : Principal) : Prop where
  verified : ∀ kind, (verifyCredential keyed db none token none kind now).1.1 = .ok
  named : ∀ kind,
    tokenPrincipal db (verifyCredential keyed db none token none kind now).1.2 = some principal
  allowed : ∀ username scope kind,
    (verifyCredential keyed db username token (some scope) kind now).1.1 = .ok ↔
      (∀ name, username = some name → principal.user.username = name) ∧ scope ∈ principal.scopes

theorem bears_of_ok (h : (verifyCredential keyed db none token none kind now).1.1 = .ok) :
    ∃ principal, Bears keyed db token now principal := by
  obtain ⟨p, secret, id, cred, hsplit, hlookup, hgood⟩ := verifyCredential_ok.mp h
  obtain ⟨user, huser, henabled, hmigrating, _⟩ := hgood.owner
  have hget := (TokenDb.byPrefix_eq_some.mp hlookup).1
  have hok : ∀ kind, (verifyCredential keyed db none token none kind now).1.1 = .ok := fun kind =>
    verifyCredential_ok.mpr ⟨p, secret, id, cred, hsplit, hlookup, hgood⟩
  refine ⟨⟨cred.userId, user, some id, cred.scopeSet⟩, hok, ?_, ?_⟩
  · intro kind
    rw [verifyCredential_id hsplit hlookup (hok kind)]
    simp [tokenPrincipal, hget, huser]
  · intro username scope kind
    rw [verifyCredential_ok]
    constructor
    · rintro ⟨p', secret', id', cred', hsplit', hlookup', hgood'⟩
      obtain ⟨rfl, rfl⟩ := Prod.mk.inj (Option.some.inj (hsplit.symm.trans hsplit'))
      obtain ⟨rfl, rfl⟩ := Prod.mk.inj (Option.some.inj (hlookup.symm.trans hlookup'))
      obtain ⟨user', huser', _, _, hname⟩ := hgood'.owner
      obtain rfl := Option.some.inj (huser.symm.trans huser')
      exact ⟨hname, hgood'.scope scope rfl⟩
    · rintro ⟨hname, hscope⟩
      refine ⟨p, secret, id, cred, hsplit, hlookup, ⟨user, huser, henabled, hmigrating, hname⟩,
        hgood.active, ?_, hgood.hash⟩
      rintro _ ⟨rfl⟩
      exact hscope

/-- What is accepted for a user and a scope is accepted. -/
theorem verifyCredential_weaken {scope : String}
    (h : (verifyCredential keyed db username token (some scope) kind now).1.1 = .ok) :
    (verifyCredential keyed db none token none kind now).1.1 = .ok := by
  obtain ⟨p, secret, id, cred, hsplit, hlookup, hgood⟩ := verifyCredential_ok.mp h
  obtain ⟨user, huser, henabled, hmigrating, _⟩ := hgood.owner
  exact verifyCredential_ok.mpr ⟨p, secret, id, cred, hsplit, hlookup,
    ⟨user, huser, henabled, hmigrating, nofun⟩, hgood.active, nofun, hgood.hash⟩

theorem Bears.unique {principal principal' : Principal} (h : Bears keyed db token now principal)
    (h' : Bears keyed db token now principal') : principal = principal' :=
  Option.some.inj ((h.named "api").symm.trans (h'.named "api"))

theorem getCurrentPrincipal_bearer {authorization : String}
    (hbearer : isBearer authorization = true) (session : Option Id) (principal : Principal) :
    (getCurrentPrincipal keyed db authorization session now).1 = .ok principal ↔
      Bears keyed db (strip (partition authorization ' ').2) now principal := by
  unfold getCurrentPrincipal
  rw [if_pos hbearer]
  constructor
  · intro h
    dsimp only at h
    split at h
    · rename_i principal' hok hnamed
      obtain rfl := Except.ok.inj h
      obtain ⟨p, hp⟩ := bears_of_ok hok
      obtain rfl := Option.some.inj ((hp.named "api").symm.trans hnamed)
      exact hp
    · cases h
  · intro h
    dsimp only
    rw [h.verified "api", h.named "api"]

theorem verifyToken_eq_some (access : AccessToken) :
    (verifyToken keyed db token now).1 = some access ↔ ∃ principal,
      Bears keyed db token now principal ∧ access = ⟨token, principal.user.username,
        sortedSet principal.scopes, principal.userId⟩ := by
  unfold verifyToken
  constructor
  · intro h
    dsimp only at h
    split at h
    · rename_i principal hok hnamed
      obtain rfl := Option.some.inj h
      obtain ⟨p, hp⟩ := bears_of_ok hok
      obtain rfl := Option.some.inj ((hp.named "mcp").symm.trans hnamed)
      exact ⟨p, hp, rfl⟩
    · cases h
  · rintro ⟨principal, h, rfl⟩
    dsimp only
    rw [h.verified "mcp", h.named "mcp"]

theorem passdbVerify_ok {username password : String} {protocol : Option String} :
    (passdbVerify keyed db username password protocol now).1 = 200 ↔ ∃ principal,
      Bears keyed db password now principal ∧ principal.user.username = username ∧
        scopeImap ∈ principal.scopes := by
  have hstatus : (passdbVerify keyed db username password protocol now).1 = 200 ↔
      (verifyCredential keyed db (some username) password (some scopeImap)
        (if given protocol = true then protocol.getD "" else "imap") now).1.1 = .ok := by
    unfold passdbVerify
    dsimp only
    split <;> rename_i h <;> simp [h]
  rw [hstatus]
  constructor
  · intro h
    obtain ⟨principal, hbears⟩ := bears_of_ok (verifyCredential_weaken h)
    obtain ⟨hname, hscope⟩ := (hbears.allowed _ _ _).mp h
    exact ⟨principal, hbears, hname username rfl, hscope⟩
  · rintro ⟨principal, hbears, hname, hscope⟩
    refine (hbears.allowed _ _ _).mpr ⟨?_, hscope⟩
    rintro _ ⟨rfl⟩
    exact hname

/-- The header of a client that sends the token as it is. -/
def bearerHeader (token : String) : String := "Bearer " ++ token

theorem partition_bearerHeader (token : String) :
    partition (bearerHeader token) ' ' = ("Bearer", token) := by
  have hheader : (bearerHeader token).toList =
      ['B', 'e', 'a', 'r', 'e', 'r'] ++ ' ' :: token.toList := by
    simp [bearerHeader]
  have hplain : ∀ c ∈ ['B', 'e', 'a', 'r', 'e', 'r'], decide (c ≠ ' ') = true := by simp
  rw [partition, hheader, List.takeWhile_append_of_pos hplain, List.dropWhile_append_of_pos hplain]
  simp

theorem isBearer_bearerHeader (token : String) : isBearer (bearerHeader token) = true := by
  rw [isBearer, partition_bearerHeader]
  exact decide_eq_true (by decide +kernel : lower "Bearer" = "bearer")

theorem requireScope_eq_ok {scope : String} {r : Except HttpError Principal}
    {principal : Principal} :
    requireScope scope r = .ok principal ↔ r = .ok principal ∧ scope ∈ principal.scopes := by
  unfold requireScope
  cases r with
  | error e => simp
  | ok principal' =>
      dsimp only
      split
      · rename_i hscope
        constructor
        · rintro ⟨rfl⟩
          exact ⟨rfl, hscope⟩
        · exact fun h => h.1
      · rename_i hscope
        constructor
        · exact nofun
        · rintro ⟨⟨rfl⟩, h⟩
          exact absurd h hscope

theorem mcpRequireScope_eq_ok {scope : String} {access : AccessToken} {userId : Id} :
    mcpRequireScope scope access = .ok userId ↔
      scope ∈ access.scopes ∧ access.subject = userId := by
  unfold mcpRequireScope
  split
  · rename_i hscope
    simp [hscope]
  · rename_i hscope
    simp [hscope]

end Surfaces

theorem hashToken_sampleKeyed {a b : String}
    (h : sampleKeyed.hashToken a = sampleKeyed.hashToken b) : a = b := by
  have hlist := congrArg String.toList h
  simp only [Keyed.hashToken, sampleKeyed, String.toList_append,
    List.append_cancel_left_eq] at hlist
  exact String.toList_injective hlist

def sampleToken : String := tokenOf sampleFresh.tokenPrefix sampleFresh.secret

end MailFallback.Tokens
