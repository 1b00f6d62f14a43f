import MailFallback.Library.PyString
import MailFallback.Library.Transition
import MailFallback.Tables
import Mathlib.Data.List.Dedup
import Mathlib.Data.List.Sort

/-! # Access tokens

`app_credential_service`: the creation, the revocation and the verification of access tokens.
Each service call is one transaction. -/

namespace MailFallback.Tokens

open Storage

structure AppCredential where
  userId : Id
  name : String
  tokenPrefix : String
  secretHash : String
  /-- A plain string with commas by design. -/
  scopes : String
  createdAt : Time
  expiresAt : Option Time := none
  revokedAt : Option Time := none
  lastUsedAt : Option Time := none
  lastUsedKind : Option String := none
  deriving DecidableEq, Repr

structure TokenDb extends Db where
  credentials : Table Id AppCredential := .empty
  prefixes : ∀ i j c d, credentials.get? i = some c → credentials.get? j = some d →
    c.tokenPrefix = d.tokenPrefix → i = j

def AppCredential.scopeSet (cred : AppCredential) : List String :=
  (PyString.splitAt cred.scopes ',').filter fun scope => decide (scope ≠ "")

def AppCredential.active (cred : AppCredential) (now : Time) : Bool :=
  if cred.revokedAt.isSome = true then false
  else
    match cred.expiresAt with
    | none => true
    | some expires => decide (now < expires)

def tokenMarker : String := "mfb_"

def scopeImap : String := "imap"

def validScopes : List String := [scopeImap, "mail:read", "sync:trigger"]

/-- The keyed hash, and the key the settings have for it. -/
structure Keyed where
  hmac : String → String → String
  secretKey : String

def Keyed.hashToken (keyed : Keyed) (secret : String) : String := keyed.hmac keyed.secretKey secret

/-! ## Creation -/

inductive CreateError where
  | value (text : String)
  /-- The moment of expiry is not a date. -/
  | overflow
  /-- The prefix is taken, or the row. -/
  | integrity
  deriving DecidableEq, Repr

/-- `sorted(set(scopes))` -/
def sortedSet (scopes : List String) : List String := scopes.dedup.mergeSort (· ≤ ·)

/-- The text that marks the token. -/
def tokenOf (tokenPrefix secret : String) : String := tokenMarker ++ tokenPrefix ++ "_" ++ secret

/-- `datetime.max`, and `datetime.min` below. -/
def lastMoment : Time := 253402300799999999

def firstMoment : Time := -62135596800000000

/-- `now + timedelta(days=ttl_days) if ttl_days else None` -/
def expiryOf (now : Time) (ttlDays : Option ℤ) : Except CreateError (Option Time) :=
  match ttlDays with
  | none => .ok none
  | some days =>
      if days = 0 then .ok none
      else
        let expires := now + days * 86400000000
        if firstMoment ≤ expires ∧ expires ≤ lastMoment then .ok (some expires)
        else .error .overflow

/-- `secrets.token_hex` gives two digits for a byte. -/
def isTokenHex (bytes : ℕ) (s : String) : Bool :=
  decide (s.toList.length = 2 * bytes) &&
    s.toList.all fun c => ('0' ≤ c && c ≤ '9') || ('a' ≤ c && c ≤ 'f')

/-- What is new in a credential. -/
structure Fresh where
  id : Id
  tokenPrefix : String
  secret : String
  prefixHex : isTokenHex 9 tokenPrefix = true
  secretHex : isTokenHex 32 secret = true

def newCredential (keyed : Keyed) (fresh : Fresh) (userId : Id) (name : String)
    (scopes : List String) (now : Time) (expires : Option Time) : AppCredential where
  userId := userId
  name := name
  tokenPrefix := fresh.tokenPrefix
  secretHash := keyed.hashToken fresh.secret
  scopes := PyString.join ',' (sortedSet scopes)
  createdAt := now
  expiresAt := expires

def TokenDb.insert (db : TokenDb) (id : Id) (cred : AppCredential) : Option TokenDb :=
  if h : db.credentials.get? id = none ∧
      ∀ r ∈ db.credentials.rows, r.2.tokenPrefix ≠ cred.tokenPrefix then
    some { db with
      credentials := db.credentials.add id cred h.1
      prefixes := by
        intro i j c d hi hj hsame
        rw [Table.get?_add] at hi hj
        by_cases hin : i = id
        · by_cases hjn : j = id
          · rw [hin, hjn]
          · rw [if_pos hin] at hi
            rw [if_neg hjn] at hj
            obtain rfl := Option.some.inj hi
            exact absurd hsame.symm (h.2 (j, d) (Table.mem_rows.mpr hj))
        · rw [if_neg hin] at hi
          by_cases hjn : j = id
          · rw [if_pos hjn] at hj
            obtain rfl := Option.some.inj hj
            exact absurd hsame (h.2 (i, c) (Table.mem_rows.mpr hi))
          · rw [if_neg hjn] at hj
            exact db.prefixes i j c d hi hj hsame }
  else none

/-- The credential's row and its token, which is returned this once. -/
def createCredential (keyed : Keyed) (db : TokenDb) (userId : Id) (name : String)
    (scopes : List String) (ttlDays : Option ℤ) (fresh : Fresh) (now : Time) :
    Except CreateError (TokenDb × String) :=
  if scopes = [] then .error (.value "At least one scope is required")
  else
    let unknown := sortedSet (scopes.filter fun scope => decide (scope ∉ validScopes))
    if unknown ≠ [] then
      .error (.value ("Unknown scope(s): " ++ ", ".intercalate unknown))
    else do
      let expires ← expiryOf now ttlDays
      match db.insert fresh.id (newCredential keyed fresh userId name scopes now expires) with
      | none => .error .integrity
      | some db => .ok (db, tokenOf fresh.tokenPrefix fresh.secret)

/-! ## Revocation -/

/-- A change of the rows that leaves their prefixes. -/
def TokenDb.change (db : TokenDb) (id : Id) (f : AppCredential → AppCredential)
    (hf : ∀ cred, (f cred).tokenPrefix = cred.tokenPrefix) : TokenDb :=
  { db with
    credentials := db.credentials.modify id f
    prefixes := by
      have hkeep : ∀ k c, (db.credentials.modify id f).get? k = some c →
          ∃ c₀, db.credentials.get? k = some c₀ ∧ c.tokenPrefix = c₀.tokenPrefix := by
        intro k c hk
        rw [Table.get?_modify] at hk
        by_cases hkid : k = id
        · rw [if_pos hkid, Option.map_eq_some_iff] at hk
          obtain ⟨c₀, hc₀, hc⟩ := hk
          exact ⟨c₀, hkid ▸ hc₀, hc ▸ hf c₀⟩
        · rw [if_neg hkid] at hk
          exact ⟨c, hk, rfl⟩
      intro i j c d hi hj hsame
      obtain ⟨c₀, hi₀, hc⟩ := hkeep i c hi
      obtain ⟨d₀, hj₀, hd⟩ := hkeep j d hj
      exact db.prefixes i j c₀ d₀ hi₀ hj₀ (by rw [← hc, ← hd, hsame]) }

/-- False when the credential is not this user's. -/
def revokeCredential (db : TokenDb) (userId credentialId : Id) (now : Time) : Bool × TokenDb :=
  match (db.credentials.get? credentialId).filter fun cred => decide (cred.userId = userId) with
  | none => (false, db)
  | some cred =>
      if cred.revokedAt = none then
        (true, db.change credentialId (fun cred => { cred with revokedAt := some now }) fun _ => rfl)
      else (true, db)

/-! ## Verification -/

inductive VerifyResult where
  | ok | notAToken | unknown | rejected
  deriving DecidableEq, Repr

/-- `_split` -/
def splitToken (token : String) : Option (String × String) :=
  if token = "" ∨ PyString.startsWith token tokenMarker = false then none
  else
    let parts := PyString.partition (PyString.drop token tokenMarker.length) '_'
    if parts.1 = "" ∨ parts.2 = "" then none else some parts

/-- `db.query(AppCredential).filter(AppCredential.token_prefix == prefix).first()` -/
def TokenDb.byPrefix (db : TokenDb) (tokenPrefix : String) : Option (Id × AppCredential) :=
  db.credentials.rows.find? fun row => row.2.tokenPrefix = tokenPrefix

def used (kind : String) (now : Time) (cred : AppCredential) : AppCredential :=
  { cred with lastUsedAt := some now, lastUsedKind := some kind }

/-- The result with the id of the credential, and the usage recorded on success. `username` is
the identity the caller already has in hand, `requiredScope` may be skipped. -/
def verifyCredential (keyed : Keyed) (db : TokenDb) (username : Option String) (token : String)
    (requiredScope : Option String) (kind : String) (now : Time) :
    (VerifyResult × Option Id) × TokenDb :=
  match splitToken token with
  | none => ((.notAToken, none), db)
  | some (tokenPrefix, secret) =>
      match db.byPrefix tokenPrefix with
      | none => ((.unknown, none), db)
      | some (id, cred) =>
          match db.users.get? cred.userId with
          | none => ((.unknown, none), db)
          | some user =>
              if (username.any fun name => decide (user.username ≠ name)) = true then
                ((.unknown, none), db)
              else if user.enabled = false ∨ user.migrating = true then ((.rejected, none), db)
              else if cred.active now = false then ((.rejected, none), db)
              else if (requiredScope.any fun scope => decide (scope ∉ cred.scopeSet)) = true then
                ((.rejected, none), db)
              else if keyed.hashToken secret ≠ cred.secretHash then ((.rejected, none), db)
              else ((.ok, some id), db.change id (used kind now) fun _ => rfl)

/-- The status the Lua passdb is given: 200 lets the user in, 404 leaves the password to the SQL
passdb, 401 does not. -/
def passdbVerify (keyed : Keyed) (db : TokenDb) (username password : String)
    (protocol : Option String) (now : Time) : ℕ × TokenDb :=
  let kind := if given protocol = true then protocol.getD "" else "imap"
  let (result, db) := verifyCredential keyed db (some username) password (some scopeImap) kind now
  match result.1 with
  | .ok => (200, db)
  | .notAToken | .unknown => (404, db)
  | .rejected => (401, db)

/-! ## Histories -/

/-- What a creation has given out. -/
structure Issued where
  credentialId : Id
  token : String
  scopes : List String
  deriving DecidableEq

structure TokenState where
  db : TokenDb
  clock : Time
  issued : List Issued := []

inductive TokenEvent where
  | create (userId : Id) (name : String) (scopes : List String) (ttlDays : Option ℤ) (fresh : Fresh)
  | revoke (userId credentialId : Id)
  | verify (username : Option String) (token : String) (requiredScope : Option String)
      (kind : String)
  | passdb (username password : String) (protocol : Option String)
  | enable (userId : Id) (enabled : Bool)
  | migrate (userId : Id) (migrating : Bool)
  | pass (time : ℕ)

def TokenDb.setUser (db : TokenDb) (userId : Id) (f : User → User) : TokenDb :=
  { db with users := db.users.modify userId f }

def TokenState.next (keyed : Keyed) (s : TokenState) : TokenEvent → Option TokenState
  | .create userId name scopes ttlDays fresh =>
      if (s.db.users.get? userId).isSome = true then
        match createCredential keyed s.db userId name scopes ttlDays fresh s.clock with
        | .error _ => some s
        | .ok (db, token) =>
            some { s with db := db, issued := ⟨fresh.id, token, scopes⟩ :: s.issued }
      else none
  | .revoke userId credentialId =>
      some { s with db := (revokeCredential s.db userId credentialId s.clock).2 }
  | .verify username token requiredScope kind =>
      some { s with
        db := (verifyCredential keyed s.db username token requiredScope kind s.clock).2 }
  | .passdb username password protocol =>
      some { s with db := (passdbVerify keyed s.db username password protocol s.clock).2 }
  | .enable userId enabled =>
      some { s with db := s.db.setUser userId fun user => { user with enabled := enabled } }
  | .migrate userId migrating =>
      some { s with db := s.db.setUser userId fun user => { user with migrating := migrating } }
  | .pass time => some { s with clock := s.clock + time }

end MailFallback.Tokens
