import MailFallback.Config.Secrets
import MailFallback.Library.Transition
import MailFallback.Tables
import Mathlib.Logic.Relation

/-! # The stored credentials of the accounts

Tokens of the old key are replaced when a task reads them, and the token refresh of a task
writes back what it has read. Between reading and writing anything may happen to the row. -/

namespace MailFallback.Credentials

open Storage Transition Config

section Model

variable (x : Externals) (K : String)

/-- The plaintext, and a replacement for a token of the legacy key; `none` when it raises. -/
def decryptCredentialsWithUpgrade (nonce : ℕ) (encrypted : String) :
    Option (String × Option String) :=
  match x.fernetDecrypt (x.deriveFernetKey K) encrypted with
  | some plaintext => some (plaintext, none)
  | none => (x.fernetDecrypt (x.deriveFernetKeyLegacy K) encrypted).map fun plaintext =>
      (plaintext, some (encryptCredentials x nonce plaintext K))

def isLegacyEncrypted (encrypted : String) : Bool :=
  match x.fernetDecrypt (x.deriveFernetKey K) encrypted with
  | some _ => false
  | none => (x.fernetDecrypt (x.deriveFernetKeyLegacy K) encrypted).isSome

/-- A sync, a restore or a request that uses the credentials of an account. -/
structure Task where
  accountId : Id
  encrypted : String
  /-- It reads with `decrypt_account_credentials`; a restore with `decrypt_credentials`. -/
  heals : Bool
  oauth : Bool
  plaintext : Option String := none
  deriving DecidableEq, Repr

structure Vault where
  accounts : Table Id Account
  tasks : List Task := []
  /-- What was entered for each account, the latest first. -/
  entered : Id → List String

inductive VaultEvent where
  | createAccount (accountId : Id) (account : Account) (credentials : Option String) (nonce : ℕ)
  /-- `update_account`, or a callback of the provider, which makes it an OAuth account. -/
  | enter (accountId : Id) (credentials : String) (oauth : Bool) (nonce : ℕ)
  | deleteAccount (accountId : Id)
  | load (accountId : Id) (heals : Bool)
  | decrypt (i : ℕ) (nonce : ℕ)
  /-- `_refresh_oauth_token`, `_refresh_target_token`, once the provider has answered. -/
  | refresh (i : ℕ) (accessToken : String) (nonce : ℕ)
  | finish (i : ℕ)
  deriving DecidableEq

def store (accounts : Table Id Account) (accountId : Id) (encrypted : String) : Table Id Account :=
  accounts.modify accountId fun account => { account with credentials := some encrypted }

/-- `token_data` with another access token, as JSON; `none` when the text is no JSON or has no
refresh token. -/
abbrev WithToken := (plaintext accessToken : String) → Option String

/-- The decryption of a task, with the replacement if it makes one. -/
def Task.decrypted (task : Task) (nonce : ℕ) : Option (String × Option String) :=
  if task.heals = true then decryptCredentialsWithUpgrade x K nonce task.encrypted
  else (decryptCredentials x task.encrypted K).map fun plaintext => (plaintext, none)

variable (withToken : WithToken)

def Vault.next (s : Vault) : VaultEvent → Option Vault
  | .createAccount accountId account credentials nonce =>
      if h : s.accounts.get? accountId = none then
        if s.entered accountId = [] then
          match credentials.filter fun text => decide (text ≠ "") with
          | none => some { s with
              accounts := s.accounts.add accountId { account with credentials := none } h }
          | some text => some { s with
              accounts := s.accounts.add accountId
                { account with credentials := some (encryptCredentials x nonce text K) } h
              entered := Function.update s.entered accountId [text] }
        else none
      else none
  | .enter accountId credentials oauth nonce =>
      match s.accounts.get? accountId with
      | none => some s
      | some _ => some { s with
          accounts := s.accounts.modify accountId fun account =>
            { account with
              credentials := some (encryptCredentials x nonce credentials K)
              authType := if oauth = true then .oauth2 else account.authType }
          entered := Function.update s.entered accountId (credentials :: s.entered accountId) }
  | .deleteAccount accountId =>
      some { s with accounts := s.accounts.filter fun k _ => k ≠ accountId }
  | .load accountId heals =>
      match s.accounts.get? accountId with
      | none => none
      | some account =>
          if given account.credentials = true then
            some { s with tasks := s.tasks ++ [{
              accountId := accountId
              encrypted := account.credentials.getD ""
              heals := heals
              oauth := decide (account.authType = .oauth2) }] }
          else some s
  | .decrypt i nonce =>
      match s.tasks[i]? with
      | none => none
      | some task =>
          if task.plaintext.isSome = true then none
          else
            match task.decrypted x K nonce with
            | none => some { s with tasks := s.tasks.eraseIdx i }
            | some (plaintext, upgraded) => some { s with
                accounts := upgraded.elim s.accounts (store s.accounts task.accountId)
                tasks := s.tasks.set i { task with plaintext := some plaintext } }
  | .refresh i accessToken nonce =>
      match s.tasks[i]? with
      | none => none
      | some task =>
          if task.oauth = true then
            match task.plaintext.bind fun plaintext => withToken plaintext accessToken with
            | none => some s
            | some text => some { s with
                accounts := store s.accounts task.accountId (encryptCredentials x nonce text K) }
          else none
  | .finish i => if i < s.tasks.length then some { s with tasks := s.tasks.eraseIdx i } else none

/-! ## Where the credentials come from -/

/-- What the refreshes make of a text that was entered. -/
def Descends (p q : String) : Prop :=
  Relation.ReflTransGen (fun p q => ∃ accessToken, withToken p accessToken = some q) p q

/-- The token decrypts to such a text. -/
def Yields (p encrypted : String) : Prop :=
  ∃ q, decryptCredentials x encrypted K = some q ∧ Descends withToken p q

/-- The rows, and the tasks in question, have texts of a kind: which ones of those that were
entered is up to `P`. -/
structure Backed (P : List String → String → Prop) (live : Task → Prop) (s : Vault) : Prop where
  rows : ∀ id account encrypted, s.accounts.get? id = some account →
    account.credentials = some encrypted → encrypted ≠ "" →
      ∃ p, P (s.entered id) p ∧ Yields x K withToken p encrypted
  tasks : ∀ task ∈ s.tasks, live task → ∃ p, P (s.entered task.accountId) p ∧
    Yields x K withToken p task.encrypted
  /-- A task has decrypted what it has loaded. -/
  plain : ∀ task ∈ s.tasks, ∀ plaintext, task.plaintext = some plaintext →
    decryptCredentials x task.encrypted K = some plaintext

/-- The task can still write to its account. -/
def Task.mayWrite (task : Task) : Prop :=
  task.oauth = true ∨
    task.heals = true ∧ task.plaintext = none ∧ isLegacyEncrypted x K task.encrypted = true

/-- Nothing is entered for an account while a task can still write to it. -/
def Undisturbed (s : Vault) : VaultEvent → Prop
  | .enter accountId _ _ _ => ∀ task ∈ s.tasks, task.mayWrite x K → task.accountId ≠ accountId
  | _ => True

/-- Each account starts with what was entered for it last; no task is on the way. -/
structure Vault.Initial (s : Vault) : Prop where
  rows : ∀ id account encrypted, s.accounts.get? id = some account →
    account.credentials = some encrypted → encrypted ≠ "" →
      ∃ p, decryptCredentials x encrypted K = some p ∧ s.entered id = [p]
  idle : s.tasks = []

end Model

section Steps

variable {x : Externals} {K : String} {withToken : WithToken} {s s' t : Vault} {e : VaultEvent}
  {P : List String → String → Prop} {live : Task → Prop}

theorem decryptCredentials_encrypted (hx : x.Correct) (nonce : ℕ) (text : String) :
    decryptCredentials x (encryptCredentials x nonce text K) K = some text := by
  rw [decryptCredentials, encryptCredentials, hx.decrypt_encrypt]

theorem not_isLegacyEncrypted (hx : x.Correct) (nonce : ℕ) (text : String) :
    isLegacyEncrypted x K (encryptCredentials x nonce text K) = false := by
  rw [isLegacyEncrypted, encryptCredentials, hx.decrypt_encrypt]

theorem Yields.encrypted (hx : x.Correct) {p q : String} (nonce : ℕ) (h : Descends withToken p q) :
    Yields x K withToken p (encryptCredentials x nonce q K) :=
  ⟨q, decryptCredentials_encrypted hx nonce q, h⟩

theorem Yields.descends {p encrypted plaintext : String} (h : Yields x K withToken p encrypted)
    (hplain : decryptCredentials x encrypted K = some plaintext) :
    Descends withToken p plaintext := by
  obtain ⟨q, hq, hdescends⟩ := h
  obtain rfl := Option.some.inj (hq.symm.trans hplain)
  exact hdescends

theorem get?_store (accounts : Table Id Account) (accountId k : Id) (encrypted : String) :
    (store accounts accountId encrypted).get? k = if k = accountId then
      (accounts.get? k).map fun account => { account with credentials := some encrypted }
    else accounts.get? k := Table.get?_modify ..

/-- Both ways to decrypt agree, and a replacement is made of legacy tokens only. -/
theorem decrypted_eq_some {task : Task} {nonce : ℕ} {plaintext : String} {upgraded : Option String}
    (h : task.decrypted x K nonce = some (plaintext, upgraded)) :
    decryptCredentials x task.encrypted K = some plaintext ∧ ∀ token, upgraded = some token →
      token = encryptCredentials x nonce plaintext K ∧ task.heals = true ∧
        isLegacyEncrypted x K task.encrypted = true := by
  unfold Task.decrypted at h
  by_cases hheals : task.heals = true
  · rw [if_pos hheals, decryptCredentialsWithUpgrade] at h
    unfold decryptCredentials isLegacyEncrypted
    cases hmodern : x.fernetDecrypt (x.deriveFernetKey K) task.encrypted with
    | some text =>
        rw [hmodern] at h
        cases h
        exact ⟨rfl, nofun⟩
    | none =>
        rw [hmodern] at h
        obtain ⟨text, hlegacy, htext⟩ := Option.map_eq_some_iff.mp h
        cases htext
        refine ⟨hlegacy, ?_⟩
        intro token htoken
        exact ⟨(Option.some.inj htoken).symm, hheals, by simp [hlegacy]⟩
  · rw [if_neg hheals] at h
    obtain ⟨text, htext, heq⟩ := Option.map_eq_some_iff.mp h
    cases heq
    exact ⟨htext, nofun⟩

/-- A task has a text when its account's row has one. -/
theorem Backed.store (h : Backed x K withToken P live s) {accountId : Id} {encrypted : String}
    (hnew : ∃ p, P (s.entered accountId) p ∧ Yields x K withToken p encrypted) :
    Backed x K withToken P live { s with accounts := store s.accounts accountId encrypted } := by
  refine ⟨?_, h.tasks, h.plain⟩
  intro id account token hget htoken hne
  simp only [get?_store] at hget
  by_cases hid : id = accountId
  · subst hid
    rw [if_pos rfl] at hget
    obtain ⟨old, _, rfl⟩ := Option.map_eq_some_iff.mp hget
    obtain rfl := Option.some.inj htoken
    exact hnew
  · rw [if_neg hid] at hget
    exact h.rows id account token hget htoken hne

theorem Backed.eraseIdx (h : Backed x K withToken P live s) (i : ℕ) :
    Backed x K withToken P live { s with tasks := s.tasks.eraseIdx i } :=
  ⟨h.rows, fun task hmem => h.tasks task (List.mem_of_mem_eraseIdx hmem),
    fun task hmem => h.plain task (List.mem_of_mem_eraseIdx hmem)⟩

/-- What the induction needs of the kind of texts and of the tasks in question. -/
structure Fits (x : Externals) (K : String) (P : List String → String → Prop) (live : Task → Prop) :
    Prop where
  head : ∀ p l, P (p :: l) p
  nil : ∀ p, ¬P [] p
  before : ∀ task p, live { task with plaintext := some p } → live task
  writers : ∀ task, task.mayWrite x K → live task

theorem Backed.createAccount (h : Backed x K withToken P live s) (hx : x.Correct)
    (hfits : Fits x K P live) {accountId : Id} {account : Account} {credentials : Option String}
    {nonce : ℕ} (hnext : Vault.next x K withToken s
      (.createAccount accountId account credentials nonce) = some s') :
    Backed x K withToken P live s' := by
  simp only [Vault.next] at hnext
  obtain ⟨hfree, hnext⟩ := Option.dite_none_right_eq_some.mp hnext
  obtain ⟨hunused, hnext⟩ := Option.ite_none_right_eq_some.mp hnext
  cases hcreds : credentials.filter fun text => decide (text ≠ "") with
  | none =>
      rw [hcreds] at hnext
      obtain rfl := Option.some.inj hnext
      refine ⟨?_, h.tasks, h.plain⟩
      intro id a token hget htoken hne
      simp only [Table.get?_add] at hget
      by_cases hid : id = accountId
      · rw [if_pos hid] at hget
        obtain rfl := Option.some.inj hget
        cases htoken
      · rw [if_neg hid] at hget
        exact h.rows id a token hget htoken hne
  | some text =>
      rw [hcreds] at hnext
      obtain rfl := Option.some.inj hnext
      refine ⟨?_, ?_, h.plain⟩
      · intro id a token hget htoken hne
        simp only [Table.get?_add] at hget
        by_cases hid : id = accountId
        · subst hid
          rw [if_pos rfl] at hget
          obtain rfl := Option.some.inj hget
          obtain rfl := Option.some.inj htoken
          refine ⟨text, ?_, .encrypted hx nonce .refl⟩
          dsimp only
          rw [Function.update_self]
          exact hfits.head text []
        · rw [if_neg hid] at hget
          dsimp only
          rw [Function.update_of_ne hid]
          exact h.rows id a token hget htoken hne
      · intro task hmem hlive
        obtain ⟨p, hp, hyields⟩ := h.tasks task hmem hlive
        have hid : task.accountId ≠ accountId := by
          intro hid
          rw [hid, hunused] at hp
          exact hfits.nil p hp
        refine ⟨p, ?_, hyields⟩
        dsimp only
        rw [Function.update_of_ne hid]
        exact hp

theorem Backed.enter (h : Backed x K withToken P live s) (hx : x.Correct)
    (hfits : Fits x K P live) {accountId : Id} {credentials : String} {oauth : Bool} {nonce : ℕ}
    (hkeep : ∀ task ∈ s.tasks, live task → task.accountId = accountId → ∀ p,
      P (s.entered accountId) p → P (credentials :: s.entered accountId) p)
    (hnext : Vault.next x K withToken s (.enter accountId credentials oauth nonce) = some s') :
    Backed x K withToken P live s' := by
  simp only [Vault.next] at hnext
  cases hrow : s.accounts.get? accountId with
  | none =>
      rw [hrow] at hnext
      obtain rfl := Option.some.inj hnext
      exact h
  | some row =>
      rw [hrow] at hnext
      obtain rfl := Option.some.inj hnext
      refine ⟨?_, ?_, h.plain⟩
      · intro id a token hget htoken hne
        simp only [Table.get?_modify] at hget
        by_cases hid : id = accountId
        · subst hid
          rw [if_pos rfl] at hget
          obtain ⟨old, _, rfl⟩ := Option.map_eq_some_iff.mp hget
          obtain rfl := Option.some.inj htoken
          refine ⟨credentials, ?_, .encrypted hx nonce .refl⟩
          dsimp only
          rw [Function.update_self]
          exact hfits.head ..
        · rw [if_neg hid] at hget
          dsimp only
          rw [Function.update_of_ne hid]
          exact h.rows id a token hget htoken hne
      · intro task hmem hlive
        obtain ⟨p, hp, hyields⟩ := h.tasks task hmem hlive
        refine ⟨p, ?_, hyields⟩
        dsimp only
        by_cases hid : task.accountId = accountId
        · rw [hid, Function.update_self]
          exact hkeep task hmem hlive hid p (hid ▸ hp)
        · rw [Function.update_of_ne hid]
          exact hp

theorem Backed.load (h : Backed x K withToken P live s) {accountId : Id} {heals : Bool}
    (hnext : Vault.next x K withToken s (.load accountId heals) = some s') :
    Backed x K withToken P live s' := by
  simp only [Vault.next] at hnext
  cases hrow : s.accounts.get? accountId with
  | none =>
      rw [hrow] at hnext
      cases hnext
  | some account =>
      rw [hrow] at hnext
      dsimp only at hnext
      by_cases hgiven : given account.credentials = true
      · rw [if_pos hgiven] at hnext
        obtain rfl := Option.some.inj hnext
        refine ⟨h.rows, ?_, ?_⟩
        · intro task hmem hlive
          obtain hmem | hmem := List.mem_append.mp hmem
          · exact h.tasks task hmem hlive
          · obtain rfl := List.mem_singleton.mp hmem
            cases htoken : account.credentials with
            | none =>
                rw [htoken] at hgiven
                cases hgiven
            | some token =>
                refine h.rows accountId account token hrow htoken ?_
                rw [htoken] at hgiven
                simpa [given] using hgiven
        · intro task hmem plaintext hplain
          obtain hmem | hmem := List.mem_append.mp hmem
          · exact h.plain task hmem plaintext hplain
          · obtain rfl := List.mem_singleton.mp hmem
            cases hplain
      · rw [if_neg hgiven] at hnext
        obtain rfl := Option.some.inj hnext
        exact h

theorem Backed.decrypt (h : Backed x K withToken P live s) (hx : x.Correct)
    (hfits : Fits x K P live) {i nonce : ℕ}
    (hnext : Vault.next x K withToken s (.decrypt i nonce) = some s') :
    Backed x K withToken P live s' := by
  simp only [Vault.next] at hnext
  cases htask : s.tasks[i]? with
  | none =>
      rw [htask] at hnext
      cases hnext
  | some task =>
      rw [htask] at hnext
      obtain ⟨hfirst, hnext⟩ := Option.ite_none_left_eq_some.mp hnext
      have hmem := List.mem_of_getElem? htask
      cases hdecrypted : task.decrypted x K nonce with
      | none =>
          rw [hdecrypted] at hnext
          obtain rfl := Option.some.inj hnext
          exact h.eraseIdx i
      | some result =>
          obtain ⟨plaintext, upgraded⟩ := result
          rw [hdecrypted] at hnext
          obtain rfl := Option.some.inj hnext
          obtain ⟨hplain, hupgraded⟩ := decrypted_eq_some hdecrypted
          have hset : Backed x K withToken P live
              { s with tasks := s.tasks.set i { task with plaintext := some plaintext } } := by
            refine ⟨h.rows, ?_, ?_⟩
            · intro task' hmem' hlive
              obtain hold | rfl := List.mem_or_eq_of_mem_set hmem'
              · exact h.tasks task' hold hlive
              · exact h.tasks task hmem (hfits.before task plaintext hlive)
            · intro task' hmem' text htext
              obtain hold | rfl := List.mem_or_eq_of_mem_set hmem'
              · exact h.plain task' hold text htext
              · exact Option.some.inj htext ▸ hplain
          cases upgraded with
          | none => exact hset
          | some token =>
              obtain ⟨rfl, hheals, hlegacy⟩ := hupgraded token rfl
              have hlive := hfits.writers task
                (.inr ⟨hheals, Option.not_isSome_iff_eq_none.mp hfirst, hlegacy⟩)
              obtain ⟨p, hp, hyields⟩ := h.tasks task hmem hlive
              exact hset.store ⟨p, hp, .encrypted hx nonce (hyields.descends hplain)⟩

theorem Backed.refresh (h : Backed x K withToken P live s) (hx : x.Correct)
    (hfits : Fits x K P live) {i nonce : ℕ} {accessToken : String}
    (hnext : Vault.next x K withToken s (.refresh i accessToken nonce) = some s') :
    Backed x K withToken P live s' := by
  simp only [Vault.next] at hnext
  cases htask : s.tasks[i]? with
  | none =>
      rw [htask] at hnext
      cases hnext
  | some task =>
      rw [htask] at hnext
      obtain ⟨hoauth, hnext⟩ := Option.ite_none_right_eq_some.mp hnext
      have hmem := List.mem_of_getElem? htask
      cases htext : task.plaintext.bind fun plaintext => withToken plaintext accessToken with
      | none =>
          rw [htext] at hnext
          obtain rfl := Option.some.inj hnext
          exact h
      | some text =>
          rw [htext] at hnext
          obtain rfl := Option.some.inj hnext
          obtain ⟨plaintext, hplain, htoken⟩ := Option.bind_eq_some_iff.mp htext
          obtain ⟨p, hp, hyields⟩ := h.tasks task hmem (hfits.writers task (.inl hoauth))
          have hdescends := hyields.descends (h.plain task hmem plaintext hplain)
          exact h.store ⟨p, hp, .encrypted hx nonce (hdescends.tail ⟨accessToken, htoken⟩)⟩

theorem Backed.next (h : Backed x K withToken P live s) (hx : x.Correct) (hfits : Fits x K P live)
    (hkeep : ∀ accountId credentials oauth nonce, e = .enter accountId credentials oauth nonce →
      ∀ task ∈ s.tasks, live task → task.accountId = accountId → ∀ p,
        P (s.entered accountId) p → P (credentials :: s.entered accountId) p)
    (hnext : Vault.next x K withToken s e = some s') : Backed x K withToken P live s' := by
  cases e with
  | createAccount accountId account credentials nonce => exact h.createAccount hx hfits hnext
  | enter accountId credentials oauth nonce => exact h.enter hx hfits (hkeep _ _ _ _ rfl) hnext
  | deleteAccount accountId =>
      obtain rfl := Option.some.inj hnext
      refine ⟨?_, h.tasks, h.plain⟩
      intro id account token hget
      simp only [Table.get?_filter] at hget
      exact h.rows id account token (Option.filter_eq_some_iff.mp hget).1
  | load accountId heals => exact h.load hnext
  | decrypt i nonce => exact h.decrypt hx hfits hnext
  | refresh i accessToken nonce => exact h.refresh hx hfits hnext
  | finish i =>
      obtain ⟨_, hnext⟩ := Option.ite_none_right_eq_some.mp hnext
      obtain rfl := Option.some.inj hnext
      exact h.eraseIdx i

theorem backed_initial (h : s.Initial x K) (hfits : Fits x K P live) :
    Backed x K withToken P live s := by
  refine ⟨?_, by simp [h.idle], by simp [h.idle]⟩
  intro id account token hget htoken hne
  obtain ⟨p, hp, hentered⟩ := h.rows id account token hget htoken hne
  refine ⟨p, ?_, p, hp, .refl⟩
  rw [hentered]
  exact hfits.head p []

/-! ## Legacy tokens -/

/-- The row of the account holds a token of the legacy key. -/
def Vault.legacy (x : Externals) (K : String) (s : Vault) (id : Id) : Bool :=
  (s.accounts.get? id).any fun account => account.credentials.any (isLegacyEncrypted x K)

theorem legacy_store (hx : x.Correct) (accountId id : Id) (nonce : ℕ) (text : String)
    (h : id ≠ accountId → s.legacy x K id = false) :
    { s with accounts := store s.accounts accountId (encryptCredentials x nonce text K) }.legacy
      x K id = false := by
  unfold Vault.legacy
  rw [get?_store]
  by_cases hid : id = accountId
  · rw [if_pos hid]
    cases s.accounts.get? id with
    | none => rfl
    | some account => simp [not_isLegacyEncrypted hx]
  · rw [if_neg hid]
    exact h hid

/-- Everything that is written is of the modern key. -/
theorem legacy_next (hx : x.Correct) (hnext : Vault.next x K withToken s e = some s') {id : Id}
    (h : s.legacy x K id = false) : s'.legacy x K id = false := by
  cases e with
  | createAccount accountId account credentials nonce =>
      simp only [Vault.next] at hnext
      obtain ⟨hfree, hnext⟩ := Option.dite_none_right_eq_some.mp hnext
      obtain ⟨_, hnext⟩ := Option.ite_none_right_eq_some.mp hnext
      cases hcreds : credentials.filter fun text => decide (text ≠ "") with
      | none =>
          rw [hcreds] at hnext
          obtain rfl := Option.some.inj hnext
          simp only [Vault.legacy, Table.get?_add]
          by_cases hid : id = accountId
          · rw [if_pos hid]
            rfl
          · rw [if_neg hid]
            exact h
      | some text =>
          rw [hcreds] at hnext
          obtain rfl := Option.some.inj hnext
          simp only [Vault.legacy, Table.get?_add]
          by_cases hid : id = accountId
          · rw [if_pos hid]
            simp [not_isLegacyEncrypted hx]
          · rw [if_neg hid]
            exact h
  | enter accountId credentials oauth nonce =>
      simp only [Vault.next] at hnext
      cases hrow : s.accounts.get? accountId with
      | none =>
          rw [hrow] at hnext
          obtain rfl := Option.some.inj hnext
          exact h
      | some row =>
          rw [hrow] at hnext
          obtain rfl := Option.some.inj hnext
          simp only [Vault.legacy, Table.get?_modify]
          by_cases hid : id = accountId
          · rw [if_pos hid, hid, hrow]
            simp [not_isLegacyEncrypted hx]
          · rw [if_neg hid]
            exact h
  | deleteAccount accountId =>
      obtain rfl := Option.some.inj hnext
      simp only [Vault.legacy, Table.get?_filter] at h ⊢
      cases hrow : s.accounts.get? id with
      | none => rfl
      | some account =>
          rw [hrow] at h
          by_cases hid : id = accountId
          · simp [hid]
          · simpa [hid] using h
  | load accountId heals =>
      simp only [Vault.next] at hnext
      cases hrow : s.accounts.get? accountId with
      | none =>
          rw [hrow] at hnext
          cases hnext
      | some account =>
          rw [hrow] at hnext
          dsimp only at hnext
          split at hnext <;> (obtain rfl := Option.some.inj hnext; exact h)
  | decrypt i nonce =>
      simp only [Vault.next] at hnext
      cases htask : s.tasks[i]? with
      | none =>
          rw [htask] at hnext
          cases hnext
      | some task =>
          rw [htask] at hnext
          obtain ⟨_, hnext⟩ := Option.ite_none_left_eq_some.mp hnext
          cases hdecrypted : task.decrypted x K nonce with
          | none =>
              rw [hdecrypted] at hnext
              obtain rfl := Option.some.inj hnext
              exact h
          | some result =>
              obtain ⟨plaintext, upgraded⟩ := result
              rw [hdecrypted] at hnext
              obtain rfl := Option.some.inj hnext
              cases upgraded with
              | none => exact h
              | some token =>
                  obtain ⟨rfl, _⟩ := (decrypted_eq_some hdecrypted).2 token rfl
                  exact legacy_store hx task.accountId id nonce plaintext fun _ => h
  | refresh i accessToken nonce =>
      simp only [Vault.next] at hnext
      cases htask : s.tasks[i]? with
      | none =>
          rw [htask] at hnext
          cases hnext
      | some task =>
          rw [htask] at hnext
          obtain ⟨_, hnext⟩ := Option.ite_none_right_eq_some.mp hnext
          cases htext : task.plaintext.bind fun plaintext => withToken plaintext accessToken with
          | none =>
              rw [htext] at hnext
              obtain rfl := Option.some.inj hnext
              exact h
          | some text =>
              rw [htext] at hnext
              obtain rfl := Option.some.inj hnext
              exact legacy_store hx task.accountId id nonce text fun _ => h
  | finish i =>
      obtain ⟨_, hnext⟩ := Option.ite_none_right_eq_some.mp hnext
      obtain rfl := Option.some.inj hnext
      exact h

/-! ## Runs -/

/-- Whatever is entered, read, refreshed and deleted while other tasks are on their way: the
credentials of an account always decrypt to something that was entered for it or that a refresh
has made of this, no task fails to decrypt what it has read, and a row that is not of the legacy
key never becomes one again. -/
theorem credentials_sourced (hx : x.Correct) (h₀ : s.Initial x K)
    (hrun : Reaches (Vault.next x K withToken) (fun _ _ => True) s t)
    (hlater : Reaches (Vault.next x K withToken) (fun _ _ => True) t s') :
    (∀ id account encrypted, s'.accounts.get? id = some account →
      account.credentials = some encrypted → encrypted ≠ "" →
        ∃ p ∈ s'.entered id, Yields x K withToken p encrypted) ∧
    (∀ task ∈ s'.tasks, ∃ plaintext, decryptCredentials x task.encrypted K = some plaintext) ∧
    ∀ id, t.legacy x K id = false → s'.legacy x K id = false := by
  have hfits : Fits x K (fun l p => p ∈ l) fun _ => True :=
    ⟨fun _ _ => .head _, nofun, fun _ _ _ => trivial, fun _ _ => trivial⟩
  have hbacked : Backed x K withToken (fun l p => p ∈ l) (fun _ => True) s' :=
    (hrun.trans hlater).invariant (backed_initial h₀ hfits) fun _ _ _ h _ hnext =>
      h.next hx hfits (fun _ _ _ _ _ _ _ _ _ p hp => .tail _ hp) hnext
  refine ⟨hbacked.rows, ?_, ?_⟩
  · intro task hmem
    obtain ⟨p, _, q, hq, _⟩ := hbacked.tasks task hmem trivial
    exact ⟨q, hq⟩
  · intro id hmodern
    exact hlater.invariant (I := fun s => s.legacy x K id = false) hmodern
      fun _ _ _ h _ hnext => legacy_next hx hnext h

/-- If nothing is entered for an account while a task can still write to it, then its credentials
are the ones that were entered last, up to refreshes. -/
theorem credentials_current (hx : x.Correct) (h₀ : s.Initial x K)
    (hrun : Reaches (Vault.next x K withToken) (Undisturbed x K) s s') (id : Id) (account : Account)
    (encrypted : String) (hget : s'.accounts.get? id = some account)
    (htoken : account.credentials = some encrypted) (hne : encrypted ≠ "") :
    ∃ p, (s'.entered id).head? = some p ∧ Yields x K withToken p encrypted := by
  have hfits : Fits x K (fun l p => l.head? = some p) (Task.mayWrite x K) := by
    refine ⟨fun _ _ => rfl, nofun, ?_, fun _ h => h⟩
    rintro task p (hoauth | ⟨_, hplain, _⟩)
    · exact .inl hoauth
    · cases hplain
  have hbacked : Backed x K withToken (fun l p => l.head? = some p) (Task.mayWrite x K) s' := by
    refine hrun.invariant (backed_initial h₀ hfits) fun _ e _ h hundisturbed hnext =>
      h.next hx hfits ?_ hnext
    rintro accountId credentials oauth nonce rfl task hmem hlive hid
    exact absurd hid (hundisturbed task hmem hlive)
  exact hbacked.rows id account encrypted hget htoken hne

end Steps

/-! ## A row of the legacy key -/

def twoKeys : Externals := { sealingExternals with deriveFernetKeyLegacy := fun _ => "weak" }

theorem twoKeys_correct : twoKeys.Correct where
  decrypt_encrypt := sealingExternals_correct.decrypt_encrypt
  decrypt_empty := sealingExternals_correct.decrypt_empty
  loads_dumps := sealingExternals_correct.loads_dumps
  loadsEnvelope_dumpsEnvelope := sealingExternals_correct.loadsEnvelope_dumpsEnvelope

def weakAccount : Account :=
  { maildirPath := "/m/a1", storeId := "st1", credentials := some "weak|pw" }

def weakVault : Vault where
  accounts := ⟨[("a1", weakAccount)], by decide⟩
  entered id := if id = "a1" then ["pw"] else []

theorem weakVault_initial : weakVault.Initial twoKeys "key" := by
  refine ⟨?_, rfl⟩
  intro id account encrypted hget htoken _
  obtain ⟨rfl, rfl⟩ := Prod.mk.inj (List.mem_singleton.mp (Table.mem_rows.mpr hget))
  obtain rfl : "weak|pw" = encrypted := Option.some.inj htoken
  exact ⟨"pw", by decide, rfl⟩

def noToken : WithToken := fun _ _ => none

def healing : List VaultEvent := [.load "a1" true, .decrypt 0 0, .enter "a1" "new" false 1]

/-- The row holds what was entered last, under the key of today. -/
def renewed (s : Vault) : Bool :=
  (s.accounts.get? "a1").any fun account => decide (account.credentials = some "key|new")

theorem credentials_sourced_weak : ∃ s : Vault, weakVault.legacy twoKeys "key" "a1" = true ∧
    s.legacy twoKeys "key" "a1" = false ∧
    ∀ task ∈ s.tasks, ∃ plaintext,
      decryptCredentials twoKeys task.encrypted "key" = some plaintext := by
  have hrun : (healing.foldlM (guarded (fun _ _ => true) (Vault.next twoKeys "key" noToken))
      weakVault).any (fun s => !s.legacy twoKeys "key" "a1") = true := by decide +kernel
  obtain ⟨s, hs, hmodern⟩ := Reaches.of_any hrun fun _ _ _ => trivial
  have hlegacy : s.legacy twoKeys "key" "a1" = false := by simpa using hmodern
  have h := credentials_sourced twoKeys_correct weakVault_initial hs .refl
  exact ⟨s, by decide, h.2.2 "a1" hlegacy, h.2.1⟩

/-- A task that is done with its decryption disturbs nothing. -/
def settledCheck (s : Vault) : VaultEvent → Bool
  | .enter .. => s.tasks.all fun task => !task.oauth && task.plaintext.isSome
  | _ => true

theorem undisturbed_of_check (s : Vault) (e : VaultEvent) (h : settledCheck s e = true) :
    Undisturbed twoKeys "key" s e := by
  cases e with
  | enter accountId credentials oauth nonce =>
      rintro task hmem (hoauth | ⟨_, hplain, _⟩)
      · have hdone := List.all_eq_true.mp h task hmem
        simp [hoauth] at hdone
      · have hdone := List.all_eq_true.mp h task hmem
        simp [hplain] at hdone
  | _ => trivial

theorem credentials_current_weak : ∃ (s : Vault) (p : String), (s.entered "a1").head? = some p ∧
    Yields twoKeys "key" noToken p "key|new" := by
  have hrun : (healing.foldlM (guarded settledCheck (Vault.next twoKeys "key" noToken))
      weakVault).any renewed = true := by decide +kernel
  obtain ⟨s, hs, hrenewed⟩ := Reaches.of_any hrun undisturbed_of_check
  obtain ⟨account, hget, htoken⟩ := (Option.any_eq_true ..).mp hrenewed
  exact ⟨s, credentials_current twoKeys_correct weakVault_initial hs "a1" account "key|new" hget
    (of_decide_eq_true htoken) (by decide)⟩

/-- What is entered between the reading and the writing is lost. -/
example : ([.load "a1" true, .enter "a1" "new" false 1, .decrypt 0 0].foldlM
    (Vault.next twoKeys "key" noToken) weakVault).any (fun s => (s.accounts.get? "a1").any
      fun account => decide (account.credentials = some "key|pw")) = true := by
  decide +kernel

end MailFallback.Credentials
