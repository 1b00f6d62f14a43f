import MailFallback.Tokens.Semantics

/-! # What an access token proves

A token is accepted exactly as long as the credential it was given out for is good. -/

namespace MailFallback.Tokens

open Storage Transition

/-! ## Tokens as strings -/

theorem not_underscore_of_hex {bytes : ℕ} {s : String} (h : isTokenHex bytes s = true) :
    '_' ∉ s.toList := by
  intro hmem
  unfold isTokenHex at h
  rw [Bool.and_eq_true, List.all_eq_true] at h
  exact absurd (h.2 '_' hmem) (by decide)

theorem ne_empty_of_hex {bytes : ℕ} {s : String} (hb : 0 < bytes) (h : isTokenHex bytes s = true) :
    s ≠ "" := by
  intro hs
  unfold isTokenHex at h
  rw [Bool.and_eq_true, decide_eq_true_eq, hs] at h
  have hlen : (0 : ℕ) = 2 * bytes := h.1
  omega

theorem toList_tokenOf (p s : String) :
    (tokenOf p s).toList = tokenMarker.toList ++ (p.toList ++ '_' :: s.toList) := by
  simp [tokenOf, List.append_assoc]

theorem drop_marker (p s : String) :
    (PyString.drop (tokenOf p s) tokenMarker.length).toList = p.toList ++ '_' :: s.toList := by
  have hlen : tokenMarker.length = tokenMarker.toList.length := rfl
  rw [PyString.drop, toList_tokenOf, hlen, List.drop_left, String.toList_ofList]

theorem startsWith_tokenOf (p s : String) : PyString.startsWith (tokenOf p s) tokenMarker = true := by
  rw [PyString.startsWith, toList_tokenOf, List.isPrefixOf_iff_prefix]
  exact List.prefix_append _ _

theorem tokenOf_ne_empty (p s : String) : tokenOf p s ≠ "" := by
  intro h
  have hlist := congrArg String.toList h
  rw [toList_tokenOf] at hlist
  simp at hlist

theorem partition_append {p s : List Char} (hp : '_' ∉ p) {t : String}
    (ht : t.toList = p ++ '_' :: s) :
    PyString.partition t '_' = (String.ofList p, String.ofList s) := by
  have hall : ∀ c ∈ p, decide (c ≠ '_') = true := by
    intro c hc
    rw [decide_eq_true_eq]
    rintro rfl
    exact hp hc
  unfold PyString.partition
  rw [ht, List.takeWhile_append_of_pos hall, List.dropWhile_append_of_pos hall]
  simp

theorem splitToken_tokenOf {p s : String} (hp : p ≠ "") (hs : s ≠ "") (hsep : '_' ∉ p.toList) :
    splitToken (tokenOf p s) = some (p, s) := by
  have hparts := partition_append hsep (drop_marker p s)
  rw [String.ofList_toList, String.ofList_toList] at hparts
  unfold splitToken
  rw [if_neg, hparts]
  · dsimp only
    rw [if_neg]
    rintro (h | h)
    · exact hp h
    · exact hs h
  · rintro (h | h)
    · exact tokenOf_ne_empty p s h
    · rw [startsWith_tokenOf] at h
      cases h

/-- What `_split` accepts is put together again from the two parts. -/
theorem splitToken_eq_some {token p s : String} (h : splitToken token = some (p, s)) :
    token = tokenOf p s := by
  unfold splitToken at h
  split at h
  · cases h
  · rename_i hmarked
    rw [not_or, Bool.not_eq_false] at hmarked
    dsimp only at h
    split at h
    · cases h
    · rename_i hparts
      rw [not_or] at hparts
      obtain ⟨rest, hrest⟩ := List.isPrefixOf_iff_prefix.mp hmarked.2
      have hdrop : (PyString.drop token tokenMarker.length).toList = rest := by
        have hlen : tokenMarker.length = tokenMarker.toList.length := rfl
        rw [PyString.drop, ← hrest, hlen, List.drop_left, String.toList_ofList]
      have hsplit := Option.some.inj h
      unfold PyString.partition at hsplit hparts
      rw [hdrop] at hsplit hparts
      obtain ⟨hp, hs⟩ := Prod.mk.inj hsplit
      -- the second part is not empty, so the separator is there
      have htail : ∃ tail, rest.dropWhile (fun c => decide (c ≠ '_')) = '_' :: tail := by
        cases hd : rest.dropWhile fun c => decide (c ≠ '_') with
        | nil =>
            rw [hd] at hparts
            exact absurd rfl hparts.2
        | cons c tail =>
            have hc := List.head?_dropWhile_not (fun c => decide (c ≠ '_')) rest
            rw [hd] at hc
            have hceq : c = '_' := by simpa using hc
            exact ⟨tail, by rw [hceq]⟩
      obtain ⟨tail, htail⟩ := htail
      apply String.toList_injective
      have hwhole := List.takeWhile_append_dropWhile (p := fun c => decide (c ≠ '_')) (l := rest)
      rw [htail] at hwhole
      rw [toList_tokenOf, ← hrest, ← hp, ← hs, htail, String.toList_ofList, String.toList_ofList,
        List.drop_one, List.tail_cons, hwhole]

/-! ## Scopes -/

theorem mem_sortedSet {scopes : List String} {scope : String} :
    scope ∈ sortedSet scopes ↔ scope ∈ scopes := by
  rw [sortedSet, List.mem_mergeSort, List.mem_dedup]

/-- The valid scopes can be joined with commas. -/
theorem validScopes_plain {scope : String} (h : scope ∈ validScopes) :
    ',' ∉ scope.toList ∧ scope ≠ "" := by
  revert scope
  decide

theorem splitAt_join {c : Char} {parts : List String} (hne : parts ≠ [])
    (hc : ∀ s ∈ parts, c ∉ s.toList) : PyString.splitAt (PyString.join c parts) c = parts := by
  unfold PyString.splitAt PyString.join
  rw [String.toList_ofList, List.splitOn_intercalate]
  · simp
  · intro l hl
    obtain ⟨s, hs, rfl⟩ := List.mem_map.mp hl
    exact hc s hs
  · simpa using hne

theorem mem_scopeSet {cred : AppCredential} {scopes : List String} (hne : scopes ≠ [])
    (hvalid : ∀ scope ∈ scopes, scope ∈ validScopes)
    (hcred : cred.scopes = PyString.join ',' (sortedSet scopes)) (scope : String) :
    scope ∈ cred.scopeSet ↔ scope ∈ scopes := by
  have hsorted : sortedSet scopes ≠ [] := by
    obtain ⟨first, hfirst⟩ := List.exists_mem_of_ne_nil scopes hne
    exact List.ne_nil_of_mem (mem_sortedSet.mpr hfirst)
  have hsplit : PyString.splitAt cred.scopes ',' = sortedSet scopes := by
    rw [hcred]
    apply splitAt_join hsorted
    exact fun s hs => (validScopes_plain (hvalid s (mem_sortedSet.mp hs))).1
  rw [AppCredential.scopeSet, hsplit, List.mem_filter, mem_sortedSet, decide_eq_true_eq]
  exact ⟨fun h => h.1, fun h => ⟨h, (validScopes_plain (hvalid scope h)).2⟩⟩

/-! ## The rows -/

variable {keyed : Keyed} {db : TokenDb} {id : Id} {cred : AppCredential}

theorem TokenDb.byPrefix_eq_some {p : String} :
    db.byPrefix p = some (id, cred) ↔ db.credentials.get? id = some cred ∧ cred.tokenPrefix = p := by
  constructor
  · intro h
    have hmem := List.mem_of_find?_eq_some h
    have hp := List.find?_some h
    exact ⟨Table.mem_rows.mp hmem, by simpa using hp⟩
  · rintro ⟨hget, hp⟩
    cases hfind : db.byPrefix p with
    | none =>
        have hall := List.find?_eq_none.mp hfind (id, cred) (Table.mem_rows.mpr hget)
        exact absurd hp (by simpa using hall)
    | some row =>
        obtain ⟨j, d⟩ := row
        have hmem := Table.mem_rows.mp (List.mem_of_find?_eq_some hfind)
        have hd : d.tokenPrefix = p := by simpa using List.find?_some hfind
        obtain rfl := db.prefixes j id d cred hmem hget (hd.trans hp.symm)
        rw [hget] at hmem
        rw [Option.some.inj hmem]

theorem TokenDb.insert_eq_some {db' : TokenDb} (h : db.insert id cred = some db') :
    db.credentials.get? id = none ∧ db'.toDb = db.toDb ∧
      ∀ k, db'.credentials.get? k = if k = id then some cred else db.credentials.get? k := by
  unfold TokenDb.insert at h
  split at h
  · rename_i hfree
    obtain rfl := Option.some.inj h
    exact ⟨hfree.1, rfl, fun k => Table.get?_add db.credentials id k cred hfree.1⟩
  · cases h

/-- What every later change of a credential leaves: only the dates of revocation and use move. -/
structure Kept (cred cred' : AppCredential) : Prop where
  userId : cred'.userId = cred.userId
  tokenPrefix : cred'.tokenPrefix = cred.tokenPrefix
  secretHash : cred'.secretHash = cred.secretHash
  scopes : cred'.scopes = cred.scopes
  revoked : cred.revokedAt.isSome = true → cred'.revokedAt.isSome = true

theorem Kept.refl (cred : AppCredential) : Kept cred cred := ⟨rfl, rfl, rfl, rfl, fun h => h⟩

theorem Kept.trans {a b c : AppCredential} (h : Kept a b) (h' : Kept b c) : Kept a c :=
  ⟨h'.userId.trans h.userId, h'.tokenPrefix.trans h.tokenPrefix, h'.secretHash.trans h.secretHash,
    h'.scopes.trans h.scopes, fun hr => h'.revoked (h.revoked hr)⟩

/-- The credentials of the first are still there in the second. -/
def KeepsRows (db db' : TokenDb) : Prop :=
  ∀ i c, db.credentials.get? i = some c → ∃ c', db'.credentials.get? i = some c' ∧ Kept c c'

/-- And there are no others. -/
def SameRows (db db' : TokenDb) : Prop :=
  KeepsRows db db' ∧ ∀ i, db.credentials.get? i = none → db'.credentials.get? i = none

theorem SameRows.of_eq {db' : TokenDb} (h : db'.credentials = db.credentials) : SameRows db db' := by
  unfold SameRows KeepsRows
  rw [h]
  exact ⟨fun i c hc => ⟨c, hc, .refl c⟩, fun i hi => hi⟩

theorem SameRows.change (f : AppCredential → AppCredential) (hkept : ∀ cred, Kept cred (f cred)) :
    SameRows db (db.change id f fun cred => (hkept cred).tokenPrefix) := by
  have hget : ∀ k, (db.change id f fun cred => (hkept cred).tokenPrefix).credentials.get? k =
      if k = id then (db.credentials.get? k).map f else db.credentials.get? k := by
    intro k
    exact Table.get?_modify db.credentials id k f
  constructor
  · intro i c hc
    rw [hget, hc]
    by_cases hi : i = id
    · exact ⟨f c, if_pos hi, hkept c⟩
    · exact ⟨c, if_neg hi, .refl c⟩
  · intro i hi
    rw [hget, hi]
    split <;> rfl

theorem revokeCredential_rows (userId : Id) (now : Time) :
    SameRows db (revokeCredential db userId id now).2 := by
  have hkept : ∀ cred : AppCredential, Kept cred { cred with revokedAt := some now } :=
    fun _ => ⟨rfl, rfl, rfl, rfl, fun _ => rfl⟩
  unfold revokeCredential
  split
  · exact .of_eq rfl
  · split
    · exact .change _ hkept
    · exact .of_eq rfl

theorem verifyCredential_rows (username : Option String) (token : String)
    (requiredScope : Option String) (kind : String) (now : Time) :
    SameRows db (verifyCredential keyed db username token requiredScope kind now).2 := by
  have hsame : SameRows db db := .of_eq rfl
  have hkept : ∀ cred, Kept cred (used kind now cred) := fun _ => ⟨rfl, rfl, rfl, rfl, fun h => h⟩
  unfold verifyCredential
  repeat' split
  all_goals first
    | exact hsame
    | exact .change _ hkept

theorem passdbVerify_rows (username password : String) (protocol : Option String) (now : Time) :
    SameRows db (passdbVerify keyed db username password protocol now).2 := by
  have hrows : SameRows db (verifyCredential keyed db (some username) password (some scopeImap)
      (if given protocol = true then protocol.getD "" else "imap") now).2 :=
    verifyCredential_rows _ _ _ _ _
  unfold passdbVerify
  dsimp only
  split <;> exact hrows

/-! ## The ladder of checks -/

/-- The checks that come after the prefix is found. -/
structure Good (keyed : Keyed) (db : TokenDb) (username requiredScope : Option String)
    (secret : String) (cred : AppCredential) (now : Time) : Prop where
  owner : ∃ user, db.users.get? cred.userId = some user ∧ user.enabled = true ∧
    user.migrating = false ∧ ∀ name, username = some name → user.username = name
  active : cred.active now = true
  scope : ∀ scope, requiredScope = some scope → scope ∈ cred.scopeSet
  hash : keyed.hashToken secret = cred.secretHash

theorem any_ne_eq_false {o : Option String} {p : String → Prop} [DecidablePred p] :
    ¬(o.any fun s => decide ¬p s) = true ↔ ∀ s, o = some s → p s := by
  cases o with
  | none => simp
  | some s => simp

/-- The token is accepted when its prefix is found and every check passes. -/
theorem verifyCredential_ok {username : Option String} {token : String}
    {requiredScope : Option String} {kind : String} {now : Time} :
    (verifyCredential keyed db username token requiredScope kind now).1.1 = .ok ↔
      ∃ p secret id cred, splitToken token = some (p, secret) ∧ db.byPrefix p = some (id, cred) ∧
        Good keyed db username requiredScope secret cred now := by
  unfold verifyCredential
  split
  · rename_i hsplit
    constructor
    · exact nofun
    · rintro ⟨p, secret, id, cred, h, -⟩
      rw [hsplit] at h
      cases h
  · rename_i p secret hsplit
    split
    · rename_i hlookup
      constructor
      · exact nofun
      · rintro ⟨p', secret', id, cred, h, hfound, -⟩
        rw [hsplit] at h
        obtain ⟨rfl, rfl⟩ := Prod.mk.inj (Option.some.inj h)
        rw [hlookup] at hfound
        cases hfound
    · rename_i id cred hlookup
      -- from here on both sides speak of one credential
      have hone : (∃ p secret id cred, splitToken token = some (p, secret) ∧
          db.byPrefix p = some (id, cred) ∧
            Good keyed db username requiredScope secret cred now) ↔
          Good keyed db username requiredScope secret cred now := by
        constructor
        · rintro ⟨p', secret', id', cred', h, hfound, hgood⟩
          rw [hsplit] at h
          obtain ⟨rfl, rfl⟩ := Prod.mk.inj (Option.some.inj h)
          rw [hlookup] at hfound
          obtain ⟨rfl, rfl⟩ := Prod.mk.inj (Option.some.inj hfound)
          exact hgood
        · exact fun hgood => ⟨p, secret, id, cred, hsplit, hlookup, hgood⟩
      rw [hone]
      split
      · rename_i hnouser
        constructor
        · exact nofun
        · intro hgood
          obtain ⟨user, huser, -⟩ := hgood.owner
          rw [hnouser] at huser
          cases huser
      · rename_i user huser
        have howner : ∀ u, db.users.get? cred.userId = some u → u = user := by
          intro u hu
          rw [huser] at hu
          exact (Option.some.inj hu).symm
        constructor
        · intro h
          split at h
          · cases h
          · rename_i hname
            split at h
            · cases h
            · rename_i hstate
              split at h
              · cases h
              · rename_i hactive
                split at h
                · cases h
                · rename_i hscope
                  split at h
                  · cases h
                  · rename_i hhash
                    rw [not_or, Bool.not_eq_false, Bool.not_eq_true] at hstate
                    exact ⟨⟨user, huser, hstate.1, hstate.2, any_ne_eq_false.mp hname⟩,
                      Bool.not_eq_false _ ▸ hactive, any_ne_eq_false.mp hscope, not_not.mp hhash⟩
        · intro hgood
          obtain ⟨u, hu, henabled, hmigrating, hname⟩ := hgood.owner
          obtain rfl := howner u hu
          rw [if_neg (any_ne_eq_false.mpr hname), if_neg, if_neg, if_neg, if_neg]
          · exact not_not.mpr hgood.hash
          · exact any_ne_eq_false.mpr hgood.scope
          · rw [hgood.active]
            exact Bool.noConfusion
          · rw [henabled, hmigrating]
            rintro (h | h) <;> cases h

/-- A refusal says that the prefix is one of the user's own credentials. -/
theorem verifyCredential_rejected {name token : String} {requiredScope : Option String}
    {kind : String} {now : Time}
    (h : (verifyCredential keyed db (some name) token requiredScope kind now).1.1 = .rejected) :
    ∃ id cred user secret, db.credentials.get? id = some cred ∧
      db.users.get? cred.userId = some user ∧ user.username = name ∧
      token = tokenOf cred.tokenPrefix secret := by
  unfold verifyCredential at h
  split at h
  · cases h
  · rename_i p secret hsplit
    split at h
    · cases h
    · rename_i id cred hlookup
      split at h
      · cases h
      · rename_i user huser
        split at h
        · cases h
        · rename_i hname
          obtain ⟨hget, hp⟩ := TokenDb.byPrefix_eq_some.mp hlookup
          have hsame : user.username = name := by simpa using hname
          exact ⟨id, cred, user, secret, hget, huser, hsame, hp ▸ splitToken_eq_some hsplit⟩

/-! ## Histories -/

/-- What was given out for a credential. -/
structure Vouched (keyed : Keyed) (cred : AppCredential) (e : Issued) : Prop where
  token : ∃ secret, e.token = tokenOf cred.tokenPrefix secret ∧ secret ≠ "" ∧
    keyed.hashToken secret = cred.secretHash
  plain : cred.tokenPrefix ≠ "" ∧ '_' ∉ cred.tokenPrefix.toList
  scopes : ∀ scope, scope ∈ cred.scopeSet ↔ scope ∈ e.scopes

theorem Vouched.kept {cred' : AppCredential} {e : Issued} (h : Vouched keyed cred e)
    (hk : Kept cred cred') : Vouched keyed cred' e where
  token := by
    rw [hk.tokenPrefix, hk.secretHash]
    exact h.token
  plain := by
    rw [hk.tokenPrefix]
    exact h.plain
  scopes := by
    unfold AppCredential.scopeSet
    rw [hk.scopes]
    exact h.scopes

/-- Credentials and tokens belong to each other one by one. -/
structure Sound (keyed : Keyed) (s : TokenState) : Prop where
  stored : ∀ e ∈ s.issued, ∃ cred, s.db.credentials.get? e.credentialId = some cred ∧
    Vouched keyed cred e
  issued : ∀ i cred, s.db.credentials.get? i = some cred → ∃ e ∈ s.issued, e.credentialId = i

theorem Sound.sameRows {s s' : TokenState} (h : Sound keyed s) (hrows : SameRows s.db s'.db)
    (hissued : s'.issued = s.issued) : Sound keyed s' where
  stored e he := by
    obtain ⟨cred, hget, hvouched⟩ := h.stored e (hissued ▸ he)
    obtain ⟨cred', hget', hkept⟩ := hrows.1 _ _ hget
    exact ⟨cred', hget', hvouched.kept hkept⟩
  issued i cred hi := by
    rw [hissued]
    cases hold : s.db.credentials.get? i with
    | none =>
        rw [hrows.2 i hold] at hi
        cases hi
    | some old => exact h.issued i old hold

theorem createCredential_eq_ok {userId : Id} {name : String} {scopes : List String}
    {ttlDays : Option ℤ} {fresh : Fresh} {now : Time} {db' : TokenDb} {token : String}
    (h : createCredential keyed db userId name scopes ttlDays fresh now = .ok (db', token)) :
    scopes ≠ [] ∧ (∀ scope ∈ scopes, scope ∈ validScopes) ∧
      token = tokenOf fresh.tokenPrefix fresh.secret ∧
      ∃ expires, expiryOf now ttlDays = .ok expires ∧
        db.insert fresh.id (newCredential keyed fresh userId name scopes now expires) = some db' := by
  unfold createCredential at h
  split at h
  · cases h
  · rename_i hne
    dsimp only at h
    split at h
    · cases h
    · rename_i hunknown
      rw [not_not] at hunknown
      cases hexpiry : expiryOf now ttlDays with
      | error e =>
          rw [hexpiry] at h
          cases h
      | ok expires =>
          rw [hexpiry] at h
          cases hinsert : db.insert fresh.id
              (newCredential keyed fresh userId name scopes now expires) with
          | none =>
              simp only [hinsert, bind, Except.bind] at h
              cases h
          | some db₁ =>
              simp only [hinsert, bind, Except.bind] at h
              obtain ⟨rfl, rfl⟩ := Prod.mk.inj (Except.ok.inj h)
              refine ⟨hne, ?_, rfl, expires, rfl, hinsert⟩
              intro scope hscope
              by_contra hbad
              have hmem : scope ∈ sortedSet (scopes.filter fun s => decide (s ∉ validScopes)) := by
                rw [mem_sortedSet, List.mem_filter, decide_eq_true_eq]
                exact ⟨hscope, hbad⟩
              rw [hunknown] at hmem
              exact absurd hmem List.not_mem_nil

theorem Sound.create {s : TokenState} {userId : Id} {name : String} {scopes : List String}
    {ttlDays : Option ℤ} {fresh : Fresh} {db' : TokenDb} {token : String} (h : Sound keyed s)
    (hcreate : createCredential keyed s.db userId name scopes ttlDays fresh s.clock =
      .ok (db', token)) :
    Sound keyed { s with db := db', issued := ⟨fresh.id, token, scopes⟩ :: s.issued } := by
  obtain ⟨hne, hvalid, htoken, expires, -, hinsert⟩ := createCredential_eq_ok hcreate
  obtain ⟨hfree, -, hget⟩ := TokenDb.insert_eq_some hinsert
  constructor
  · intro e he
    rcases List.mem_cons.mp he with rfl | he
    · refine ⟨_, (hget _).trans (if_pos rfl), ?_, ?_, ?_⟩
      · exact ⟨fresh.secret, htoken, ne_empty_of_hex (by decide) fresh.secretHex, rfl⟩
      · exact ⟨ne_empty_of_hex (by decide) fresh.prefixHex, not_underscore_of_hex fresh.prefixHex⟩
      · exact mem_scopeSet hne hvalid rfl
    · obtain ⟨cred, hcred, hvouched⟩ := h.stored e he
      refine ⟨cred, ?_, hvouched⟩
      rw [hget, if_neg]
      · exact hcred
      · intro hid
        rw [hid, hfree] at hcred
        cases hcred
  · intro i cred hi
    rw [hget] at hi
    by_cases hid : i = fresh.id
    · exact ⟨_, List.mem_cons_self, hid.symm⟩
    · rw [if_neg hid] at hi
      obtain ⟨e, he, hei⟩ := h.issued i cred hi
      exact ⟨e, List.mem_cons_of_mem _ he, hei⟩

/-- One step keeps the credentials there are. -/
theorem next_rows {s s' : TokenState} {e : TokenEvent} (h : s.next keyed e = some s') :
    KeepsRows s.db s'.db := by
  cases e with
  | create userId name scopes ttlDays fresh =>
      simp only [TokenState.next] at h
      split at h
      · split at h
        · obtain rfl := Option.some.inj h
          exact (SameRows.of_eq rfl).1
        · rename_i db' token hcreate
          obtain rfl := Option.some.inj h
          obtain ⟨-, -, -, expires, -, hinsert⟩ := createCredential_eq_ok hcreate
          obtain ⟨hfree, -, hget⟩ := TokenDb.insert_eq_some hinsert
          intro i c hi
          refine ⟨c, ?_, .refl c⟩
          rw [hget, if_neg]
          · exact hi
          · intro hid
            rw [hid, hfree] at hi
            cases hi
      · cases h
  | revoke userId credentialId =>
      obtain rfl := Option.some.inj h
      exact (revokeCredential_rows userId s.clock).1
  | verify username token requiredScope kind =>
      obtain rfl := Option.some.inj h
      exact (verifyCredential_rows username token requiredScope kind s.clock).1
  | passdb username password protocol =>
      obtain rfl := Option.some.inj h
      exact (passdbVerify_rows username password protocol s.clock).1
  | enable userId enabled =>
      obtain rfl := Option.some.inj h
      exact (SameRows.of_eq rfl).1
  | migrate userId migrating =>
      obtain rfl := Option.some.inj h
      exact (SameRows.of_eq rfl).1
  | pass time =>
      obtain rfl := Option.some.inj h
      exact (SameRows.of_eq rfl).1

theorem sound_step {s s' : TokenState} {e : TokenEvent} (hs : Sound keyed s)
    (h : s.next keyed e = some s') : Sound keyed s' := by
  cases e with
  | create userId name scopes ttlDays fresh =>
      simp only [TokenState.next] at h
      split at h
      · split at h
        · obtain rfl := Option.some.inj h
          exact hs
        · rename_i db' token hcreate
          obtain rfl := Option.some.inj h
          exact hs.create hcreate
      · cases h
  | revoke userId credentialId =>
      obtain rfl := Option.some.inj h
      exact hs.sameRows (revokeCredential_rows userId s.clock) rfl
  | verify username token requiredScope kind =>
      obtain rfl := Option.some.inj h
      exact hs.sameRows (verifyCredential_rows username token requiredScope kind s.clock) rfl
  | passdb username password protocol =>
      obtain rfl := Option.some.inj h
      exact hs.sameRows (passdbVerify_rows username password protocol s.clock) rfl
  | enable userId enabled =>
      obtain rfl := Option.some.inj h
      exact hs.sameRows (.of_eq rfl) rfl
  | migrate userId migrating =>
      obtain rfl := Option.some.inj h
      exact hs.sameRows (.of_eq rfl) rfl
  | pass time =>
      obtain rfl := Option.some.inj h
      exact hs.sameRows (.of_eq rfl) rfl

theorem active_iff {now : Time} :
    cred.active now = true ↔
      cred.revokedAt = none ∧ ∀ expires, cred.expiresAt = some expires → now < expires := by
  unfold AppCredential.active
  cases cred.revokedAt with
  | some t => simp
  | none => cases cred.expiresAt <;> simp

/-- The token of a credential that is stored, neither revoked nor expired, of a user who may log
in, and with the scope. -/
def Admits (s : TokenState) (username : Option String) (token : String)
    (requiredScope : Option String) : Prop :=
  ∃ e ∈ s.issued, e.token = token ∧ ∃ cred user,
    s.db.credentials.get? e.credentialId = some cred ∧ s.db.users.get? cred.userId = some user ∧
      cred.revokedAt = none ∧ (∀ expires, cred.expiresAt = some expires → s.clock < expires) ∧
      user.enabled = true ∧ user.migrating = false ∧
      (∀ name, username = some name → user.username = name) ∧
      ∀ scope, requiredScope = some scope → scope ∈ e.scopes

theorem Sound.ok_iff {s : TokenState} (h : Sound keyed s)
    (hfree : ∀ a b, keyed.hashToken a = keyed.hashToken b → a = b) (username : Option String)
    (token : String) (requiredScope : Option String) (kind : String) :
    (verifyCredential keyed s.db username token requiredScope kind s.clock).1.1 = .ok ↔
      Admits s username token requiredScope := by
  rw [verifyCredential_ok]
  constructor
  · rintro ⟨p, secret, id, cred, hsplit, hlookup, hgood⟩
    obtain ⟨hget, rfl⟩ := TokenDb.byPrefix_eq_some.mp hlookup
    obtain ⟨e, he, rfl⟩ := h.issued id cred hget
    obtain ⟨cred', hget', hvouched⟩ := h.stored e he
    rw [hget] at hget'
    obtain rfl := Option.some.inj hget'
    obtain ⟨secret', htoken, -, hhash⟩ := hvouched.token
    have hsecret : secret' = secret := hfree _ _ (hhash.trans hgood.hash.symm)
    obtain ⟨user, huser, henabled, hmigrating, hname⟩ := hgood.owner
    obtain ⟨hrevoked, hexpires⟩ := active_iff.mp hgood.active
    refine ⟨e, he, ?_, cred, user, hget, huser, hrevoked, hexpires, henabled, hmigrating, hname, ?_⟩
    · rw [htoken, hsecret, splitToken_eq_some hsplit]
    · exact fun scope hscope => (hvouched.scopes scope).mp (hgood.scope scope hscope)
  · rintro ⟨e, he, rfl, cred, user, hget, huser, hrevoked, hexpires, henabled, hmigrating, hname,
      hscopes⟩
    obtain ⟨cred', hget', hvouched⟩ := h.stored e he
    rw [hget] at hget'
    obtain rfl := Option.some.inj hget'
    obtain ⟨secret, htoken, hne, hhash⟩ := hvouched.token
    refine ⟨cred.tokenPrefix, secret, e.credentialId, cred, ?_, ?_, ?_⟩
    · rw [htoken]
      exact splitToken_tokenOf hvouched.plain.1 hne hvouched.plain.2
    · exact TokenDb.byPrefix_eq_some.mpr ⟨hget, rfl⟩
    · exact ⟨⟨user, huser, henabled, hmigrating, hname⟩, active_iff.mpr ⟨hrevoked, hexpires⟩,
        fun scope hscope => (hvouched.scopes scope).mpr (hscopes scope hscope), hhash⟩

/-! ### Revocation -/

theorem revokeCredential_revoked {userId : Id} {now : Time}
    (h : (revokeCredential db userId id now).1 = true) :
    ∃ cred, (revokeCredential db userId id now).2.credentials.get? id = some cred ∧
      cred.revokedAt.isSome = true := by
  unfold revokeCredential at h ⊢
  split at h
  · cases h
  · rename_i cred hfound
    obtain ⟨hget, -⟩ := Option.filter_eq_some_iff.mp hfound
    split
    · refine ⟨{ cred with revokedAt := some now }, ?_, rfl⟩
      rw [TokenDb.change, Table.get?_modify_self, hget]
      rfl
    · rename_i hrevoked
      exact ⟨cred, hget, Option.isSome_iff_ne_none.mpr hrevoked⟩

/-- No run loses a credential, and none takes a revocation back. -/
theorem keepsRows_run {s s' : TokenState}
    (h : Reaches (TokenState.next keyed) (fun _ _ => True) s s') : KeepsRows s.db s'.db := by
  refine h.invariant (I := fun t => KeepsRows s.db t.db) (fun _ c hc => ⟨c, hc, .refl c⟩) ?_
  intro t e t' ht _ hstep i c hc
  obtain ⟨c₁, hc₁, hkept₁⟩ := ht i c hc
  obtain ⟨c₂, hc₂, hkept₂⟩ := next_rows hstep i c₁ hc₁
  exact ⟨c₂, hc₂, hkept₁.trans hkept₂⟩

theorem never_accepted {s s' : TokenState} {userId : Id} (hs : Sound keyed s)
    (hrevoke : (revokeCredential s.db userId id s.clock).1 = true)
    (hrun : Reaches (TokenState.next keyed) (fun _ _ => True)
      { s with db := (revokeCredential s.db userId id s.clock).2 } s')
    {e : Issued} (he : e ∈ s.issued) (hid : e.credentialId = id) (username : Option String)
    (requiredScope : Option String) (kind : String) :
    (verifyCredential keyed s'.db username e.token requiredScope kind s'.clock).1.1 ≠ .ok := by
  intro hok
  obtain ⟨p, secret, j, cred, hsplit, hlookup, hgood⟩ := verifyCredential_ok.mp hok
  obtain ⟨hget, rfl⟩ := TokenDb.byPrefix_eq_some.mp hlookup
  -- the row from which the token was given out is still there, with its prefix
  obtain ⟨old, hold, hvouched⟩ := hs.stored e he
  obtain ⟨secret', htoken, hne, -⟩ := hvouched.token
  have hsame : old.tokenPrefix = cred.tokenPrefix := by
    rw [htoken, splitToken_tokenOf hvouched.plain.1 hne hvouched.plain.2] at hsplit
    exact (Prod.mk.inj (Option.some.inj hsplit)).1
  have hrevoked : SameRows s.db (revokeCredential s.db userId id s.clock).2 :=
    revokeCredential_rows userId s.clock
  obtain ⟨c, hc, hkept⟩ := hrevoked.1 _ _ hold
  obtain ⟨c', hc', hkept'⟩ := keepsRows_run hrun _ _ hc
  have hj : j = e.credentialId := s'.db.prefixes j e.credentialId cred c' hget hc'
    (hsame.symm.trans (hkept'.tokenPrefix.trans hkept.tokenPrefix).symm)
  rw [hj, hc'] at hget
  obtain rfl := Option.some.inj hget
  -- and it is revoked
  obtain ⟨r, hr, hrevoked⟩ := revokeCredential_revoked hrevoke
  rw [hid, hr] at hc
  obtain rfl := Option.some.inj hc
  have hactive := (active_iff.mp hgood.active).1
  have hlater := hkept'.revoked hrevoked
  rw [hactive] at hlater
  cases hlater

/-! ## The tokens of every history -/

/-- Some credential of that user has the prefix which the string carries. -/
def CarriesPrefixOf (db : TokenDb) (username token : String) : Prop :=
  ∃ id cred user secret, db.credentials.get? id = some cred ∧
    db.users.get? cred.userId = some user ∧ user.username = username ∧
    token = tokenOf cred.tokenPrefix secret

theorem passdbVerify_falls_through {username password : String} {protocol : Option String}
    {now : Time} (hcarries : ¬CarriesPrefixOf db username password)
    (hok : ∀ kind, (verifyCredential keyed db (some username) password (some scopeImap) kind
      now).1.1 ≠ .ok) :
    (passdbVerify keyed db username password protocol now).1 = 404 := by
  unfold passdbVerify
  dsimp only
  split
  · rename_i h
    exact absurd h (hok _)
  · rfl
  · rfl
  · rename_i h
    exact absurd (verifyCredential_rejected h) hcarries

/-- Over every history that starts without credentials: the accepted strings are the tokens of
good credentials, only a credential of the user himself makes his password be refused, every
other string is left to the SQL passdb, and what is revoked stays refused. -/
theorem tokens_mean_what_is_stored {keyed : Keyed} {s₀ s : TokenState}
    (hfree : ∀ a b, keyed.hashToken a = keyed.hashToken b → a = b)
    (hempty : s₀.db.credentials = .empty) (hissued : s₀.issued = [])
    (hrun : Reaches (TokenState.next keyed) (fun _ _ => True) s₀ s) :
    (∀ username token requiredScope kind,
      (verifyCredential keyed s.db username token requiredScope kind s.clock).1.1 = .ok ↔
        Admits s username token requiredScope) ∧
    (∀ username token requiredScope kind,
      (verifyCredential keyed s.db (some username) token requiredScope kind s.clock).1.1 =
        .rejected → CarriesPrefixOf s.db username token) ∧
    (∀ username password protocol, ¬CarriesPrefixOf s.db username password →
      (passdbVerify keyed s.db username password protocol s.clock).1 = 404) ∧
    (∀ userId id s', (revokeCredential s.db userId id s.clock).1 = true →
      Reaches (TokenState.next keyed) (fun _ _ => True)
        { s with db := (revokeCredential s.db userId id s.clock).2 } s' →
      ∀ e ∈ s.issued, e.credentialId = id → ∀ username requiredScope kind,
        (verifyCredential keyed s'.db username e.token requiredScope kind s'.clock).1.1 ≠ .ok) := by
  have hstart : Sound keyed s₀ := by
    constructor
    · rw [hissued]
      exact nofun
    · rw [hempty]
      exact nofun
  have hs : Sound keyed s := hrun.invariant hstart fun _ _ _ h _ hstep => sound_step h hstep
  have hok := hs.ok_iff hfree
  refine ⟨hok, fun _ _ _ _ h => verifyCredential_rejected h, ?_, ?_⟩
  · intro username password protocol hcarries
    apply passdbVerify_falls_through hcarries
    intro kind h
    -- an accepted string carries a prefix as well
    obtain ⟨e, he, rfl, cred, user, hget, huser, -, -, -, -, hname, -⟩ :=
      (hok (some username) password (some scopeImap) kind).mp h
    obtain ⟨cred', hget', hvouched⟩ := hs.stored e he
    rw [hget] at hget'
    obtain rfl := Option.some.inj hget'
    obtain ⟨secret, htoken, -⟩ := hvouched.token
    exact hcarries ⟨_, cred, user, secret, hget, huser, hname username rfl, htoken⟩
  · intro userId id s' hrevoke hlater e he hid
    exact never_accepted hs hrevoke hlater he hid

def sampleDb : TokenDb where
  users := ⟨[("u1", { username := "ada", storeId := "s1" })], by decide⟩
  prefixes _ _ _ _ h := by
    rw [Table.get?_empty] at h
    cases h

def sampleFresh : Fresh where
  id := "c1"
  tokenPrefix := "00112233445566778a"
  secret := "0123456789abcdef0123456789abcdef0123456789abcdef0123456789abcdef"
  prefixHex := by decide +kernel
  secretHex := by decide +kernel

/-- A keyed hash without collisions. -/
def sampleKeyed : Keyed := ⟨fun key secret => key ++ secret, "key"⟩

/-- The token a user was given lets him in. -/
theorem sample_token_admits :
    ∃ s, Reaches (TokenState.next sampleKeyed) (fun _ _ => True) ⟨sampleDb, 0, []⟩ s ∧
      Admits s (some "ada") (tokenOf sampleFresh.tokenPrefix sampleFresh.secret) (some "imap") := by
  have hrun : (([.create "u1" "Hermes" ["imap"] (some 30) sampleFresh] : List TokenEvent).foldlM
      (guarded (fun _ _ => true) (TokenState.next sampleKeyed)) ⟨sampleDb, 0, []⟩).any
        (fun s => decide ((verifyCredential sampleKeyed s.db (some "ada")
          (tokenOf sampleFresh.tokenPrefix sampleFresh.secret) (some "imap") "imap"
          s.clock).1.1 = .ok)) = true := by
    decide +kernel
  obtain ⟨s, hreach, hok⟩ := Reaches.of_any hrun fun _ _ _ => trivial
  have hfree : ∀ a b, sampleKeyed.hashToken a = sampleKeyed.hashToken b → a = b := by
    intro a b h
    have hlist := congrArg String.toList h
    simp only [Keyed.hashToken, sampleKeyed, String.toList_append, List.append_cancel_left_eq] at hlist
    exact String.toList_injective hlist
  obtain ⟨hadmits, -⟩ := tokens_mean_what_is_stored hfree rfl rfl hreach
  exact ⟨s, hreach, (hadmits _ _ _ _).mp (of_decide_eq_true hok)⟩

end MailFallback.Tokens
