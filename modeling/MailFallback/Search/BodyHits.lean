import MailFallback.Search.Dovecot

/-! # Rows of the messages that a body search hits

The index hashes the Message-Id that the mail library reads in a file. The body search hashes
the one that a pattern finds in the header that Dovecot returns. -/

namespace MailFallback.Search

open Storage Effects Regex PyString Index DovecotTask

/-! ## What the pattern finds -/

/-- The text begins with the name of a Message-Id field, with a colon, and with a value in
brackets. The case of the name and the white space behind the colon do not matter. -/
def Bracketed (text inner : List Char) : Prop :=
  ∃ name space rest, text = name ++ (space ++ '<' :: (inner ++ '>' :: rest)) ∧
    name.map Char.toLower = "message-id:".toList ∧ (∀ c ∈ space, isByteSpace c = true) ∧
      ∀ c ∈ inner, isInsideBrackets c = true

/-- The first place of the text at which it goes on so. -/
def FirstBracketed (text inner : List Char) : Prop :=
  ∃ pre rest, text = pre ++ rest ∧ Bracketed rest inner ∧
    ∀ pre' rest', text = pre' ++ rest' → pre'.length < pre.length → ∀ i, ¬ Bracketed rest' i

def inBrackets (inner : List Char) : List Char := '<' :: (inner ++ ['>'])

variable {text inner inner' : List Char} {m m' : Place}

theorem Bracketed.unique (h : Bracketed text inner) (h' : Bracketed text inner') :
    inner = inner' := by
  obtain ⟨name, space, rest, rfl, hname, hspace, hinner⟩ := h
  obtain ⟨name', space', rest', heq, hname', hspace', hinner'⟩ := h'
  have hlength : name.length = name'.length := by
    rw [← List.length_map Char.toLower, hname, ← hname', List.length_map]
  obtain ⟨-, hrest⟩ := List.append_inj heq hlength
  obtain ⟨-, -, hrest⟩ := taken_unique hspace (by decide) hspace' (by decide) hrest
  exact (taken_unique hinner (by decide) hinner' (by decide) hrest).1

theorem FirstBracketed.unique (h : FirstBracketed text inner) (h' : FirstBracketed text inner') :
    inner = inner' := by
  obtain ⟨pre, rest, rfl, hhere, hearlier⟩ := h
  obtain ⟨pre', rest', heq, hhere', hearlier'⟩ := h'
  have hlength : pre.length = pre'.length := by
    rcases lt_trichotomy pre.length pre'.length with hlt | hlen | hlt
    · exact absurd hhere (hearlier' pre rest rfl hlt inner)
    · exact hlen
    · exact absurd hhere' (hearlier pre' rest' heq hlt inner')
  obtain ⟨-, rfl⟩ := List.append_inj heq hlength
  exact hhere.unique hhere'

theorem mem_run_messageIdRe (h : m' ∈ messageIdRe.run m) :
    ∃ inner, Bracketed m.rest inner ∧ m'.group 1 = inBrackets inner := by
  simp only [messageIdRe, Regex.all, mem_run_seq, mem_run_group] at h
  obtain ⟨m₁, h₁, m₂, h₂, m₃, ⟨m₄, h₄, m₅, h₅, h₆⟩, rfl⟩ := h
  obtain ⟨name, rest₁, hrest, hname, rfl⟩ := mem_run_text.mp h₁
  obtain ⟨space, rest₂, rfl, hspace, rfl⟩ := mem_run_star.mp h₂
  obtain ⟨rest₃, rfl, rfl⟩ := mem_run_lit.mp h₄
  obtain ⟨inner, rest₄, rfl, hinner, rfl⟩ := mem_run_star.mp h₅
  obtain ⟨rest₅, rfl, rfl⟩ := mem_run_lit.mp h₆
  refine ⟨inner, ⟨name, space, rest₅, hrest, hname.trans (by decide), hspace, hinner⟩, ?_⟩
  have htaken : ("<".toList ++ (inner ++ (">".toList ++ rest₅))) = inBrackets inner ++ rest₅ := by
    simp [inBrackets]
  simp only [Place.group, Place.move_rest, htaken, take_taken, List.lookup_cons_self,
    Option.getD_some]

theorem Bracketed.exists_match (h : Bracketed m.rest inner) : ∃ m', m' ∈ messageIdRe.run m := by
  obtain ⟨name, space, rest, hrest, hname, hspace, hinner⟩ := h
  have hfold : name.map Char.toLower = "message-id:".toList.map Char.toLower :=
    hname.trans (by decide)
  obtain ⟨m₁, hfield, hrest₁⟩ : ∃ m₁ ∈ (Regex.text Char.toLower "message-id:").run m,
      m₁.rest = space ++ '<' :: (inner ++ '>' :: rest) :=
    ⟨_, mem_run_text.mpr ⟨name, _, hrest, hfold, rfl⟩, rfl⟩
  obtain ⟨m₂, hvalue, hrest₂⟩ : ∃ m₂ ∈ (star isByteSpace).run m₁,
      m₂.rest = "<".toList ++ (inner ++ '>' :: rest) :=
    ⟨_, mem_run_star.mpr ⟨space, _, hrest₁, hspace, rfl⟩, rfl⟩
  obtain ⟨m₃, hbracket, hrest₃⟩ : ∃ m₃ ∈ (lit "<").run m₂, m₃.rest = inner ++ '>' :: rest :=
    ⟨_, mem_run_lit.mpr ⟨_, hrest₂, rfl⟩, rfl⟩
  obtain ⟨m₄, hinside, hrest₄⟩ : ∃ m₄ ∈ (star isInsideBrackets).run m₃,
      m₄.rest = ">".toList ++ rest :=
    ⟨_, mem_run_star.mpr ⟨inner, _, hrest₃, hinner, rfl⟩, rfl⟩
  have hend := mem_run_lit.mpr ⟨rest, hrest₄, rfl⟩
  exact ⟨_, mem_run_seq.mpr ⟨m₁, hfield, mem_run_seq.mpr ⟨m₂, hvalue, mem_run_group.mpr
    ⟨_, mem_run_seq.mpr ⟨m₃, hbracket, mem_run_seq.mpr ⟨m₄, hinside, hend⟩⟩, rfl⟩⟩⟩⟩

/-- What the search captures is the first value in brackets. -/
theorem search_messageIdRe_iff {captured : List Char} :
    (messageIdRe.search text).map (fun m => m.group 1) = some captured ↔
      ∃ inner, FirstBracketed text inner ∧ captured = inBrackets inner := by
  have hfound : ∀ m, messageIdRe.search text = some m →
      ∃ inner, FirstBracketed text inner ∧ m.group 1 = inBrackets inner := by
    intro m hm
    obtain ⟨pre, rest, hsplit, hmem, hearlier⟩ := mem_run_of_searchFrom hm
    obtain ⟨inner, hhere, hgroup⟩ := mem_run_messageIdRe hmem
    refine ⟨inner, ⟨pre, rest, hsplit, hhere, fun pre' rest' hsplit' hlt i hi => ?_⟩, hgroup⟩
    have hnone := hearlier pre' rest' hsplit' hlt
    obtain ⟨m', hm'⟩ := Bracketed.exists_match (m := ⟨true && pre'.isEmpty, rest', []⟩) hi
    rw [hnone] at hm'
    cases hm'
  rw [Option.map_eq_some_iff]
  constructor
  · rintro ⟨m, hm, rfl⟩
    exact hfound m hm
  · rintro ⟨inner, hinner, rfl⟩
    cases hsearch : messageIdRe.search text with
    | none =>
        obtain ⟨pre, rest, hsplit, hhere, -⟩ := hinner
        have hnone := searchFrom_eq_none.mp hsearch pre rest hsplit
        obtain ⟨m', hm'⟩ := Bracketed.exists_match (m := ⟨true && pre.isEmpty, rest, []⟩) hhere
        rw [hnone] at hm'
        cases hm'
    | some m =>
        obtain ⟨inner', hinner', hgroup⟩ := hfound m hsearch
        exact ⟨m, rfl, by rw [hgroup, hinner'.unique hinner]⟩

/-! ## Messages of the index -/

/-- A field of a header as it stands in the file, with the line breaks at which it is folded. -/
structure HeaderField where
  name : String
  body : String
  deriving DecidableEq, Repr

/-- What Dovecot returns for `BODY[HEADER.FIELDS (MESSAGE-ID)]`. -/
def messageIdFields (fields : List HeaderField) : List Char :=
  (fields.filter fun f => f.name.toLower = "message-id").flatMap (fun f =>
    f.name.toList ++ ':' :: (f.body.toList ++ ['\r', '\n'])) ++ ['\r', '\n']

def fetchedItem (metadata : String) (fields : List HeaderField) : FetchItem :=
  .pair metadata (String.ofList (messageIdFields fields))

theorem parse_fetchedItem {metadata msgid : String} {fields : List HeaderField} :
    parseMessageIdFromFetch (fetchedItem metadata fields) = some msgid ↔
      ∃ inner, FirstBracketed (messageIdFields fields) inner ∧
        msgid = decodeAscii (inBrackets inner) := by
  have hcaptured := @search_messageIdRe_iff (messageIdFields fields)
  simp only [Option.map_eq_some_iff] at hcaptured
  rw [fetchedItem, parseMessageIdFromFetch, String.toList_ofList, Option.map_eq_some_iff]
  constructor
  · rintro ⟨m, hm, rfl⟩
    obtain ⟨inner, hinner, hgroup⟩ := hcaptured.mp ⟨m, hm, rfl⟩
    exact ⟨inner, hinner, by rw [hgroup]⟩
  · rintro ⟨inner, hinner, rfl⟩
    obtain ⟨m, hm, hgroup⟩ := hcaptured.mpr ⟨inner, hinner, rfl⟩
    exact ⟨m, hm, by rw [hgroup]⟩

variable {C H : Type} {reader : Reader C H} {headers : C → List HeaderField} {content : C}

/-- The Message-Id without its brackets: what is hashed. -/
def bareId (msgid : String) : String := rstrip (lstrip (strip msgid) '<') '>'

/-- The Message-Id that the mail library reads, if there is one. -/
def indexedId (reader : Reader C H) (content : C) : Option String :=
  let msgid := if given (reader.get content "Message-Id") then reader.get content "Message-Id"
    else reader.get content "Message-ID"
  if given msgid = false then none else some (strip (msgid.getD ""))

/-- The row of the message is under the hash that the body search reads. -/
def FindsRow (reader : Reader C H) (headers : C → List HeaderField) (content : C) : Prop :=
  ∀ parsed, parseHeaders reader (some content) = some parsed → ∀ metadata,
    (parseMessageIdFromFetch (fetchedItem metadata (headers content))).map (hashMessageId reader) =
      some parsed.messageIdHash

/-- The first value in brackets is the Message-Id; brackets at its ends do not count. -/
def ReadAlike (fields : List HeaderField) (msgid : String) : Prop :=
  ∃ inner, FirstBracketed (messageIdFields fields) inner ∧
    bareId (decodeAscii (inBrackets inner)) = bareId msgid

/-- No other text of the fields has the digest of the Message-Id. -/
def Unmistaken (reader : Reader C H) (fields : List HeaderField) (msgid : String) : Prop :=
  ∀ inner, inner <:+: messageIdFields fields →
    hashMessageId reader (decodeAscii (inBrackets inner)) = hashMessageId reader msgid →
      bareId (decodeAscii (inBrackets inner)) = bareId msgid

theorem hashMessageId_eq (msgid : String) :
    hashMessageId reader msgid = reader.sha1 (bareId msgid) := rfl

theorem parseHeaders_of_indexedId :
    (parseHeaders reader (some content)).map Parsed.messageIdHash =
      (indexedId reader content).map (hashMessageId reader) := by
  unfold parseHeaders indexedId
  dsimp only
  generalize (if given (reader.get content "Message-Id") then reader.get content "Message-Id"
    else reader.get content "Message-ID") = msgid
  cases given msgid <;> rfl

theorem FirstBracketed.infix (h : FirstBracketed text inner) : inner <:+: text := by
  obtain ⟨pre, rest, rfl, ⟨name, space, rest', rfl, -, -, -⟩, -⟩ := h
  exact ⟨pre ++ (name ++ (space ++ ['<'])), '>' :: rest', by simp⟩

theorem decodeAscii_of_ascii {cs : List Char} (h : ∀ c ∈ cs, c.toNat < 128) :
    decodeAscii cs = String.ofList cs := by
  have hmap : (cs.map fun c => if c.toNat < 128 then c else '\uFFFD') = cs.map id :=
    List.map_congr_left fun c hc => if_pos (h c hc)
  rw [decodeAscii, hmap, List.map_id]

/-- A value in brackets is read as it stands, folded or not. -/
theorem readAlike_of_brackets {fields : List HeaderField} (field : HeaderField)
    (space inner rest : List Char)
    (hfirst : (fields.filter fun f => f.name.toLower = "message-id").head? = some field)
    (hbody : field.body.toList = space ++ '<' :: (inner ++ '>' :: rest))
    (hspace : ∀ c ∈ space, isByteSpace c = true)
    (hinner : ∀ c ∈ inner, isInsideBrackets c = true ∧ c.toNat < 128) :
    ReadAlike fields (String.ofList (inBrackets inner)) := by
  obtain ⟨others, hfields⟩ := List.head?_eq_some_iff.mp hfirst
  have hfield : field ∈ fields.filter fun f => f.name.toLower = "message-id" := by
    rw [hfields]
    exact List.mem_cons_self
  have hname : field.name.toList.map Char.toLower = "message-id".toList := by
    have hlower := of_decide_eq_true (List.mem_filter.mp hfield).2
    have hmap : field.name.toLower = field.name.map Char.toLower := rfl
    rw [← hlower, hmap, String.toList_map]
  refine ⟨inner, ⟨[], messageIdFields fields, rfl, ⟨field.name.toList ++ [':'], space, ?_⟩,
    fun _ _ _ hlt => absurd hlt (Nat.not_lt_zero _)⟩, ?_⟩
  · refine ⟨rest ++ ['\r', '\n'] ++ (others.flatMap fun f =>
      f.name.toList ++ ':' :: (f.body.toList ++ ['\r', '\n'])) ++ ['\r', '\n'], ?_, ?_, hspace,
      fun c hc => (hinner c hc).1⟩
    · rw [messageIdFields, hfields, List.flatMap_cons, hbody]
      simp
    · rw [List.map_append, hname]
      decide
  · rw [decodeAscii_of_ascii]
    intro c hc
    simp only [inBrackets, List.mem_cons, List.mem_append, List.not_mem_nil, or_false] at hc
    rcases hc with rfl | hc | rfl
    · decide
    · exact (hinner c hc).2
    · decide

/-- The body search finds the row of a message exactly if its first Message-Id in brackets is
the one that is indexed. -/
theorem findsRow_iff
    (hdigest : ∀ msgid, indexedId reader content = some msgid →
      Unmistaken reader (headers content) msgid) :
    FindsRow reader headers content ↔
      ∀ msgid, indexedId reader content = some msgid → ReadAlike (headers content) msgid := by
  have hindexed := @parseHeaders_of_indexedId C H reader content
  constructor
  · intro h msgid hmsgid
    rw [hmsgid, Option.map_some, Option.map_eq_some_iff] at hindexed
    obtain ⟨parsed, hparsed, hhash⟩ := hindexed
    have hfound := h parsed hparsed ""
    rw [hhash, Option.map_eq_some_iff] at hfound
    obtain ⟨found, hfound, hsame⟩ := hfound
    obtain ⟨inner, hinner, rfl⟩ := parse_fetchedItem.mp hfound
    exact ⟨inner, hinner, hdigest _ hmsgid inner hinner.infix hsame⟩
  · intro h parsed hparsed metadata
    rw [hparsed, Option.map_some, eq_comm, Option.map_eq_some_iff] at hindexed
    obtain ⟨msgid, hmsgid, hhash⟩ := hindexed
    obtain ⟨inner, hinner, hbare⟩ := h msgid hmsgid
    have hfound : parseMessageIdFromFetch (fetchedItem metadata (headers content)) =
        some (decodeAscii (inBrackets inner)) := parse_fetchedItem.mpr ⟨inner, hinner, rfl⟩
    rw [hfound, Option.map_some, hashMessageId_eq, hbare, ← hhash, hashMessageId_eq]

section Sample

/-- A mail library that reads the first field, and a digest that is the text itself. -/
def headerReader : Reader (List HeaderField) String where
  get fields _ := fields.head?.map fun f => strip f.body
  getAll _ _ := []
  getaddresses _ := []
  parsedate _ := none
  getsize := List.length
  parseAttachments _ := none
  sha1 := id

theorem unmistaken_headerReader (fields : List HeaderField) (msgid : String) :
    Unmistaken headerReader fields msgid := fun _ _ h => h

theorem indexedId_folded :
    indexedId headerReader [⟨"message-ID", "\r\n <abc@x>"⟩] = some "<abc@x>" := by
  decide +kernel

theorem readAlike_folded : ReadAlike [⟨"message-ID", "\r\n <abc@x>"⟩] "<abc@x>" := by
  have hspace : ['\r', '\n', ' '].all isByteSpace = true := by decide
  have hinner : "abc@x".toList.all (fun c => isInsideBrackets c && decide (c.toNat < 128)) =
      true := by decide
  refine readAlike_of_brackets ⟨"message-ID", "\r\n <abc@x>"⟩ ['\r', '\n', ' '] "abc@x".toList []
    (by decide +kernel) (by decide) (List.all_eq_true.mp hspace) fun c hc => ?_
  have hc := List.all_eq_true.mp hinner c hc
  rwa [Bool.and_eq_true, decide_eq_true_eq] at hc

theorem findsRow_folded : FindsRow headerReader id [⟨"message-ID", "\r\n <abc@x>"⟩] := by
  refine (findsRow_iff fun _ _ => unmistaken_headerReader _ _).mpr fun msgid hmsgid => ?_
  obtain rfl := Option.some.inj (indexedId_folded.symm.trans hmsgid)
  exact readAlike_folded

/-- A Message-Id without brackets is indexed, and the pattern finds none. -/
theorem not_findsRow : ¬ FindsRow headerReader id [⟨"Message-ID", " abc@x"⟩] := by
  intro h
  have hindexed : indexedId headerReader [⟨"Message-ID", " abc@x"⟩] = some "abc@x" := by
    decide +kernel
  have hnone : parseMessageIdFromFetch (fetchedItem "" [⟨"Message-ID", " abc@x"⟩]) = none := by
    decide +kernel
  have hhash := @parseHeaders_of_indexedId _ _ headerReader [⟨"Message-ID", " abc@x"⟩]
  rw [hindexed, Option.map_some, Option.map_eq_some_iff] at hhash
  obtain ⟨parsed, hparsed, -⟩ := hhash
  have hfound := h parsed hparsed ""
  simp only [id_eq, hnone, Option.map_none] at hfound
  cases hfound

end Sample

/-! ## Runs of the body search -/

section Runs

/-- The items of the answers are kept; whatever else Dovecot answers changes nothing. -/
def fetchLog : Machine DovecotOp DovecotOp.Reply Unit (List FetchItem)
  | .uidFetch .., items, .ok (some fetched) => some (items ++ fetched)
  | _, items, _ => some items

variable {α : Type} {items : List FetchItem} {matched : List H} {deadline : ℕ} {keyword : String}

theorem matchedHashes_append (xs ys : List FetchItem) :
    matchedHashes reader (xs ++ ys) = matchedHashes reader xs ++ matchedHashes reader ys := by
  simp only [matchedHashes, List.filterMap_append, List.filter_append, List.map_append]

/-- What has matched are the hashes of the items that were fetched. -/
abbrev Exactly (reader : Reader C H) (p : DovecotTask (Matched H)) (items : List FetchItem) : Prop :=
  Safe fetchLog .free (fun found items => found.1 = matchedHashes reader items) (fun _ _ => True)
    p items

theorem exactly_ret {late : Bool} (h : matched = matchedHashes reader items) :
    Exactly reader (pure (matched, late)) items := ⟨trivial, h⟩

/-- An operation that fetches nothing. -/
def Quiet (o : DovecotOp) : Prop := ∀ r items, fetchLog o items r = some items

theorem quiet_safe {p : DovecotTask α} (hp : p.Only Quiet) (items : List FetchItem) :
    Safe fetchLog .free (fun _ s => s = items) (fun _ s => s = items) p items :=
  hp.safe (fun _ r s s' ho hs h => by rw [← hs]; exact (Option.some.inj ((ho r s).symm.trans h)).symm)
    rfl

/-- Behind what fetches nothing. -/
theorem exactly_bind {p : DovecotTask α} {f : α → DovecotTask (Matched H)} (hp : p.Only Quiet)
    (hf : ∀ a, Exactly reader (f a) items) : Exactly reader (p.bind f) items := by
  apply Safe.bind
  refine (quiet_safe hp items).post ?_ fun _ _ _ _ => trivial
  rintro a s - rfl
  exact hf a

theorem exactly_bind_matched {p : DovecotTask (Matched H)}
    {f : Matched H → DovecotTask (Matched H)} (hp : Exactly reader p items)
    (hf : ∀ found items, found.1 = matchedHashes reader items → Exactly reader (f found) items) :
    Exactly reader (p.bind f) items := by
  apply Safe.bind
  exact hp.post (fun found s _ h => hf found s h) fun _ _ _ _ => trivial

theorem quiet_attempt {p : DovecotTask α} (hp : p.Only Quiet) : (attempt p).Only Quiet :=
  Prog.Only.handle (Prog.Only.bind hp fun _ => trivial) fun _ => trivial

theorem fetch_safe (uids wanted : String) (items : List FetchItem) :
    Safe fetchLog .free (fun r s => s = items ++ (r.getD none).getD []) (fun _ _ => True)
      (attempt (uidFetch uids wanted)) items := by
  refine ⟨trivial, trivial, fun r s' hr => ?_⟩
  cases r with
  | error e => exact ⟨trivial, (Option.some.inj hr).symm.trans (List.append_nil _).symm⟩
  | ok answer =>
      cases answer with
      | none => exact ⟨trivial, (Option.some.inj hr).symm.trans (List.append_nil _).symm⟩
      | some fetched => exact ⟨trivial, (Option.some.inj hr).symm⟩

theorem exactly_searchBatches (batches : List (List String))
    (h : matched = matchedHashes reader items) :
    Exactly reader (searchBatches reader deadline matched batches) items := by
  induction batches generalizing matched items with
  | nil => exact exactly_ret h
  | cons batch batches ih =>
      rw [searchBatches]
      refine exactly_bind (Prog.Only.op fun _ _ => rfl) fun now => ?_
      split
      · exact exactly_ret h
      · apply Safe.bind
        refine (fetch_safe _ _ items).post ?_ fun _ _ _ _ => trivial
        rintro r s - rfl
        cases r with
        | none => exact exactly_ret (by rw [h]; simp)
        | some fetched => exact ih (by rw [matchedHashes_append, h]; rfl)

theorem exactly_searchFolder {pre folder : String} (h : matched = matchedHashes reader items) :
    Exactly reader (searchFolder reader deadline keyword pre matched folder) items := by
  rw [searchFolder]
  refine exactly_bind (quiet_attempt ?_) fun uids => ?_
  · refine Prog.Only.bind (Prog.Only.op fun _ _ => rfl) fun ok => ?_
    split
    · trivial
    · split <;> exact Prog.Only.op fun _ _ => rfl
  · split
    · exact exactly_searchBatches _ h
    · exact exactly_ret h

theorem exactly_searchFolders {pre : String} (folders : List String)
    (h : matched = matchedHashes reader items) :
    Exactly reader (searchFolders reader deadline keyword pre matched folders) items := by
  induction folders generalizing matched items with
  | nil => exact exactly_ret h
  | cons folder folders ih =>
      rw [searchFolders]
      refine exactly_bind (Prog.Only.op fun _ _ => rfl) fun now => ?_
      split
      · exact exactly_ret h
      · refine exactly_bind_matched (exactly_searchFolder h) fun found items hfound => ?_
        split
        · exact ⟨trivial, hfound⟩
        · exact ih hfound

theorem exactly_andLogOut {p : DovecotTask (Matched H)} (hp : Exactly reader p items) :
    Exactly reader (andLogOut p) items := by
  have hend : (do
      suppress logout
      suppress deleteTempImapUser : DovecotTask Unit).Only Quiet :=
    Prog.Only.bind (Prog.Only.handle (Prog.Only.op fun _ _ => rfl) fun _ => trivial) fun _ =>
      Prog.Only.handle (Prog.Only.op fun _ _ => rfl) fun _ => trivial
  apply Safe.ensure
  refine hp.post ?_ ?_
  · intro found s _ hfound
    refine (quiet_safe hend s).post ?_ fun _ _ _ _ => trivial
    rintro _ _ - rfl
    exact hfound
  · intro _ s _ _
    exact (quiet_safe hend s).post (fun _ _ _ _ => trivial) fun _ _ _ _ => trivial

theorem exactly_searchAccount {accountId : Id} {account : Account}
    (h : matched = matchedHashes reader items) :
    Exactly reader (searchAccount reader deadline keyword matched accountId account) items := by
  rw [searchAccount]
  refine exactly_bind (Prog.Only.op fun _ _ => rfl) fun folders => ?_
  split
  · exact exactly_ret h
  · refine exactly_bind (quiet_attempt (Prog.Only.op fun _ _ => rfl)) fun connected => ?_
    cases connected with
    | none => exact exactly_ret h
    | some _ => exact exactly_andLogOut (exactly_searchFolders folders h)

theorem exactly_searchAccounts (accountIds : List Id) (h : matched = matchedHashes reader items) :
    Exactly reader (searchAccounts reader deadline keyword matched accountIds) items := by
  induction accountIds generalizing matched items with
  | nil => exact exactly_ret h
  | cons accountId accountIds ih =>
      rw [searchAccounts]
      refine exactly_bind (Prog.Only.op fun _ _ => rfl) fun now => ?_
      split
      · exact exactly_ret h
      · refine exactly_bind (Prog.Only.op fun _ _ => rfl) fun account => ?_
        cases account with
        | none => exact ih h
        | some account =>
            refine exactly_bind_matched (exactly_searchAccount h) fun found items hfound => ?_
            split
            · exact ⟨trivial, hfound⟩
            · exact ih hfound

/-- Whatever Dovecot answers, a body search finds the Message-Ids of the items it fetched. -/
theorem exactly_dovecotBodySearch (accountIds : List Id) :
    Exactly reader (dovecotBodySearch reader accountIds keyword deadline) [] := by
  unfold dovecotBodySearch
  dsimp only
  split
  · exact exactly_ret rfl
  · exact exactly_searchAccounts accountIds rfl

/-- The row of a message is among what a body search finds once its header was fetched. -/
theorem mem_dovecotBodySearch {accountIds : List Id} {found : Matched H} {metadata : String}
    {parsed : Parsed H}
    (hrun : Returns fetchLog (dovecotBodySearch reader accountIds keyword deadline) [] found items)
    (hfetched : fetchedItem metadata (headers content) ∈ items)
    (hparsed : parseHeaders reader (some content) = some parsed)
    (hfinds : FindsRow reader headers content) : parsed.messageIdHash ∈ found.1 := by
  obtain ⟨tr, hrun⟩ := hrun
  have hfound : found.1 = matchedHashes reader items :=
    ((exactly_dovecotBodySearch accountIds).run hrun).2
  obtain ⟨msgid, hmsgid, hhash⟩ := Option.map_eq_some_iff.mp (hfinds parsed hparsed metadata)
  obtain ⟨inner, -, hinner⟩ := parse_fetchedItem.mp hmsgid
  have hgiven : msgid ≠ "" := by
    rw [hinner, decodeAscii, inBrackets, List.map_cons]
    exact fun h => by simpa using congrArg String.toList h
  rw [hfound, matchedHashes, ← hhash]
  exact List.mem_map_of_mem (List.mem_filter.mpr
    ⟨List.mem_filterMap.mpr ⟨_, hfetched, hmsgid⟩, decide_eq_true hgiven⟩)

end Runs

end MailFallback.Search
