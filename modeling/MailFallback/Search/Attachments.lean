import MailFallback.Access.Agreement
import MailFallback.Search.Semantics
import MailFallback.Snapshots.Renames

/-! # Attachments and their numbers

The index numbers the leaves of a message and keeps a row for each with a file name; a download
walks the message again to the leaf with the number. The bytes come from the live file or from
a snapshot, and both reads stop at a cap. -/

namespace MailFallback.Downloads

open Storage Query PyString Index Snapshots Access Search

/-! ## Messages as trees -/

/-- What is asked of a part. An exception is an error. -/
structure PartInfo where
  /-- `get_content_maintype` -/
  maintype : Except Unit String
  filename : Except Unit (Option String)
  /-- `get_payload(decode=True)` -/
  payload : Except Unit (Option (List UInt8))
  contentType : Except Unit String

/-- A message within a message is a part with one part. -/
inductive Part where
  | node (info : PartInfo) (parts : List Part)

mutual

/-- `msg.walk()` -/
def Part.walk : Part → List PartInfo
  | .node info parts => info :: Part.walkAll parts

def Part.walkAll : List Part → List PartInfo
  | [] => []
  | part :: parts => part.walk ++ Part.walkAll parts

end

inductive ParseFailure where
  | value
  | other

/-- The parser, and the text that Tika extracts where it is enabled. -/
structure Mime where
  parse : List UInt8 → Except ParseFailure Part
  extractText : Option (List UInt8 → String → Option String) := none

/-! ## The index -/

def tikaMaxPartBytes : ℕ := 20971520

/-- `filename.rsplit(".", 1)[-1].lower()`, where there is a dot. -/
def extOf (filename : String) : String :=
  if '.' ∈ filename.toList then (String.ofList (lastField '.' filename.toList)).toLower else ""

def contentText (mime : Mime) (payload : Option (List UInt8)) (contentType : String) : Option String :=
  mime.extractText.bind fun extract =>
    (payload.filter fun bytes => decide (bytes.length ≤ tikaMaxPartBytes)).bind fun bytes =>
      extract bytes contentType

/-- The leaves so far, and the rows. -/
abbrev Numbered := ℕ × List Attachment

def numberPart (mime : Mime) (numbered : Numbered) (part : PartInfo) : Except Unit Numbered := do
  let maintype ← part.maintype
  if maintype = "multipart" then pure numbered
  else
    let filename ← part.filename
    match filename.filter fun name => decide (name ≠ "") with
    | none => pure (numbered.1 + 1, numbered.2)
    | some filename =>
        let payload := part.payload.toOption.join
        let contentType ← part.contentType
        pure (numbered.1 + 1, numbered.2 ++ [
          { partIndex := numbered.1 + 1
            filename := filename
            ext := extOf filename
            sizeBytes := payload.map List.length
            contentType := contentType
            contentText := contentText mime payload contentType }])

/-- `_parse_attachments`; a file that cannot be read has no content. -/
def parseAttachments (mime : Mime) (content : Option (List UInt8)) :
    Except Unit (Option (List Attachment)) :=
  match content with
  | none => .ok none
  | some raw =>
      match mime.parse raw with
      | .error .value => .ok none
      | .error .other => .error ()
      | .ok tree => .ok ((tree.walk.foldlM (numberPart mime) (0, [])).toOption.map Prod.snd)

/-! ## The bytes of a message -/

/-- The disk and the repository of the account. -/
structure Sources where
  listdir : String → List String
  /-- The content of a file that can be read. -/
  file : String → Option (List UInt8)
  /-- There is a backup policy. -/
  hasPolicy : Bool
  restic : Restic
  /-- What `restic dump` prints; nothing where it fails. -/
  dump : String → String → Except String (Option (List UInt8))

/-- `restic_service.dump_file` -/
def dumpFile (sources : Sources) (maxBytes : ℕ) (snapshotId path : String) :
    Except String (Option (List UInt8)) := do
  let stdout ← sources.dump snapshotId path
  pure ((stdout.filter fun bytes => !bytes.isEmpty).map fun bytes => bytes.take maxBytes)

/-- The first of the dumps that is not empty, with its snapshot. -/
def firstDump (sources : Sources) (maxBytes : ℕ) :
    List (String × String) → Except String (Option (List UInt8 × String))
  | [] => pure none
  | (sid, path) :: rest => do
      let dumped ← dumpFile sources maxBytes sid path
      match dumped.filter fun bytes => !bytes.isEmpty with
      | some bytes => pure (some (bytes, sid))
      | none => firstDump sources maxBytes rest

def maxSnapshotAttempts : ℕ := 3

/-- The snapshots to look into, the newest first. -/
def matchingSnapshots (snapshots : List SnapshotEntry) (snapIds : List String) : List String :=
  (snapshots.map SnapshotEntry.sid).filter fun sid => sid ∈ snapIds

/-- The paths under the name that the index knows. -/
def exactPaths (maildirPath : String) (row : MessageRow) (sids : List String) :
    List (String × String) :=
  (sids.take maxSnapshotAttempts).flatMap fun sid =>
    (messageDirs maildirPath row.folderPath).map fun d => (sid, Posix.join d row.maildirFilename)

def hasStablePrefix (row : MessageRow) (path : String) : Bool :=
  (has path "/cur/" || has path "/new/") &&
    decide (maildirFilenamePrefix (String.ofList (lastField '/' path.toList)) =
      maildirFilenamePrefix row.maildirFilename)

/-- The body of `_snapshot_bytes` within its `try`. -/
def searchSnapshots (sources : Sources) (maxBytes : ℕ) (maildirPath : String) (row : MessageRow)
    (snapIds : List String) : Except String (Option (List UInt8 × String)) := do
  let snapshots ← sources.restic.snapshots
  let sids := matchingSnapshots snapshots snapIds
  let found ← firstDump sources maxBytes (exactPaths maildirPath row sids)
  match found, sids with
  | some found, _ => pure (some found)
  | none, [] => pure none
  | none, sid :: _ =>
      let paths ← sources.restic.listFiles sid
      firstDump sources maxBytes ((paths.filter (hasStablePrefix row)).map fun path => (sid, path))

/-- `_snapshot_bytes` -/
def snapshotBytes (sources : Sources) (maxBytes : ℕ) (maildirPath : String) (row : MessageRow)
    (snapIds : List String) : Option (List UInt8 × String) :=
  if sources.hasPolicy = true ∧ snapIds ≠ [] then
    (searchSnapshots sources maxBytes maildirPath row snapIds).toOption.join
  else none

/-- The live file first, then the snapshots. -/
def messageSource (sources : Sources) (cap : ℕ) (maildirPath : String) (row : MessageRow)
    (snapIds : List String) : Option (List UInt8 × String) :=
  let live :=
    if row.deletedAt = none then
      ((locateLiveFile sources.listdir maildirPath row).bind sources.file).map fun content =>
        content.take cap
    else none
  match live with
  | some raw => some (raw, "live")
  | none => (snapshotBytes sources cap maildirPath row snapIds).map fun found =>
      (found.1, "snapshot:" ++ found.2)

/-! ## The download -/

/-- The leaf with the number, unless the walk raises before it. -/
def findLeaf (partIndex : ℕ) : ℕ → List PartInfo → Option PartInfo
  | _, [] => none
  | leafIndex, part :: parts =>
      match part.maintype with
      | .error _ => none
      | .ok maintype =>
          if maintype = "multipart" then findLeaf partIndex leafIndex parts
          else if leafIndex + 1 = partIndex then some part
          else findLeaf partIndex (leafIndex + 1) parts

variable {H : Type} [DecidableEq H]

/-- How the rows of the queries come back. -/
structure AttachmentOrders (H : Type) where
  attachments : Unordered (MessageKey H × Attachment)
  messages : Unordered (MessageKey H × MessageRow)
  snapshots : Unordered (SnapshotMessage H)

def snapIdsOf (orders : AttachmentOrders H) (db : SearchDb H) (key : MessageKey H) : List String :=
  (orders.snapshots.list (db.snapshotMessages.filter fun r => r.accountId = key.1 ∧ r.messageIdHash = key.2)).map
    SnapshotMessage.snapshotId

/-- The payload of a part, when it can be decoded. -/
def extractPart (mime : Mime) (raw : List UInt8) (partIndex : ℕ) : Except HttpError (List UInt8) :=
  match (mime.parse raw).toOption.bind fun tree => findLeaf partIndex 0 tree.walk with
  | none => .error ⟨404, "Attachment part not found"⟩
  | some part =>
      match part.payload.toOption.join with
      | none => .error ⟨404, "Attachment part not decodable"⟩
      | some payload => .ok payload

/-- `extract_attachment_bytes`: the payload, the file name and where the bytes come from. -/
def extractAttachmentBytes (mime : Mime) (sources : Sources) (orders : AttachmentOrders H) (cap : ℕ)
    (db : SearchDb H) (maildirPath : String) (key : MessageKey H) (partIndex : ℕ) : Except HttpError (List UInt8 × String × String) :=
  match (orders.attachments.list (db.attachments.filter fun r =>
      r.1 = key ∧ r.2.partIndex = partIndex)).head? with
  | none => .error ⟨404, "Attachment not found"⟩
  | some att =>
      match (orders.messages.list (db.messages.filter fun r => r.1 = key)).head? with
      | none => .error ⟨404, "Message not found"⟩
      | some row =>
          match messageSource sources cap maildirPath row.2 (snapIdsOf orders db key) with
          | none => .error ⟨404, "Message bytes not found"⟩
          | some (raw, source) =>
              if cap ≤ raw.length then .error ⟨502, "attachment too large to extract"⟩
              else (extractPart mime raw partIndex).map fun payload =>
                (payload, att.2.filename, source)

/-! ## The numbers agree -/

/-- The parts that are numbered. -/
def leaves (parts : List PartInfo) : List PartInfo :=
  parts.filter fun part => match part.maintype with
    | .ok maintype => decide (maintype ≠ "multipart")
    | .error _ => true

theorem leaves_cons_multipart {part : PartInfo} (h : part.maintype = .ok "multipart")
    (parts : List PartInfo) : leaves (part :: parts) = leaves parts := by
  simp [leaves, h]

theorem leaves_cons_leaf {part : PartInfo} {maintype : String} (h : part.maintype = .ok maintype)
    (hleaf : maintype ≠ "multipart") (parts : List PartInfo) :
    leaves (part :: parts) = part :: leaves parts := by
  simp [leaves, h, hleaf]

/-- The leaf with the number, when the first of these has the number after `start`. -/
def NthLeaf (parts : List PartInfo) (start partIndex : ℕ) (leaf : PartInfo) : Prop :=
  ∃ n, partIndex = start + n + 1 ∧ (leaves parts)[n]? = some leaf

variable {part leaf : PartInfo} {parts : List PartInfo} {start partIndex : ℕ} {maintype : String}

theorem nthLeaf_multipart (h : part.maintype = .ok "multipart") :
    NthLeaf (part :: parts) start partIndex leaf ↔ NthLeaf parts start partIndex leaf := by
  rw [NthLeaf, leaves_cons_multipart h, NthLeaf]

theorem NthLeaf.head (h : part.maintype = .ok maintype) (hleaf : maintype ≠ "multipart") :
    NthLeaf (part :: parts) start (start + 1) part :=
  ⟨0, rfl, by rw [leaves_cons_leaf h hleaf, List.getElem?_cons_zero]⟩

theorem NthLeaf.tail (h : part.maintype = .ok maintype) (hleaf : maintype ≠ "multipart")
    (hn : NthLeaf parts (start + 1) partIndex leaf) :
    NthLeaf (part :: parts) start partIndex leaf := by
  obtain ⟨n, hpart, hget⟩ := hn
  refine ⟨n + 1, by omega, ?_⟩
  rw [leaves_cons_leaf h hleaf, List.getElem?_cons_succ]
  exact hget

theorem findLeaf_nth (h : findLeaf partIndex start parts = some leaf) :
    NthLeaf parts start partIndex leaf := by
  induction parts generalizing start with
  | nil => cases h
  | cons part parts ih =>
      unfold findLeaf at h
      cases hmaintype : part.maintype with
      | error e =>
          rw [hmaintype] at h
          cases h
      | ok maintype =>
          rw [hmaintype] at h
          dsimp only at h
          split at h
          · rename_i hmultipart
            exact (nthLeaf_multipart (hmultipart ▸ hmaintype)).mpr (ih h)
          · rename_i hleaf
            split at h
            · rename_i hnumber
              obtain rfl := Option.some.inj h
              exact hnumber ▸ NthLeaf.head hmaintype hleaf
            · exact (ih h).tail hmaintype hleaf

/-- The row says how the leaf with its number is called. -/
def Names (parts : List PartInfo) (start : ℕ) (att : Attachment) : Prop :=
  ∃ leaf, NthLeaf parts start att.partIndex leaf ∧ leaf.filename = .ok (some att.filename)

/-- What one part does to the numbers and the rows. -/
theorem numberPart_cases {mime : Mime} {numbered numbered' : Numbered}
    (h : numberPart mime numbered part = .ok numbered') :
    (part.maintype = .ok "multipart" ∧ numbered' = numbered) ∨
      ∃ maintype, part.maintype = .ok maintype ∧ maintype ≠ "multipart" ∧
        numbered'.1 = numbered.1 + 1 ∧ ∀ att ∈ numbered'.2, att ∈ numbered.2 ∨
          att.partIndex = numbered.1 + 1 ∧ part.filename = .ok (some att.filename) := by
  unfold numberPart at h
  cases hmaintype : part.maintype with
  | error e =>
      rw [hmaintype] at h
      cases h
  | ok maintype =>
      rw [hmaintype] at h
      by_cases hmultipart : maintype = "multipart"
      · change (if maintype = "multipart" then _ else _) = _ at h
        rw [if_pos hmultipart] at h
        exact .inl ⟨congrArg Except.ok hmultipart, (Except.ok.inj h).symm⟩
      · change (if maintype = "multipart" then _ else _) = _ at h
        rw [if_neg hmultipart] at h
        refine .inr ⟨maintype, rfl, hmultipart, ?_⟩
        cases hfilename : part.filename with
        | error e =>
            rw [hfilename] at h
            cases h
        | ok filename =>
            rw [hfilename] at h
            dsimp only [bind, Except.bind] at h
            split at h
            · obtain rfl := Except.ok.inj h
              exact ⟨rfl, fun att hatt => .inl hatt⟩
            · rename_i name hname
              obtain ⟨hname, -⟩ := Option.filter_eq_some_iff.mp hname
              cases hcontentType : part.contentType with
              | error e =>
                  rw [hcontentType] at h
                  cases h
              | ok contentType =>
                  rw [hcontentType] at h
                  obtain rfl := Except.ok.inj h
                  refine ⟨rfl, fun att hatt => (List.mem_append.mp hatt).imp_right fun hlast => ?_⟩
                  rw [List.mem_singleton.mp hlast, hname]
                  exact ⟨rfl, rfl⟩

/-- The rows of a walk name the leaves with their numbers. -/
theorem names_of_walk {mime : Mime} {numbered numbered' : Numbered}
    (h : parts.foldlM (numberPart mime) numbered = .ok numbered') :
    ∀ att ∈ numbered'.2, att ∈ numbered.2 ∨ Names parts numbered.1 att := by
  induction parts generalizing numbered with
  | nil =>
      obtain rfl := Except.ok.inj h
      exact fun att hatt => .inl hatt
  | cons part parts ih =>
      rw [List.foldlM_cons] at h
      cases hpart : numberPart mime numbered part with
      | error e =>
          rw [hpart] at h
          cases h
      | ok next =>
          rw [hpart] at h
          intro att hatt
          obtain ⟨hmultipart, rfl⟩ | ⟨maintype, hmaintype, hleaf, hnext, hrows⟩ :=
            numberPart_cases hpart
          · obtain hold | ⟨leaf, hnth, hname⟩ := ih h att hatt
            · exact .inl hold
            · exact .inr ⟨leaf, (nthLeaf_multipart hmultipart).mpr hnth, hname⟩
          · obtain hold | ⟨leaf, hnth, hname⟩ := ih h att hatt
            · obtain hold | ⟨hnumber, hname⟩ := hrows att hold
              · exact .inl hold
              · exact .inr ⟨part, hnumber ▸ NthLeaf.head hmaintype hleaf, hname⟩
            · rw [hnext] at hnth
              exact .inr ⟨leaf, hnth.tail hmaintype hleaf, hname⟩

theorem NthLeaf.unique {leaf' : PartInfo} (h : NthLeaf parts start partIndex leaf)
    (h' : NthLeaf parts start partIndex leaf') : leaf = leaf' := by
  obtain ⟨n, hn, hget⟩ := h
  obtain ⟨n', hn', hget'⟩ := h'
  obtain rfl : n = n' := by omega
  exact Option.some.inj (hget.symm.trans hget')

/-! ## The bytes agree -/

/-- What the files and the dumps of a message hold: the name without its flags tells the
messages apart, and all copies hold the same bytes. -/
structure Copies (sources : Sources) (maildirPath : String) (row : MessageRow)
    (bytes : List UInt8) : Prop where
  live : ∀ d ∈ messageDirs maildirPath row.folderPath, ∀ fn ∈ sources.listdir d,
    maildirFilenamePrefix fn = maildirFilenamePrefix row.maildirFilename →
    ∀ content, sources.file (Posix.join d fn) = some content → content = bytes
  exact : ∀ sid, ∀ d ∈ messageDirs maildirPath row.folderPath, ∀ content,
    sources.dump sid (Posix.join d row.maildirFilename) = .ok (some content) → content = bytes
  located : ∀ sid path content, hasStablePrefix row path = true →
    sources.dump sid path = .ok (some content) → content = bytes

theorem of_locateLiveFile {listdir : String → List String} {maildirPath path : String}
    {row : MessageRow} (h : locateLiveFile listdir maildirPath row = some path) :
    ∃ d ∈ messageDirs maildirPath row.folderPath, ∃ fn ∈ listdir d,
      maildirFilenamePrefix fn = maildirFilenamePrefix row.maildirFilename ∧
        path = Posix.join d fn := by
  unfold locateLiveFile at h
  dsimp only at h
  split at h
  · rename_i d hd
    exact ⟨d, List.mem_of_find?_eq_some hd, _, by simpa using List.find?_some hd, rfl,
      (Option.some.inj h).symm⟩
  · obtain ⟨d, hd, hpath⟩ := List.exists_of_findSome?_eq_some h
    obtain ⟨fn, hfn, rfl⟩ := Option.map_eq_some_iff.mp hpath
    exact ⟨d, hd, fn, List.mem_of_find?_eq_some hfn, by simpa using List.find?_some hfn, rfl⟩

theorem firstDump_ok {sources : Sources} {maxBytes : ℕ} {paths : List (String × String)}
    {raw : List UInt8} {sid : String} (h : firstDump sources maxBytes paths = .ok (some (raw, sid))) :
    ∃ path content, (sid, path) ∈ paths ∧ sources.dump sid path = .ok (some content) ∧
      raw = content.take maxBytes := by
  induction paths with
  | nil => cases h
  | cons head paths ih =>
      obtain ⟨other, path⟩ := head
      unfold firstDump dumpFile at h
      cases hdump : sources.dump other path with
      | error e =>
          rw [hdump] at h
          cases h
      | ok stdout =>
          rw [hdump] at h
          dsimp only [bind, Except.bind, pure, Except.pure] at h
          split at h
          · rename_i dumped hdumped
            obtain ⟨rfl, rfl⟩ := Prod.mk.inj (Option.some.inj (Except.ok.inj h))
            obtain ⟨hdumped, -⟩ := Option.filter_eq_some_iff.mp hdumped
            obtain ⟨content, hcontent, rfl⟩ := Option.map_eq_some_iff.mp hdumped
            obtain ⟨rfl, -⟩ := Option.filter_eq_some_iff.mp hcontent
            exact ⟨path, content, List.mem_cons_self, hdump, rfl⟩
          · obtain ⟨path', content, hmem, hrest⟩ := ih h
            exact ⟨path', content, List.mem_cons_of_mem _ hmem, hrest⟩

section Reading

variable {sources : Sources} {cap : ℕ} {maildirPath source : String} {row : MessageRow}
  {snapIds : List String} {bytes raw : List UInt8}

theorem searchSnapshots_ok {sid : String} (hcopies : Copies sources maildirPath row bytes)
    (h : searchSnapshots sources cap maildirPath row snapIds = .ok (some (raw, sid))) :
    raw = bytes.take cap := by
  unfold searchSnapshots at h
  cases hsnapshots : sources.restic.snapshots with
  | error e =>
      rw [hsnapshots] at h
      cases h
  | ok snapshots =>
      rw [hsnapshots] at h
      dsimp only [bind, Except.bind] at h
      cases hfound : firstDump sources cap
          (exactPaths maildirPath row (matchingSnapshots snapshots snapIds)) with
      | error e =>
          rw [hfound] at h
          cases h
      | ok found =>
          rw [hfound] at h
          dsimp only at h
          split at h
          · obtain rfl := Option.some.inj (Except.ok.inj h)
            obtain ⟨path, content, hmem, hdump, rfl⟩ := firstDump_ok hfound
            obtain ⟨other, -, hpath⟩ := List.mem_flatMap.mp hmem
            obtain ⟨d, hd, hpair⟩ := List.mem_map.mp hpath
            obtain ⟨rfl, rfl⟩ := Prod.mk.inj hpair
            rw [hcopies.exact _ d hd content hdump]
          · cases h
          · cases hpaths : sources.restic.listFiles _ with
            | error e =>
                rw [hpaths] at h
                cases h
            | ok paths =>
                rw [hpaths] at h
                obtain ⟨path, content, hmem, hdump, rfl⟩ := firstDump_ok h
                obtain ⟨path', hpath', hpair⟩ := List.mem_map.mp hmem
                obtain ⟨rfl, rfl⟩ := Prod.mk.inj hpair
                rw [hcopies.located _ _ content (List.mem_filter.mp hpath').2 hdump]

/-- Wherever the bytes come from, they are those of the message up to the cap. -/
theorem messageSource_eq (hcopies : Copies sources maildirPath row bytes)
    (h : messageSource sources cap maildirPath row snapIds = some (raw, source)) :
    raw = bytes.take cap := by
  unfold messageSource at h
  dsimp only at h
  split at h
  · rename_i live hlive
    obtain ⟨rfl, -⟩ := Prod.mk.inj (Option.some.inj h)
    obtain ⟨-, hlive⟩ := Option.ite_none_right_eq_some.mp hlive
    obtain ⟨content, hcontent, rfl⟩ := Option.map_eq_some_iff.mp hlive
    obtain ⟨path, hpath, hfile⟩ := Option.bind_eq_some_iff.mp hcontent
    obtain ⟨d, hd, fn, hfn, hprefix, rfl⟩ := of_locateLiveFile hpath
    rw [hcopies.live d hd fn hfn hprefix content hfile]
  · obtain ⟨⟨raw', sid⟩, hfound, hpair⟩ := Option.map_eq_some_iff.mp h
    obtain ⟨rfl, -⟩ := Prod.mk.inj hpair
    obtain ⟨-, hsearch⟩ := Option.ite_none_right_eq_some.mp hfound
    cases hresult : searchSnapshots sources cap maildirPath row snapIds with
    | error e =>
        rw [hresult] at hsearch
        cases hsearch
    | ok found =>
        rw [hresult] at hsearch
        change found = some (raw', sid) at hsearch
        rw [hsearch] at hresult
        exact searchSnapshots_ok hcopies hresult

end Reading

/-- What the index made of the message under the key: the rows are those of its bytes, and every
copy holds these bytes. -/
structure Indexed (mime : Mime) (sources : Sources) (db : SearchDb H) (maildirPath : String)
    (key : MessageKey H) (bytes : List UInt8) : Prop where
  rows : ∃ rows, parseAttachments mime (some bytes) = .ok (some rows) ∧
    ∀ att, (key, att) ∈ db.attachments → att ∈ rows
  copies : ∀ row, (key, row) ∈ db.messages → Copies sources maildirPath row bytes

/-- The leaf with the number in the message. -/
def IsLeaf (mime : Mime) (bytes : List UInt8) (partIndex : ℕ) (leaf : PartInfo) : Prop :=
  ∃ tree, mime.parse bytes = .ok tree ∧ NthLeaf tree.walk 0 partIndex leaf

theorem parseAttachments_names {mime : Mime} {bytes : List UInt8} {rows : List Attachment}
    (h : parseAttachments mime (some bytes) = .ok (some rows)) :
    ∀ att ∈ rows, ∃ leaf, IsLeaf mime bytes att.partIndex leaf ∧
      leaf.filename = .ok (some att.filename) := by
  unfold parseAttachments at h
  dsimp only at h
  split at h
  · cases h
  · cases h
  · rename_i tree htree
    cases hwalk : tree.walk.foldlM (numberPart mime) (0, []) with
    | error e =>
        rw [hwalk] at h
        cases h
    | ok numbered =>
        rw [hwalk] at h
        obtain rfl := Option.some.inj (Except.ok.inj h)
        intro att hatt
        obtain hnil | ⟨leaf, hnth, hname⟩ := names_of_walk hwalk att hatt
        · cases hnil
        · exact ⟨leaf, ⟨tree, htree, hnth⟩, hname⟩

theorem extractPart_ok {mime : Mime} {bytes payload : List UInt8} {partIndex : ℕ}
    (h : extractPart mime bytes partIndex = .ok payload) :
    ∃ leaf, IsLeaf mime bytes partIndex leaf ∧ leaf.payload = .ok (some payload) := by
  unfold extractPart at h
  split at h
  · cases h
  · rename_i leaf hleaf
    obtain ⟨tree, htree, hfind⟩ := Option.bind_eq_some_iff.mp hleaf
    split at h
    · cases h
    · rename_i payload' hpayload
      obtain rfl := Except.ok.inj h
      refine ⟨leaf, ⟨tree, ?_, findLeaf_nth hfind⟩, ?_⟩
      · cases hparse : mime.parse bytes with
        | error e =>
            rw [hparse] at htree
            cases htree
        | ok tree' =>
            rw [hparse] at htree
            exact congrArg Except.ok (Option.some.inj htree)
      · cases hdecoded : leaf.payload with
        | error e =>
            rw [hdecoded] at hpayload
            cases hpayload
        | ok decoded =>
            rw [hdecoded] at hpayload
            exact congrArg Except.ok hpayload

/-- A download is the whole payload of the leaf that a row of the message names, under the name
that the row keeps. -/
theorem extractAttachmentBytes_agrees {mime : Mime} {sources : Sources} {orders : AttachmentOrders H}
    {cap : ℕ} {db : SearchDb H} {maildirPath filename source : String} {key : MessageKey H}
    {bytes payload : List UInt8} {partIndex : ℕ}
    (hindexed : Indexed mime sources db maildirPath key bytes)
    (h : extractAttachmentBytes mime sources orders cap db maildirPath key partIndex =
      .ok (payload, filename, source)) :
    ∃ att, (key, att) ∈ db.attachments ∧ att.partIndex = partIndex ∧ att.filename = filename ∧
      ∃ leaf, IsLeaf mime bytes partIndex leaf ∧ leaf.filename = .ok (some att.filename) ∧
        leaf.payload = .ok (some payload) := by
  unfold extractAttachmentBytes at h
  split at h
  · cases h
  · rename_i att hatt
    have hatt := List.mem_of_mem_head? hatt
    rw [Order.mem_list, Multiset.mem_filter] at hatt
    obtain ⟨hatt, hkey, hnumber⟩ := hatt
    split at h
    · cases h
    · rename_i row hrow
      have hrow := List.mem_of_mem_head? hrow
      rw [Order.mem_list, Multiset.mem_filter] at hrow
      split at h
      · cases h
      · rename_i raw source' hsource
        split at h
        · cases h
        · rename_i hshort
          have hrowkey : (key, row.2) ∈ db.messages := hrow.2 ▸ hrow.1
          have hattkey : (key, att.2) ∈ db.attachments := hkey ▸ hatt
          -- A read below the cap is a read to the end.
          have hraw := messageSource_eq (hindexed.copies row.2 hrowkey) hsource
          have hwhole : raw = bytes := by
            rw [hraw, List.length_take] at hshort
            rw [hraw]
            exact List.take_of_length_le (by omega)
          rw [hwhole] at h
          cases hpart : extractPart mime bytes partIndex with
          | error e =>
              rw [hpart] at h
              cases h
          | ok payload' =>
              rw [hpart] at h
              obtain ⟨rfl, hname⟩ := Prod.mk.inj (Except.ok.inj h)
              obtain ⟨rfl, -⟩ := Prod.mk.inj hname
              obtain ⟨leaf, ⟨tree, htree, hnth⟩, hpayload⟩ := extractPart_ok hpart
              obtain ⟨rows, hrows, hstored⟩ := hindexed.rows
              obtain ⟨leaf', ⟨tree', htree', hnth'⟩, hfilename⟩ :=
                parseAttachments_names hrows att.2 (hstored att.2 hattkey)
              obtain rfl := Except.ok.inj (htree.symm.trans htree')
              rw [hnumber] at hnth'
              obtain rfl := hnth.unique hnth'
              exact ⟨att.2, hattkey, hnumber, rfl, leaf, ⟨tree, htree, hnth⟩, hfilename, hpayload⟩

/-! ## A message with one attachment -/

def samplePart : Part :=
  .node ⟨.ok "multipart", .ok none, .ok none, .ok "multipart/mixed"⟩
    [.node ⟨.ok "text", .ok none, .ok (some [104, 105]), .ok "text/plain"⟩ [],
      .node ⟨.ok "application", .ok (some "a.pdf"), .ok (some [1, 2, 3]), .ok "application/pdf"⟩ []]

def sampleMime : Mime where
  parse _ := .ok samplePart

def sampleAttachment : Attachment where
  partIndex := 2
  filename := "a.pdf"
  ext := extOf "a.pdf"
  sizeBytes := some 3
  contentType := "application/pdf"
  contentText := none

def sampleMessage : MessageRow where
  messageId := "<m@x>"
  folderPath := "INBOX"
  maildirFilename := "1:2,"
  firstSeenAt := 0
  lastSeenAt := 0

def sampleSources : Sources where
  listdir d := if d = "/mail/a1/INBOX/cur" then ["1:2,S"] else []
  file _ := some [65, 66]
  hasPolicy := false
  restic := ⟨.ok [], fun _ => [], fun _ => none⟩
  dump _ _ := .ok (some [65, 66])

def sampleIndexDb : SearchDb String :=
  { Access.sampleDb with
    messages := {(("a1", "h1"), sampleMessage)}
    attachments := {(("a1", "h1"), sampleAttachment)} }

theorem sample_indexed :
    Indexed sampleMime sampleSources sampleIndexDb "/mail/a1" ("a1", "h1") [65, 66] where
  rows := by
    refine ⟨[sampleAttachment], rfl, fun att hatt => ?_⟩
    obtain ⟨-, rfl⟩ := Prod.mk.inj (Multiset.mem_singleton.mp hatt)
    exact List.mem_cons_self
  copies _ _ :=
    { live := fun _ _ _ _ _ _ h => (Option.some.inj h).symm
      exact := fun _ _ _ _ h => (Option.some.inj (Except.ok.inj h)).symm
      located := fun _ _ _ _ h => (Option.some.inj (Except.ok.inj h)).symm }

theorem head_list_singleton {α : Type} (order : Unordered α) (a : α) :
    (order.list {a}).head? = some a := by
  have hlist := order.coe_list {a}
  rw [Multiset.coe_eq_singleton] at hlist
  rw [hlist, List.head?_cons]

/-- The attachment comes from the live file, whose name has got a flag. -/
theorem sample_download (orders : AttachmentOrders String) :
    extractAttachmentBytes sampleMime sampleSources orders 100 sampleIndexDb "/mail/a1" ("a1", "h1") 2 =
      .ok ([1, 2, 3], "a.pdf", "live") := by
  have hattachments : sampleIndexDb.attachments.filter (fun r => r.1 = ("a1", "h1") ∧
      r.2.partIndex = 2) = {(("a1", "h1"), sampleAttachment)} := by decide +kernel
  have hmessages : sampleIndexDb.messages.filter (fun r => r.1 = ("a1", "h1")) =
      {(("a1", "h1"), sampleMessage)} := by decide +kernel
  have hsource : messageSource sampleSources 100 "/mail/a1" sampleMessage
      (snapIdsOf orders sampleIndexDb ("a1", "h1")) = some ([65, 66], "live") := by
    have hfile : (locateLiveFile sampleSources.listdir "/mail/a1" sampleMessage).isSome = true := by
      decide +kernel
    obtain ⟨path, hpath⟩ := Option.isSome_iff_exists.mp hfile
    rw [messageSource, hpath]
    rfl
  rw [extractAttachmentBytes, hattachments, head_list_singleton, hmessages, head_list_singleton]
  dsimp only
  rw [hsource]
  rfl

noncomputable def sampleAttachmentOrders : AttachmentOrders String where
  attachments := .sorting _ (fun _ _ _ _ _ => trivial) fun _ _ => .inl trivial
  messages := .sorting _ (fun _ _ _ _ _ => trivial) fun _ _ => .inl trivial
  snapshots := .sorting _ (fun _ _ _ _ _ => trivial) fun _ _ => .inl trivial

theorem sample_download_agrees : ∃ att, (("a1", "h1"), att) ∈ sampleIndexDb.attachments ∧
    att.partIndex = 2 ∧ att.filename = "a.pdf" ∧ ∃ leaf, IsLeaf sampleMime [65, 66] 2 leaf ∧
      leaf.filename = .ok (some att.filename) ∧ leaf.payload = .ok (some [1, 2, 3]) :=
  extractAttachmentBytes_agrees sample_indexed (sample_download sampleAttachmentOrders)

end MailFallback.Downloads
