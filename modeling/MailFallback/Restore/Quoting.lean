import MailFallback.Restore.Network
import MailFallback.Restore.WireNames
import MailFallback.Staging.Session

/-! # Quoted mailbox names

A mailbox name stands between double quotes in the commands. What is typed as a destination is
checked before it becomes a name; the keys of a selection are not. -/

namespace MailFallback.Restore

open Effects PyString Storage Staging ModifiedUtf7 Access

/-! ## Clean names -/

/-- No character ends the quoted text or the command. -/
def CleanText (cs : List Char) : Prop := ∀ c ∈ cs, isRefusedInFolder c = false

instance (cs : List Char) : Decidable (CleanText cs) :=
  List.decidableBAll (fun c => isRefusedInFolder c = false) cs

abbrev Clean (name : String) : Prop := CleanText name.toList

variable {cs ds run : List Char} {c : Char} {name separator : String}

theorem CleanText.mono (h : CleanText cs) (hsub : ∀ c ∈ ds, c ∈ cs) : CleanText ds :=
  fun c hc => h c (hsub c hc)

theorem CleanText.append (h : CleanText cs) (h' : CleanText ds) : CleanText (cs ++ ds) :=
  List.forall_mem_append.mpr ⟨h, h'⟩

theorem CleanText.replace {old new : List Char} (h : CleanText cs) (hnew : CleanText new) :
    CleanText (PyString.replace cs old new) :=
  fun c hc => (mem_replace hc).elim (h c) (hnew c)

theorem CleanText.dropMount (h : CleanText cs) : CleanText (dropMount cs) := by
  unfold Restore.dropMount afterSlash
  split
  · exact h.mono fun c hc => (List.dropWhile_sublist _).mem ((List.drop_sublist 1 _).mem hc)
  · exact h

theorem CleanText.dropSrcPrefix (h : CleanText cs) (srcPrefix : List Char) :
    CleanText (dropSrcPrefix srcPrefix cs) := by
  unfold Restore.dropSrcPrefix
  split
  · exact h.mono fun c hc => (List.drop_sublist _ _).mem hc
  · exact h

theorem CleanText.toTarget (h : CleanText cs) (hsep : Clean separator) :
    CleanText (toTarget separator "_" cs) := by
  have hescape : Clean "_" := by decide
  unfold Restore.toTarget
  refine CleanText.replace ?_ hsep
  split
  · exact h.replace hescape
  · exact h

/-- A destination is made of its folder, the root and the separator. -/
theorem clean_mapFolder {root srcPrefix : String} (h : Clean name) (hroot : Clean root)
    (hsep : Clean separator) : Clean (mapFolder name root separator "_" srcPrefix) := by
  have hname := ((CleanText.dropSrcPrefix h srcPrefix.toList).dropMount).toTarget hsep
  unfold mapFolder
  dsimp only
  split
  · rw [Clean, String.toList_ofList]
    exact hname
  · rw [Clean, String.toList_ofList]
    exact ((CleanText.toTarget hroot hsep).append hsep).append hname

theorem not_refused_of_printable (h : printable c = true) (hquote : c ≠ '"') (hslash : c ≠ '\\') :
    isRefusedInFolder c = false := by
  have hle : ∀ d e : Char, d ≤ e ↔ d.toNat ≤ e.toNat := fun d e => Iff.rfl
  simp only [printable, hle, decide_eq_true_eq] at h
  have hspace : ' '.toNat = 32 := rfl
  have htilde : '~'.toNat = 126 := rfl
  simp [isRefusedInFolder, hquote, hslash]
  omega

theorem mem_of_plain_mem (h : Token.plain c ∈ tokensFrom run cs) : c ∈ cs := by
  have hshift : ∀ run, Token.plain c ∉ shift run := by
    intro run
    unfold shift
    split <;> simp
  induction cs generalizing run with
  | nil => exact absurd h (hshift run)
  | cons d cs ih =>
      rw [tokensFrom] at h
      split at h
      · rcases List.mem_append.mp h with h | h
        · exact absurd h (hshift run)
        · rcases List.mem_cons.mp h with h | h
          · split at h
            · cases h
            · cases h
              exact .head cs
          · exact .tail d (ih h)
      · exact .tail d (ih h)

theorem CleanText.token {t : Token} (hwf : t.WellFormed) (h : ∀ c, t = .plain c → c ∈ cs)
    (hcs : CleanText cs) : CleanText t.text := by
  cases t with
  | plain c => exact fun d hd => hcs d (List.mem_singleton.mp hd ▸ h c rfl)
  | ampersand => decide
  | run b64 =>
      have hdigits : CleanText b64 := by
        intro c hc
        have hdigit := hwf.2 c hc
        refine not_refused_of_printable (printable_of_digit? hdigit) ?_ ?_
        · rintro rfl
          cases hdigit
        · rintro rfl
          cases hdigit
      have hopen : CleanText ['&'] := by decide
      have hclose : CleanText ['-'] := by decide
      exact hopen.append (hdigits.append hclose)

/-- The encoder adds printable characters only. -/
theorem clean_imapUtf7Encode (h : Clean name) : Clean (imapUtf7Encode name) := by
  by_cases hnon : HasNonAscii name
  · rw [Clean, imapUtf7Encode_of_hasNonAscii hnon]
    intro c hc
    obtain ⟨t, ht, hct⟩ := List.mem_flatMap.mp hc
    refine CleanText.token (wellFormed_tokensFrom [] _ t ht) ?_ h c hct
    rintro d rfl
    exact mem_of_plain_mem ht
  · rw [imapUtf7Encode_of_isAscii (not_hasNonAscii_iff.mp hnon)]
    exact h

theorem clean_targetMailbox {ctx : Context} (h : Clean name) (hroot : Clean ctx.job.folderMapping)
    (hsep : Clean ctx.tgtSeparator) : Clean (targetMailbox ctx name) :=
  clean_imapUtf7Encode (clean_mapFolder h hroot hsep)

/-! ## Requests -/

structure RestoreCreate where
  sourceAccountId : Id
  targetAccountId : Id
  restoreMode : String := "full"
  folderMapping : String := "original"
  skipDuplicates : Bool := true
  selectedFolders : List String := []
  selectedUids : Table String (List ℕ) := .empty

/-- `RestoreMode(value)`, unless it raises. -/
def restoreMode? : String → Option RestoreMode
  | "full" => some .full
  | "folder" => some .folder
  | "selection" => some .selection
  | "staging_push" => some .stagingPush
  | _ => none

/-- The root below which the worker nests everything. -/
def restoreRoot (body : RestoreCreate) : Except HttpError String :=
  if body.folderMapping ≠ "original" then
    validateCustomFolder (some body.folderMapping) "folder_mapping"
  else .ok body.folderMapping

/-- `create_restore`: the job, as far as the worker reads it. -/
def createRestore {H : Type} (db : StagingDb H) (user : StagingUser) (body : RestoreCreate) :
    Except HttpError RestoreJob :=
  if body.restoreMode = "staging_push" then .error ⟨400, "Use /api/restore/staging/push"⟩
  else
    match restoreRoot body with
    | .error e => .error e
    | .ok folderMapping =>
        if getAccount db.toAccessDb body.sourceAccountId user.id user.row = none then
          .error ⟨404, "Source account not found"⟩
        else if getAccount db.toAccessDb body.targetAccountId user.id user.row = none then
          .error ⟨404, "Target account not found"⟩
        else if takesRestore db body.sourceAccountId body.targetAccountId = false then
          .error ⟨409, "Cannot create restore job"⟩
        else if restoreMode? body.restoreMode = none then .error ⟨500, "Internal Server Error"⟩
        else .ok
          { folderMapping := folderMapping
            skipDuplicates := body.skipDuplicates
            selectedFolders := body.selectedFolders
            selectedUids := body.selectedUids }

theorem clean_restoreRoot {body : RestoreCreate} {root : String} (h : restoreRoot body = .ok root) :
    Clean root := by
  unfold restoreRoot at h
  split at h
  · exact not_refused_of_validateCustomFolder h
  · obtain rfl := Except.ok.inj h
    rename_i horiginal
    rw [not_not.mp horiginal]
    decide

/-- The root of an accepted job is clean, and its selection is that of the request. -/
theorem createRestore_ok {H : Type} {db : StagingDb H} {user : StagingUser} {body : RestoreCreate}
    {job : RestoreJob} (h : createRestore db user body = .ok job) :
    Clean job.folderMapping ∧ job.selectedUids = body.selectedUids := by
  unfold createRestore at h
  split at h
  · cases h
  · split at h
    · cases h
    · rename_i root hroot
      repeat
        split at h
        · cases h
      obtain rfl := Except.ok.inj h
      exact ⟨clean_restoreRoot hroot, rfl⟩

/-! ## The commands of a restore -/

def RestoreOp.mailbox? : RestoreOp → Option String
  | .select _ mailbox _ | .create _ mailbox | .append _ mailbox .. => some mailbox
  | _ => none

/-- A command names a mailbox between quotes that nothing in it closes. -/
def StaysQuoted (mailbox? : Option String) : Prop :=
  ∀ mailbox, mailbox? = some mailbox → ∃ name, mailbox = Staging.quoted name ∧ Clean name

theorem staysQuoted_none : StaysQuoted none := nofun

theorem staysQuoted_iff : StaysQuoted (some (Staging.quoted name)) ↔ Clean name := by
  constructor
  · intro h
    obtain ⟨name', heq, hclean⟩ := h _ rfl
    exact quoted_inj heq ▸ hclean
  · rintro h mailbox ⟨⟩
    exact ⟨name, rfl, h⟩

section Worker

variable {ctx : Context} {folders : List (String × String)}

abbrev Quoting (o : RestoreOp) : Prop := StaysQuoted o.mailbox?

theorem only_dateOf (P : RestoreOp → Prop) (envelope : String) : (dateOf ctx envelope).Only P := by
  unfold dateOf
  dsimp only
  repeat' split
  all_goals trivial

theorem only_retry {P : RestoreOp → Prop} {α : Type} {p : RestoreTask α} (hp : p.Only P) (n : ℕ) :
    (retry p n).Only P := by
  induction n with
  | zero => exact hp
  | succ n ih =>
      refine Prog.Only.handle hp fun e => ?_
      split
      · exact ih
      · trivial

theorem only_deliverMessage (tgt : Conn) {targetFolder : String} (h : Clean targetFolder)
    (envelope : String) (raw : Bytes) :
    (deliverMessage ctx tgt targetFolder envelope raw).Only Quoting := by
  have hquoted := staysQuoted_iff.mpr h
  refine Prog.Only.bind (only_dateOf _ envelope) fun date => ?_
  refine Prog.Only.bind (only_ensureMailbox hquoted staysQuoted_none hquoted) fun _ => ?_
  refine Prog.Only.handle (Prog.Only.bind (only_retry (Prog.Only.op hquoted) 2) fun _ => trivial) ?_
  intro e
  split <;> trivial

theorem only_restoreSingleMessage (src tgt : Conn) (uid : ℕ) {targetFolder : String}
    (h : Clean targetFolder) (existing : List String) :
    (restoreSingleMessage ctx src tgt uid targetFolder existing).Only Quoting := by
  refine Prog.Only.bind (Prog.Only.op staysQuoted_none) fun reply => ?_
  split
  · trivial
  · split
    · trivial
    · split
      · trivial
      · exact only_deliverMessage tgt h _ _

theorem only_reconnect {fullFolder : String} (h : Clean fullFolder) (s : Session) :
    (reconnect ctx fullFolder s).Only Quoting := by
  refine Prog.Only.bind ?_ fun r => ?_
  · unfold reconnectSource
    split
    · refine Prog.Only.bind (only_attempt (Prog.Only.op staysQuoted_none)) fun r => ?_
      cases r with
      | error e => trivial
      | ok src =>
          refine Prog.Only.bind (only_attempt (Prog.Only.op (staysQuoted_iff.mpr h))) fun r => ?_
          cases r <;> trivial
    · trivial
  · split
    · unfold reconnectTarget
      split
      · refine Prog.Only.bind (only_attempt (Prog.Only.op staysQuoted_none)) fun r => ?_
        cases r <;> trivial
      · trivial
    · trivial

section Folder

variable {fullFolder targetFolder : String} (hfull : Clean fullFolder) (htarget : Clean targetFolder)
include hfull htarget

theorem only_restoreMessage (existing : List String) (uid : ℕ) (s : Session) :
    (restoreMessage ctx fullFolder targetFolder existing uid s).Only Quoting := by
  have hrecord : ∀ (o : Outcome) (s : Session),
      ((RestoreTask.record o).bind fun _ => Prog.ret s).Only Quoting :=
    fun o s => Prog.Only.bind (Prog.Only.op staysQuoted_none) fun _ => trivial
  refine Prog.Only.bind (only_attempt (only_restoreSingleMessage _ _ uid htarget existing)) ?_
  intro r
  cases r with
  | ok outcome => exact hrecord _ _
  | error e =>
      dsimp only
      split
      · refine Prog.Only.bind (only_reconnect hfull s) fun r => ?_
        split
        · refine Prog.Only.bind
            (only_attempt (only_restoreSingleMessage _ _ uid htarget existing)) fun r => ?_
          cases r <;> exact hrecord _ _
        · exact hrecord _ _
      · exact hrecord _ _

theorem only_restoreMessages (existing : List String) (uidFilter : Option (List ℕ)) (uids : List ℕ)
    (s : Session) :
    (restoreMessages ctx fullFolder targetFolder existing uidFilter uids s).Only Quoting := by
  induction uids generalizing s with
  | nil => trivial
  | cons uid uids ih =>
      refine Prog.Only.bind (Prog.Only.op staysQuoted_none) fun stop => ?_
      split
      · trivial
      · split
        · exact ih s
        · exact Prog.Only.bind (only_restoreMessage hfull htarget existing uid s) fun s => ih s

end Folder

theorem only_restoreFolder {folder : String × String} (hfull : Clean folder.1)
    (htarget : Clean (targetMailbox ctx folder.2)) (s : Session) :
    (restoreFolder ctx folder s).Only Quoting := by
  refine Prog.Only.bind (Prog.Only.op (staysQuoted_iff.mpr hfull)) fun reply => ?_
  split
  · trivial
  · refine Prog.Only.bind (Prog.Only.op staysQuoted_none) fun found => ?_
    split
    · trivial
    · refine Prog.Only.bind ?_ fun existing => only_restoreMessages hfull htarget existing _ _ s
      unfold existingIds
      split
      · exact only_existingMessageIds (staysQuoted_iff.mpr htarget) staysQuoted_none
          staysQuoted_none fun _ => staysQuoted_none
      · trivial

theorem only_restoreFolders
    (h : ∀ folder ∈ folders, Clean folder.1 ∧ Clean (targetMailbox ctx folder.2)) (s : Session) :
    (restoreFolders ctx folders s).Only Quoting := by
  induction folders generalizing s with
  | nil => trivial
  | cons folder folders ih =>
      obtain ⟨⟨hfull, htarget⟩, hrest⟩ := List.forall_mem_cons.mp h
      refine Prog.Only.bind (Prog.Only.op staysQuoted_none) fun stop => ?_
      split
      · trivial
      · refine Prog.Only.bind (only_restoreFolder hfull htarget s) fun r => ?_
        cases r with
        | none => trivial
        | some s => exact ih hrest s

/-- Each of the folders is selected to be counted. -/
theorem only_countMessages_iff (src : Conn) :
    (countMessages src folders).Only Quoting ↔ ∀ folder ∈ folders, Clean folder.1 := by
  induction folders with
  | nil => simp [countMessages, Prog.Only, pure]
  | cons folder folders ih =>
      rw [List.forall_mem_cons, ← ih]
      constructor
      · intro h
        refine ⟨staysQuoted_iff.mp h.1, ?_⟩
        exact Prog.Only.of_bind (p := countMessages src folders) (h.2 (.ok ("OK", 0)))
      · rintro ⟨hclean, hrest⟩
        refine Prog.Only.bind (Prog.Only.op (staysQuoted_iff.mpr hclean)) fun reply => ?_
        exact Prog.Only.bind hrest fun _ => trivial

theorem only_executeRestore_iff (hroot : Clean ctx.job.folderMapping) (hsep : Clean ctx.tgtSeparator)
    (h : ∀ folder ∈ folders, Clean folder.1 → Clean folder.2) (s : Session) :
    (executeRestore ctx folders s).Only Quoting ↔ ∀ folder ∈ folders, Clean folder.1 := by
  rw [← only_countMessages_iff s.src]
  constructor
  · exact Prog.Only.of_bind
  · intro hcount
    refine Prog.Only.bind hcount fun counted => Prog.Only.bind ?_ fun _ => trivial
    refine only_restoreFolders (fun folder hf => ?_) s
    have hclean := (only_countMessages_iff s.src).mp hcount folder hf
    exact ⟨hclean, clean_targetMailbox (h folder hf hclean) hroot hsep⟩

end Worker

/-- Where the server has no other names and no other separator than clean ones. -/
def JobStaysQuoted (job : RestoreJob) : Prop :=
  ∀ ctx : Context, ctx.job = job → Clean ctx.tgtSeparator → ∀ namespacePrefix listing s,
    (∀ line ∈ listing, ∀ folder, listedFolder namespacePrefix line = some folder →
      Clean folder.1 ∧ Clean folder.2) →
    (executeRestore ctx (resolveFolders job namespacePrefix listing) s).Only Quoting

theorem jobStaysQuoted_iff {job : RestoreJob} (hroot : Clean job.folderMapping) :
    JobStaysQuoted job ↔ ∀ key ∈ job.selectedUids.keys, Clean key := by
  constructor
  · intro h key hkey
    obtain ⟨row, hrow, rfl⟩ := List.mem_map.mp hkey
    have hbyUid : job.byUid = true := by
      simp [RestoreJob.byUid, List.ne_nil_of_mem hrow]
    have hslash : Clean "/" := by decide
    have honly := h { job := job, messageId := fun _ => none, internalDate := fun _ => none } rfl
      hslash "" [] ⟨⟨.source, 0⟩, ⟨.target, 1⟩⟩ nofun
    have hcount := (only_countMessages_iff _).mp (Prog.Only.of_bind honly)
    refine hcount (row.1, row.1) ?_
    rw [resolveFolders, if_pos hbyUid]
    exact List.mem_map.mpr ⟨row, hrow, rfl⟩
  · rintro h ctx rfl hsep namespacePrefix listing s hlisting
    have hfolders : ∀ folder ∈ resolveFolders ctx.job namespacePrefix listing,
        Clean folder.1 ∧ Clean folder.2 := by
      intro folder hf
      unfold resolveFolders at hf
      have hall : folder ∈ (listing.filter fun line => line ≠ "").filterMap
          (listedFolder namespacePrefix) → Clean folder.1 ∧ Clean folder.2 := by
        intro hmem
        obtain ⟨line, hline, heq⟩ := List.mem_filterMap.mp hmem
        exact hlisting line (List.mem_filter.mp hline).1 folder heq
      split at hf
      · obtain ⟨row, hrow, rfl⟩ := List.mem_map.mp hf
        have hkey := h row.1 (List.mem_map.mpr ⟨row, hrow, rfl⟩)
        exact ⟨hkey, hkey⟩
      · dsimp only at hf
        split at hf
        · exact hall (List.mem_filter.mp hf).1
        · exact hall hf
    exact (only_executeRestore_iff hroot hsep (fun folder hf _ => (hfolders folder hf).2) s).mpr
      fun folder hf => (hfolders folder hf).1

/-! ## The commands of a staging push -/

section Push

variable {H : Type} {host : Staging.Host H} {user : StagingUser} {α : Type}

def stagedMailbox? : StagingOp H → Option String
  | .imap (.select folder _) | .imap (.create folder) | .imap (.append folder _) => some folder
  | _ => none

abbrev QuotingStaged (o : StagingOp H) : Prop := StaysQuoted (stagedMailbox? o)

/-- The separator that the server tells is a clean one. -/
def CleanSeparator : (o : StagingOp H) → Except Staging.Failure (StagingAns H o) → Prop
  | .imap .list, .ok reply => ∀ line, reply.2 = some line → ∀ c, quotedChar line.toList = some c →
      isRefusedInFolder c = false
  | _, _ => True

theorem quoting_of_offline {o : StagingOp H} (ho : o.offline = true) : QuotingStaged o := by
  cases o with
  | imap o => cases ho
  | _ => exact staysQuoted_none

theorem only_of_offline {p : StagingTask H α} (hp : p.Only fun o => o.offline = true) :
    p.Only QuotingStaged := hp.mono fun _ => quoting_of_offline

theorem only_stagingOp {o : StagingOp H} (ho : stagedMailbox? o = none) :
    (StagingTask.op o).Only QuotingStaged := by
  have hquoting : QuotingStaged o := by
    rw [QuotingStaged, ho]
    exact staysQuoted_none
  exact Prog.Only.op hquoting

theorem only_stagingAttempt {P : StagingOp H → Prop} {p : StagingTask H α} (hp : p.Only P) :
    (Staging.attempt p).Only P :=
  Prog.Only.handle (Prog.Only.bind hp fun _ => trivial) fun _ => trivial

theorem only_locateStagedFile (d : StagingDir) (filename : String) :
    (locateStagedFile d filename : StagingTask H _).Only fun o => o.offline = true := by
  have hexact : ∀ name subs,
      (locateExact d name subs : StagingTask H _).Only fun o => o.offline = true := by
    intro name subs
    induction subs with
    | nil => trivial
    | cons sub subs ih =>
        refine Prog.Only.bind (op_only rfl) fun found => ?_
        cases found with
        | true => trivial
        | false => exact ih
  have hprefix : ∀ want subs,
      (locatePrefix d want subs : StagingTask H _).Only fun o => o.offline = true := by
    intro want subs
    induction subs with
    | nil => trivial
    | cons sub subs ih =>
        refine Prog.Only.bind (op_only rfl) fun present => ?_
        cases present with
        | false => exact ih
        | true =>
            refine Prog.Only.bind (op_only rfl) fun listed => ?_
            split
            · trivial
            · exact ih
  refine Prog.Only.bind (hexact _ _) fun found => ?_
  cases found with
  | some path => trivial
  | none => exact hprefix _ _

theorem only_cleanupPushed (d : StagingDir) (pushed : Table String StagedPath) :
    (cleanupPushed user d pushed : StagingTask H Unit).Only QuotingStaged := by
  have hdrop : ∀ paths areaId bytesUsed (row : Id × StagingMessage H),
      (dropPushed paths areaId bytesUsed row).Only QuotingStaged := by
    intro paths areaId bytesUsed row
    unfold dropPushed
    split
    · trivial
    · refine Prog.Only.bind (Prog.Only.handle (only_stagingOp rfl) fun e => ?_) fun _ =>
        Prog.Only.bind (only_stagingOp rfl) fun _ => trivial
      cases e <;> trivial
  have hall : ∀ area, (dropAllPushed area pushed : StagingTask H Unit).Only QuotingStaged := by
    intro area
    unfold dropAllPushed
    split
    · trivial
    · refine Prog.Only.bind (only_stagingOp rfl) fun rows => ?_
      refine Prog.Only.bind (Prog.Only.foldlM (fun b a => hdrop _ _ b a) _ _) fun _ => ?_
      exact only_stagingOp rfl
  have hempty : ∀ areaId, (dropEmptyArea user d areaId : StagingTask H Unit).Only QuotingStaged := by
    intro areaId
    refine Prog.Only.bind (only_stagingOp rfl) fun remaining => ?_
    split
    · refine Prog.Only.bind (only_of_offline (stagedFilesRemain_offline d _)) fun remain => ?_
      cases remain with
      | true => trivial
      | false =>
          exact Prog.Only.bind (only_of_offline (removeStagingDir_offline user)) fun _ =>
            only_stagingOp rfl
    · trivial
  refine Prog.Only.bind (only_stagingOp rfl) fun db => ?_
  split
  · trivial
  · exact Prog.Only.bind (hall _) fun _ => Prog.Only.bind (hempty _) fun _ => only_stagingOp rfl

theorem only_ensureFolder {folder : String} (h : Clean folder) :
    (ensureFolder folder : StagingTask H Unit).Only QuotingStaged := by
  have hquoted := staysQuoted_iff.mpr h
  refine Prog.Only.bind (Prog.Only.handle ?_ fun e => ?_) fun selected => ?_
  · refine Prog.Only.bind (Prog.Only.op hquoted) fun status => ?_
    split
    · exact Prog.Only.bind (only_stagingOp rfl) fun _ => trivial
    · trivial
  · cases e <;> trivial
  · cases selected with
    | true => trivial
    | false =>
        refine Prog.Only.handle (Prog.Only.op hquoted) fun e => ?_
        cases e <;> trivial

theorem only_fetchIds (ids uids : List String) :
    (fetchIds ids uids : StagingTask H (List String)).Only QuotingStaged := by
  induction uids generalizing ids with
  | nil =>
      refine Prog.Only.bind (only_stagingAttempt (only_stagingOp rfl)) fun r => ?_
      cases r with
      | ok _ => trivial
      | error e => cases e <;> trivial
  | cons uid uids ih =>
      refine Prog.Only.bind (only_stagingAttempt (only_stagingOp rfl)) fun r => ?_
      split
      · exact ih _
      · exact ih _
      · trivial
      · trivial

theorem only_getExistingMessageIds {folder : String} (h : Clean folder) :
    (getExistingMessageIds folder : StagingTask H (List String)).Only QuotingStaged := by
  refine Prog.Only.bind (only_stagingAttempt (Prog.Only.op (staysQuoted_iff.mpr h))) fun r => ?_
  split
  · trivial
  · trivial
  · split
    · trivial
    · refine Prog.Only.bind (only_stagingAttempt (only_stagingOp rfl)) fun r => ?_
      split
      · trivial
      · trivial
      · exact only_fetchIds _ _

theorem only_tryDeliver {folder : String} (h : Clean folder) (existing : List String)
    (path : StagedPath) : (tryDeliver host folder existing path).Only QuotingStaged := by
  have hretry : ∀ (raw : Bytes) n,
      (retryImap (StagingTask.op (.imap (.append (Staging.quoted folder) raw))) n : StagingTask H _).Only
        QuotingStaged := by
    intro raw n
    induction n with
    | zero => exact Prog.Only.op (staysQuoted_iff.mpr h)
    | succ n ih =>
        refine Prog.Only.handle (Prog.Only.op (staysQuoted_iff.mpr h)) fun e => ?_
        cases e <;> first | exact ih | trivial
  refine Prog.Only.handle (Prog.Only.bind ?_ fun _ => trivial) fun e => ?_
  · refine Prog.Only.bind (only_stagingOp rfl) fun raw => ?_
    split
    · trivial
    · exact Prog.Only.bind (hretry raw 2) fun _ => trivial
  · cases e <;> trivial

variable {jobId : Id} {d : StagingDir}

theorem only_pushFile {folder : String} (h : Clean folder) (existing : List String) (st : Pushing)
    (filename : String) :
    (pushFile host jobId user d folder existing st filename).Only QuotingStaged := by
  unfold pushFile
  split
  · trivial
  · refine Prog.Only.bind (only_stagingOp rfl) fun stop => ?_
    cases stop with
    | true =>
        refine Prog.Only.bind (only_cleanupPushed d _) fun _ => Prog.Only.bind ?_ fun _ => trivial
        exact Prog.Only.bind (only_stagingOp rfl) fun _ =>
          Prog.Only.bind (only_stagingOp rfl) fun _ => only_stagingOp rfl
    | false =>
        refine Prog.Only.bind (only_of_offline (only_locateStagedFile d filename)) fun found => ?_
        cases found with
        | none =>
            exact Prog.Only.bind (only_stagingOp rfl) fun _ =>
              Prog.Only.bind (only_stagingOp rfl) fun _ => trivial
        | some path =>
            exact Prog.Only.bind (only_tryDeliver h existing path) fun _ =>
              Prog.Only.bind (only_stagingOp rfl) fun _ =>
                Prog.Only.bind (only_stagingOp rfl) fun _ => trivial

theorem clean_targetFolder (h : Clean name) (hsep : Clean separator) :
    Clean (targetFolder separator name) := by
  refine clean_imapUtf7Encode ?_
  split
  · rw [Clean, String.toList_ofList]
    intro c hc
    obtain ⟨x, hx, hcx⟩ := List.mem_flatMap.mp hc
    split at hcx
    · exact hsep c hcx
    · exact h c (List.mem_singleton.mp hcx ▸ hx)
  · exact h

theorem only_pushFiles {entry : String × List String} (h : Clean entry.1) (hsep : Clean separator)
    (skipDuplicates : Bool) (st : Pushing) :
    (pushFiles host jobId user d separator skipDuplicates st entry).Only QuotingStaged := by
  have hfolder := clean_targetFolder h hsep
  have hloop : ∀ existing, (entry.2.foldlM
      (pushFile host jobId user d (targetFolder separator entry.1) existing) st).Only
      QuotingStaged :=
    fun existing => Prog.Only.foldlM (fun st filename => only_pushFile hfolder existing st filename)
      _ _
  unfold pushFiles
  split
  · trivial
  · refine Prog.Only.bind (only_ensureFolder hfolder) fun _ => ?_
    dsimp only
    split
    · exact Prog.Only.bind (only_getExistingMessageIds hfolder) hloop
    · exact hloop []

theorem keeps_getHierarchySeparator :
    (getHierarchySeparator : StagingTask H String).Keeps CleanSeparator QuotingStaged Clean := by
  have hslash : Clean "/" := by decide
  refine Prog.Keeps.handle (Prog.Keeps.bind (Prog.Keeps.op staysQuoted_none fun a ha => ha) ?_)
    fun _ => hslash
  intro reply hreply
  split
  · rename_i line
    cases hchar : quotedChar line.toList with
    | none => exact hslash
    | some c =>
        have hc : Clean (String.singleton c) := by
          rw [Clean, String.toList_singleton]
          exact fun d hd => List.mem_singleton.mp hd ▸ hreply line rfl c hchar
        exact hc
  · exact hslash

/-- The worker quotes the keys of a manifest as they are. -/
theorem keeps_executeStagingPush {job : Staging.RestoreJob} {password : String}
    (h : ∀ key ∈ (job.selectedUids.getD .empty).keys, Clean key) :
    (executeStagingPush host jobId job password).Keeps CleanSeparator QuotingStaged
      fun _ => True := by
  have honly : ∀ {α : Type} {p : StagingTask H α}, p.Only QuotingStaged →
      p.Keeps CleanSeparator QuotingStaged fun _ => True := fun hp => hp.onReplies
  have hlogout : ((StagingTask.imap .logout : StagingTask H Unit).handle fun _ => pure ()).Keeps
      CleanSeparator QuotingStaged fun _ => True :=
    honly (Prog.Only.handle (only_stagingOp rfl) fun _ => trivial)
  have hmanifest : ∀ requester d, (pushManifest host jobId job requester d).Keeps CleanSeparator
      QuotingStaged fun _ => True := by
    intro requester d
    refine Prog.Keeps.bind keeps_getHierarchySeparator fun separator hsep => ?_
    refine Prog.Keeps.bind (Prog.Keeps.foldlM (fun st entry hentry => honly ?_) _) fun st _ => ?_
    · exact only_pushFiles (h entry.1 (List.mem_map.mpr ⟨entry, hentry, rfl⟩)) hsep _ st
    · split
      · trivial
      · exact honly (only_cleanupPushed _ _)
  refine Prog.Keeps.bind (honly (only_stagingOp rfl)) fun db _ => ?_
  split
  · exact honly (Prog.Only.bind (only_stagingOp rfl) fun _ => Prog.Only.bind (only_stagingOp rfl)
      fun _ => Prog.Only.bind (only_stagingOp rfl) fun _ => only_stagingOp rfl)
  · refine Prog.Keeps.bind (honly (only_of_offline (ensureStagingDir_offline _))) fun d _ => ?_
    refine Prog.Keeps.bind (honly (only_stagingOp rfl)) fun _ _ => ?_
    refine Prog.Keeps.bind (honly (only_stagingOp rfl)) fun _ _ => ?_
    refine Prog.Keeps.bind (honly (only_stagingOp rfl)) fun _ _ => ?_
    exact Prog.Keeps.ensure (hmanifest _ _) hlogout

/-! ## The jobs of a staging push -/

/-- The staged messages come from clean folders, where that matters. -/
def CleanFolders (folderMode : String) :
    (o : StagingOp H) → Except Staging.Failure (StagingAns H o) → Prop
  | .stagedRows _, .ok rows =>
      let staged : List (Id × StagingMessage H) := rows
      folderMode = "original" → ∀ row ∈ staged, Clean row.2.originalFolder
  | _, _ => True

/-- Only jobs are inserted whose commands quote their names. -/
def InsertsQuoting (host : Staging.Host H) (o : StagingOp H) : Prop :=
  ∀ writes, o = .stage writes → ∀ jobId job, .insertRestore jobId job ∈ writes →
    ∀ password, (executeStagingPush host jobId job password).Keeps CleanSeparator QuotingStaged
      fun _ => True

/-- Whatever the database and the disk reply. -/
def PushStaysQuoted (host : Staging.Host H) (user : StagingUser) (req : PushRequest) : Prop :=
  (apiStagingPush host user req).Keeps (CleanFolders req.folderMode) (InsertsQuoting host)
    fun _ => True

theorem clean_destinationFolder {stamp folderMode : String} {customFolder : Option String}
    {m : StagingMessage H} (hstamp : Clean stamp) (hcustom : Clean (customFolder.getD ""))
    (horiginal : folderMode = "original" → Clean m.originalFolder) :
    Clean (destinationFolder stamp folderMode customFolder m) := by
  have hroot : Clean "Restored/" := by decide
  unfold destinationFolder
  split
  · exact horiginal ‹_›
  · split
    · exact hcustom
    · rw [Clean, String.toList_append]
      exact hroot.append hstamp

theorem mem_keys_addName {manifest : Manifest} {folder filename key : String}
    (h : key ∈ (addName manifest folder filename).keys) : key = folder ∨ key ∈ manifest.keys := by
  obtain ⟨names, hnames⟩ := Table.mem_keys.mp h
  rw [addName, Table.get?_set] at hnames
  split at hnames
  · exact .inl ‹_›
  · exact .inr (Table.mem_keys.mpr ⟨names, hnames⟩)

theorem clean_byTarget {destination stamp folderMode : String} {customFolder : Option String}
    {rows : List (Id × StagingMessage H)}
    (h : ∀ row ∈ rows, Clean (destinationFolder stamp folderMode customFolder row.2)) :
    ∀ entry ∈ (byTarget destination stamp folderMode customFolder rows).rows,
      ∀ key ∈ entry.2.keys, Clean key := by
  suffices ∀ targets : Table Id Manifest,
      (∀ target manifest, targets.get? target = some manifest → ∀ key ∈ manifest.keys, Clean key) →
      ∀ target manifest, (rows.foldl (fun targets row =>
        let target := targetOf destination row.2
        targets.set target (addName ((targets.get? target).getD .empty)
          (destinationFolder stamp folderMode customFolder row.2) row.2.stagedFilename))
        targets).get? target = some manifest → ∀ key ∈ manifest.keys, Clean key from
    fun entry hentry => this .empty nofun entry.1 entry.2 (Table.mem_rows.mp hentry)
  induction rows with
  | nil => exact fun targets htargets => htargets
  | cons row rows ih =>
      obtain ⟨hrow, hrows⟩ := List.forall_mem_cons.mp h
      intro targets htargets
      refine ih hrows _ ?_
      intro target manifest hget key hkey
      rw [Table.get?_set] at hget
      split at hget
      · obtain rfl := Option.some.inj hget
        rcases mem_keys_addName hkey with rfl | hkey
        · exact hrow
        · cases hold : targets.get? (targetOf destination row.2) with
          | none =>
              rw [hold] at hkey
              cases hkey
          | some old =>
              rw [hold] at hkey
              exact htargets _ old hold key hkey
      · exact htargets target manifest hget key hkey

theorem inserts_of_offline {o : StagingOp H} (ho : o.offline = true) : InsertsQuoting host o := by
  rintro writes rfl
  cases ho

theorem only_insertsOp {o : StagingOp H} (ho : o.quiet = true) :
    (StagingTask.op o).Only (InsertsQuoting host) := by
  refine Prog.Only.op ?_
  rintro writes rfl
  cases ho

theorem only_reconcile (area : Id × StagingArea) :
    (reconcile user area).Only (InsertsQuoting host) := by
  have hoffline : ∀ {α : Type} {p : StagingTask H α}, (p.Only fun o => o.offline = true) →
      p.Only (InsertsQuoting host) := fun hp => hp.mono fun _ => inserts_of_offline
  have hcommit : (StagingTask.op .commit : StagingTask H Unit).Only (InsertsQuoting host) := by
    refine Prog.Only.op ?_
    rintro writes ⟨⟩
  have hfound : ∀ (names : Table String String) (rows : List (Id × StagingMessage H))
      (found : Findings H), (∀ jobId job, .insertRestore jobId job ∉ found.writes) →
      ∀ jobId job, .insertRestore jobId job ∉ (rows.foldl (reconcileRow names) found).writes := by
    intro names rows
    induction rows with
    | nil => exact fun found h => h
    | cons row rows ih =>
        intro found h
        refine ih _ ?_
        intro jobId job hmem
        unfold reconcileRow at hmem
        split at hmem
        · simp [h] at hmem
        · split at hmem
          · exact h jobId job hmem
          · simp [h] at hmem
  refine Prog.Only.bind (hoffline (adopted_offline user)) fun adopted => ?_
  cases adopted with
  | false => trivial
  | true =>
      refine Prog.Only.bind (hoffline (onDisk_offline _)) fun names => ?_
      refine Prog.Only.bind (only_insertsOp rfl) fun rows => ?_
      dsimp only
      split
      · refine Prog.Only.bind (Prog.Only.op ?_) fun _ => Prog.Only.bind hcommit fun _ => trivial
        rintro writes heq jobId job hmem
        obtain rfl := StagingOp.stage.inj heq
        simp [hfound names rows {} fun _ _ => List.not_mem_nil] at hmem
      · trivial

theorem only_pushTarget (result : PushResult) {target : Id × Manifest}
    (h : ∀ key ∈ target.2.keys, Clean key) :
    (pushTarget user result target).Only (InsertsQuoting host) := by
  have hcommit : (StagingTask.op .commit : StagingTask H Unit).Only (InsertsQuoting host) := by
    refine Prog.Only.op ?_
    rintro writes ⟨⟩
  refine Prog.Only.bind ?_ fun created => ?_
  · refine Prog.Only.bind (only_insertsOp rfl) fun db => ?_
    split
    · trivial
    · refine Prog.Only.bind (only_insertsOp rfl) fun jobId => ?_
      refine Prog.Only.bind (Prog.Only.op ?_) fun _ => ?_
      · rintro writes heq jobId' job hmem password
        obtain rfl := StagingOp.stage.inj heq
        obtain ⟨rfl, rfl⟩ := StagingWrite.insertRestore.inj (List.mem_singleton.mp hmem)
        exact keeps_executeStagingPush h
      · exact Prog.Only.bind hcommit fun _ => Prog.Only.bind (only_insertsOp rfl) fun _ => trivial
  · cases created with
    | none => trivial
    | some jobId => exact Prog.Only.bind (only_insertsOp rfl) fun _ => trivial

/-- The custom folder is a validated one. -/
theorem clean_pushFolder {req : PushRequest} {customFolder : Option String}
    (h : pushFolder req = .ok customFolder) : Clean (customFolder.getD "") := by
  unfold pushFolder at h
  split at h
  · cases hvalid : validateCustomFolder req.customFolder "custom_folder" with
    | error e =>
        rw [hvalid] at h
        cases h
    | ok folder =>
        rw [hvalid] at h
        obtain rfl := Except.ok.inj h
        exact not_refused_of_validateCustomFolder hvalid
  · obtain rfl := Except.ok.inj h
    exact nofun

theorem pushStaysQuoted (hday : ∀ time, Clean (host.day time)) (user : StagingUser)
    (req : PushRequest) : PushStaysQuoted host user req := by
  have honly : ∀ {α : Type} {p : StagingTask H α}, p.Only (InsertsQuoting host) →
      p.Keeps (CleanFolders req.folderMode) (InsertsQuoting host) fun _ => True :=
    fun hp => hp.onReplies
  unfold PushStaysQuoted apiStagingPush
  split
  · trivial
  · split
    · trivial
    · rename_i customFolder hfolder
      refine Prog.Keeps.bind (honly (only_insertsOp rfl)) fun db _ => ?_
      split
      · trivial
      · unfold push
        split
        · trivial
        · refine Prog.Keeps.bind (honly (only_insertsOp rfl)) fun db _ => ?_
          split
          · trivial
          · refine Prog.Keeps.bind
              (honly (Prog.Only.bind (only_insertsOp rfl) fun _ => trivial)) fun expired _ => ?_
            cases expired with
            | true => trivial
            | false =>
                refine Prog.Keeps.bind (honly (only_reconcile _)) fun _ _ => ?_
                refine Prog.Keeps.bind
                  (Prog.Keeps.op (fun _ h => nomatch h) fun rows hrows => hrows) fun rows hrows => ?_
                split
                · trivial
                · refine Prog.Keeps.bind (honly (only_insertsOp rfl)) fun time _ => ?_
                  refine Prog.Keeps.foldlM (fun result target htarget => honly ?_) _
                  refine only_pushTarget result (clean_byTarget ?_ target htarget)
                  intro row hrow
                  exact clean_destinationFolder (hday time) (clean_pushFolder hfolder)
                    fun horiginal => hrows horiginal row hrow

end Push

/-- The names of a push stay between their quotes, and those of a restore exactly if the keys of
its selection are clean. -/
theorem namesStayQuoted_iff {H : Type} {host : Staging.Host H} (hday : ∀ time, Clean (host.day time))
    (user : StagingUser) :
    (∀ (db : StagingDb H) body job, createRestore db user body = .ok job →
      (JobStaysQuoted job ↔ ∀ key ∈ body.selectedUids.keys, Clean key)) ∧
    ∀ req, PushStaysQuoted host user req := by
  refine ⟨?_, pushStaysQuoted hday user⟩
  intro db body job h
  obtain ⟨hroot, huids⟩ := createRestore_ok h
  rw [jobStaysQuoted_iff hroot, huids]

/-- One message of a folder is selected. -/
def sampleBody (folder : String) : RestoreCreate where
  sourceAccountId := "a1"
  targetAccountId := "a1"
  restoreMode := "selection"
  selectedUids := ⟨[(folder, [1])], List.nodup_singleton _⟩

def sampleJob (folder : String) : RestoreJob where
  selectedUids := ⟨[(folder, [1])], List.nodup_singleton _⟩

def samplePusher : StagingUser := ⟨"u1", Access.sampleUser, "/mail"⟩

theorem createRestore_sample (folder : String) :
    createRestore sampleStagingDb samplePusher (sampleBody folder) = .ok (sampleJob folder) := rfl

theorem namesStayQuoted_inbox :
    JobStaysQuoted (sampleJob "INBOX") ∧ PushStaysQuoted sampleHost samplePusher {} :=
  have hday : ∀ time, Clean (sampleHost.day time) := fun _ => show Clean "2026-01-02" by decide
  have hinbox : Clean "INBOX" := by decide
  have h := namesStayQuoted_iff hday samplePusher
  ⟨(h.1 sampleStagingDb (sampleBody "INBOX") _ (createRestore_sample _)).mpr
    (List.forall_mem_singleton.mpr hinbox), h.2 {}⟩

/-- The quote in a key ends the name of the mailbox. -/
theorem not_namesStayQuoted : ¬ ∀ (db : StagingDb String) user body job,
    createRestore db user body = .ok job → JobStaysQuoted job := by
  intro h
  have hquoted := h _ _ _ _ (createRestore_sample "INBOX\" X")
  have hroot : Clean (sampleJob "INBOX\" X").folderMapping := show Clean "original" by decide
  have hkey : Clean "INBOX\" X" := (jobStaysQuoted_iff hroot).mp hquoted _ (.head _)
  revert hkey
  decide

end MailFallback.Restore
