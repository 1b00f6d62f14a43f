import MailFallback.Library.PosixPath
import MailFallback.Snapshots.Backfill
import MailFallback.Staging.Semantics
import Mathlib.Data.List.Chain

/-! # Names before and after a rename

A message keeps the base of its name. It gets flags when it moves from `new` to `cur`, and
other flags later. The prefix is the base with `:2,` behind it where the name has flags, and
the base alone where it has none, so that the first of these renames changes it. -/

namespace MailFallback.Snapshots

open Storage PyString Index

/-! ## Names -/

/-- What stays of a name. -/
structure BaseName where
  text : String
  noFlags : has text ":2," = false
  deriving DecidableEq

/-- The name under the flags behind `:2,`. In `new` a message has none. -/
def BaseName.named (b : BaseName) : Option String → String
  | none => b.text
  | some flags => b.text ++ ":2," ++ flags

/-- What a rename leaves has flags, whether it moves a message from `new` to `cur` or changes
the flags in `cur`. -/
def Renamed (_ after : Option String) : Prop := after.isSome = true

/-- A change of the flags in `cur`. -/
def Reflagged (before after : Option String) : Prop :=
  before.isSome = true ∧ after.isSome = true

instance (i j : Option String) : Decidable (Reflagged i j) := inferInstanceAs (Decidable (_ ∧ _))

/-- The names of a message in the order in which it got them. -/
structure History where
  names : List (Option String)
  renamed : names.IsChain Renamed

/-- The message had the second name after the first, or has still the first. -/
def History.Then (history : History) (i j : Option String) : Prop :=
  [i, j].Sublist history.names ∨ i ∈ history.names ∧ i = j

/-! ## The lookup of a live file -/

/-- The directories that a folder of the index can be; an INBOX can also be the root. -/
def maildirFolderBases (maildirPath folderPath : String) : List String :=
  if folderPath = "INBOX" then [Posix.join maildirPath "INBOX", maildirPath]
  else [Posix.join maildirPath folderPath]

/-- Their `cur` and `new`. -/
def messageDirs (maildirPath folderPath : String) : List String :=
  (maildirFolderBases maildirPath folderPath).flatMap fun base =>
    [Posix.join base "cur", Posix.join base "new"]

/-- The path of the message file, first by its exact name. A directory that is missing lists
nothing. -/
def locateLiveFile (listdir : String → List String) (maildirPath : String) (row : MessageRow) :
    Option String :=
  let dirs := messageDirs maildirPath row.folderPath
  let exact := dirs.find? fun d => row.maildirFilename ∈ listdir d
  match exact with
  | some d => some (Posix.join d row.maildirFilename)
  | none =>
      dirs.findSome? fun d =>
        ((listdir d).find? fun fn =>
          maildirFilenamePrefix fn = maildirFilenamePrefix row.maildirFilename).map
            (Posix.join d)

/-- The names on disk under their prefixes, as `reconcile` reads them. -/
def namesOnDisk (listed : List String) : Table String String :=
  listed.foldl (fun names name => names.set (maildirFilenamePrefix name) name) .empty

/-! ## What a stable prefix is for -/

/-- A message indexed under one name and lying under another in a directory of its folder is
found there, when no other file of the folder has its base. -/
def Found (b : BaseName) (i j : Option String) : Prop :=
  ∀ (listdir : String → List String) (maildirPath : String) (row : MessageRow) (d : String),
    row.maildirFilename = b.named i → d ∈ messageDirs maildirPath row.folderPath →
    b.named j ∈ listdir d →
    (∀ d' ∈ messageDirs maildirPath row.folderPath, ∀ k, b.named k ∈ listdir d' →
      d' = d ∧ b.named k = b.named j) →
    locateLiveFile listdir maildirPath row = some (Posix.join d (b.named j))

/-- The row of a staged message is kept and gets the present name. -/
def Kept (H : Type) (b : BaseName) (i j : Option String) : Prop :=
  ∀ (listed : List String) (rows : List (Id × Staging.StagingMessage H))
    (row : Id × Staging.StagingMessage H), (rows.map Prod.fst).Nodup → row ∈ rows →
    row.2.stagedFilename = b.named i → b.named j ∈ listed →
    (∀ k, b.named k ∈ listed → b.named k = b.named j) →
    let found := rows.foldl (Staging.reconcileRow (namesOnDisk listed)) {}
    .deleteMessage row.1 ∉ found.writes ∧
      (b.named i ≠ b.named j → .renameStaged row.1 (b.named j) ∈ found.writes)

/-- A snapshot that lists the message under one name gets its bit from a row under another,
when no other row has its base. -/
def Matched (H : Type) [DecidableEq H] (b : BaseName) (i j : Option String) : Prop :=
  ∀ (alive : List (H × MessageRow)) (row : H × MessageRow) (paths : List String) (path : String),
    row ∈ alive → row.2.maildirFilename = b.named i →
    (∀ row' ∈ alive, ∀ k, row'.2.maildirFilename = b.named k → row'.1 = row.1) →
    path ∈ paths → passesCurOrNew path = true → basename path = b.named j →
    row.1 ∈ seenHashes (prefixToHash alive) paths

/-- The prefix is that of the message, and what lies between an index and a look-up does not
matter. -/
structure StablePrefix (H : Type) [DecidableEq H] (b : BaseName) (history : History) : Prop where
  same : ∀ i ∈ history.names, ∀ j ∈ history.names,
    maildirFilenamePrefix (b.named i) = maildirFilenamePrefix (b.named j)
  others : ∀ b', b' ≠ b → ∀ i ∈ history.names, ∀ j,
    maildirFilenamePrefix (b.named i) ≠ maildirFilenamePrefix (b'.named j)
  found : ∀ i j, history.Then i j → Found b i j
  kept : ∀ i j, history.Then i j → Kept H b i j
  matched : ∀ i ∈ history.names, ∀ j ∈ history.names, Matched H b i j

/-! ## The prefix of a name -/

variable {b b' : BaseName} {i j : Option String}

/-- `:2,` cannot begin in a text without it that it follows. -/
theorem before?_flags {base rest : List Char} (h : before? ":2,".toList base = none) :
    before? ":2,".toList (base ++ ":2,".toList ++ rest) = some base := by
  induction base with
  | nil => rfl
  | cons c base ih =>
      unfold before? at h
      split at h
      · cases h
      · rename_i hc
        have hbase : before? ":2,".toList base = none := by simpa using h
        have hnext : ¬ ":2,".toList.isPrefixOf (c :: base ++ ":2,".toList ++ rest) = true := by
          intro hnext
          refine hc ?_
          match base, hnext with
          | [], hnext => simp at hnext
          | [d], hnext => simp at hnext
          | d :: e :: base, hnext => simpa using hnext
        rw [List.cons_append, List.cons_append] at hnext ⊢
        rw [before?, if_neg hnext, ih hbase]
        rfl

theorem exists_of_before? {sub l stem : List Char} (h : before? sub l = some stem) :
    ∃ rest, l = stem ++ sub ++ rest := by
  induction l generalizing stem with
  | nil =>
      unfold before? at h
      split at h
      · rename_i hsub
        exact ⟨[], by cases h; simp [hsub]⟩
      · cases h
  | cons c l ih =>
      unfold before? at h
      split at h
      · rename_i hsub
        obtain ⟨rest, hrest⟩ := List.isPrefixOf_iff_prefix.mp hsub
        cases h
        exact ⟨rest, hrest.symm⟩
      · obtain ⟨stem, hstem, rfl⟩ := Option.map_eq_some_iff.mp h
        obtain ⟨rest, hrest⟩ := ih hstem
        exact ⟨rest, by rw [hrest, List.cons_append, List.cons_append]⟩

/-- What stands before the first occurrence holds none. -/
theorem before?_stem {sub l stem : List Char} (hsub : sub ≠ [])
    (h : before? sub l = some stem) : before? sub stem = none := by
  induction l generalizing stem with
  | nil =>
      unfold before? at h
      rw [if_neg hsub] at h
      cases h
  | cons c l ih =>
      unfold before? at h
      split at h
      · cases h
        unfold before?
        rw [if_neg hsub]
      · rename_i hc
        obtain ⟨stem, hstem, rfl⟩ := Option.map_eq_some_iff.mp h
        obtain ⟨rest, rfl⟩ := exists_of_before? hstem
        have hnext : ¬ sub.isPrefixOf (c :: stem) = true := by
          intro hnext
          refine hc (List.isPrefixOf_iff_prefix.mpr ?_)
          refine (List.isPrefixOf_iff_prefix.mp hnext).trans ?_
          rw [List.append_assoc, ← List.cons_append]
          exact List.prefix_append _ _
        rw [before?, if_neg hnext, ih hstem]
        rfl

theorem BaseName.before? (b : BaseName) : PyString.before? ":2,".toList b.text.toList = none := by
  simpa [has] using b.noFlags

/-- No base ends as the prefix of a name with flags does. -/
theorem BaseName.text_ne (b b' : BaseName) (flags : String) : b.text ≠ b'.text ++ ":2," ++ flags := by
  intro heq
  have hnone := b.before?
  rw [heq, String.toList_append, String.toList_append, before?_flags b'.before?] at hnone
  cases hnone

theorem prefix_named (b : BaseName) (i : Option String) :
    maildirFilenamePrefix (b.named i) = if i.isSome = true then b.text ++ ":2," else b.text := by
  cases i with
  | none =>
      unfold maildirFilenamePrefix
      rw [BaseName.named, b.before?]
      rfl
  | some flags =>
      unfold maildirFilenamePrefix
      rw [BaseName.named, String.toList_append, String.toList_append, before?_flags b.before?]
      dsimp only
      rw [String.ofList_toList]
      rfl

/-- The prefix tells the base, and whether there are flags. -/
theorem prefix_eq_iff : maildirFilenamePrefix (b.named i) = maildirFilenamePrefix (b'.named j) ↔
    b = b' ∧ i.isSome = j.isSome := by
  rw [prefix_named, prefix_named]
  have hne : ∀ b b' : BaseName, b.text ≠ b'.text ++ ":2," := by
    intro b b'
    simpa using b.text_ne b' ""
  have hext : b.text = b'.text ↔ b = b' := by
    cases b
    cases b'
    simp
  cases i <;> cases j
  · simpa using hext
  · simpa using hne b b'
  · simpa using (hne b' b).symm
  · simpa [String.append_left_inj] using hext

/-- Every name of a file has a base. -/
theorem exists_named (fn : String) : ∃ (own : BaseName) (k : Option String), fn = own.named k := by
  cases hfn : PyString.before? ":2,".toList fn.toList with
  | none => exact ⟨⟨fn, by rw [has, hfn]; rfl⟩, none, rfl⟩
  | some stem =>
      obtain ⟨rest, hrest⟩ := exists_of_before? hfn
      have hstem : PyString.before? ":2,".toList stem = none := before?_stem (by decide) hfn
      have hno : has (String.ofList stem) ":2," = false := by
        change (PyString.before? ":2,".toList (String.ofList stem).toList).isSome = false
        rw [@String.toList_ofList stem, hstem]
        rfl
      refine ⟨⟨String.ofList stem, hno⟩, some (String.ofList rest), ?_⟩
      apply String.toList_inj.mp
      simp [BaseName.named, hrest]

/-- A name whose prefix is that of a message is a name of the message. -/
theorem named_of_prefix {fn : String}
    (h : maildirFilenamePrefix fn = maildirFilenamePrefix (b.named i)) : ∃ k, fn = b.named k := by
  obtain ⟨own, k, rfl⟩ := exists_named fn
  obtain ⟨rfl, -⟩ := prefix_eq_iff.mp h
  exact ⟨k, rfl⟩

/-! ## Two names with flags, or two without -/

section Same

variable (hij : i.isSome = j.isSome)

include hij

theorem prefix_same (b : BaseName) :
    maildirFilenamePrefix (b.named i) = maildirFilenamePrefix (b.named j) :=
  prefix_eq_iff.mpr ⟨rfl, hij⟩

theorem found_of_same : Found b i j := by
  intro listdir maildirPath row d hname hd hlisted honly
  unfold locateLiveFile
  dsimp only
  rw [hname]
  cases hexact : (messageDirs maildirPath row.folderPath).find?
      fun d => decide (b.named i ∈ listdir d) with
  | some d' =>
      have hmem : b.named i ∈ listdir d' := by simpa using List.find?_some hexact
      obtain ⟨rfl, hsame⟩ := honly d' (List.mem_of_find?_eq_some hexact) i hmem
      simp [hsame]
  | none =>
      dsimp only
      generalize hlook : (fun d => ((listdir d).find? fun fn => decide (maildirFilenamePrefix fn =
        maildirFilenamePrefix (b.named i))).map (Posix.join d)) = look
      have hsome : ((messageDirs maildirPath row.folderPath).findSome? look).isSome = true := by
        rw [List.findSome?_isSome_iff]
        refine ⟨d, hd, ?_⟩
        rw [← hlook, Option.isSome_map, List.find?_isSome]
        exact ⟨b.named j, hlisted, decide_eq_true (prefix_same hij b).symm⟩
      obtain ⟨path, hpath⟩ := Option.isSome_iff_exists.mp hsome
      rw [hpath]
      obtain ⟨d', hd', hfound⟩ := List.exists_of_findSome?_eq_some hpath
      rw [← hlook] at hfound
      obtain ⟨fn, hfn, rfl⟩ := Option.map_eq_some_iff.mp hfound
      have hprefix := List.find?_some hfn
      obtain ⟨k, rfl⟩ := named_of_prefix (of_decide_eq_true hprefix)
      obtain ⟨rfl, hsame⟩ := honly d' hd' k (List.mem_of_find?_eq_some hfn)
      rw [hsame]

theorem matched_of_same {H : Type} [DecidableEq H] : Matched H b i j := by
  intro alive row paths path hrow hname honly hpath hpasses hbase
  obtain ⟨h, hfound⟩ := prefixToHash_of_mem hrow
  obtain ⟨row', hrow', hprefix⟩ := mem_of_prefixToHash hfound
  rw [hname] at hprefix hfound
  obtain ⟨k, hk⟩ := named_of_prefix hprefix
  obtain rfl : h = row.1 := honly (h, row') hrow' k hk
  refine mem_seenHashes.mpr ⟨_, ⟨path, hpath, hpasses, ?_⟩, hfound⟩
  rw [hbase]
  exact (prefix_same hij b).symm

end Same

/-! ## The rows of staged messages -/

theorem mem_of_namesOnDisk {listed : List String} {p fn : String}
    (h : (namesOnDisk listed).get? p = some fn) : fn ∈ listed ∧ maildirFilenamePrefix fn = p := by
  induction listed using List.reverseRecOn with
  | nil => simp [namesOnDisk] at h
  | append_singleton listed last ih =>
      rw [namesOnDisk, List.foldl_append] at h
      change ((namesOnDisk listed).set (maildirFilenamePrefix last) last).get? p = some fn at h
      rw [Table.get?_set] at h
      split at h
      · rename_i hp
        obtain rfl := Option.some.inj h
        exact ⟨by simp, hp.symm⟩
      · obtain ⟨hmem, hp⟩ := ih h
        exact ⟨List.mem_append_left _ hmem, hp⟩

theorem namesOnDisk_of_mem {listed : List String} {fn : String} (h : fn ∈ listed) :
    ∃ fn', (namesOnDisk listed).get? (maildirFilenamePrefix fn) = some fn' := by
  induction listed using List.reverseRecOn with
  | nil => cases h
  | append_singleton listed last ih =>
      rw [namesOnDisk, List.foldl_append]
      change ∃ fn', ((namesOnDisk listed).set (maildirFilenamePrefix last) last).get? _ = some fn'
      rw [Table.get?_set]
      split
      · exact ⟨_, rfl⟩
      · rename_i hne
        refine ih ((List.mem_append.mp h).resolve_right fun hlast => hne ?_)
        rw [List.mem_singleton.mp hlast]

open Staging in
/-- The replies of a disk with these names in `cur` and in `new`. -/
def Lists {H : Type} (listed : Sub → List String) : (o : StagingOp H) →
    Except Failure (StagingAns H o) → Prop
  | .isSubdir _ sub, .ok there => there = true ∨ listed sub = []
  | .listdir _ sub, .ok names => names = listed sub
  | _, _ => True

open Staging Staging.StagingTask Effects in
/-- What `reconcile` reads of the disk. -/
theorem onDisk_names {H : Type} (d : StagingDir) (listed : Sub → List String) :
    (onDisk d : StagingTask H (Table String String)).Keeps (Lists listed) (fun _ => True)
      fun names => names = namesOnDisk (listed .cur ++ listed .new) := by
  have hreply : ∀ sub, (isSubdir d sub : StagingTask H Bool).Keeps (Lists listed) (fun _ => True)
      fun there => there = true ∨ listed sub = [] :=
    fun sub => Prog.Keeps.op (A := Lists listed) (o := .isSubdir d sub) trivial fun _ h => h
  have hlist : ∀ sub, (listdir d sub : StagingTask H (List String)).Keeps (Lists listed)
      (fun _ => True) fun names => names = listed sub :=
    fun sub => Prog.Keeps.op (A := Lists listed) (o := .listdir d sub) trivial fun _ h => h
  unfold onDisk
  rw [List.foldlM_cons]
  refine Prog.Keeps.bind (Q := fun names => names = namesOnDisk (listed .cur)) ?_ fun names hcur => ?_
  · refine Prog.Keeps.bind (hreply .cur) fun there hthere => ?_
    cases there with
    | false =>
        have hnone : listed .cur = [] := hthere.resolve_left Bool.false_ne_true
        rw [hnone]
        rfl
    | true =>
        refine Prog.Keeps.bind (hlist .cur) fun names hnames => ?_
        rw [hnames]
        rfl
  · rw [List.foldlM_cons, hcur]
    refine Prog.Keeps.bind (Q := fun names => names = namesOnDisk (listed .cur ++ listed .new)) ?_
      fun names hnew => hnew
    refine Prog.Keeps.bind (hreply .new) fun there hthere => ?_
    cases there with
    | false =>
        have hnone : listed .new = [] := hthere.resolve_left Bool.false_ne_true
        rw [hnone, List.append_nil]
        rfl
    | true =>
        refine Prog.Keeps.bind (hlist .new) fun names hnames => ?_
        rw [hnames, namesOnDisk, List.foldl_append]
        rfl

open Staging in
/-- Each row is dealt with for itself. -/
theorem mem_writes {H : Type} {names : Table String String} {rows : List (Id × StagingMessage H)}
    {found : Findings H} {w : StagingWrite H} :
    w ∈ (rows.foldl (reconcileRow names) found).writes ↔
      w ∈ found.writes ∨ ∃ row ∈ rows, w ∈ (reconcileRow names {} row).writes := by
  induction rows generalizing found with
  | nil => simp
  | cons row rows ih =>
      have hrow : (reconcileRow names found row).writes =
          found.writes ++ (reconcileRow names {} row).writes := by
        unfold reconcileRow
        split
        · simp
        · split <;> simp
      rw [List.foldl_cons, ih, hrow, List.mem_append, or_assoc]
      simp

open Staging in
theorem kept_of_same {H : Type} (hij : i.isSome = j.isSome) : Kept H b i j := by
  intro listed rows row hnodup hrow hname hlisted honly
  -- the row's prefix leads to the present name
  have hnow : (namesOnDisk listed).get? (maildirFilenamePrefix row.2.stagedFilename) =
      some (b.named j) := by
    rw [hname, prefix_same hij b]
    obtain ⟨fn, hfn⟩ := namesOnDisk_of_mem hlisted
    obtain ⟨hmem, hprefix⟩ := mem_of_namesOnDisk hfn
    obtain ⟨k, rfl⟩ := named_of_prefix hprefix
    rw [hfn, honly k hmem]
  constructor
  · intro hdelete
    obtain hnil | ⟨other, hother, hwrite⟩ := mem_writes.mp hdelete
    · cases hnil
    · have hgone : (namesOnDisk listed).get? (maildirFilenamePrefix other.2.stagedFilename) = none ∧
          other.1 = row.1 := by
        unfold reconcileRow at hwrite
        split at hwrite
        · rename_i hnone
          simp only [List.nil_append, List.mem_singleton] at hwrite
          exact ⟨hnone, (StagingWrite.deleteMessage.inj hwrite).symm⟩
        · split at hwrite <;> simp at hwrite
      obtain rfl : other = row := List.inj_on_of_nodup_map hnodup hother hrow hgone.2
      rw [hnow] at hgone
      cases hgone.1
  · intro hne
    refine mem_writes.mpr (.inr ⟨row, hrow, ?_⟩)
    unfold reconcileRow
    rw [hnow]
    dsimp only
    rw [if_neg (by rw [hname]; exact hne.symm)]
    simp

/-! ## The renames that keep the prefix -/

theorem History.Then.mem {history : History} (h : history.Then i j) :
    i ∈ history.names ∧ j ∈ history.names := by
  obtain hsub | ⟨hmem, rfl⟩ := h
  · exact ⟨hsub.subset (by simp), hsub.subset (by simp)⟩
  · exact ⟨hmem, hmem⟩

/-- When no rename brought the first flags, all names have flags or none has. -/
theorem History.same_of_reflagged {history : History} (h : history.names.IsChain Reflagged) :
    ∀ i ∈ history.names, ∀ j ∈ history.names, i.isSome = j.isSome := by
  have htrans : Trans Reflagged Reflagged Reflagged := ⟨fun hij hjk => ⟨hij.1, hjk.2⟩⟩
  have hpairs : history.names.Pairwise fun i j => i.isSome = j.isSome :=
    (List.isChain_iff_pairwise.mp h).imp fun hij => hij.1.trans hij.2.symm
  have hsymm : Std.Symm fun i j : Option String => i.isSome = j.isSome := ⟨fun _ _ h => h.symm⟩
  have hall : ∀ ⦃i⦄, i ∈ history.names → ∀ ⦃j⦄, j ∈ history.names → i.isSome = j.isSome :=
    hpairs.forall_of_forall fun _ _ => rfl
  exact fun i hi j hj => hall hi hj

/-- The prefix stays when every rename changes the flags of a name that has flags. A message
that gets its first flags has another prefix afterwards. -/
theorem stablePrefix_iff (H : Type) [DecidableEq H] (b : BaseName) (history : History) :
    StablePrefix H b history ↔ history.names.IsChain Reflagged := by
  constructor
  · intro h
    refine history.renamed.imp_of_mem_imp ?_
    intro i j hi hj hrenamed
    have hsame := (prefix_eq_iff.mp (h.same i hi j hj)).2
    exact ⟨hsame.trans hrenamed, hrenamed⟩
  · intro h
    have hsame := History.same_of_reflagged h
    constructor
    · exact fun i hi j hj => prefix_same (hsame i hi j hj) b
    · exact fun b' hne i _ j heq => hne (prefix_eq_iff.mp heq).1.symm
    · exact fun i j hij => found_of_same (hsame i hij.mem.1 j hij.mem.2)
    · exact fun i j hij => kept_of_same (hsame i hij.mem.1 j hij.mem.2)
    · exact fun i hi j hj => matched_of_same (hsame i hi j hj)

/-- A message indexed in `new`, read by a mail program. -/
def firstRead : History := ⟨[none, some "S"], by simp [Renamed]⟩

def sampleBase : BaseName := ⟨"1234.M5.host", by decide⟩

/-- Its row in the index, as the walk found it in `new`. -/
def unreadRow : MessageRow where
  messageId := "a@x"
  folderPath := "F"
  maildirFilename := "1234.M5.host"
  firstSeenAt := 0
  lastSeenAt := 0

def unreadStaged : Staging.StagingMessage String where
  stagingId := "s1"
  sourceAccountId := "a1"
  messageIdHash := "h1"
  originalFolder := "F"
  stagedFilename := "1234.M5.host"
  sizeBytes := 1

/-- It has another prefix then, and is not found, not kept and not matched. -/
theorem not_stablePrefix : ¬ (∀ b history, StablePrefix String b history) ∧
    maildirFilenamePrefix (sampleBase.named none) = "1234.M5.host" ∧
    maildirFilenamePrefix (sampleBase.named (some "S")) = "1234.M5.host:2," ∧
    ¬ Found sampleBase none (some "S") ∧ ¬ Kept String sampleBase none (some "S") ∧
    ¬ Matched String sampleBase none (some "S") := by
  refine ⟨fun h => ?_, by decide, by decide, fun h => ?_, fun h => ?_, fun h => ?_⟩
  · have hsame := (h sampleBase firstRead).same none (by simp [firstRead]) (some "S")
      (by simp [firstRead])
    revert hsame
    decide
  · let listdir (d : String) : List String := if d = "m/F/cur" then ["1234.M5.host:2,S"] else []
    have hfound := h listdir "m" unreadRow "m/F/cur" rfl (by decide) (by decide) ?_
    · revert hfound
      decide
    · intro d' _ k hk
      by_cases hd : d' = "m/F/cur"
      · rw [show listdir d' = ["1234.M5.host:2,S"] from if_pos hd] at hk
        exact ⟨hd, List.mem_singleton.mp hk⟩
      · rw [show listdir d' = [] from if_neg hd] at hk
        cases hk
  · have hkept := (h ["1234.M5.host:2,S"] [("r1", unreadStaged)] ("r1", unreadStaged) (by decide)
      (by decide) rfl (by decide) fun k hk => List.mem_singleton.mp hk).1
    exact hkept List.mem_cons_self
  · have hmatched := h [("h1", unreadRow)] ("h1", unreadRow) ["m/F/cur/1234.M5.host:2,S"]
      "m/F/cur/1234.M5.host:2,S" List.mem_cons_self rfl
      (fun _ hrow _ _ => congrArg Prod.fst (List.mem_singleton.mp hrow)) List.mem_cons_self
      (by decide) (by decide)
    revert hmatched
    decide

end MailFallback.Snapshots
