import MailFallback.Access.Semantics
import MailFallback.Library.PyString

/-! # Destination folders

`_map_folder` takes the prefix under which Dovecot shows a folder off again, knowing the
account's own prefix and guessing that of a mounted snapshot. -/

namespace MailFallback.Restore

open PyString Access Storage

/-- `text.split("/", 1)[1]` of a text with a slash. -/
def afterSlash (cs : List Char) : List Char := (cs.dropWhile (· ≠ '/')).drop 1

/-- The prefix of the account is taken off. -/
def dropSrcPrefix (srcPrefix name : List Char) : List Char :=
  if srcPrefix ≠ [] ∧ srcPrefix.isPrefixOf name = true then name.drop srcPrefix.length else name

/-- What looks like a mounted snapshot. -/
def looksMounted (name : List Char) : Bool :=
  "Recovery - ".toList.isPrefixOf name && name.contains '/'

def dropMount (name : List Char) : List Char :=
  if looksMounted name = true then afterSlash name else name

/-- Literal separators of the target give way to `escapeChar`, then slashes to separators. -/
def toTarget (separator escapeChar : String) (path : List Char) : List Char :=
  let escaped :=
    if separator ≠ "/" ∧ (before? separator.toList path).isSome = true then
      replace path separator.toList escapeChar.toList
    else path
  replace escaped ['/'] separator.toList

/-- `_map_folder` -/
def mapFolder (folderName folderMapping separator escapeChar srcPrefix : String) : String :=
  let name := dropMount (dropSrcPrefix srcPrefix.toList folderName.toList)
  let converted := toTarget separator escapeChar name
  if folderMapping = "original" then String.ofList converted
  else
    String.ofList
      (toTarget separator escapeChar folderMapping.toList ++ separator.toList ++ converted)

example : mapFolder "Acc (a@b) [abcd]/Sent" "Restored/X" "/" "_" "Acc (a@b) [abcd]/" =
    "Restored/X/Sent" := by decide +kernel

/-! ## Slashes -/

variable {cs ds pre rest : List Char}

theorem afterSlash_cons (c : Char) (cs : List Char) :
    afterSlash (c :: cs) = if c = '/' then cs else afterSlash cs := by
  by_cases hc : c = '/' <;> simp [afterSlash, hc]

theorem afterSlash_append_slash (h : '/' ∉ pre) : afterSlash (pre ++ '/' :: rest) = rest := by
  induction pre with
  | nil => simp [afterSlash_cons]
  | cons c pre ih =>
      simp only [List.mem_cons, not_or] at h
      rw [List.cons_append, afterSlash_cons, if_neg fun hc => h.1 hc.symm, ih h.2]

theorem afterSlash_append (h : '/' ∈ pre) (rest : List Char) :
    afterSlash (pre ++ rest) = afterSlash pre ++ rest := by
  induction pre with
  | nil => simp at h
  | cons c pre ih =>
      rw [List.cons_append, afterSlash_cons, afterSlash_cons]
      by_cases hc : c = '/'
      · simp [hc]
      · rw [if_neg hc, if_neg hc]
        exact ih ((List.mem_cons.mp h).resolve_left fun heq => hc heq.symm)

theorem exists_of_mem_slash (h : '/' ∈ cs) :
    ∃ pre, cs = pre ++ '/' :: afterSlash cs ∧ '/' ∉ pre := by
  induction cs with
  | nil => simp at h
  | cons c cs ih =>
      by_cases hc : c = '/'
      · exact ⟨[], by simp [afterSlash_cons, hc], by simp⟩
      · obtain ⟨pre, hpre, hslash⟩ := ih (by simpa [eq_comm, hc] using h)
        refine ⟨c :: pre, ?_, by simp [eq_comm, hc, hslash]⟩
        rw [afterSlash_cons, if_neg hc, List.cons_append, ← hpre]

theorem afterSlash_ne_self (h : '/' ∈ cs) : afterSlash cs ≠ cs := by
  obtain ⟨pre, hpre, -⟩ := exists_of_mem_slash h
  intro heq
  have hlen := congrArg List.length hpre
  rw [heq] at hlen
  simp at hlen
  omega

theorem dropMount_eq_self_iff : dropMount cs = cs ↔ looksMounted cs = false := by
  unfold dropMount
  by_cases h : looksMounted cs = true
  · have hslash : '/' ∈ cs := by
      simp only [looksMounted, Bool.and_eq_true, List.contains_iff_mem] at h
      exact h.2
    simp [h, afterSlash_ne_self hslash]
  · simp [h]

/-- Between servers with slashes nothing is renamed. -/
theorem toTarget_slash (escapeChar : String) (path : List Char) :
    toTarget "/" escapeChar path = path := by
  have hreplace : replace path ['/'] "/".toList = path := by
    rw [show "/".toList = ['/'] from rfl, replace_char]
    have hid : (fun x : Char => if x = '/' then '/' else x) = id := by
      funext x
      by_cases hx : x = '/' <;> simp [hx]
    rw [hid, List.map_id]
  simpa [toTarget] using hreplace

theorem mapFolder_original (folderName srcPrefix : String) :
    mapFolder folderName "original" "/" "_" srcPrefix =
      String.ofList (dropMount (dropSrcPrefix srcPrefix.toList folderName.toList)) := by
  simp [mapFolder, toTarget_slash]

/-! ## The prefixes -/

theorem dropSrcPrefix_append (hne : pre ≠ []) (rest : List Char) :
    dropSrcPrefix pre (pre ++ rest) = rest := by
  simp [dropSrcPrefix, hne]

theorem dropSrcPrefix_of_not (h : ¬ pre <+: cs) : dropSrcPrefix pre cs = cs := by
  simp [dropSrcPrefix, h]

/-- What begins a text before which it stands itself has no other characters than that. -/
theorem mem_of_isPrefix_append (hne : ds ≠ []) (h : cs <+: ds ++ cs) : ∀ c ∈ cs, c ∈ ds := by
  induction hn : cs.length using Nat.strongRecOn generalizing cs with
  | ind n ih =>
      intro c hc
      rcases List.prefix_or_prefix_of_prefix h (List.prefix_append ds cs) with hds | ⟨es, rfl⟩
      · exact hds.subset hc
      · have hes : es <+: ds ++ es := (List.prefix_append_right_inj ds).mp h
        rcases List.mem_append.mp hc with hc | hc
        · exact hc
        · have hlen : es.length < n := by
            have := List.length_pos_iff.mpr hne
            simp at hn
            omega
          exact ih es.length hlen hes rfl c hc

section Prefixes

/-- `Recovery - ` -/
def mountWord : List Char := ['R', 'e', 'c', 'o', 'v', 'e', 'r', 'y', ' ', '-', ' ']

theorem looksMounted_iff : looksMounted cs = true ↔ mountWord <+: cs ∧ '/' ∈ cs := by
  have hword : "Recovery - ".toList = mountWord := rfl
  rw [looksMounted, hword, Bool.and_eq_true, List.isPrefixOf_iff_prefix, List.contains_iff_mem]

/-- The texts between the parts of a prefix, spelled out. -/
theorem toList_mountPrefix {word opening middle closing : String} (hword : word.toList = mountWord)
    (hopening : opening.toList = [' ', '(']) (hmiddle : middle.toList = [')', ' ', '['])
    (hclosing : closing.toList = [']', '/']) (label ts short : String) :
    (word ++ label ++ opening ++ ts ++ middle ++ short ++ closing).toList =
      mountWord ++ (label.toList ++ ' ' :: '(' :: (ts.toList ++ ')' :: ' ' :: '[' ::
        (short.toList ++ [']', '/']))) := by
  simp only [String.toList_append, hword, hopening, hmiddle, hclosing, List.append_assoc,
    List.cons_append, List.nil_append]

theorem toList_accountPrefix {opening : String} (hopening : opening.toList = [' ', '('])
    (name address middle short closing : String) :
    (name ++ opening ++ address ++ middle ++ short ++ closing).toList =
      name.toList ++ ' ' :: '(' :: (address ++ middle ++ short ++ closing).toList := by
  simp only [String.toList_append, hopening, List.append_assoc, List.cons_append, List.nil_append]

variable (day : Time → String) (accountId : Id) (account : Account) (recoveryId : Id)
  (recovery : Recovery) (f : String)

/-- The prefix of a recovery up to its slash. -/
def mountHead : List Char :=
  mountWord ++ (account.name.toList ++ ' ' :: '(' ::
    (((recovery.restoredAt.map day).getD "snapshot").toList ++ ')' :: ' ' :: '[' ::
      (recoveryId.toList.take 8 ++ [']'])))

theorem toList_recoveryNamespacePrefix :
    (recoveryNamespacePrefix day recoveryId recovery account.name).toList =
      mountHead day account recoveryId recovery ++ ['/'] := by
  refine (toList_mountPrefix rfl rfl rfl rfl _ _ _).trans ?_
  simp only [mountHead, String.toList_ofList, List.append_assoc, List.cons_append, List.nil_append]

theorem toList_accountNamespacePrefix : ∃ cs, (accountNamespacePrefix accountId account).toList =
    account.name.toList ++ ' ' :: '(' :: cs :=
  ⟨_, toList_accountPrefix rfl _ _ _ _ _⟩

/-- The prefix of an account never begins a key of one of its recoveries. -/
theorem not_isPrefix_mounted (rest : List Char) :
    ¬ (accountNamespacePrefix accountId account).toList <+:
      mountHead day account recoveryId recovery ++ rest := by
  intro h
  obtain ⟨cs, hcs⟩ := toList_accountNamespacePrefix accountId account
  have hleft : account.name.toList ++ [' ', '('] <+:
      mountHead day account recoveryId recovery ++ rest :=
    List.IsPrefix.trans ⟨cs, by simp [hcs]⟩ h
  have hright : mountWord ++ (account.name.toList ++ [' ', '(']) <+:
      mountHead day account recoveryId recovery ++ rest := by
    simp [mountHead]
  have hself : account.name.toList ++ [' ', '('] <+:
      mountWord ++ (account.name.toList ++ [' ', '(']) :=
    List.prefix_of_prefix_length_le hleft hright (by simp)
  have hmem := mem_of_isPrefix_append (by decide) hself '(' (by simp)
  exact absurd hmem (by decide)

theorem looksMounted_mounted (rest : List Char) :
    looksMounted (mountHead day account recoveryId recovery ++ '/' :: rest) = true :=
  looksMounted_iff.mpr ⟨(List.prefix_append _ _).trans (List.prefix_append _ _), by simp⟩

variable {day accountId account recoveryId recovery f}

theorem slash_mem_mountHead_iff (hday : ∀ t, '/' ∉ (day t).toList) :
    '/' ∈ mountHead day account recoveryId recovery ↔
      '/' ∈ account.name.toList ∨ '/' ∈ recoveryId.toList.take 8 := by
  have hts : '/' ∉ ((recovery.restoredAt.map day).getD "snapshot").toList := by
    cases recovery.restoredAt with
    | none => exact (by decide : '/' ∉ "snapshot".toList)
    | some t => exact hday t
  have hword : '/' ∉ mountWord := by decide
  simp [mountHead, hts, hword]

/-- What restoring to the original folders asks of the keys of a folder `f`: in the account, in
one of its recoveries and without a prefix. -/
structure RecoversOriginal (day : Time → String) (accountId : Id) (account : Account)
    (recoveryId : Id) (recovery : Recovery) (f : String) : Prop where
  live : mapFolder (accountNamespacePrefix accountId account ++ f) "original" "/" "_"
    (accountNamespacePrefix accountId account) = f
  mounted : ∀ srcPrefix ∈ ["", accountNamespacePrefix accountId account],
    mapFolder (recoveryNamespacePrefix day recoveryId recovery account.name ++ f) "original" "/"
      "_" srcPrefix = f
  plain : ¬ (accountNamespacePrefix accountId account).toList <+: f.toList →
    (∀ id r, ¬ (recoveryNamespacePrefix day id r account.name).toList <+: f.toList) →
    ∀ srcPrefix ∈ ["", accountNamespacePrefix accountId account],
      mapFolder f "original" "/" "_" srcPrefix = f

theorem mapFolder_live_iff : mapFolder (accountNamespacePrefix accountId account ++ f) "original"
    "/" "_" (accountNamespacePrefix accountId account) = f ↔ looksMounted f.toList = false := by
  have hne : (accountNamespacePrefix accountId account).toList ≠ [] := by
    obtain ⟨cs, hcs⟩ := toList_accountNamespacePrefix accountId account
    simp [hcs]
  rw [mapFolder_original, String.toList_append, dropSrcPrefix_append hne, ← String.toList_inj,
    String.toList_ofList, dropMount_eq_self_iff]

theorem mapFolder_mounted {srcPrefix : String}
    (hsrc : srcPrefix ∈ ["", accountNamespacePrefix accountId account]) :
    mapFolder (recoveryNamespacePrefix day recoveryId recovery account.name ++ f) "original" "/"
      "_" srcPrefix =
        String.ofList (afterSlash (mountHead day account recoveryId recovery ++ '/' :: f.toList)) := by
  have hdrop : dropSrcPrefix srcPrefix.toList
      (mountHead day account recoveryId recovery ++ '/' :: f.toList) =
        mountHead day account recoveryId recovery ++ '/' :: f.toList := by
    rcases (by simpa using hsrc : srcPrefix = "" ∨ srcPrefix = _) with rfl | rfl
    · rfl
    · exact dropSrcPrefix_of_not (not_isPrefix_mounted _ _ _ _ _ _)
  rw [mapFolder_original, String.toList_append, toList_recoveryNamespacePrefix,
    List.append_assoc, List.singleton_append, hdrop, dropMount,
    if_pos (looksMounted_mounted _ _ _ _ _)]

theorem mapFolder_mounted_iff (hday : ∀ t, '/' ∉ (day t).toList) {srcPrefix : String}
    (hsrc : srcPrefix ∈ ["", accountNamespacePrefix accountId account]) :
    mapFolder (recoveryNamespacePrefix day recoveryId recovery account.name ++ f) "original" "/"
      "_" srcPrefix = f ↔ '/' ∉ account.name.toList ∧ '/' ∉ recoveryId.toList.take 8 := by
  have hslash := @slash_mem_mountHead_iff day account recoveryId recovery hday
  rw [mapFolder_mounted hsrc, ← String.toList_inj, String.toList_ofList, ← not_or, ← hslash]
  by_cases h : '/' ∈ mountHead day account recoveryId recovery
  · rw [afterSlash_append h]
    have hlen : afterSlash (mountHead day account recoveryId recovery) ++ '/' :: f.toList ≠
        f.toList := by
      intro heq
      have := congrArg List.length heq
      simp at this
      omega
    simp [h, hlen]
  · simp [h, afterSlash_append_slash h]

/-- The folder comes back from its keys exactly if its own name does not look like a mounted
snapshot and the first slash of the recovery's prefix is the last. -/
theorem recoversOriginal_iff (hday : ∀ t, '/' ∉ (day t).toList) :
    RecoversOriginal day accountId account recoveryId recovery f ↔
      looksMounted f.toList = false ∧ '/' ∉ account.name.toList ∧
        '/' ∉ recoveryId.toList.take 8 := by
  constructor
  · intro h
    have hsrc : "" ∈ ["", accountNamespacePrefix accountId account] := List.mem_cons_self
    exact ⟨mapFolder_live_iff.mp h.live, (mapFolder_mounted_iff hday hsrc).mp (h.mounted "" hsrc)⟩
  · rintro ⟨hf, hslash⟩
    refine ⟨mapFolder_live_iff.mpr hf,
      fun srcPrefix hsrc => (mapFolder_mounted_iff hday hsrc).mpr hslash, ?_⟩
    intro hpre _ srcPrefix hsrc
    have hdrop : dropSrcPrefix srcPrefix.toList f.toList = f.toList := by
      rcases (by simpa using hsrc : srcPrefix = "" ∨ srcPrefix = _) with rfl | rfl
      · rfl
      · exact dropSrcPrefix_of_not hpre
    rw [mapFolder_original, hdrop, ← String.toList_inj, String.toList_ofList]
    exact dropMount_eq_self_iff.mpr hf

end Prefixes

def workAccount : Account where
  maildirPath := "/srv/mail/work"
  storeId := "store"
  name := "Work"
  emailAddress := "work@example.org"

def workRecovery : Recovery where
  accountId := "5f0c"
  snapshotId := "a1b2c3d4"
  restoredAt := some 0
  restorePath := "/srv/mail/.offsite-restore/work"
  status := .ready

/-- A folder of the provider whose name begins like a mount loses its first level. -/
theorem not_recoversOriginal : ¬ RecoversOriginal (fun _ => "2026-05-11") "5f0c" workAccount
    "9d3e7a10" workRecovery "Recovery - 2024/Invoices" := fun h =>
  absurd (mapFolder_live_iff.mp h.live) (by decide)

theorem recoversOriginal_inbox : RecoversOriginal (fun _ => "2026-05-11") "5f0c" workAccount
    "9d3e7a10" workRecovery "Projects/2024" :=
  (recoversOriginal_iff fun _ => by decide).mpr ⟨by decide, by decide, by decide⟩

end MailFallback.Restore
