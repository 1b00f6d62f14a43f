import MailFallback.Progress.Semantics
import Mathlib.Data.Finset.Card

/-! # A log that grows

No line takes back what an earlier line told of folders, errors and warnings, so what is read
of a log is the beginning of what is read of it later. -/

namespace MailFallback.Progress

open PyString Regex Parsing

variable {word : Char → Bool} {s s' : Parsing} {i : ℕ} {line : List Char}

def folderNames (snap : ProgressSnapshot) : List String := snap.perFolder.map FolderProgress.name

/-! ## Folders that are opened -/

/-- The rules that are tried before that of an opened folder. -/
def rulesBefore (word : Char → Bool) : List Rule :=
  [versionRule, channelRule, resolvingRule, connectingRule, tlsRule, authRule (reAuthSasl word),
    authRule reAuthLogin, loginRule]

def rulesAfter : List Rule :=
  [farRule, nearRule, synchronizingRule, progressFarRule, progressNearRule, pullingRule,
    summaryRule, warningRule, errorRule]

theorem rules_eq (word : Char → Bool) :
    rules word = rulesBefore word ++ folderOpenRule :: rulesAfter := rfl

/-- The folder that a line opens. A line that an earlier rule takes opens none. -/
def openedFolder (word : Char → Bool) (rawLine : String) : Option String :=
  let line := (strip rawLine).toList
  if line = [] ∨ (rulesBefore word).any (fun rule => (rule 0 line {}).isSome) = true then none
  else (reFolderOpen.match? line).map fun m => group m 1

/-- Whether one of these rules takes a line depends on the line alone. -/
theorem isSome_rulesBefore {rule : Rule} (hrule : rule ∈ rulesBefore word) :
    (rule i line s).isSome = (rule 0 line {}).isSome := by
  simp only [rulesBefore, List.mem_cons, List.not_mem_nil, or_false] at hrule
  rcases hrule with rfl | rfl | rfl | rfl | rfl | rfl | rfl | rfl
  · simp only [versionRule, Option.isSome_map]
  · simp only [channelRule, Option.isSome_map]
  · simp only [resolvingRule, Option.isSome_map]
  · simp only [connectingRule, Option.isSome_map]
  · simp only [tlsRule, Option.isSome_map]
  · simp only [authRule, Option.isSome_map]
  · simp only [authRule, Option.isSome_map]
  · unfold loginRule
    split <;> rfl

/-! ## What one line does -/

/-- Nothing is taken back. -/
structure Forward (snap snap' : ProgressSnapshot) : Prop where
  folders : folderNames snap <+: folderNames snap'
  index : snap.folderIndex ≤ snap'.folderIndex
  errors : snap.errors <+: snap'.errors
  warnings : snap.warnings <+: snap'.warnings

theorem Forward.trans {a b c : ProgressSnapshot} (h : Forward a b) (h' : Forward b c) : Forward a c :=
  ⟨h.folders.trans h'.folders, h.index.trans h'.index, h.errors.trans h'.errors,
    h.warnings.trans h'.warnings⟩

/-- No folder is opened. -/
structure Quiet (s s' : Parsing) : Prop where
  folders : folderNames s'.snap = folderNames s.snap
  index : s'.snap.folderIndex = s.snap.folderIndex
  errors : s.snap.errors <+: s'.snap.errors
  warnings : s.snap.warnings <+: s'.snap.warnings

theorem Quiet.refl (s : Parsing) : Quiet s s :=
  ⟨rfl, rfl, List.prefix_refl _, List.prefix_refl _⟩

theorem Quiet.forward (h : Quiet s s') : Forward s.snap s'.snap :=
  ⟨h.folders ▸ List.prefix_refl _, h.index.ge, h.errors, h.warnings⟩

theorem folderNames_updateFolder (name : String) {f : FolderProgress → FolderProgress}
    (hf : ∀ fp, (f fp).name = fp.name) :
    folderNames (s.updateFolder name f).snap = folderNames s.snap := by
  simp only [folderNames, updateFolder, List.map_map]
  refine List.map_congr_left fun fp _ => ?_
  rw [Function.comp_apply]
  split
  · exact hf fp
  · rfl

theorem quiet_updateFolder (name : String) {f : FolderProgress → FolderProgress}
    (hf : ∀ fp, (f fp).name = fp.name) : Quiet s (s.updateFolder name f) :=
  ⟨folderNames_updateFolder name hf, rfl, List.prefix_refl _, List.prefix_refl _⟩

/-- A rule that opens no folder. -/
def QuietRule (rule : Rule) : Prop :=
  ∀ i line s s', rule i line s = some (.ok s') → Quiet s s'

theorem quiet_of_map {found : Option Place} {f : Place → Except ValueError Parsing}
    (hf : ∀ m, f m = .ok s' → Quiet s s') (h : found.map f = some (.ok s')) : Quiet s s' := by
  obtain ⟨m, -, hm⟩ := Option.map_eq_some_iff.mp h
  exact hf m hm

theorem bind_eq_ok {α β : Type} {x : Except ValueError α} {f : α → Except ValueError β} {b : β}
    (h : (x >>= f) = .ok b) : ∃ a, x = .ok a ∧ f a = .ok b := by
  cases x with
  | error e => cases h
  | ok a => exact ⟨a, rfl, h⟩

/-- A rule about the folder whose lines are being read does not give it another name. -/
theorem quiet_folderRule {found : List Char → Option Place}
    {f : Place → Except ValueError (FolderProgress → FolderProgress)}
    (hf : ∀ m change, f m = .ok change → ∀ fp, (change fp).name = fp.name) :
    QuietRule (folderRule found f) := by
  intro i line s s' h
  unfold folderRule at h
  split at h
  · rename_i m name hfound hcurrent
    obtain ⟨change, hchange, hs'⟩ := bind_eq_ok (Option.some.inj h)
    cases hs'
    exact quiet_updateFolder name (hf m change hchange)
  · cases h

theorem quiet_count (side : String) (set : ℕ → FolderProgress → FolderProgress)
    (hset : ∀ n fp, (set n fp).name = fp.name) :
    QuietRule (folderRule (reCount side).search fun m => do
      let n ← numberOf m 1
      pure (set n)) := by
  refine quiet_folderRule fun m change h fp => ?_
  obtain ⟨n, -, hchange⟩ := bind_eq_ok h
  cases hchange
  exact hset n fp

theorem quiet_before {rule : Rule} (hrule : rule ∈ rulesBefore word) : QuietRule rule := by
  simp only [rulesBefore, List.mem_cons, List.not_mem_nil, or_false] at hrule
  intro i line s s'
  rcases hrule with rfl | rfl | rfl | rfl | rfl | rfl | rfl | rfl
  · exact quiet_of_map fun m hm => by cases hm; exact ⟨rfl, rfl, List.prefix_refl _, List.prefix_refl _⟩
  · exact quiet_of_map fun m hm => by cases hm; exact ⟨rfl, rfl, List.prefix_refl _, List.prefix_refl _⟩
  · exact quiet_of_map fun m hm => by cases hm; exact ⟨rfl, rfl, List.prefix_refl _, List.prefix_refl _⟩
  · refine quiet_of_map fun m hm => ?_
    obtain ⟨port, -, hm⟩ := bind_eq_ok hm
    cases hm
    exact ⟨rfl, rfl, List.prefix_refl _, List.prefix_refl _⟩
  · exact quiet_of_map fun m hm => by cases hm; exact ⟨rfl, rfl, List.prefix_refl _, List.prefix_refl _⟩
  · exact quiet_of_map fun m hm => by cases hm; exact ⟨rfl, rfl, List.prefix_refl _, List.prefix_refl _⟩
  · exact quiet_of_map fun m hm => by cases hm; exact ⟨rfl, rfl, List.prefix_refl _, List.prefix_refl _⟩
  · intro h
    unfold loginRule at h
    split at h
    · cases h
      exact ⟨rfl, rfl, List.prefix_refl _, List.prefix_refl _⟩
    · cases h

theorem quiet_after {rule : Rule} (hrule : rule ∈ rulesAfter) : QuietRule rule := by
  simp only [rulesAfter, List.mem_cons, List.not_mem_nil, or_false] at hrule
  rcases hrule with rfl | rfl | rfl | rfl | rfl | rfl | rfl | rfl | rfl
  · exact quiet_count "far" (fun n fp => { fp with far := some n }) fun _ _ => rfl
  · exact quiet_count "near" (fun n fp => { fp with near := some n }) fun _ _ => rfl
  · -- the folder that was being read is closed
    intro i line s s'
    refine quiet_of_map fun m hm => ?_
    cases hm
    cases hcurrent : s.currentFolder with
    | none => exact ⟨rfl, rfl, List.prefix_refl _, List.prefix_refl _⟩
    | some name =>
        exact ⟨folderNames_updateFolder (s := s) name fun _ => rfl, rfl, List.prefix_refl _,
          List.prefix_refl _⟩
  · refine quiet_folderRule fun m change h fp => ?_
    obtain ⟨addedDone, -, h⟩ := bind_eq_ok h
    obtain ⟨addedTotal, -, h⟩ := bind_eq_ok h
    obtain ⟨flaggedDone, -, h⟩ := bind_eq_ok h
    obtain ⟨flaggedTotal, -, h⟩ := bind_eq_ok h
    obtain ⟨expungedDone, -, h⟩ := bind_eq_ok h
    obtain ⟨expungedTotal, -, h⟩ := bind_eq_ok h
    cases h
    rfl
  · refine quiet_folderRule fun m change h fp => ?_
    obtain ⟨nearAdded, -, h⟩ := bind_eq_ok h
    obtain ⟨nearTotal, -, h⟩ := bind_eq_ok h
    cases h
    dsimp only
    split <;> rfl
  · refine quiet_folderRule fun m change h fp => ?_
    obtain ⟨addedDone, -, h⟩ := bind_eq_ok h
    obtain ⟨addedTotal, -, h⟩ := bind_eq_ok h
    cases h
    rfl
  · intro i line s s'
    refine quiet_of_map fun m hm => ?_
    obtain ⟨summary, -, hm⟩ := bind_eq_ok hm
    cases hm
    exact ⟨rfl, rfl, List.prefix_refl _, List.prefix_refl _⟩
  · intro i line s s'
    exact quiet_of_map fun m hm => by
      cases hm
      exact ⟨rfl, rfl, List.prefix_refl _, List.prefix_append _ _⟩
  · intro i line s s'
    exact quiet_of_map fun m hm => by
      cases hm
      exact ⟨rfl, rfl, List.prefix_append _ _, List.prefix_refl _⟩

/-- The folders so far, when one is opened. -/
def withFolder (names : List String) (name : String) : List String :=
  if name ∈ names then names else names ++ [name]

theorem folderOpenRule_eq {m : Place} (hm : reFolderOpen.match? line = some m)
    (h : folderOpenRule i line s = some (.ok s')) :
    folderNames s'.snap = withFolder (folderNames s.snap) (group m 1) ∧
      s'.snap.folderIndex = (folderNames s'.snap).length ∧ s'.snap.errors = s.snap.errors ∧
      s'.snap.warnings = s.snap.warnings := by
  unfold folderOpenRule at h
  rw [hm, Option.map_some] at h
  cases h
  rw [folderNames_updateFolder (f := fun fp => { fp with phase := .loading }) _ fun _ => rfl]
  refine ⟨?_, (List.length_map _).symm, rfl, rfl⟩
  have hany : s.snap.perFolder.any (fun fp => fp.name == group m 1) = true ↔
      group m 1 ∈ folderNames s.snap := by
    simp [folderNames]
  unfold withFolder
  by_cases hold : group m 1 ∈ folderNames s.snap
  · rw [if_pos hold]
    simp only [if_pos (hany.mpr hold)]
    rfl
  · rw [if_neg hold]
    have hnew : ¬ s.snap.perFolder.any (fun fp => fp.name == group m 1) = true :=
      fun h => hold (hany.mp h)
    simp only [if_neg hnew]
    simp [folderNames]

/-- What the lines so far have left. -/
structure Consistent (word : Char → Bool) (lines : List String) (snap : ProgressSnapshot) : Prop where
  nodup : (folderNames snap).Nodup
  opened : ∀ name, name ∈ folderNames snap ↔ name ∈ lines.filterMap (openedFolder word)
  index : snap.folderIndex = (folderNames snap).length

variable {lines more : List String} {rawLine : String}

theorem parseLine_quiet (hopened : openedFolder word rawLine = none) (hquiet : Quiet s s')
    (h : Consistent word lines s.snap) :
    Consistent word (lines ++ [rawLine]) s'.snap ∧ Forward s.snap s'.snap := by
  refine ⟨⟨hquiet.folders ▸ h.nodup, fun name => ?_, ?_⟩, hquiet.forward⟩
  · rw [hquiet.folders, h.opened name]
    simp [hopened]
  · rw [hquiet.index, hquiet.folders, h.index]

/-- One line keeps what the others told. -/
theorem parseLine_forward (h : Consistent word lines s.snap)
    (hline : parseLine word s (rawLine, i) = .ok s') :
    Consistent word (lines ++ [rawLine]) s'.snap ∧ Forward s.snap s'.snap := by
  unfold parseLine at hline
  dsimp only at hline
  generalize hl : (strip rawLine).toList = line at hline
  by_cases hempty : line = []
  · rw [if_pos hempty] at hline
    cases hline
    refine parseLine_quiet ?_ (Quiet.refl s) h
    simp [openedFolder, hl, hempty]
  rw [if_neg hempty, rules_eq, List.findSome?_append] at hline
  cases hbefore : (rulesBefore word).findSome? fun rule => rule i line s with
  | some r =>
      rw [hbefore] at hline
      obtain rfl : r = .ok s' := hline
      obtain ⟨rule, hrule, hr⟩ := List.exists_of_findSome?_eq_some hbefore
      refine parseLine_quiet ?_ (quiet_before hrule i line s s' hr) h
      have hany : (rulesBefore word).any (fun rule => (rule 0 line {}).isSome) = true := by
        refine List.any_eq_true.mpr ⟨rule, hrule, ?_⟩
        rw [← isSome_rulesBefore (i := i) (s := s) hrule, hr]
        rfl
      simp [openedFolder, hl, hany]
  | none =>
      rw [hbefore, Option.none_or, List.findSome?_cons] at hline
      have hany : (rulesBefore word).any (fun rule => (rule 0 line {}).isSome) = false := by
        refine List.any_eq_false.mpr fun rule hrule => ?_
        rw [← isSome_rulesBefore (i := i) (s := s) hrule,
          List.findSome?_eq_none_iff.mp hbefore rule hrule]
        simp
      have hopened : openedFolder word rawLine =
          (reFolderOpen.match? line).map fun m => group m 1 := by
        simp [openedFolder, hl, hempty, hany]
      cases hmatch : reFolderOpen.match? line with
      | none =>
          have hrule : folderOpenRule i line s = none := by
            unfold folderOpenRule
            rw [hmatch]
            rfl
          rw [hrule] at hline
          dsimp only at hline
          refine parseLine_quiet (by rw [hopened, hmatch]; rfl) ?_ h
          cases hafter : rulesAfter.findSome? fun rule => rule i line s with
          | none =>
              rw [hafter] at hline
              cases hline
              exact Quiet.refl s
          | some r =>
              rw [hafter] at hline
              obtain rfl : r = .ok s' := hline
              obtain ⟨rule, hrule, hr⟩ := List.exists_of_findSome?_eq_some hafter
              exact quiet_after hrule i line s s' hr
      | some m =>
          have hrule : folderOpenRule i line s = some (.ok s') := by
            unfold folderOpenRule at hline ⊢
            rw [hmatch] at hline ⊢
            exact congrArg some hline
          obtain ⟨hnames, hindex, herrors, hwarnings⟩ := folderOpenRule_eq hmatch hrule
          have hname : openedFolder word rawLine = some (group m 1) := by rw [hopened, hmatch]; rfl
          refine ⟨⟨?_, fun name => ?_, hindex⟩, ?_, ?_, ?_, ?_⟩
          · rw [hnames, withFolder]
            split
            · exact h.nodup
            · rename_i hnew
              exact h.nodup.append (List.nodup_singleton _) (by simpa using hnew)
          · rw [hnames, withFolder, List.filterMap_append, List.mem_append, ← h.opened name]
            split
            · rename_i hold
              simp only [List.filterMap_cons, hname, List.filterMap_nil, List.mem_singleton]
              exact ⟨.inl, fun h => h.elim id fun h => h ▸ hold⟩
            · simp [hname]
          · rw [hnames, withFolder]
            split
            · exact List.prefix_refl _
            · exact List.prefix_append _ _
          · rw [hindex, hnames, h.index, withFolder]
            split
            · exact le_rfl
            · simp
          · rw [herrors]
          · rw [hwarnings]

/-! ## Runs -/

/-- The lines from the one of number `k` on, read in a state. -/
def parseFrom (word : Char → Bool) (s : Parsing) (k : ℕ) (lines : List String) :
    Except ValueError Parsing :=
  (lines.zipIdx k).foldlM (parseLine word) s

theorem parseFrom_append (s : Parsing) (k : ℕ) (lines more : List String) :
    parseFrom word s k (lines ++ more) =
      (parseFrom word s k lines >>= fun s => parseFrom word s (k + lines.length) more) := by
  unfold parseFrom
  rw [List.zipIdx_append, List.foldlM_append]

/-- A run keeps what the lines before it told. -/
theorem parseFrom_forward {k : ℕ} (h : Consistent word lines s.snap)
    (hrun : parseFrom word s k more = .ok s') :
    Consistent word (lines ++ more) s'.snap ∧ Forward s.snap s'.snap := by
  induction more generalizing lines s k with
  | nil =>
      cases hrun
      rw [List.append_nil]
      exact ⟨h, (Quiet.refl _).forward⟩
  | cons rawLine more ih =>
      obtain ⟨t, hline, hrest⟩ := bind_eq_ok hrun
      obtain ⟨ht, hforward⟩ := parseLine_forward h hline
      obtain ⟨hs', hforward'⟩ := ih ht hrest
      rw [List.append_assoc, List.singleton_append] at hs'
      exact ⟨hs', hforward.trans hforward'⟩

/-! ## A log read again -/

/-- The last lines of the log are not looked at. -/
def withTail (tail : List String) (s : Parsing) : Parsing :=
  { s with snap := { s.snap with rawTail := tail } }

def TailFree (rule : Rule) : Prop :=
  ∀ i line s tail, rule i line (withTail tail s) = (rule i line s).map (Except.map (withTail tail))

theorem map_tail {found : Option Place} {f g : Place → Except ValueError Parsing}
    {tail : List String} (h : ∀ m, g m = (f m).map (withTail tail)) :
    found.map g = (found.map f).map (Except.map (withTail tail)) := by
  cases found with
  | none => rfl
  | some m => rw [Option.map_some, Option.map_some, Option.map_some, h m]

theorem tailFree_folderRule {found : List Char → Option Place}
    {f : Place → Except ValueError (FolderProgress → FolderProgress)} :
    TailFree (folderRule found f) := by
  intro i line s tail
  have hfolder : (withTail tail s).currentFolder = s.currentFolder := rfl
  unfold folderRule
  rw [hfolder]
  cases found line with
  | none => rfl
  | some m =>
      cases s.currentFolder with
      | none => rfl
      | some name =>
          dsimp only
          cases f m with
          | error e => rfl
          | ok change => rfl

theorem tailFree_rules {rule : Rule} (hrule : rule ∈ rules word) : TailFree rule := by
  simp only [rules, List.mem_cons, List.not_mem_nil, or_false] at hrule
  intro i line s tail
  rcases hrule with rfl | rfl | rfl | rfl | rfl | rfl | rfl | rfl | rfl | rfl | rfl | rfl | rfl |
    rfl | rfl | rfl | rfl | rfl
  · exact map_tail fun _ => rfl
  · exact map_tail fun _ => rfl
  · exact map_tail fun _ => rfl
  · refine map_tail fun m => ?_
    cases numberOf m 3 <;> rfl
  · exact map_tail fun _ => rfl
  · exact map_tail fun _ => rfl
  · exact map_tail fun _ => rfl
  · unfold loginRule
    split <;> rfl
  · exact map_tail fun _ => rfl
  · exact tailFree_folderRule i line s tail
  · exact tailFree_folderRule i line s tail
  · refine map_tail fun m => ?_
    have hfolder : (withTail tail s).currentFolder = s.currentFolder := rfl
    rw [hfolder]
    cases s.currentFolder <;> rfl
  · exact tailFree_folderRule i line s tail
  · exact tailFree_folderRule i line s tail
  · exact tailFree_folderRule i line s tail
  · refine map_tail fun m => ?_
    cases summaryOf m <;> rfl
  · exact map_tail fun _ => rfl
  · exact map_tail fun _ => rfl

theorem findSome?_tail {rules : List Rule} (h : ∀ rule ∈ rules, TailFree rule) (tail : List String) :
    rules.findSome? (fun rule => rule i line (withTail tail s)) =
      (rules.findSome? fun rule => rule i line s).map (Except.map (withTail tail)) := by
  induction rules with
  | nil => rfl
  | cons rule rules ih =>
      rw [List.findSome?_cons, List.findSome?_cons, h rule List.mem_cons_self]
      cases rule i line s with
      | none => exact ih fun rule hrule => h rule (List.mem_cons_of_mem _ hrule)
      | some r => rfl

theorem parseLine_tail (tail : List String) (rawLine : String × ℕ) :
    parseLine word (withTail tail s) rawLine = (parseLine word s rawLine).map (withTail tail) := by
  unfold parseLine
  dsimp only
  split
  · rfl
  · rw [findSome?_tail (fun _ => tailFree_rules)]
    cases (rules word).findSome? fun rule => rule rawLine.2 (strip rawLine.1).toList s with
    | none => rfl
    | some r => rfl

theorem parseFrom_tail (tail : List String) (k : ℕ) (lines : List String) :
    parseFrom word (withTail tail s) k lines = (parseFrom word s k lines).map (withTail tail) := by
  induction lines generalizing s k with
  | nil => rfl
  | cons rawLine lines ih =>
      unfold parseFrom at ih ⊢
      rw [List.zipIdx_cons, List.foldlM_cons, List.foldlM_cons, parseLine_tail]
      cases parseLine word s (rawLine, k) with
      | error e => rfl
      | ok t => exact ih (k + 1)

/-- Before the first line. -/
def begun (priorFolderCount : Option ℕ) : Parsing where
  snap := {
    phase := .starting
    folderTotalEstimate := priorFolderCount
    folderTotalEstimateSource := priorFolderCount.map fun _ => .previousSync }

variable {priorFolderCount : Option ℕ} {snap snap' : ProgressSnapshot}

theorem parseMbsyncLines_eq (hne : lines ≠ []) :
    parseMbsyncLines word lines priorFolderCount =
      (parseFrom word (begun priorFolderCount) 0 lines).map fun s =>
        { s.snap with rawTail := rawTail lines } := by
  unfold parseMbsyncLines
  dsimp only
  rw [if_neg hne]
  have htail := @parseFrom_tail word (begun priorFolderCount) (rawTail lines) 0 lines
  unfold parseFrom at htail ⊢
  change Except.map Parsing.snap (List.foldlM (parseLine word)
    (withTail (rawTail lines) (begun priorFolderCount)) (lines.zipIdx 0)) = _
  rw [htail]
  cases List.foldlM (parseLine word) (begun priorFolderCount) (lines.zipIdx 0) <;> rfl

/-- What is returned for a log and for its beginning comes from one reading. -/
structure Reading (word : Char → Bool) (lines more : List String) (priorFolderCount : Option ℕ)
    (snap snap' : ProgressSnapshot) (s s' : Parsing) : Prop where
  beginning : parseFrom word (begun priorFolderCount) 0 lines = .ok s
  rest : parseFrom word s lines.length more = .ok s'
  snap : lines ≠ [] → snap = { s.snap with rawTail := rawTail lines }
  snap' : lines ++ more ≠ [] → snap' = { s'.snap with rawTail := rawTail (lines ++ more) }

/-- The same folders, errors and warnings. -/
def Tells (s : Parsing) (snap : ProgressSnapshot) : Prop :=
  folderNames snap = folderNames s.snap ∧ snap.folderIndex = s.snap.folderIndex ∧
    snap.errors = s.snap.errors ∧ snap.warnings = s.snap.warnings

theorem parseMbsyncLines_tells (h : parseMbsyncLines word lines priorFolderCount = .ok snap) :
    ∃ s, parseFrom word (begun priorFolderCount) 0 lines = .ok s ∧
      (lines ≠ [] → snap = { s.snap with rawTail := rawTail lines }) ∧ Tells s snap := by
  by_cases hne : lines = []
  · subst hne
    cases h
    exact ⟨_, rfl, fun h => absurd rfl h, rfl, rfl, rfl, rfl⟩
  · rw [parseMbsyncLines_eq hne] at h
    cases hs : parseFrom word (begun priorFolderCount) 0 lines with
    | error e =>
        rw [hs] at h
        cases h
    | ok s =>
        rw [hs] at h
        cases h
        exact ⟨s, rfl, fun _ => rfl, rfl, rfl, rfl, rfl⟩

theorem Tells.consistent (h : Tells s snap) (hs : Consistent word lines s.snap) :
    Consistent word lines snap := by
  obtain ⟨hnames, hindex, -, -⟩ := h
  exact ⟨hnames ▸ hs.nodup, hnames ▸ hs.opened, by rw [hindex, hnames, hs.index]⟩

theorem Tells.forward (h : Tells s snap) (h' : Tells s' snap') (hs : Forward s.snap s'.snap) :
    Forward snap snap' := by
  obtain ⟨hnames, hindex, herrors, hwarnings⟩ := h
  obtain ⟨hnames', hindex', herrors', hwarnings'⟩ := h'
  refine ⟨?_, ?_, ?_, ?_⟩
  · rw [hnames, hnames']
    exact hs.folders
  · rw [hindex, hindex']
    exact hs.index
  · rw [herrors, herrors']
    exact hs.errors
  · rw [hwarnings, hwarnings']
    exact hs.warnings

theorem consistent_begun : Consistent word [] (begun priorFolderCount).snap :=
  ⟨List.nodup_nil, fun _ => Iff.rfl, rfl⟩

/-- The index counts the distinct folders that were opened. -/
theorem Consistent.card (h : Consistent word lines snap) :
    snap.folderIndex = (lines.filterMap (openedFolder word)).toFinset.card := by
  have hsame : (folderNames snap).toFinset = (lines.filterMap (openedFolder word)).toFinset := by
    ext name
    rw [List.mem_toFinset, List.mem_toFinset]
    exact h.opened name
  rw [h.index, ← hsame, List.toFinset_card_of_nodup h.nodup]

/-- What is shown of a log only grows with the log, and to read all of it again is to read on. -/
theorem log_moves_forward (word : Char → Bool) (lines more : List String)
    (priorFolderCount : Option ℕ) (snap snap' : ProgressSnapshot)
    (h : parseMbsyncLines word lines priorFolderCount = .ok snap)
    (h' : parseMbsyncLines word (lines ++ more) priorFolderCount = .ok snap') :
    (folderNames snap).Nodup ∧ (folderNames snap').Nodup ∧ Forward snap snap' ∧
      snap.folderIndex = (lines.filterMap (openedFolder word)).toFinset.card ∧
      snap'.folderIndex = ((lines ++ more).filterMap (openedFolder word)).toFinset.card ∧
      ∃ s s', Reading word lines more priorFolderCount snap snap' s s' := by
  obtain ⟨s, hs, hsnap, htells⟩ := parseMbsyncLines_tells h
  obtain ⟨s', hs', hsnap', htells'⟩ := parseMbsyncLines_tells h'
  have hrest : parseFrom word s lines.length more = .ok s' := by
    rw [parseFrom_append, hs, Nat.zero_add] at hs'
    exact hs'
  obtain ⟨hconsistent, -⟩ := parseFrom_forward consistent_begun hs
  obtain ⟨hconsistent', hforward⟩ := parseFrom_forward hconsistent hrest
  have hbefore := htells.consistent hconsistent
  have hafter := htells'.consistent hconsistent'
  exact ⟨hbefore.nodup, hafter.nodup, htells.forward htells' hforward, hbefore.card, hafter.card,
    s, s', hs, hrest, hsnap, hsnap'⟩

/-- A folder is opened, and then an error is told. -/
theorem log_moves_forward_inbox : ∃ snap snap',
    parseMbsyncLines Char.isAlphanum ["Opening far side box INBOX..."] none = .ok snap ∧
    parseMbsyncLines Char.isAlphanum
      (["Opening far side box INBOX..."] ++ ["Error: the disk is full"]) none = .ok snap' ∧
    folderNames snap = ["INBOX"] ∧ snap'.errors.length = 1 ∧ Forward snap snap' := by
  have hbefore : (parseMbsyncLines Char.isAlphanum ["Opening far side box INBOX..."] none).toOption.any
      (fun snap => folderNames snap == ["INBOX"]) = true := by
    decide +kernel
  have hafter : (parseMbsyncLines Char.isAlphanum
      (["Opening far side box INBOX..."] ++ ["Error: the disk is full"]) none).toOption.any
      (fun snap => snap.errors.length == 1) = true := by
    decide +kernel
  cases hsnap : parseMbsyncLines Char.isAlphanum ["Opening far side box INBOX..."] none with
  | error e =>
      rw [hsnap] at hbefore
      cases hbefore
  | ok snap =>
      cases hsnap' : parseMbsyncLines Char.isAlphanum
          (["Opening far side box INBOX..."] ++ ["Error: the disk is full"]) none with
      | error e =>
          rw [hsnap'] at hafter
          cases hafter
      | ok snap' =>
          rw [hsnap] at hbefore
          rw [hsnap'] at hafter
          have hforward := (log_moves_forward _ _ _ _ _ _ hsnap hsnap').2.2.1
          exact ⟨snap, snap', rfl, rfl, beq_iff_eq.mp hbefore, beq_iff_eq.mp hafter, hforward⟩

end MailFallback.Progress
