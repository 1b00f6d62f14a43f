import MailFallback.Folders.Semantics
import MailFallback.Library.Regex
import MailFallback.Status.Semantics

/-! # The output of mbsync

`parse_mbsync_lines`: what the lines of a run tell of its progress. -/

namespace MailFallback.Progress

open PyString Regex

inductive FolderPhase where
  | opening | loading | pulling | done
  deriving DecidableEq, Repr

structure FolderProgress where
  name : String
  phase : FolderPhase := .opening
  near : Option ℕ := none
  far : Option ℕ := none
  addedDone : ℕ := 0
  addedTotal : ℕ := 0
  flaggedDone : ℕ := 0
  flaggedTotal : ℕ := 0
  expungedDone : ℕ := 0
  expungedTotal : ℕ := 0
  deriving DecidableEq, Repr

structure ParsedError where
  atLine : ℕ
  category : String
  userMessage : String
  technicalDetail : String
  actionable : Bool
  action : String
  deriving DecidableEq, Repr

inductive Phase where
  | queued | starting | connecting | authenticating | listing | syncing | finalizing | done | error
  deriving DecidableEq, Repr

inductive EstimateSource where
  | previousSync | liveCount | summary
  deriving DecidableEq, Repr

structure Summary where
  channels : ℕ
  boxes : ℕ
  farAdded : ℕ
  farFlagged : ℕ
  farExpunged : ℕ
  farDeleted : ℕ
  nearAdded : ℕ
  nearFlagged : ℕ
  nearExpunged : ℕ
  nearDeleted : ℕ
  deriving DecidableEq, Repr

structure ProgressSnapshot where
  phase : Phase := .queued
  currentChannel : Option String := none
  currentFolder : Option String := none
  connectionHost : Option String := none
  connectionIp : Option String := none
  connectionPort : Option ℕ := none
  authMethod : Option String := none
  tlsInfo : Option String := none
  folderIndex : ℕ := 0
  folderTotalEstimate : Option ℕ := none
  folderTotalEstimateSource : Option EstimateSource := none
  perFolder : List FolderProgress := []
  errors : List ParsedError := []
  warnings : List String := []
  summary : Option Summary := none
  mbsyncVersion : Option String := none
  rawTail : List String := []
  deriving DecidableEq, Repr

/-! ## Numbers -/

/-- `ValueError`, with its text. -/
abbrev ValueError := String

/-- The value of a character that `\d` matches. -/
def decimalValue (c : Char) : ℕ :=
  ((decimalZeros.find? fun first => first ≤ c.toNat && c.toNat < first + 10).map
    fun first => c.toNat - first).getD 0

/-- `int(digits)`, which converts no more than 4300 digits. -/
def int (digits : List Char) : Except ValueError ℕ :=
  if 4300 < digits.length then
    .error (s!"Exceeds the limit (4300 digits) for integer string conversion: value has " ++
      s!"{digits.length} digits; use sys.set_int_max_str_digits() to increase the limit")
  else .ok (digits.foldl (fun n c => 10 * n + decimalValue c) 0)

/-! ## The expressions -/

section Expressions

/-- `\s` -/
def space : Char → Bool := isSpace

/-- `\S` -/
def visible (c : Char) : Bool := !isSpace c

/-- `.` -/
def inLine (c : Char) : Bool := c != '\n'

def number (n : ℕ) : Regex := .group n (.plus isDecimal)

def reVersion : Regex := all [.start, lit "isync ", .group 1 (.plus visible)]

def reChannel : Regex := all [.start, lit "Channel ", .group 1 (.plus visible)]

def reResolving : Regex := all [.start, lit "Resolving ", .group 1 (.plus visible)]

def reConnecting : Regex :=
  all [.start, lit "Connecting to ", .group 1 (.plus visible), lit " (", .group 2 (.plus inLine),
    lit ":", number 3, lit ")"]

def reTls : Regex := lit "Connection is now encrypted"

/-- `word` are the characters that `\w` matches. -/
def reAuthSasl (word : Char → Bool) : Regex :=
  all [lit "Authenticating with SASL mechanism ", .group 1 (.plus word)]

def reAuthLogin : Regex :=
  all [lit "Logging in as ", .plus visible, lit " (", .group 1 (.plus visible), lit ")"]

def reFolderOpen : Regex :=
  all [.start, lit "Opening far side box ", .group 1 (.plus inLine), lit "..."]

/-- `_RE_NEAR_COUNT` and `_RE_FAR_COUNT` -/
def reCount (side : String) : Regex :=
  all [lit (side ++ " side: "), number 1, lit " message", .alt (lit "s") .empty, lit ", ",
    number 2, lit " recent"]

def reSynchronizing : Regex := all [.start, lit "Synchronizing..."]

/-- `_RE_PROGRESS_F` and `_RE_PROGRESS_N` -/
def reProgress (side : String) : Regex :=
  all [.start, lit (side ++ ": +"), number 1, lit "/", number 2, lit " *", number 3, lit "/",
    number 4, lit " #", number 5, lit "/", number 6]

def rePulling : Regex := all [lit "Pulling new message ", number 1, lit "/", number 2]

def reSummary : Regex :=
  all [lit "Channels:", .plus space, number 1, .plus space, lit "Boxes:", .plus space, number 2,
    .plus space, lit "Far:", .plus space, lit "+", number 3, .plus space, lit "*", number 4,
    .plus space, lit "#", number 5, .plus space, lit "-", number 6, .plus space, lit "Near:",
    .plus space, lit "+", number 7, .plus space, lit "*", number 8, .plus space, lit "#", number 9,
    .plus space, lit "-", number 10]

/-- A line that names its kind, in letters of any case. -/
def reKind (first second : String) : Regex :=
  all [.start, .alt (.text Pattern.foldCase first) (.text Pattern.foldCase second),
    .plus fun c => c == ':' || isSpace c, .group 1 (.star inLine)]

def reWarning : Regex := reKind "Warning" "Maildir error"

def reErrorLine : Regex := reKind "Error" "IMAP error"

end Expressions

/-- The action that goes with a category of errors. -/
def errorAction (category : String) : String :=
  if category ∈ ["runtime_cap", "timeout", "network", "tls", "rate_limit"] then "retry"
  else if category ∈ ["internal_host", "unresolved_host", "disk", "config", "server"] then "admin"
  else if category ∈ ["token_refresh", "auth"] then "reauth"
  else "none"

/-! ## Lines -/

/-- Between two lines; the folder whose lines are being read is one of the snapshot's. -/
structure Parsing where
  snap : ProgressSnapshot := {}
  currentFolder : Option String := none
  seenSynchronizing : Bool := false
  deriving DecidableEq, Repr

namespace Parsing

def group (m : Place) (n : ℕ) : String := String.ofList (m.group n)

/-- The number of a group. -/
def numberOf (m : Place) (n : ℕ) : Except ValueError ℕ := int (m.group n)

/-- Changes the folder of that name. -/
def updateFolder (s : Parsing) (name : String) (f : FolderProgress → FolderProgress) : Parsing :=
  { s with snap := { s.snap with
      perFolder := s.snap.perFolder.map fun fp => if fp.name = name then f fp else fp } }

/-- What a line of one kind tells; `none` for a line of another kind. -/
abbrev Rule := ℕ → List Char → Parsing → Option (Except ValueError Parsing)

def versionRule : Rule := fun _ line s =>
  (reVersion.match? line).map fun m =>
    .ok { s with snap := { s.snap with mbsyncVersion := some (group m 1) } }

def channelRule : Rule := fun _ line s =>
  (reChannel.match? line).map fun m =>
    .ok { s with snap := { s.snap with currentChannel := some (group m 1) } }

def resolvingRule : Rule := fun _ line s =>
  (reResolving.match? line).map fun m =>
    .ok { s with snap := { s.snap with
      connectionHost := some (rstrip (group m 1) '.'), phase := .connecting } }

def connectingRule : Rule := fun _ line s =>
  (reConnecting.match? line).map fun m => do
    let port ← numberOf m 3
    pure { s with snap := { s.snap with
      connectionHost := some (group m 1), connectionIp := some (group m 2),
      connectionPort := some port, phase := .connecting } }

def tlsRule : Rule := fun _ line s =>
  (reTls.search line).map fun _ => .ok { s with snap := { s.snap with tlsInfo := some "encrypted" } }

/-- A line with the mechanism or the method of the login. -/
def authRule (re : Regex) : Rule := fun _ line s =>
  (re.search line).map fun m =>
    .ok { s with snap := { s.snap with authMethod := some (group m 1), phase := .authenticating } }

def loginRule : Rule := fun _ line s =>
  if line = "Logging in...".toList then
    some (.ok { s with snap := { s.snap with phase := .authenticating } })
  else none

def folderOpenRule : Rule := fun _ line s =>
  (reFolderOpen.match? line).map fun m =>
    let name := group m 1
    let folders :=
      if s.snap.perFolder.any (fun fp => fp.name == name) then s.snap.perFolder
      else s.snap.perFolder ++ [{ name := name }]
    let opened := { s with
      currentFolder := some name
      snap := { s.snap with
        perFolder := folders
        currentFolder := some name
        folderIndex := folders.length
        phase := if s.seenSynchronizing = true then .syncing else .listing } }
    .ok (opened.updateFolder name fun fp => { fp with phase := .loading })

/-- A line about the folder whose lines are being read; other such lines are left to the rules
that follow. -/
def folderRule (found : List Char → Option Place)
    (f : Place → Except ValueError (FolderProgress → FolderProgress)) : Rule := fun _ line s =>
  match found line, s.currentFolder with
  | some m, some name => some do
      let change ← f m
      pure (s.updateFolder name change)
  | _, _ => none

def farRule : Rule := folderRule (reCount "far").search fun m => do
  let far ← numberOf m 1
  pure fun fp => { fp with far := some far }

def nearRule : Rule := folderRule (reCount "near").search fun m => do
  let near ← numberOf m 1
  pure fun fp => { fp with near := some near }

def synchronizingRule : Rule := fun _ line s =>
  (reSynchronizing.match? line).map fun _ =>
    let closed :=
      match s.currentFolder with
      | some name => s.updateFolder name fun fp => { fp with phase := .done }
      | none => s
    .ok { closed with
      seenSynchronizing := true, snap := { closed.snap with phase := .syncing } }

def progressFarRule : Rule := folderRule (reProgress "F").match? fun m => do
  let addedDone ← numberOf m 1
  let addedTotal ← numberOf m 2
  let flaggedDone ← numberOf m 3
  let flaggedTotal ← numberOf m 4
  let expungedDone ← numberOf m 5
  let expungedTotal ← numberOf m 6
  pure fun fp => { fp with
    addedDone := addedDone, addedTotal := addedTotal, flaggedDone := flaggedDone,
    flaggedTotal := flaggedTotal, expungedDone := expungedDone, expungedTotal := expungedTotal,
    phase := .pulling }

def progressNearRule : Rule := folderRule (reProgress "N").match? fun m => do
  let nearAdded ← numberOf m 1
  let nearTotal ← numberOf m 2
  pure fun fp =>
    if fp.addedDone < nearAdded then { fp with addedDone := nearAdded, addedTotal := nearTotal }
    else fp

def pullingRule : Rule := folderRule rePulling.search fun m => do
  let addedDone ← numberOf m 1
  let addedTotal ← numberOf m 2
  pure fun fp => { fp with addedDone := addedDone, addedTotal := addedTotal, phase := .pulling }

def summaryOf (m : Place) : Except ValueError Summary := do
  pure
    { channels := ← numberOf m 1, boxes := ← numberOf m 2, farAdded := ← numberOf m 3
      farFlagged := ← numberOf m 4, farExpunged := ← numberOf m 5, farDeleted := ← numberOf m 6
      nearAdded := ← numberOf m 7, nearFlagged := ← numberOf m 8, nearExpunged := ← numberOf m 9
      nearDeleted := ← numberOf m 10 }

def summaryRule : Rule := fun _ line s =>
  (reSummary.search line).map fun m => do
    let summary ← summaryOf m
    pure { s with snap := { s.snap with
      summary := some summary, folderTotalEstimate := some summary.boxes,
      folderTotalEstimateSource := some .summary, phase := .done } }

def warningRule : Rule := fun _ line s =>
  (reWarning.match? line).map fun m =>
    .ok { s with snap := { s.snap with warnings := s.snap.warnings ++ [group m 1] } }

def errorRule : Rule := fun i line s =>
  (reErrorLine.match? line).map fun m =>
    let (category, message) := Status.classifyError (group m 1)
    let action := errorAction category
    let error : ParsedError :=
      { atLine := i, category := category, userMessage := message
        technicalDetail := String.ofList line, actionable := decide (action ≠ "none")
        action := action }
    .ok { s with snap := { s.snap with
      errors := s.snap.errors ++ [error]
      phase := if s.snap.phase = .done then .done else .error } }

/-- The rules in the order in which they are tried. -/
def rules (word : Char → Bool) : List Rule :=
  [versionRule, channelRule, resolvingRule, connectingRule, tlsRule, authRule (reAuthSasl word),
    authRule reAuthLogin, loginRule, folderOpenRule, farRule, nearRule, synchronizingRule,
    progressFarRule, progressNearRule, pullingRule, summaryRule, warningRule, errorRule]

/-- One line; a line of no known kind is passed over. -/
def parseLine (word : Char → Bool) (s : Parsing) (rawLine : String × ℕ) :
    Except ValueError Parsing :=
  let line := (strip rawLine.1).toList
  if line = [] then .ok s
  else ((rules word).findSome? fun rule => rule rawLine.2 line s).getD (.ok s)

end Parsing

/-- The last twenty lines. -/
def rawTail (lines : List String) : List String := lines.drop (lines.length - 20)

def parseMbsyncLines (word : Char → Bool) (lines : List String) (priorFolderCount : Option ℕ) :
    Except ValueError ProgressSnapshot :=
  let snap : ProgressSnapshot := { rawTail := rawTail lines }
  if lines = [] then .ok snap
  else
    let begun := { snap with
      phase := .starting
      folderTotalEstimate := priorFolderCount
      folderTotalEstimateSource := priorFolderCount.map fun _ => .previousSync }
    (lines.zipIdx.foldlM (Parsing.parseLine word) { snap := begun }).map Parsing.snap

/-! ## Numbers that are too long -/

section Long

variable {ds : List Char}

/-- The line with which a connection begins, to a host `a` at an address `b`. -/
def connectingLine (port : List Char) : List Char :=
  "Connecting to a (b:".toList ++ (port ++ [')'])

theorem reConnecting_match (hds : ∀ c ∈ ds, isDecimal c = true) (hne : ds ≠ []) :
    reConnecting.match? (connectingLine ds) =
      some ⟨false, [], [(3, ds), (2, ['b']), (1, ['a'])]⟩ := by
  have hclose : ∀ c ∈ [')'].head?, isDecimal c = false := by
    rintro c ⟨⟩
    rfl
  have hspace : ∀ c ∈ (" (b:".toList ++ (ds ++ [')'])).head?, visible c = false := by
    intro c hc
    obtain rfl := Option.some.inj hc
    decide
  have hcolon : (lit ":").run ⟨false, ':' :: (ds ++ [')']), [(2, ['b']), (1, ['a'])]⟩ =
      [⟨false, ds ++ [')'], [(2, ['b']), (1, ['a'])]⟩] := run_lit _ rfl (by decide)
  -- the number behind the last colon
  have hport : (((lit ":").seq ((number 3).seq (lit ")"))).run
      ⟨false, ':' :: (ds ++ [')']), [(2, ['b']), (1, ['a'])]⟩).head? =
        some ⟨false, [], [(3, ds), (2, ['b']), (1, ['a'])]⟩ := by
    obtain ⟨ys, hys⟩ := first_group_plus 3 false [(2, ['b']), (1, ['a'])] hds hne hclose
    refine head?_seq [] [] hcolon (fun _ hx => by cases hx) ?_
    exact head?_seq [] ys hys (fun _ hx => by cases hx) rfl
  -- an address that takes more than one character leaves no colon
  have haddress : (((group 2 (.plus inLine)).seq ((lit ":").seq ((number 3).seq (lit ")")))).run
      ⟨false, 'b' :: ':' :: (ds ++ [')']), [(1, ['a'])]⟩).head? =
        some ⟨false, [], [(3, ds), (2, ['b']), (1, ['a'])]⟩ := by
    have hb : inLine 'b' = true := rfl
    have hsplit : (group 2 (.plus inLine)).run
        ⟨false, 'b' :: ':' :: (ds ++ [')']), [(1, ['a'])]⟩ = _ := run_group_plus 2 false _ hb
    rw [longest, if_pos (by decide), List.map_append, List.map_singleton] at hsplit
    refine head?_seq _ [] hsplit ?_ ?_
    · intro x hx
      obtain ⟨l, hl, rfl⟩ := List.mem_map.mp hx
      obtain ⟨run, heq, -⟩ := mem_longest.mp hl
      refine run_seq_nil (run_lit_of_head (rfl : ":".toList = ':' :: []) fun d hd => ?_)
      have hmem : d ∈ ds ++ [')'] := heq ▸ List.mem_append_right _ (List.mem_of_mem_head? hd)
      rintro rfl
      rcases List.mem_append.mp hmem with h | h
      · exact absurd (hds _ h) (by decide)
      · exact absurd (List.mem_singleton.mp h) (by decide)
    · have htaken : ('b' :: ':' :: (ds ++ [')'])).take
          (('b' :: ':' :: (ds ++ [')'])).length - (':' :: (ds ++ [')'])).length) = ['b'] := by
        rw [List.length_cons, Nat.add_sub_cancel_left]
        rfl
      rw [htaken]
      exact hport
  obtain ⟨ys, hys⟩ : ∃ ys, (group 1 (.plus visible)).run
      ⟨false, ['a'] ++ (" (b:".toList ++ (ds ++ [')'])), []⟩ =
        ⟨false, " (b:".toList ++ (ds ++ [')']), [(1, ['a'])]⟩ :: ys :=
    first_group_plus 1 false [] (List.all_eq_true.mp (by decide)) (List.cons_ne_nil _ _) hspace
  refine head?_seq [] [] rfl (fun _ hx => by cases hx) ?_
  refine head?_seq [] [] (run_lit ("a (b:".toList ++ (ds ++ [')'])) rfl (by decide))
    (fun _ hx => by cases hx) ?_
  refine head?_seq [] ys hys (fun _ hx => by cases hx) ?_
  exact head?_seq [] [] (run_lit ("b:".toList ++ (ds ++ [')'])) rfl (by decide))
    (fun _ hx => by cases hx) haddress

theorem strip_connectingLine :
    strip (String.ofList (connectingLine ds)) = String.ofList (connectingLine ds) := by
  have hhead : (connectingLine ds).head? = some 'C' := rfl
  have hlast : (connectingLine ds).getLast? = some ')' := by
    unfold connectingLine
    generalize "Connecting to a (b:".toList = start
    rw [← List.append_assoc, List.getLast?_concat]
  refine strip_ofList (fun c hc => ?_) fun c hc => ?_
  · rw [hhead] at hc
    obtain rfl := Option.some.inj hc
    decide
  · rw [hlast] at hc
    obtain rfl := Option.some.inj hc
    decide

theorem connectingLine_unbroken (h : ∀ c ∈ ds, isLineBreak c = false) :
    ∀ c ∈ connectingLine ds, isLineBreak c = false := by
  have hstart : ∀ c ∈ "Connecting to a (b:".toList, isLineBreak c = false :=
    none_of_all (by decide)
  have hend : ∀ c ∈ [')'], isLineBreak c = false := none_of_all (by decide)
  exact List.forall_mem_append.mpr ⟨hstart, List.forall_mem_append.mpr ⟨h, hend⟩⟩

/-- No number of more than 4300 digits is converted. -/
theorem parseLine_fails (word : Char → Bool) (hds : ∀ c ∈ ds, isDecimal c = true) (hlong : 4300 < ds.length) (i : ℕ)
    (s : Parsing) :
    ∃ e, Parsing.parseLine word s (String.ofList (connectingLine ds), i) = .error e := by
  have hne : ds ≠ [] := by
    rintro rfl
    cases hlong
  have hrule : ∃ e, Parsing.connectingRule i (connectingLine ds) s = some (.error e) := by
    rw [Parsing.connectingRule, reConnecting_match hds hne]
    have hint : Parsing.numberOf ⟨false, [], [(3, ds), (2, ['b']), (1, ['a'])]⟩ 3 = int ds := rfl
    simp only [Option.map_some, hint, int, if_pos hlong]
    exact ⟨_, rfl⟩
  obtain ⟨e, he⟩ := hrule
  refine ⟨e, ?_⟩
  have hfirst : (Parsing.rules word).findSome? (fun rule => rule i (connectingLine ds) s) =
      some (.error e) := by
    have hversion : Parsing.versionRule i (connectingLine ds) s = none := rfl
    have hchannel : Parsing.channelRule i (connectingLine ds) s = none := rfl
    have hresolving : Parsing.resolvingRule i (connectingLine ds) s = none := rfl
    simp only [Parsing.rules, List.findSome?_cons, hversion, hchannel, hresolving, he]
  have hline : connectingLine ds ≠ [] := List.cons_ne_nil _ _
  simp only [Parsing.parseLine, strip_connectingLine, String.toList_ofList, if_neg hline, hfirst,
    Option.getD_some]

/-- A line that is not read stops the reading of all. -/
theorem parseMbsyncLines_fails {word : Char → Bool} {lines : List String} {priorFolderCount : Option ℕ}
    (hds : ∀ c ∈ ds, isDecimal c = true) (hlong : 4300 < ds.length)
    (h : String.ofList (connectingLine ds) ∈ lines) :
    ∃ e, parseMbsyncLines word lines priorFolderCount = .error e := by
  have hfold : ∀ (rest : List (String × ℕ)) (s : Parsing),
      (∃ i, (String.ofList (connectingLine ds), i) ∈ rest) →
      ∃ e, rest.foldlM (Parsing.parseLine word) s = .error e := by
    intro rest
    induction rest with
    | nil =>
        rintro s ⟨i, hi⟩
        cases hi
    | cons line rest ih =>
        rintro s ⟨i, hi⟩
        rw [List.foldlM_cons]
        cases hline : Parsing.parseLine word s line with
        | error e => exact ⟨e, rfl⟩
        | ok s' =>
            refine ih s' ?_
            rcases List.mem_cons.mp hi with rfl | hi
            · obtain ⟨e, he⟩ := parseLine_fails word hds hlong i s
              rw [he] at hline
              cases hline
            · exact ⟨i, hi⟩
  have hne : lines ≠ [] := List.ne_nil_of_mem h
  obtain ⟨i, hi⟩ := List.mem_iff_getElem?.mp h
  have hmem : (String.ofList (connectingLine ds), i) ∈ lines.zipIdx :=
    List.mem_zipIdx_iff_getElem?.mpr hi
  have hfails : ∀ s : Parsing, ∃ e,
      (lines.zipIdx.foldlM (Parsing.parseLine word) s).map Parsing.snap = .error e := by
    intro s
    obtain ⟨e, he⟩ := hfold lines.zipIdx s ⟨i, hmem⟩
    rw [he]
    exact ⟨e, rfl⟩
  unfold parseMbsyncLines
  dsimp only
  rw [if_neg hne]
  exact hfails _

end Long

end MailFallback.Progress
