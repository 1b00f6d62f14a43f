import MailFallback.Library.Pattern
import MailFallback.Store.Semantics
import Mathlib.Data.List.Sort

/-! # Folders that vanished from the Source -/

namespace MailFallback

open Storage Posix

def removedContainer : String := "Removed from Source"

def containerName : Name := ⟨removedContainer, by decide⟩

/-! ## Naming -/

/-- The part of a date and time that a quarantine name shows. -/
structure Minute where
  year : ℕ
  month : ℕ
  day : ℕ
  hour : ℕ
  minute : ℕ

def zeroPad (width n : ℕ) : String :=
  String.ofList (List.replicate (width - n.repr.toList.length) '0') ++ n.repr

/-- `strftime('%Y-%m-%d %H%M')`. -/
def Minute.strftime (w : Minute) : String :=
  zeroPad 4 w.year ++ "-" ++ zeroPad 2 w.month ++ "-" ++ zeroPad 2 w.day ++ " " ++
    zeroPad 2 w.hour ++ zeroPad 2 w.minute

def quarantineName (folder : String) (when' : Minute) : String :=
  String.ofList (folder.toList.map fun c => if c = '/' ∨ c = ':' then '-' else c) ++
    " (" ++ when'.strftime ++ ")"

def containerPath (maildirPath : String) : String :=
  rstripSlash maildirPath ++ "/" ++ removedContainer

def quarantinePath (maildirPath folder : String) (when' : Minute) : String :=
  containerPath maildirPath ++ "/" ++ quarantineName folder when'

/-- Where the runs of ten characters start that `\d` matches. -/
def decimalZeros : List ℕ :=
  [0x30, 0x660, 0x6f0, 0x7c0, 0x966, 0x9e6, 0xa66, 0xae6, 0xb66, 0xbe6, 0xc66, 0xce6, 0xd66,
    0xde6, 0xe50, 0xed0, 0xf20, 0x1040, 0x1090, 0x17e0, 0x1810, 0x1946, 0x19d0, 0x1a80, 0x1a90,
    0x1b50, 0x1bb0, 0x1c40, 0x1c50, 0xa620, 0xa8d0, 0xa900, 0xa9d0, 0xa9f0, 0xaa50, 0xabf0,
    0xff10, 0x104a0, 0x10d30, 0x11066, 0x110f0, 0x11136, 0x111d0, 0x112f0, 0x11450, 0x114d0,
    0x11650, 0x116c0, 0x11730, 0x118e0, 0x11950, 0x11c50, 0x11d50, 0x11da0, 0x16a60, 0x16ac0,
    0x16b50, 0x1d7ce, 0x1d7d8, 0x1d7e2, 0x1d7ec, 0x1d7f6, 0x1e140, 0x1e2f0, 0x1e950, 0x1fbf0]

def isDecimal (c : Char) : Bool :=
  decimalZeros.any fun first => first ≤ c.toNat && c.toNat < first + 10

def afterDecimals : ℕ → List Char → Option (List Char)
  | 0, cs => some cs
  | _ + 1, [] => none
  | n + 1, c :: cs => if isDecimal c = true then afterDecimals n cs else none

def afterText (text : String) (cs : List Char) : Option (List Char) :=
  Pattern.afterPrefix? id text.toList cs

/-- ` \(\d{4}-\d{2}-\d{2} \d{4}\)` -/
def afterStamp (cs : List Char) : Option (List Char) := do
  let cs ← afterText " (" cs
  let cs ← afterDecimals 4 cs
  let cs ← afterText "-" cs
  let cs ← afterDecimals 2 cs
  let cs ← afterText "-" cs
  let cs ← afterDecimals 2 cs
  let cs ← afterText " " cs
  let cs ← afterDecimals 4 cs
  afterText ")" cs

/-- `$` also matches before a line feed that ends the text. -/
def atEnd (cs : List Char) : Bool := cs == [] || cs == ['\n']

/-- `(?: \(\d+\))?$` -/
def endsAfterCount (cs : List Char) : Bool :=
  atEnd cs ||
    ((afterText " (" cs).bind (afterDecimals 1)).any fun rest =>
      (afterText ")" (rest.dropWhile isDecimal)).any atEnd

/-- The longest `.+` after which the rest of the pattern matches. -/
def quarantinedName (cs : List Char) : Option (List Char) :=
  let sizes := (List.range' 1 cs.length).reverse
  (sizes.find? fun n => !(cs.take n).contains '\n' &&
    (afterStamp (cs.drop n)).any endsAfterCount).map cs.take

def originalFolderName (folderPath : String) : String :=
  match afterText (removedContainer ++ "/") folderPath.toList with
  | none => folderPath
  | some rest => ((quarantinedName rest).map String.ofList).getD folderPath

example : originalFolderName "Removed from Source/A (2026-01-02 0304) (2)" = "A" := by decide +kernel

/-! ## Detection -/

/-- `fnmatch.fnmatchcase` for a pattern whose brackets stand for themselves. -/
def globMatch : List Char → List Char → Bool
  | [], name => name.isEmpty
  | '*' :: pattern, name => name.tails.any (globMatch pattern)
  | '?' :: pattern, name =>
      match name with
      | [] => false
      | _ :: name => globMatch pattern name
  | c :: pattern, name =>
      match name with
      | [] => false
      | c' :: name => c == c' && globMatch pattern name

def excluded (name : String) (patterns : List String) : Bool :=
  patterns.any fun pattern => name == pattern ||
    (pattern.toList.contains '*' || pattern.toList.contains '?') &&
      globMatch pattern.toList name.toList

structure ProviderAnomaly where
  missing : ℕ
  localFolders : ℕ

def ProviderAnomaly.message (e : ProviderAnomaly) : String :=
  s!"{e.missing} of {e.localFolders} folders missing from the Source"

/-- The local folders that the Source does not list and no pattern excludes. -/
def vanished (localFolders remoteFolders patterns : List String) : List String :=
  localFolders.filter fun f => f ∉ remoteFolders ∧ excluded f patterns = false

/-- More than three folders and more than a quarter of them. -/
def isAnomaly (missing localFolders : ℕ) : Bool :=
  3 < missing && localFolders < 4 * missing

/-- The sets are given by their elements, each listed once. -/
def foldersToQuarantine (localFolders remoteFolders patterns : List String) :
    Except ProviderAnomaly (List String) :=
  if remoteFolders = [] then .ok []
  else
    let missing := (vanished localFolders remoteFolders patterns).insertionSort (· ≤ ·)
    if isAnomaly missing.length localFolders.length then
      .error ⟨missing.length, localFolders.length⟩
    else .ok missing

/-- `os.path.relpath` of a directory from one above it. -/
def relName : List Name → String
  | [] => "."
  | x :: rest => rest.foldl (fun s y => s ++ "/" ++ y.1) x.1

def mbsyncstate : Name := ⟨".mbsyncstate", by decide⟩

/-- The directories below `root` that hold a sync state, other than the container and
what lies in it. -/
def syncedFolders (d : Files) (root : Path) : List (List Name) :=
  d.nodes.entries.filterMap fun e =>
    let rel := e.1.drop root.length
    if root <+: e.1 ∧ e.2 = .dir ∧ rel ≠ [] ∧ containerName ∉ rel ∧
        d.has (e.1 ++ [mbsyncstate]) = true ∧ d.isDir (e.1 ++ [mbsyncstate]) = false then
      some rel
    else none

def localSyncedFolders (d : Files) (cwd : Path) (maildirPath : String) : List String :=
  let root := rstripSlash maildirPath
  match find d cwd root with
  | none => []
  | some dir =>
      if d.isDir dir = true ∧ (pieces root).getLast? ≠ some removedContainer then
        (syncedFolders d dir).map relName
      else []

/-! ## Quarantine -/

/-- What one call to `quarantine_folder` meets: the minute it is given, what the file
system refuses, and the clock and host name of the README. -/
structure Env where
  when' : Minute
  refuses : Path → Bool
  timestamp : ℕ
  hostname : String
  date : String

/-- The first of `dest (n)`, `dest (n + 1)`, … that is not taken. -/
def nextFree (taken : String → Bool) (dest : String) : ℕ → ℕ → Option String
  | 0, _ => none
  | fuel + 1, n =>
      let candidate := dest ++ " (" ++ n.repr ++ ")"
      if taken candidate then nextFree taken dest fuel (n + 1) else some candidate

/-- A disk of `n` nodes takes at most `n` of the candidates. -/
def freeDest (d : Files) (cwd : Path) (dest : String) : Option String :=
  let taken := fun s => Posix.exists d cwd s
  if taken dest then nextFree taken dest (d.nodes.entries.length + 1) 2 else some dest

/-- One directory of `os.makedirs` with `exist_ok`; the flag is false once it raised. -/
def makedirsStep (env : Env) : Files × Bool → Path → Files × Bool
  | (d, ok), p =>
      if ok = false ∨ d.isDir p = true then (d, ok)
      else if env.refuses p then (d, false)
      else
        match d.mkdir p with
        | some d' => (d', true)
        | none => (d, false)

def makedirs (env : Env) (d : Files) (p : Path) : Files × Bool :=
  p.inits.foldl (makedirsStep env) (d, true)

/-- `shutil.move` to a free name, within one file system. -/
def shutilMove (env : Env) (d : Files) (source dest : Path) : Option Files :=
  if env.refuses source then none else d.rename source dest

/-- One leftover in the moved folder; the flag is false once a removal raised. -/
def dropStep (env : Env) (dest : Path) : Files × Bool → Name × Node (List UInt8) → Files × Bool
  | (d, ok), (leftover, _) =>
      if ok = false ∨ mbsyncstate.1.toList.isPrefixOf leftover.1.toList = false then (d, ok)
      else if env.refuses (dest ++ [leftover]) ∨ d.isDir (dest ++ [leftover]) = true then (d, false)
      else
        match d.remove (dest ++ [leftover]) with
        | some d' => (d', true)
        | none => (d, false)

/-- Removes the sync state that moved along. -/
def dropSyncState (env : Env) (d : Files) (dest : Path) : Files × Bool :=
  (d.children dest).foldl (dropStep env dest) (d, true)

def readmeTag : String := "container-readme"

def readmeText (env : Env) : String :=
  "From: MailFallBack <noreply@mailfallback.local>\n" ++
  "To: undisclosed-recipients:;\n" ++
  "Subject: About this folder\n" ++
  "Date: " ++ env.date ++ "\n" ++
  "Message-ID: <" ++ readmeTag ++ "-" ++ env.timestamp.repr ++ "@mailfallback.local>\n" ++
  "\n" ++
  "Folders in here were removed from the Source and are no longer synced.\n" ++
  "\n" ++
  "MailFallBack keeps the local backup copy it already had. The messages are\n" ++
  "intact and searchable, and the date in each folder's name is when it\n" ++
  "stopped being synced.\n" ++
  "\n" ++
  "Nothing here is sent back to the Source. These folders are read-only, like\n" ++
  "the rest of the local backup: ask an administrator to remove one from the\n" ++
  "mail store when you no longer want the copy. If the folder comes back at\n" ++
  "the Source, it is synced again as a new folder, and this copy is left\n" ++
  "untouched.\n"

def curName : Name := ⟨"cur", by decide⟩
def newName : Name := ⟨"new", by decide⟩
def tmpName : Name := ⟨"tmp", by decide⟩

def containerDirs (env : Env) (d : Files) (container : Path) : Files × Bool :=
  [curName, newName, tmpName].foldl
    (fun (d, ok) sub => if ok then makedirs env d (container ++ [sub]) else (d, ok)) (d, true)

/-- The caller suppresses every `OSError`, so only the files are returned. -/
def writeContainerReadme (env : Env) (d : Files) (container : Path) : Files :=
  let (d, ok) := containerDirs env d container
  let present := d.children (container ++ [newName]) ++ d.children (container ++ [curName])
  if ok = false ∨ present.any fun e => decide (("." ++ readmeTag ++ ".").toList <:+: e.1.1.toList)
  then d
  else
    let filename := env.timestamp.repr ++ "." ++ readmeTag ++ "." ++ env.hostname ++ ":2,"
    if h : IsName filename then
      let p := container ++ [newName, ⟨filename, h⟩]
      if env.refuses p then d
      else (d.write p (readmeText env).toUTF8.toList).getD d
    else d

/-- The moves and writes of `quarantine_folder`; the flag is false when one of them raises. -/
def quarantineTo (env : Env) (d : Files) (container source dest : Path) : Files × Bool :=
  let (d, ok) := makedirs env d container
  if ok = false then (d, false)
  else
    match shutilMove env d source dest with
    | none => (d, false)
    | some d =>
        let (d, ok) := dropSyncState env d dest
        if ok = false then (d, false)
        else (writeContainerReadme env d container, true)

/-- The destination, `none` for a folder that is not there, or an `OSError`. -/
def quarantineFolder (env : Env) (d : Files) (cwd : Path) (maildirPath folder : String) :
    Files × Except Unit (Option String) :=
  let source := join (rstripSlash maildirPath) folder
  if isdir d cwd source = false then (d, .ok none)
  else
    match freeDest d cwd (quarantinePath maildirPath folder env.when') with
    | none => (d, .error ())
    | some dest =>
        match quarantineTo env d (resolve cwd (containerPath maildirPath)) (resolve cwd source)
            (resolve cwd dest) with
        | (d, true) => (d, .ok (some dest))
        | (d, false) => (d, .error ())

structure Reconciled where
  files : Files
  quarantined : List String := []
  log : Option String := none

/-- `remoteFolders` is what the server listed; `env` may differ from call to call. -/
def reconcileRemovedFolders (env : String → Env) (d : Files) (cwd : Path) (maildirPath : String)
    (remoteFolders patterns : List String) : Reconciled :=
  match foldersToQuarantine (localSyncedFolders d cwd maildirPath) remoteFolders patterns with
  | .error e =>
      { files := d
        log := some ("--- No folder was moved to \"" ++ removedContainer ++ "\": " ++ e.message ++
          ". Losing that many at once points to a problem at the Source rather than " ++
          "deliberate deletions. Check the Source, then sync again. ---") }
  | .ok missing =>
      missing.foldl
        (fun r folder =>
          match quarantineFolder (env folder) r.files cwd maildirPath folder with
          | (d, .ok (some _)) => { r with files := d, quarantined := r.quarantined ++ [folder] }
          | (d, _) => { r with files := d })
        { files := d }

end MailFallback
