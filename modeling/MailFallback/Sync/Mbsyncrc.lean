import MailFallback.Library.PosixPath
import MailFallback.Library.PyString
import MailFallback.Library.Table
import Mathlib.Data.List.Basic

/-! # The configuration of mbsync

`generate_mbsyncrc` writes a directive to a line. The values come from an account; line breaks
and other control characters are taken out of them, so that a value stays in its line. -/

namespace MailFallback.Mbsyncrc

open Storage PyString

/-! ## The text -/

/-- `_sanitize_value` -/
def sanitizeValue (value : String) : String :=
  strip (String.ofList (value.toList.filter fun c => decide (0x1f < c.toNat)))

/-- `channel_name` -/
def channelName (accountName : String) : String :=
  String.ofList (((sanitizeValue accountName).toList.map Char.toLower).map fun c =>
    if c = ' ' then '_' else c)

/-- What the file is made from. `extraConfig` is the object in the column of that name, without
keys where the column is empty. -/
structure Settings where
  accountName : String
  imapHost : String
  imapPort : ℕ
  username : String
  authType : String
  maildirPath : String
  tlsType : String := "IMAPS"
  password : Option String := none
  tokenCommand : Option String := none
  extraConfig : Table String String := .empty

namespace Settings

variable (settings : Settings)

/-- `extra.get`, where empty values have been left out and the others sanitised. -/
def extra? (key : String) : Option String :=
  ((settings.extraConfig.get? key).filter fun value => decide (value ≠ "")).map sanitizeValue

/-- The value as a condition takes it. -/
def given? (key : String) : Option String :=
  (settings.extra? key).filter fun value => decide (value ≠ "")

def sanitizedPassword? : Option String :=
  (settings.password.map sanitizeValue).filter fun value => decide (value ≠ "")

/-- `safe_name` -/
def safeName : String := channelName (sanitizeValue settings.accountName)

/-- `tls_type and tls_type != "None"` -/
def hasTls : Bool :=
  sanitizeValue settings.tlsType != "" && sanitizeValue settings.tlsType != "None"

/-- `str(token_command)` -/
def tokenCommandText : String := (settings.tokenCommand.map sanitizeValue).getD "None"

end Settings

inductive Line where
  | blank
  | directive (keyword value : String)
  deriving DecidableEq

def Line.text : Line → String
  | .blank => ""
  | .directive keyword value => keyword ++ " " ++ value

/-- A line for an option that has a value. -/
def optional (keyword : String) (value : Option String) : List Line :=
  (value.map (Line.directive keyword)).toList

def quote (value : String) : String := "\"" ++ value ++ "\""

def removedContainer : String := "Removed from Source"

section Sections

variable (settings : Settings)

def authLines : List Line :=
  if settings.authType = "oauth2" then
    [.directive "AuthMechs" "XOAUTH2", .directive "PassCmd" (quote settings.tokenCommandText)]
  else
    optional "AuthMechs" (settings.given? "auth_mechs") ++
      optional "Pass" (settings.sanitizedPassword?.map quote)

def accountLines : List Line :=
  [.directive "IMAPAccount" settings.safeName,
    .directive "Host" (sanitizeValue settings.imapHost),
    .directive "Port" (toString settings.imapPort),
    .directive "User" (sanitizeValue settings.username)] ++
  (if settings.hasTls = true then
    [.directive "TLSType" (sanitizeValue settings.tlsType)] else []) ++
  optional "TLSVersions" (settings.given? "tls_versions") ++
  [.directive "CertificateFile"
    ((settings.extra? "certificate_file").getD "/etc/ssl/certs/ca-certificates.crt")] ++
  optional "ClientCertificate" (settings.given? "client_certificate") ++
  optional "ClientKey" (settings.given? "client_key") ++
  authLines settings ++
  optional "Timeout" (settings.given? "timeout") ++
  optional "PipelineDepth" (settings.given? "pipeline_depth") ++
  optional "DisableExtensions" (settings.given? "disable_extensions")

def remoteLines : List Line :=
  [.directive "IMAPStore" (settings.safeName ++ "-remote"),
    .directive "Account" settings.safeName] ++
  optional "UseNamespace" ((settings.extra? "use_namespace").map fun value =>
    if value ≠ "" then "yes" else "no") ++
  optional "PathDelimiter" (settings.given? "path_delimiter")

def localLines : List Line :=
  [.directive "MaildirStore" (settings.safeName ++ "-local"),
    .directive "Path" (Posix.rstripSlash (sanitizeValue settings.maildirPath) ++ "/"),
    .directive "Inbox" (Posix.rstripSlash (sanitizeValue settings.maildirPath) ++ "/INBOX"),
    .directive "SubFolders" "Verbatim"]

/-- The patterns of the account and the two that exclude the container. -/
def patterns : String :=
  (settings.extra? "patterns").getD "*" ++ " !" ++ quote removedContainer ++
    " !" ++ quote (removedContainer ++ "/*")

def channelLines : List Line :=
  [.directive "Channel" settings.safeName,
    .directive "Far" (":" ++ settings.safeName ++ "-remote:"),
    .directive "Near" (":" ++ settings.safeName ++ "-local:"),
    .directive "Patterns" (patterns settings),
    .directive "Sync" ((settings.extra? "sync").getD "Pull"),
    .directive "Create" ((settings.extra? "create").getD "Near"),
    .directive "Expunge" ((settings.extra? "expunge").getD "None")] ++
  optional "MaxMessages" (settings.given? "max_messages") ++
  optional "MaxSize" (settings.given? "max_size") ++
  optional "CopyArrivalDate" ((settings.given? "copy_arrival_date").map fun _ => "yes") ++
  [.directive "SyncState" "*"]

def lines : List Line :=
  accountLines settings ++ [.blank] ++ remoteLines settings ++ [.blank] ++ localLines settings ++
    [.blank] ++ channelLines settings

/-- `generate_mbsyncrc`: every line ends with a line feed. -/
def generateMbsyncrc : String :=
  String.ofList ((lines settings).flatMap fun line => line.text.toList ++ ['\n'])

end Sections

/-! ## Lines and keywords -/

def isBreak (c : Char) : Bool := c == '\n' || c == '\r'

/-- The first words of the lines of a text. -/
def keywords (text : String) : List String :=
  (text.toList.splitOnP isBreak).map fun line => String.ofList (line.takeWhile fun c => c ≠ ' ')

def Line.keyword : Line → String
  | .blank => ""
  | .directive keyword _ => keyword

/-- Nothing in the line ends it. -/
def Unbroken (text : String) : Prop := ∀ c ∈ text.toList, isBreak c = false

theorem splitOnP_line {line : List Char} (h : ∀ c ∈ line, isBreak c = false) (rest : List Char) :
    (line ++ '\n' :: rest).splitOnP isBreak = line :: rest.splitOnP isBreak := by
  induction line with
  | nil =>
      rw [List.nil_append, List.splitOnP_cons_eq_if_modifyHead, if_pos (by decide)]
  | cons c line ih =>
      obtain ⟨hc, hline⟩ := List.forall_mem_cons.mp h
      rw [List.cons_append, List.splitOnP_cons_eq_if_modifyHead, hc, ih hline]
      rfl

/-- A text whose lines are unbroken is split into them. -/
theorem splitOnP_lines {texts : List String} (h : ∀ text ∈ texts, Unbroken text) :
    (texts.flatMap fun text => text.toList ++ ['\n']).splitOnP isBreak =
      texts.map String.toList ++ [[]] := by
  induction texts with
  | nil => rfl
  | cons text texts ih =>
      obtain ⟨htext, htexts⟩ := List.forall_mem_cons.mp h
      rw [List.flatMap_cons, List.append_assoc, List.singleton_append, splitOnP_line htext,
        ih htexts, List.map_cons, List.cons_append]

/-! ## Values without control characters -/

def isClean (text : String) : Bool := text.toList.all fun c => decide (0x1f < c.toNat)

theorem isClean_iff {text : String} : isClean text = true ↔ ∀ c ∈ text.toList, 0x1f < c.toNat := by
  simp [isClean]

theorem unbroken_of_isClean {text : String} (h : isClean text = true) : Unbroken text := by
  intro c hc
  have hlow := isClean_iff.mp h c hc
  have hfeed : c ≠ '\n' := by
    rintro rfl
    exact absurd hlow (by decide)
  have hreturn : c ≠ '\r' := by
    rintro rfl
    exact absurd hlow (by decide)
  simp [isBreak, hfeed, hreturn]

theorem isClean_append {a b : String} (ha : isClean a = true) (hb : isClean b = true) :
    isClean (a ++ b) = true := by
  rw [isClean, String.toList_append, List.all_append, Bool.and_eq_true]
  exact ⟨ha, hb⟩

theorem isClean_of_subset {a b : String} (ha : isClean a = true) (h : b.toList ⊆ a.toList) :
    isClean b = true :=
  isClean_iff.mpr fun c hc => isClean_iff.mp ha c (h hc)

theorem isClean_sanitizeValue (value : String) : isClean (sanitizeValue value) = true := by
  rw [isClean_iff]
  intro c hc
  unfold sanitizeValue strip rstripBy lstripBy at hc
  rw [String.toList_ofList, List.mem_reverse] at hc
  have hc := (List.dropWhile_sublist _).subset hc
  rw [List.mem_reverse, String.toList_ofList] at hc
  have hc := (List.dropWhile_sublist _).subset hc
  rw [String.toList_ofList, List.mem_filter, decide_eq_true_eq] at hc
  exact hc.2

theorem isClean_quote {value : String} (h : isClean value = true) : isClean (quote value) = true :=
  isClean_append (isClean_append (by decide) h) (by decide)

theorem isClean_rstripSlash {value : String} (h : isClean value = true) :
    isClean (Posix.rstripSlash value) = true := by
  refine isClean_of_subset h ?_
  rw [Posix.rstripSlash, String.toList_ofList]
  exact (List.rdropWhile_prefix _ _).subset

theorem lt_toLower {c : Char} (h : 0x1f < c.toNat) : 0x1f < c.toLower.toNat := by
  delta Char.toLower
  split
  · rename_i hupper
    have hhigh : c.toNat ≤ 90 := UInt32.le_iff_toNat_le.mp hupper.2
    have hval : (c.val + 32).toNat = c.toNat + 32 := by
      rw [UInt32.toNat_add]
      change (c.toNat + 32) % 2 ^ 32 = _
      omega
    have hlower : 0x1f < (c.val + 32).toNat := by omega
    exact hlower
  · exact h

theorem isClean_channelName (accountName : String) : isClean (channelName accountName) = true := by
  rw [isClean_iff, channelName, String.toList_ofList]
  intro c hc
  obtain ⟨d, hd, rfl⟩ := List.mem_map.mp hc
  obtain ⟨e, he, rfl⟩ := List.mem_map.mp hd
  have hlow := lt_toLower (isClean_iff.mp (isClean_sanitizeValue accountName) e he)
  split
  · decide
  · exact hlow

theorem isClean_toString (n : ℕ) : isClean (toString n) = true := by
  rw [isClean_iff]
  intro c hc
  have hdigit : c.isDigit = true :=
    Nat.isDigit_of_mem_toDigits (by decide : 0 < 10) (by decide)
      (by simpa [toString, Nat.repr] using hc)
  rw [Char.isDigit, Bool.and_eq_true, decide_eq_true_eq, decide_eq_true_eq] at hdigit
  have hlow : 48 ≤ c.toNat := UInt32.le_iff_toNat_le.mp hdigit.1
  omega

section Lines

variable {settings : Settings}

theorem isClean_extra {key value : String} (h : settings.extra? key = some value) :
    isClean value = true := by
  obtain ⟨raw, -, rfl⟩ := Option.map_eq_some_iff.mp h
  exact isClean_sanitizeValue raw

theorem isClean_given {key value : String} (h : settings.given? key = some value) :
    isClean value = true :=
  isClean_extra (Option.filter_eq_some_iff.mp h).1

theorem isClean_getD {value : Option String} {default : String} (hdefault : isClean default = true)
    (h : ∀ v, value = some v → isClean v = true) : isClean (value.getD default) = true := by
  cases value with
  | none => exact hdefault
  | some v => exact h v rfl

def isKeyword (keyword : String) : Bool :=
  isClean keyword && keyword.toList.all fun c => decide (c ≠ ' ')

/-- The line is one line, and its keyword one word. -/
def Line.isTidy : Line → Bool
  | .blank => true
  | .directive keyword value => isKeyword keyword && isClean value

theorem tidy_directive {keyword value : String} (hk : isKeyword keyword = true)
    (hv : isClean value = true) : (Line.directive keyword value).isTidy = true := by
  rw [Line.isTidy, hk, hv]
  rfl

theorem tidy_optional {keyword : String} {value : Option String} (hk : isKeyword keyword = true)
    (hv : ∀ v, value = some v → isClean v = true) :
    ∀ line ∈ optional keyword value, line.isTidy = true := by
  intro line hline
  rw [optional, Option.mem_toList] at hline
  obtain ⟨v, hvalue, rfl⟩ := Option.map_eq_some_iff.mp hline
  exact tidy_directive hk (hv v hvalue)

theorem Line.unbroken {line : Line} (h : line.isTidy = true) : Unbroken line.text := by
  cases line with
  | blank => exact fun c hc => by simp [Line.text] at hc
  | directive keyword value =>
      rw [Line.isTidy, isKeyword, Bool.and_eq_true, Bool.and_eq_true] at h
      exact unbroken_of_isClean (isClean_append (isClean_append h.1.1 (by decide)) h.2)

theorem Line.firstWord {line : Line} (h : line.isTidy = true) :
    String.ofList (line.text.toList.takeWhile fun c => c ≠ ' ') = line.keyword := by
  cases line with
  | blank => rfl
  | directive keyword value =>
      rw [Line.isTidy, isKeyword, Bool.and_eq_true, Bool.and_eq_true] at h
      rw [Line.text, String.toList_append, String.toList_append, List.append_assoc,
        List.takeWhile_append_of_pos (List.all_eq_true.mp h.1.2)]
      simp [Line.keyword]

/-- The lines of a text that is made of tidy ones. -/
theorem splitOnP_text {ls : List Line} (h : ∀ line ∈ ls, line.isTidy = true) :
    (String.ofList (ls.flatMap fun line => line.text.toList ++ ['\n'])).toList.splitOnP isBreak =
      (ls.map fun line => line.text.toList) ++ [[]] := by
  have hlines : ((ls.map Line.text).flatMap fun text => text.toList ++ ['\n']).splitOnP isBreak =
      (ls.map Line.text).map String.toList ++ [[]] := by
    refine splitOnP_lines fun text htext => ?_
    obtain ⟨line, hline, rfl⟩ := List.mem_map.mp htext
    exact Line.unbroken (h line hline)
  rw [List.flatMap_map, List.map_map] at hlines
  rw [String.toList_ofList]
  exact hlines

theorem keywords_text {ls : List Line} (h : ∀ line ∈ ls, line.isTidy = true) :
    keywords (String.ofList (ls.flatMap fun line => line.text.toList ++ ['\n'])) =
      ls.map Line.keyword ++ [""] := by
  rw [keywords, splitOnP_text h, List.map_append, List.map_map]
  congr 1
  exact List.map_congr_left fun line hline => Line.firstWord (h line hline)

theorem tidy_given {keyword : String} (hk : isKeyword keyword = true) (key : String) :
    ∀ line ∈ optional keyword (settings.given? key), line.isTidy = true :=
  tidy_optional hk fun _ h => isClean_given h

theorem tidy_extra {keyword default : String} (hk : isKeyword keyword = true)
    (hdefault : isClean default = true) (key : String) :
    (Line.directive keyword ((settings.extra? key).getD default)).isTidy = true :=
  tidy_directive hk (isClean_getD hdefault fun _ h => isClean_extra h)

theorem isClean_tokenCommandText : isClean settings.tokenCommandText = true := by
  refine isClean_getD (by decide) fun v h => ?_
  obtain ⟨raw, -, rfl⟩ := Option.map_eq_some_iff.mp h
  exact isClean_sanitizeValue raw

theorem authLines_tidy : ∀ line ∈ authLines settings, line.isTidy = true := by
  unfold authLines
  split
  · simp only [List.forall_mem_cons]
    exact ⟨tidy_directive (by decide) (by decide),
      tidy_directive (by decide) (isClean_quote isClean_tokenCommandText), by simp⟩
  · rw [List.forall_mem_append]
    refine ⟨tidy_given (by decide) _, tidy_optional (by decide) fun v h => ?_⟩
    obtain ⟨password, hpassword, rfl⟩ := Option.map_eq_some_iff.mp h
    obtain ⟨raw, -, rfl⟩ := Option.map_eq_some_iff.mp (Option.filter_eq_some_iff.mp hpassword).1
    exact isClean_quote (isClean_sanitizeValue raw)

theorem accountLines_tidy : ∀ line ∈ accountLines settings, line.isTidy = true := by
  unfold accountLines
  simp only [List.forall_mem_append, List.forall_mem_cons]
  have htls : ∀ line ∈ (if settings.hasTls = true then
      [Line.directive "TLSType" (sanitizeValue settings.tlsType)] else []), line.isTidy = true := by
    split
    · rw [List.forall_mem_singleton]
      exact tidy_directive (by decide) (isClean_sanitizeValue _)
    · simp
  exact ⟨⟨⟨⟨⟨⟨⟨⟨⟨⟨tidy_directive (by decide) (isClean_channelName _),
    tidy_directive (by decide) (isClean_sanitizeValue _),
    tidy_directive (by decide) (isClean_toString _),
    tidy_directive (by decide) (isClean_sanitizeValue _), by simp⟩, htls⟩,
    tidy_given (by decide) _⟩, tidy_extra (by decide) (by decide) _, by simp⟩,
    tidy_given (by decide) _⟩, tidy_given (by decide) _⟩, authLines_tidy⟩,
    tidy_given (by decide) _⟩, tidy_given (by decide) _⟩, tidy_given (by decide) _⟩

theorem remoteLines_tidy : ∀ line ∈ remoteLines settings, line.isTidy = true := by
  unfold remoteLines
  simp only [List.forall_mem_append, List.forall_mem_cons]
  refine ⟨⟨⟨tidy_directive (by decide) (isClean_append (isClean_channelName _) (by decide)),
    tidy_directive (by decide) (isClean_channelName _), by simp⟩,
    tidy_optional (by decide) fun v h => ?_⟩, tidy_given (by decide) _⟩
  obtain ⟨value, -, rfl⟩ := Option.map_eq_some_iff.mp h
  split <;> decide

theorem localLines_tidy : ∀ line ∈ localLines settings, line.isTidy = true := by
  have hpath := isClean_rstripSlash (isClean_sanitizeValue settings.maildirPath)
  unfold localLines
  simp only [List.forall_mem_cons]
  exact ⟨tidy_directive (by decide) (isClean_append (isClean_channelName _) (by decide)),
    tidy_directive (by decide) (isClean_append hpath (by decide)),
    tidy_directive (by decide) (isClean_append hpath (by decide)),
    tidy_directive (by decide) (by decide), by simp⟩

theorem isClean_patterns : isClean (patterns settings) = true :=
  isClean_append (isClean_append (isClean_append (isClean_append
    (isClean_getD (by decide) fun _ h => isClean_extra h) (by decide)) (by decide)) (by decide))
    (by decide)

theorem channelLines_tidy : ∀ line ∈ channelLines settings, line.isTidy = true := by
  have hname : isClean settings.safeName = true := isClean_channelName _
  unfold channelLines
  simp only [List.forall_mem_append, List.forall_mem_cons]
  refine ⟨⟨⟨⟨⟨tidy_directive (by decide) hname,
    tidy_directive (by decide) (isClean_append (isClean_append (by decide) hname) (by decide)),
    tidy_directive (by decide) (isClean_append (isClean_append (by decide) hname) (by decide)),
    tidy_directive (by decide) isClean_patterns, tidy_extra (by decide) (by decide) _,
    tidy_extra (by decide) (by decide) _, tidy_extra (by decide) (by decide) _, by simp⟩,
    tidy_given (by decide) _⟩, tidy_given (by decide) _⟩,
    tidy_optional (by decide) fun v h => ?_⟩, tidy_directive (by decide) (by decide), by simp⟩
  obtain ⟨-, -, rfl⟩ := Option.map_eq_some_iff.mp h
  decide

theorem lines_tidy (settings : Settings) : ∀ line ∈ lines settings, line.isTidy = true := by
  unfold lines
  simp only [List.forall_mem_append, List.forall_mem_singleton]
  exact ⟨⟨⟨⟨⟨⟨accountLines_tidy, rfl⟩, remoteLines_tidy⟩, rfl⟩, localLines_tidy⟩, rfl⟩,
    channelLines_tidy⟩

end Lines

/-! ## What the keywords depend on -/

structure Shape where
  oauth2 : Bool
  tls : Bool
  password : Bool
  /-- The option has a value that is not empty when it is sanitised. -/
  option : String → Bool
  /-- `use_namespace` has a value that is not empty. -/
  useNamespace : Bool

def Settings.shape (settings : Settings) : Shape where
  oauth2 := decide (settings.authType = "oauth2")
  tls := settings.hasTls
  password := settings.sanitizedPassword?.isSome
  option key := (settings.given? key).isSome
  useNamespace := (settings.extra? "use_namespace").isSome

def onlyIf (condition : Bool) (keyword : String) : List String :=
  if condition = true then [keyword] else []

namespace Shape

variable (shape : Shape)

def accountKeywords : List String :=
  ["IMAPAccount", "Host", "Port", "User"] ++ onlyIf shape.tls "TLSType" ++
  onlyIf (shape.option "tls_versions") "TLSVersions" ++ ["CertificateFile"] ++
  onlyIf (shape.option "client_certificate") "ClientCertificate" ++
  onlyIf (shape.option "client_key") "ClientKey" ++
  (if shape.oauth2 = true then ["AuthMechs", "PassCmd"]
    else onlyIf (shape.option "auth_mechs") "AuthMechs" ++ onlyIf shape.password "Pass") ++
  onlyIf (shape.option "timeout") "Timeout" ++
  onlyIf (shape.option "pipeline_depth") "PipelineDepth" ++
  onlyIf (shape.option "disable_extensions") "DisableExtensions"

def remoteKeywords : List String :=
  ["IMAPStore", "Account"] ++ onlyIf shape.useNamespace "UseNamespace" ++
  onlyIf (shape.option "path_delimiter") "PathDelimiter"

def localKeywords : List String := ["MaildirStore", "Path", "Inbox", "SubFolders"]

def channelKeywords : List String :=
  ["Channel", "Far", "Near", "Patterns", "Sync", "Create", "Expunge"] ++
  onlyIf (shape.option "max_messages") "MaxMessages" ++
  onlyIf (shape.option "max_size") "MaxSize" ++
  onlyIf (shape.option "copy_arrival_date") "CopyArrivalDate" ++ ["SyncState"]

/-- The keywords of the file. -/
def keywords : List String :=
  shape.accountKeywords ++ [""] ++ shape.remoteKeywords ++ [""] ++ localKeywords ++ [""] ++
    shape.channelKeywords ++ [""]

end Shape

theorem keywords_optional (keyword : String) (value : Option String) :
    (optional keyword value).map Line.keyword = onlyIf value.isSome keyword := by
  cases value <;> rfl

section Shapes

variable (settings : Settings)

theorem shape_option (key : String) :
    settings.shape.option key = (settings.given? key).isSome := rfl

theorem shape_tls : settings.shape.tls = settings.hasTls := by
  simp only [Settings.shape]

theorem shape_password : settings.shape.password = settings.sanitizedPassword?.isSome := rfl

theorem shape_useNamespace :
    settings.shape.useNamespace = (settings.extra? "use_namespace").isSome := rfl

theorem keywords_authLines :
    (authLines settings).map Line.keyword =
      if settings.shape.oauth2 = true then ["AuthMechs", "PassCmd"]
      else onlyIf (settings.shape.option "auth_mechs") "AuthMechs" ++
        onlyIf settings.shape.password "Pass" := by
  by_cases h : settings.authType = "oauth2"
  · have hshape : settings.shape.oauth2 = true := decide_eq_true h
    rw [authLines, if_pos h, hshape, if_pos rfl, List.map_cons, List.map_cons, List.map_nil,
      Line.keyword, Line.keyword]
  · have hshape : settings.shape.oauth2 = false := decide_eq_false h
    rw [authLines, if_neg h, hshape, if_neg Bool.false_ne_true, List.map_append, keywords_optional,
      keywords_optional, Option.isSome_map, shape_option, shape_password]

theorem keywords_tls :
    (if settings.hasTls = true then
      [Line.directive "TLSType" (sanitizeValue settings.tlsType)] else []).map Line.keyword =
      onlyIf settings.hasTls "TLSType" := by
  unfold onlyIf
  split
  · rw [List.map_cons, List.map_nil, Line.keyword]
  · rfl

theorem keywords_accountLines :
    (accountLines settings).map Line.keyword = settings.shape.accountKeywords := by
  simp only [accountLines, List.map_append, List.map_cons, List.map_nil, keywords_optional,
    keywords_authLines, keywords_tls, Line.keyword, Shape.accountKeywords, shape_tls,
    shape_option, shape_password]

theorem keywords_remoteLines :
    (remoteLines settings).map Line.keyword = settings.shape.remoteKeywords := by
  simp only [remoteLines, List.map_append, List.map_cons, List.map_nil, keywords_optional,
    Option.isSome_map, Line.keyword, Shape.remoteKeywords, shape_useNamespace, shape_option]

theorem keywords_localLines :
    (localLines settings).map Line.keyword = Shape.localKeywords := by
  simp only [localLines, List.map_cons, List.map_nil, Line.keyword, Shape.localKeywords]

theorem keywords_channelLines :
    (channelLines settings).map Line.keyword = settings.shape.channelKeywords := by
  simp only [channelLines, List.map_append, List.map_cons, List.map_nil, keywords_optional,
    Option.isSome_map, Line.keyword, Shape.channelKeywords, shape_option]

/-- The keywords of the file are those of its shape, whatever the values are. -/
theorem keywords_generateMbsyncrc :
    keywords (generateMbsyncrc settings) = settings.shape.keywords := by
  rw [generateMbsyncrc, keywords_text (lines_tidy settings), lines, Shape.keywords]
  simp only [List.map_append, keywords_accountLines, keywords_remoteLines, keywords_localLines,
    keywords_channelLines, List.map_cons, List.map_nil, Line.keyword]

end Shapes

theorem mem_onlyIf {keyword keyword' : String} {condition : Bool} :
    keyword ∈ onlyIf condition keyword' ↔ condition = true ∧ keyword = keyword' := by
  unfold onlyIf
  split <;> simp [*]

theorem useNamespace_mem_keywords (shape : Shape) :
    "UseNamespace" ∈ shape.keywords ↔ shape.useNamespace = true := by
  have hauth : "UseNamespace" ∉ (if shape.oauth2 = true then ["AuthMechs", "PassCmd"]
      else onlyIf (shape.option "auth_mechs") "AuthMechs" ++ onlyIf shape.password "Pass") := by
    split <;> simp [mem_onlyIf]
  simp [Shape.keywords, Shape.accountKeywords, Shape.remoteKeywords, Shape.localKeywords,
    Shape.channelKeywords, mem_onlyIf, hauth]

/-- An account whose `extra_config` has the options given. -/
def sampleSettings (extraConfig : Table String String) : Settings where
  accountName := "work"
  imapHost := "imap.example.org"
  imapPort := 993
  username := "user"
  authType := "password"
  maildirPath := "/data/work"
  extraConfig := extraConfig

/-- A value of spaces is empty when it is sanitised, and there is a line for it all the same. -/
theorem not_determined : ¬ ∀ settings settings' : Settings,
    (settings.authType = "oauth2" ↔ settings'.authType = "oauth2") →
    (sanitizeValue settings.tlsType ∈ ["", "None"] ↔
      sanitizeValue settings'.tlsType ∈ ["", "None"]) →
    settings.sanitizedPassword?.isSome = settings'.sanitizedPassword?.isSome →
    (∀ key, (settings.given? key).isSome = (settings'.given? key).isSome) →
    keywords (generateMbsyncrc settings) = keywords (generateMbsyncrc settings') := by
  intro h
  have hspace : sanitizeValue " " = "" := by decide
  have hgiven : ∀ key,
      ((sampleSettings (Table.empty.set "use_namespace" " ")).given? key).isSome =
        ((sampleSettings .empty).given? key).isSome := by
    intro key
    unfold Settings.given? Settings.extra? sampleSettings
    by_cases hkey : key = "use_namespace"
    · subst hkey
      simp [Table.get?_set, Option.filter, hspace]
    · simp [Table.get?_set, hkey]
  have heq := h (sampleSettings (Table.empty.set "use_namespace" " ")) (sampleSettings .empty)
    Iff.rfl Iff.rfl rfl hgiven
  rw [keywords_generateMbsyncrc, keywords_generateMbsyncrc] at heq
  have hmem := (useNamespace_mem_keywords
    (sampleSettings (Table.empty.set "use_namespace" " ")).shape).mpr (by
      simp [shape_useNamespace, Settings.extra?, sampleSettings, Table.get?_set])
  rw [heq, useNamespace_mem_keywords, shape_useNamespace] at hmem
  simp [Settings.extra?, sampleSettings] at hmem

end MailFallback.Mbsyncrc
