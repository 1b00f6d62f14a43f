import MailFallback.Folders.Semantics
import MailFallback.Library.Regex
import Mathlib

/-! # The folders that the Source lists

What the sync worker reads out of a LIST response, beside the grammar of such a response. -/

namespace MailFallback

open PyString

/-! ## The worker -/

/-- One element of the data that a LIST call returns. -/
inductive ListLine where
  | none
  | bytes (line : ByteArray)
  /-- What stands before a literal, and the literal. -/
  | tuple (line name : ByteArray)

/-- `bytes.decode()`; `none` where it raises. -/
def decodeUtf8 (b : ByteArray) : Option (List Char) := (String.fromUTF8? b).map String.toList

def notQuote (c : Char) : Bool := c != '"'

/-- `"([^"]+)"\s*$` -/
def listNameRe : Regex :=
  .all [.lit "\"", .group 1 (.plus notQuote), .lit "\"", .star isSpace, .stop]

/-- `^\([^)]*\)\s+(?:"([^"]*)"|NIL)` -/
def listDelimRe : Regex :=
  .all [.start, .lit "(", .star (· != ')'), .lit ")", .plus isSpace,
    .alt (.all [.lit "\"", .group 1 (.star notQuote), .lit "\""]) (.lit "NIL")]

def listDelimiter (decoded : List Char) : Option (List Char) :=
  (listDelimRe.match? decoded).bind fun m => if m.has 1 = true then some (m.group 1) else none

/-- The name that a line adds. -/
def listedName (decoded name : List Char) : Option (List Char) :=
  if "\\Noselect".toList <:+: decoded then none
  else
    match listDelimiter decoded with
    | none => some name
    | some delimiter =>
        if delimiter ≠ [] ∧ delimiter ≠ ['/'] then some (replace name delimiter ['/']) else some name

/-- The name on a line that is not a literal. -/
def nameOnLine (decoded : List Char) : List Char :=
  match listNameRe.search decoded with
  | some m => m.group 1
  | none => lastField ' ' decoded

/-- What the loop adds for one line; the outer option is `none` where decoding raises. -/
def parseListLine : ListLine → Option (Option String)
  | .none => some none
  | .bytes line =>
      if line = ByteArray.empty then some none
      else
        (decodeUtf8 line).map fun decoded =>
          (listedName decoded (nameOnLine decoded)).map String.ofList
  | .tuple line name =>
      (decodeUtf8 line).bind fun decoded =>
        (decodeUtf8 name).map fun name => (listedName decoded name).map String.ofList

/-- `none` where a line cannot be decoded. -/
def listUpstreamFolders (typ : String) (data : List ListLine) : Option (List String) :=
  if typ ≠ "OK" ∨ data = [] then some []
  else (data.mapM parseListLine).map fun names => names.reduceOption.dedup

/-! ## The response -/

/-- A printable ASCII character that is not special. -/
def isAtomChar (c : Char) : Bool :=
  0x20 < c.toNat && c.toNat < 0x7f && !(['(', ')', '{', '%', '*', '"', '\\', ']'].contains c)

/-- What may stand in a name that is not quoted. -/
def isAstringChar (c : Char) : Bool := isAtomChar c || c == ']'

/-- What may be quoted. -/
def isTextChar (c : Char) : Bool := 0 < c.toNat && c.toNat < 0x80 && c != '\r' && c != '\n'

def escaped (cs : List Char) : List Char :=
  cs.flatMap fun c => if c = '"' ∨ c = '\\' then ['\\', c] else [c]

def quoted (cs : List Char) : List Char := '"' :: (escaped cs ++ ['"'])

/-- The name of a flag, behind its backslash. -/
structure Flag where
  name : List Char
  ne_nil : name ≠ []
  atom : ∀ c ∈ name, isAtomChar c = true

/-- The hierarchy delimiter; `NIL` in any letter case says that there is none. -/
inductive Delimiter where
  | nil (spelling : List Char) (h : spelling.map Char.toLower = "nil".toList)
  | char (c : Char) (h : isTextChar c = true)

inductive MailboxText where
  | atom (cs : List Char) (ne_nil : cs ≠ []) (h : ∀ c ∈ cs, isAstringChar c = true)
  | quoted (cs : List Char) (h : ∀ c ∈ cs, isTextChar c = true)
  | literal (content : ByteArray)

/-- One mailbox of a LIST response. -/
structure ListEntry where
  flags : List Flag
  delimiter : Delimiter
  mailbox : MailboxText

def Delimiter.text : Delimiter → List Char
  | .nil spelling _ => spelling
  | .char c _ => MailFallback.quoted [c]

def Delimiter.char? : Delimiter → Option Char
  | .nil _ _ => none
  | .char c _ => some c

namespace MailboxText

/-- The characters of the name. -/
def value? : MailboxText → Option (List Char)
  | .atom cs _ _ => some cs
  | .quoted cs _ => some cs
  | .literal content => decodeUtf8 content

def text : MailboxText → List Char
  | .atom cs _ _ => cs
  | .quoted cs _ => MailFallback.quoted cs
  | .literal content => '{' :: (content.size.repr.toList ++ ['}'])

end MailboxText

namespace ListEntry

variable (e : ListEntry)

def flagsText : List Char := [' '].intercalate (e.flags.map fun f => '\\' :: f.name)

/-- The response line, up to a literal. -/
def text : List Char :=
  '(' :: (e.flagsText ++ ')' :: ' ' :: (e.delimiter.text ++ ' ' :: e.mailbox.text))

def lineBytes : ByteArray := (String.ofList e.text).toByteArray

/-- A literal is delivered beside what stands before it. -/
def line : ListLine :=
  match e.mailbox with
  | .literal content => .tuple e.lineBytes content
  | _ => .bytes e.lineBytes

/-- Behind a literal comes what is left of its line. -/
def lines : List ListLine :=
  match e.mailbox with
  | .literal _ => [e.line, .bytes ByteArray.empty]
  | _ => [e.line]

/-- Flags are the same in any letter case. -/
def selectable : Bool := e.flags.all fun f => f.name.map Char.toLower != "noselect".toList

end ListEntry

/-- The inbox has one name in any letter case. -/
def canonicalName (cs : List Char) : List Char :=
  if cs.map Char.toLower = "inbox".toList then "INBOX".toList else cs

def slashed (delimiter : Option Char) (cs : List Char) : List Char :=
  cs.map fun c => if some c = delimiter then '/' else c

/-- The folder that the entry stands for, if its mailbox can be selected. -/
def ListEntry.folder? (e : ListEntry) : Option String :=
  if e.selectable = true then
    e.mailbox.value?.map fun cs => String.ofList (slashed e.delimiter.char? (canonicalName cs))
  else none

/-- The data of a response. -/
def responseLines (entries : List ListEntry) : List ListLine :=
  if entries = [] then [.none] else entries.flatMap ListEntry.lines

/-- Every entry is read as it is meant, so that no listed folder counts as vanished. -/
structure ReadsListing (entries : List ListEntry) : Prop where
  each : ∀ e ∈ entries, parseListLine e.line = some e.folder?
  all : ∃ names, listUpstreamFolders "OK" (responseLines entries) = some names ∧
    ∀ name, name ∈ names ↔ ∃ e ∈ entries, e.folder? = some name
  safe : ∀ names, listUpstreamFolders "OK" (responseLines entries) = some names →
    ∀ localFolders patterns missing, foldersToQuarantine localFolders names patterns = .ok missing →
      ∀ e ∈ entries, ∀ name, e.folder? = some name → name ∉ missing

end MailFallback
