import MailFallback.Library.PyString

/-! # Patterns

The part of Python's regular expressions that a table of messages needs. -/

namespace Pattern

inductive Piece where
  | text (s : String)
  /-- `\S+` -/
  | word
  /-- `.*` -/
  | line
  deriving DecidableEq, Repr

/-- What is left after each run of such characters, the shortest first. -/
def runs (p : Char → Bool) : List Char → List (List Char)
  | [] => [[]]
  | c :: cs => (c :: cs) :: if p c = true then runs p cs else []

/-- `re.IGNORECASE`, for a pattern of ASCII letters. -/
def foldCase (c : Char) : Char :=
  if c = '\u0130' ∨ c = '\u0131' then 'i'
  else if c = '\u017f' then 's'
  else if c = '\u212a' then 'k'
  else c.toLower

/-- The text after a prefix; `fold` says which characters are the same. -/
def afterPrefix? (fold : Char → Char) : List Char → List Char → Option (List Char)
  | [], cs => some cs
  | _ :: _, [] => none
  | t :: ts, c :: cs => if fold t = fold c then afterPrefix? fold ts cs else none

/-- What may be left after the piece. -/
def Piece.rests (fold : Char → Char) : Piece → List Char → List (List Char)
  | .text s, cs => (afterPrefix? fold s.toList cs).toList
  | .word, cs => ((runs (fun c => !PyString.isSpace c) cs).drop 1)
  | .line, cs => runs (fun c => c != '\n') cs

/-- `re.search`, for a choice of sequences. -/
def search (ignoreCase : Bool) (choices : List (List Piece)) (s : String) : Bool :=
  let fold := if ignoreCase = true then foldCase else id
  s.toList.tails.any fun cs => choices.any fun pieces =>
    !(pieces.foldl (fun rests piece => rests.flatMap (piece.rests fold)) [cs]).isEmpty

example : search true [[.text "the ", .word, .text " cap"]] "The 3s CAP" = true := by decide

end Pattern
