import ScriptMailbox.Text.Blank
import ScriptMailbox.Text.Start
import ScriptMailbox.Text.Word

/-!
# Kinds of lines

A line of a script opens a function, closes a block of its own line, or does neither; only the
words at the start of the line decide. Whether a line declares a function of a given name depends
on the whole line.
-/

namespace ScriptMailbox.Source

/-- What a line means for the nesting of functions. -/
inductive LineKind
  /-- Starts with `function` or `local function`. -/
  | header
  /-- Starts with `end`. -/
  | terminator
  | other
  deriving DecidableEq, Repr

/-- Whether a text starts with a word that ends there. -/
def startsWithWord (word text : List Char) : Bool :=
  match Text.dropStart? word text with
  | some rest => Text.isBoundary word.getLast? rest.head?
  | none => false

/-- The word that opens a function. -/
def functionWord : List Char := ['f', 'u', 'n', 'c', 't', 'i', 'o', 'n']

/-- The word that may stand before it. -/
def localWord : List Char := ['l', 'o', 'c', 'a', 'l']

/-- The word that closes a function. -/
def endWord : List Char := ['e', 'n', 'd']

/-- Whether a line opens a function. -/
def isHeader (line : List Char) : Bool :=
  let body := Text.trimStart line
  startsWithWord functionWord body ||
    match Text.dropStart? localWord body with
    | some (c :: rest) => Text.isBlank c && startsWithWord functionWord (Text.trimStart rest)
    | _ => false

/-- Whether a line starts with `end`. -/
def isTerminator (line : List Char) : Bool :=
  startsWithWord endWord (Text.trimStart line)

/-- The kind of a line. -/
def LineKind.ofLine (line : List Char) : LineKind :=
  if isHeader line then header
  else if isTerminator line then terminator
  else other

/-- Whether at least one blank and then a name stand here, where a name ends at a word boundary. -/
def startsWithName (name : List Char) : List Char → Bool
  | [] => false
  | c :: rest =>
    Text.isBlank c && (startsWithWord name rest || startsWithName name rest)

/-- Whether `function` and a name stand somewhere in a text that follows a character. -/
def declaresAfter (name : List Char) : Option Char → List Char → Bool
  | _, [] => false
  | before, c :: rest =>
    (match Text.dropStart? functionWord (c :: rest) with
      | some after => Text.isBoundary before (some c) && startsWithName name after
      | none => false) ||
      declaresAfter name (some c) rest

/-- Whether a line declares a function of a name. -/
def declares (name line : List Char) : Bool :=
  declaresAfter name none line

end ScriptMailbox.Source
