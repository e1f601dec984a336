import ScriptMailbox.Failure
import ScriptMailbox.Host

/-!
# Text files

Sources and scripts are read as text; a file that is no UTF-8 is as unreadable as one that the
machine refuses to read.
-/

namespace ScriptMailbox.TextFile

variable {m : Type → Type} [Monad m] [Host m]

/-- The cause that is reported for bytes that are no text. -/
def notText : String := "stream did not contain valid UTF-8"

/-- The text that a file holds. -/
def textOf (path : Path) : Except DiskFault Bytes → Except Failure String
  | .error fault => .error (.io path fault.message)
  | .ok bytes =>
    match Text.Utf8.decode? bytes with
    | some text => .ok text
    | none => .error (.io path notText)

/-- Reads a text file. -/
def read (path : Path) : m (Except Failure String) := do
  pure (textOf path (← Host.read path))

/-- Reads a text file that a user has named: it is missing unless the path leads to a file. -/
def readNamed (path : Path) : m (Except Failure String) := do
  if (← Host.kind? path) = some .file then read path
  else pure (.error (.missingFile path))

end ScriptMailbox.TextFile
