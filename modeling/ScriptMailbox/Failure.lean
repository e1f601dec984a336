import ScriptMailbox.Document.Reader
import ScriptMailbox.Document.Writer
import ScriptMailbox.Path
import ScriptMailbox.Source.Insertion

/-!
# Failures

Every failure that a user gets to see has a code, which is stable, and a message, which says what
went wrong in words.
-/

namespace ScriptMailbox

/-- What can go wrong. -/
inductive Failure
  /-- The payload has no document. -/
  | invalidPayload (reason : String)
  /-- The response is no whole document. -/
  | corruptResponse (reason : String)
  /-- There is no such function. -/
  | notFound (wanted : String)
  /-- The function has fewer lines than the line to insert after. -/
  | indexOutOfRange (afterLine lineCount : Nat)
  /-- There is no such file. -/
  | missingFile (path : Path)
  /-- The machine refused to read or write. -/
  | io (path : Path) (cause : String)
  /-- The exchange was called off. -/
  | cancelled (path : Path)
  /-- The command makes no sense. -/
  | invalidCommand (reason : String)
  deriving DecidableEq, Repr

namespace Failure

/-- The stable name of a kind of failure. -/
def code : Failure → String
  | invalidPayload _ => "CODEC_INVALID_PAYLOAD"
  | corruptResponse _ => "CHANNEL_CORRUPT_RESPONSE"
  | notFound _ => "PATCH_NOT_FOUND"
  | indexOutOfRange _ _ => "PATCH_INDEX_OUT_OF_RANGE"
  | missingFile _ => "SESSION_MISSING_FILE"
  | io _ _ => "IO"
  | cancelled _ => "CHANNEL_CANCELLED"
  | invalidCommand _ => "SESSION_INVALID_COMMAND"

/-- The failure in words. -/
def message : Failure → String
  | invalidPayload reason => "Invalid payload: " ++ reason
  | corruptResponse reason => "Corrupt response: " ++ reason
  | notFound wanted => "Function not found: " ++ wanted
  | indexOutOfRange afterLine lineCount =>
    "Insertion after line " ++ toString afterLine ++ " is past the end of a " ++
      toString lineCount ++ "-line function."
  | missingFile path => "File does not exist: " ++ path.text
  | io path cause => "I/O failure on " ++ path.text ++ ": " ++ cause
  | cancelled path => "Wait for " ++ path.text ++ " was cancelled."
  | invalidCommand reason => "Invalid command: " ++ reason

/-- The failure of a payload that has no document. -/
def ofPayloadFault (fault : Document.PayloadFault) : Failure :=
  invalidPayload fault.message

/-- The failure of a document that was cut short. -/
def ofDamage (damage : Document.Damage) : Failure :=
  corruptResponse damage.message

/-- The failure of a query without function. -/
def ofMiss (miss : Source.Miss) : Failure :=
  notFound miss.message

/-- The failure of a text that is not inserted. -/
def ofInsertionFault : Source.InsertionFault → Failure
  | .stale start stop =>
    notFound ("span " ++ toString start ++ ".." ++ toString stop ++
      " no longer matches the source")
  | .pastEnd afterLine lineCount => indexOutOfRange afterLine lineCount

/-- A failure to read from or write to the console. -/
def ofConsole (cause : String) : Failure :=
  io ⟨"<console>"⟩ cause

/-- A failure to listen for termination signals. -/
def ofSignals (cause : String) : Failure :=
  io ⟨"<signals>"⟩ cause

end Failure

end ScriptMailbox
