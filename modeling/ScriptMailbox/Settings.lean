import ScriptMailbox.Arguments.Request
import ScriptMailbox.Failure
import ScriptMailbox.Settings.Documents

/-!
# Settings

The settings say where the mailbox and the sources are and how often the mailbox is looked at.
-/

namespace ScriptMailbox

/-- What every task needs to know. -/
structure Settings where
  /-- The mailbox. -/
  rootDir : Path
  /-- The sources to patch. -/
  sourceDir : Option Path
  /-- The time between two looks at the mailbox, in milliseconds, at least one. -/
  pollMs : Nat
  deriving DecidableEq, Repr

namespace Settings

/-- The mailbox that the game uses below a documents directory. -/
def mailboxBelow (documents : Path) : Path :=
  ((documents.join "Warcraft III").join "CustomMapData").join "Interpreter"

/-- Why there are no settings. -/
inductive Fault
  /-- No mailbox is asked for, and there is no documents directory. -/
  | noMailbox
  /-- No mailbox is asked for, and the listing of the user's directories is malformed. -/
  | malformedListing
  deriving DecidableEq, Repr

/-- The failure of a request without mailbox. -/
def noMailbox : Failure :=
  .invalidCommand "cannot resolve the documents folder; pass --root-dir"

/-- The mailbox of a request. The documents directory counts only if none is asked for. -/
def mailbox (documents : Documents) (request : Arguments.Request) : Except Fault Path :=
  match request.rootDir, documents with
  | some rootDir, _ => .ok rootDir
  | none, .found directory => .ok (mailboxBelow directory)
  | none, .absent => .error .noMailbox
  | none, .malformed => .error .malformedListing

/-- The settings of a request, for what is known of the documents directory. -/
def resolve (documents : Documents) (request : Arguments.Request) : Except Fault Settings :=
  (mailbox documents request).map fun rootDir =>
    ⟨rootDir, request.sourceDir, max request.pollMs 1⟩

end Settings

end ScriptMailbox
