import ScriptMailbox.Host
import ScriptMailbox.Mailbox.Name

/-!
# Sweeping a mailbox

A sweep deletes the exchange files of a mailbox. A mailbox that is not there is clean; a file that
cannot be deleted does not keep the others from being deleted.
-/

namespace ScriptMailbox.Mailbox

/-- What a sweep has done. -/
structure SweepReport where
  /-- The files that are gone. -/
  removed : List Path
  /-- What could not be listed or deleted. -/
  failed : List (Path × DiskFault)
  deriving DecidableEq, Repr

namespace SweepReport

/-- Nothing was there to sweep. -/
def nothing : SweepReport := ⟨[], []⟩

/-- Whether nothing has failed. -/
def isClean (report : SweepReport) : Bool :=
  report.failed.isEmpty

/-- A report with one more deletion in front. -/
def note (path : Path) (result : Except DiskFault Unit) (report : SweepReport) : SweepReport :=
  match result with
  | .ok () => { report with removed := path :: report.removed }
  | .error fault => { report with failed := (path, fault) :: report.failed }

end SweepReport

/-- The names that a sweep acts on once the mailbox has been listed. -/
def exchangeNames : Except DiskFault (List String) → List String
  | .ok names => names.filter isExchangeName
  | .error _ => []

section

variable {m : Type → Type} [Monad m] [Host m]

/-- Deletes the files with some names. -/
def removeAll (root : Path) : List String → m SweepReport
  | [] => pure .nothing
  | name :: rest => do
    let path := root.join name
    let result ← Host.removeFile path
    let report ← removeAll root rest
    pure (report.note path result)

/-- Deletes the exchange files of a mailbox. -/
def sweep (root : Path) : m SweepReport := do
  match ← Host.fileNames root with
  | .error .noEntry => pure .nothing
  | .error fault => pure ⟨[], [(root, fault)]⟩
  | .ok names => removeAll root (names.filter isExchangeName)

end

end ScriptMailbox.Mailbox
