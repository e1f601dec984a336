import ScriptMailbox.Disk.Files

/-!
# The host

The program knows the machine that it runs on only through a host: the files below its directory,
the cancel flag, the console, and the wait for a file. All its rules are written over an arbitrary
host. `World` is the host on which they are studied, and the program proper runs on the machine.
-/

namespace ScriptMailbox

/-- How a wait for a file ends. -/
inductive Wait
  /-- The file is there. -/
  | arrived
  /-- The cancel flag is up and the file is not there. -/
  | cancelled
  /-- A termination signal came. -/
  | terminated
  /-- Nothing will ever end the wait. -/
  | unanswered
  deriving DecidableEq, Repr

/-- What a program asks of the machine that it runs on. -/
class Host (m : Type → Type) where
  /-- The kind of what a path leads to. -/
  kind? : Path → m (Option Kind)
  /-- What a file holds. -/
  read : Path → m (Except DiskFault Bytes)
  /-- Writes a file. -/
  write : Path → Bytes → m (Except DiskFault Unit)
  /-- Creates a directory and all that must contain it. -/
  makeDirectories : Path → m (Except DiskFault Unit)
  /-- The names of the regular files in a directory, by increasing name. -/
  fileNames : Path → m (Except DiskFault (List String))
  /-- The regular files below a directory, reached through directories alone. -/
  filesBelow : Path → m (List Path)
  /-- Deletes a file. -/
  removeFile : Path → m (Except DiskFault Unit)
  /-- Whether the cancel flag is up. -/
  isCancelled : m Bool
  /-- From now on a termination signal raises the cancel flag, does the last sweep of a mailbox
  unless the program has taken it on, and ends the program. -/
  watchSignals : Path → m Unit
  /-- Takes on the last sweep. Says whether nobody had taken it on. -/
  takeLastSweep : m Bool
  /-- Waits until a file is there or the wait is called off, and looks again after so many
  milliseconds. Existence is looked at before the flag. -/
  await : Path → Nat → m Wait
  /-- The next line of input with its line feed; the last line may lack it, and nothing is left
  when it is empty. -/
  readLine : m Bytes
  /-- Shows a text on the console. -/
  print : String → m Unit

end ScriptMailbox
