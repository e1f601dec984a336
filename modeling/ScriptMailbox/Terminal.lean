import ScriptMailbox.Console.Turn
import ScriptMailbox.Stage

/-!
# Terminals

A terminal is a console on a stage: others act as laid down while a line is read and before a text
is shown, too. All that happens is noted in one log, whether it happens on the stage or at the
console.
-/

namespace ScriptMailbox

/-- What is noted at a terminal. -/
inductive Note
  /-- Something happens on the stage. -/
  | happened (event : Event)
  /-- A line is read. At the end of the input it is empty. -/
  | read (line : Bytes)
  | showed (text : String)

/-- A stage at which someone types. -/
structure Terminal where
  /-- The files, the flag, and what others do. -/
  stage : Stage
  /-- The lines that will be typed. -/
  typed : List Bytes
  /-- What has been noted before the history of the stage begins. -/
  past : List Note

namespace Terminal

/-- The terminal before anything happens. -/
def opening (scene : Scene) (future : List (List Scene)) (listing : Listing) (typed : List Bytes) :
    Terminal :=
  ⟨.opening scene future listing, typed, []⟩

/-- Everything that has happened, first things first. -/
def log (terminal : Terminal) : List Note :=
  terminal.past ++ terminal.stage.history.map .happened

/-- The terminal after its stage has changed. -/
def onStage {α : Type} (work : Play α) (terminal : Terminal) : α × Terminal :=
  let (result, stage) := work terminal.stage
  (result, { terminal with stage := stage })

/-- The terminal after something has happened at the console, which others may precede. -/
def note (entry : Note) (terminal : Terminal) : Terminal :=
  let ready := terminal.stage.pass
  { terminal with
    stage := { ready with history := [] }
    past := terminal.past ++ ready.history.map .happened ++ [entry] }

/-- The next line, and the terminal once it has been read. -/
def readLine (terminal : Terminal) : Bytes × Terminal :=
  match terminal.typed with
  | [] => ([], terminal.note (.read []))
  | line :: rest => (line, { terminal with typed := rest }.note (.read line))

end Terminal

/-- A computation at a terminal. -/
abbrev TerminalM := StateM Terminal

namespace TerminalM

instance : Host TerminalM where
  kind? path := Terminal.onStage (Host.kind? path)
  read path := Terminal.onStage (Host.read path)
  write path content := Terminal.onStage (Host.write path content)
  makeDirectories path := Terminal.onStage (Host.makeDirectories path)
  fileNames path := Terminal.onStage (Host.fileNames path)
  filesBelow path := Terminal.onStage (Host.filesBelow path)
  removeFile path := Terminal.onStage (Host.removeFile path)
  isCancelled := Terminal.onStage Host.isCancelled
  watchSignals _ := pure ()
  takeLastSweep := pure true
  await path pollMs := Terminal.onStage (Host.await path pollMs)
  readLine := Terminal.readLine
  print text := fun terminal => ((), terminal.note (.showed text))

end TerminalM

namespace Terminal

/-- Serves the console until what will be typed is used up. -/
def serve : SessionM TerminalM Unit := do
  let terminal ← (get : TerminalM Terminal)
  Console.serve (terminal.typed.length + 1)

/-- The console at a terminal. -/
def serves (terminal : Terminal) (session : Session) : (Except Halt Unit × Session) × Terminal :=
  (serve session : TerminalM (Except Halt Unit × Session)) terminal

end Terminal

end ScriptMailbox
