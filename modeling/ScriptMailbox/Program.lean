import ScriptMailbox.Console.Turn
import ScriptMailbox.Mailbox.Janitor
import ScriptMailbox.Settings

/-!
# The program

The program resolves its arguments and settings and does one task. The console and a single
exchange leave a swept mailbox behind however they end; the console sweeps it before it starts,
too.
-/

namespace ScriptMailbox

/-- How the program ends. -/
inductive Ending
  /-- With an exit code. -/
  | finished (code : Nat)
  /-- Abruptly: the last index has been used up, or the listing of the user's directories is
  malformed. -/
  | crashed
  /-- Never: a response is missing for good. -/
  | unanswered
  deriving DecidableEq, Repr

/-- The exit code of an ending; an abrupt one has a code of its own. -/
def Ending.exitCode? : Ending → Option Nat
  | finished code => some code
  | crashed => some 101
  | unanswered => none

namespace Program

variable {m : Type → Type} [Monad m] [Host m]

/-- The sources to patch. -/
def loadSources (settings : Settings) : m (Except Failure SourceTree) :=
  match settings.sourceDir with
  | some directory => SourceTree.load directory
  | none => pure (.ok .empty)

/-- Does the last sweep of a mailbox, unless the handler of termination signals has taken it on. -/
def lastSweep (root : Path) : m Unit := do
  if ← Host.takeLastSweep then
    let _ ← Mailbox.Crew.single.finish root 0

/-- Does some work and leaves a swept mailbox behind, also when a termination signal comes. -/
def sweepAfter {α : Type} (root : Path) (work : m α) : m α := do
  -- from here on the handler may end the process at any time
  Host.watchSignals root
  let result ← work
  lastSweep root
  pure result

/-- Works on a session and forgets it. -/
def onSession {α : Type} (session : Session) (work : SessionM m α) : m (Except Halt α) := do
  let (result, _) ← work session
  pure result

/-- Serves the console. -/
def console (serve : SessionM m Unit) (settings : Settings) : m (Except Halt Unit) := do
  -- what an earlier run has left must not be taken for an answer
  let _ ← Mailbox.sweep settings.rootDir
  sweepAfter settings.rootDir do
    match ← loadSources settings with
    | .error failure => pure (.error (.failed failure))
    | .ok sources => onSession (.start settings.rootDir settings.pollMs sources) serve

/-- The answer to a text, or to what a file holds. -/
def sendEither (text : Option String) (file : Option Path) : SessionM m (Option Payload) :=
  match text, file with
  | some text, _ => Session.sendText text
  | none, some file => Session.sendFile file
  | none, none => throw (.failed (.invalidCommand "send needs --text or --file"))

/-- Makes one exchange at an index and reports the answer. -/
def exchange (index : Index) (text : Option String) (file : Option Path) : SessionM m Unit := do
  modify (·.jump index)
  let answer ← sendEither text file
  let session ← get
  Console.say (Report.answered index session.channel.index answer)

/-- Makes one exchange. -/
def send (settings : Settings) (index : Index) (text : Option String) (file : Option Path) :
    m (Except Halt Unit) :=
  sweepAfter settings.rootDir
    (onSession (.start settings.rootDir settings.pollMs .empty) (exchange index text file))

/-- Reports where a function is. -/
def locate (file : Path) (query : Query) : m (Except Halt Unit) := do
  match ← TextFile.readNamed file with
  | .error failure => pure (.error (.failed failure))
  | .ok content =>
    match Source.locate content query with
    | .error miss => pure (.error (.failed (.ofMiss miss)))
    | .ok span => do
      Host.print (Report.located file span)
      pure (.ok ())

/-- Patches a source and reports the function. -/
def patch (settings : Settings) (file : Option Path) (query : Query) (text : String)
    (afterLine : Nat) : m (Except Halt Unit) := do
  match ← loadSources settings with
  | .error failure => pure (.error (.failed failure))
  | .ok sources =>
    onSession (.start settings.rootDir settings.pollMs sources) do
      let patched ← Session.patch file query text afterLine
      Console.say (Report.placed patched.path patched.span)

/-- Sweeps the mailbox and reports what is gone. -/
def clean (settings : Settings) : m (Except Halt Unit) := do
  let report ← Mailbox.sweep settings.rootDir
  Host.print (Report.swept report)
  pure (.ok ())

/-- Does a task. -/
def perform (serve : SessionM m Unit) (settings : Settings) :
    Option Arguments.Task → m (Except Halt Unit)
  | none | some .repl => console serve settings
  | some .clean => clean settings
  | some (.send index text file) => send settings index text file
  | some (.locate file selector) => locate file selector.query
  | some (.patch file selector text afterLine) => patch settings file selector.query text afterLine

/-- How the program ends after a task. A termination signal is no failure. -/
def conclude : Except Halt Unit → m Ending
  | .ok () => pure (.finished 0)
  | .error (.failed failure) => do
    Host.print (Report.failed failure)
    pure (.finished Report.failedCode)
  | .error .exhausted => pure .crashed
  | .error .terminated => pure (.finished 0)
  | .error .unanswered => pure .unanswered

/-- What is shown instead of a task. -/
def refuse (refusal : Arguments.Refusal) : m Ending := do
  if refusal = .displayVersion then
    Host.print (Console.programName ++ " " ++ Console.version ++ "\n")
  pure (.finished refusal.exitCode)

/-- Does what a request asks for. -/
def carryOut (serve : SessionM m Unit) (documents : Documents) (request : Arguments.Request) :
    m Ending := do
  match Settings.resolve documents request with
  | .error .noMailbox => conclude (.error (.failed Settings.noMailbox))
  | .error .malformedListing => pure .crashed
  | .ok settings => conclude (← perform serve settings request.task)

/-- The program, for a way to serve the console and what is known of the documents directory. -/
def run (serve : SessionM m Unit) (documents : Documents) (arguments : List String) :
    m Ending :=
  match Arguments.parse arguments with
  | .error refusal => refuse refusal
  | .ok request => carryOut serve documents request

end Program

end ScriptMailbox
