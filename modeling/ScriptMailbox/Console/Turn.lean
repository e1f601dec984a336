import ScriptMailbox.Console.Command
import ScriptMailbox.Report
import ScriptMailbox.Session

/-!
# The console

The console reads a line, obeys it and reads the next one, until it is left, the input ends, or the
session is called off. A command that fails is reported and the console goes on.
-/

namespace ScriptMailbox.Console

/-- The version of the program. -/
def version : String := "1.0.1"

/-- The name of the program. -/
def programName : String := "pb-cli"

/-- What is shown first. -/
def banner : String :=
  programName ++ " " ++ version ++ ". For help, type `help`.\n"

/-- What asks for a line. -/
def promptText (index : Index) : String :=
  index.text ++ " >>> "

/-- Whether the console goes on. -/
inductive Turn
  | again
  | quit
  deriving DecidableEq, Repr

/-- A line without the characters that end it. -/
def withoutLineEnd (line : String) : String :=
  String.ofList (line.toList.reverse.dropWhile Document.isBreak).reverse

/-- The line that some bytes are; no bytes are the end of the input. -/
def lineOf (bytes : Bytes) : Except Failure (Option String) :=
  if bytes.isEmpty then .ok none
  else
    match Text.Utf8.decode? bytes with
    | some text => .ok (some (withoutLineEnd text))
    | none => .error (.ofConsole TextFile.notText)

section

variable {m : Type → Type} [Monad m] [Host m]

/-- Asks for a line. -/
def ask (question : String) : m (Except Failure (Option String)) := do
  Host.print question
  pure (lineOf (← Host.readLine))

/-- Shows a text during a session. -/
def say (text : String) : SessionM m Unit :=
  liftM (n := SessionM m) (Host.print text : m Unit)

/-- Shows an answer, if there is one. -/
def echo : Option Payload → SessionM m Unit
  | some payload => say (payload.lossyText ++ "\n")
  | none => pure ()

/-- Sends a file and shows the answer. The file is announced before it is read. -/
def obeyFile (path : Path) : SessionM m Unit := do
  if (← Host.kind? (m := m) path) = some .file then
    let session ← get
    say ("Sent file " ++ path.text ++ " to game as " ++
      Mailbox.requestName session.channel.index ++ "\n")
    echo (← Session.sendFile path)
  else throw (.failed (.missingFile path))

/-- Obeys a command. -/
def obey : Command → SessionM m Turn
  | .empty => pure .again
  | .help => do
    say (String.join (Command.helpLines.map (· ++ "\n")))
    pure .again
  | .exit => pure .quit
  | .restart => do
    let _ ← Session.reset
    say "State reset. You can start a new game now.\n"
    pure .again
  | .jump index => do
    modify (·.jump index)
    pure .again
  | .file path => do
    obeyFile path
    pure .again
  | .patch file query text => do
    let patched ← Session.patch file query text Source.defaultAfterLine
    say ("Patched " ++ query.describe ++ " in " ++ patched.path.text ++ "\n")
    pure .again
  | .send text => do
    echo (← Session.sendText text)
    pure .again

/-- Obeys a line. -/
def obeyLine (line : String) : SessionM m Turn := do
  let command ← Session.orHalt
    ((Command.parse line).mapError fun fault => .invalidCommand fault.message)
  obey command

/-- How the console goes on after a line. A failure is reported; a cancelled exchange ends the
console. -/
def afterLine : Except Halt Turn → SessionM m Turn
  | .ok turn => pure turn
  | .error (.failed failure) => do
    say (Report.failedLine failure)
    match failure with
    | .cancelled _ => pure .quit
    | _ => pure .again
  | .error halt => throw halt

/-- Asks for a line and obeys it. -/
def turn : SessionM m Turn := do
  if ← Host.isCancelled (m := m) then pure .quit
  else
    let session ← get
    let line ← Session.orHalt (← ask (m := m) (promptText session.channel.index))
    match line with
    | none => do
      say "\n"
      pure .quit
    | some line => do
      let outcome ← observing (obeyLine line)
      afterLine outcome

/-- Serves at most a number of lines. -/
def turns : Nat → SessionM m Unit
  | 0 => pure ()
  | limit + 1 => do
    match ← turn with
    | .quit => pure ()
    | .again => turns limit

/-- Serves the console for at most a number of lines. -/
def serve (limit : Nat) : SessionM m Unit := do
  say banner
  turns limit

end

end ScriptMailbox.Console
