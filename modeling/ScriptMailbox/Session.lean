import ScriptMailbox.Mailbox.Channel
import ScriptMailbox.Source.Load
import ScriptMailbox.Source.Patch

/-!
# Sessions

A session is a channel together with the sources that can be patched.
-/

namespace ScriptMailbox

/-- The state of a user's work. -/
structure Session where
  /-- The channel to the engine. -/
  channel : Channel
  /-- The sources to patch. -/
  sources : SourceTree

/-- A computation on a session. The session survives a halt. -/
abbrev SessionM (m : Type → Type) := ExceptT Halt (StateT Session m)

namespace Session

/-- The session before the first exchange. -/
def start (root : Path) (pollMs : Nat) (sources : SourceTree) : Session :=
  ⟨.start root pollMs, sources⟩

/-- Goes on at an index. -/
def jump (session : Session) (index : Index) : Session :=
  { session with channel := session.channel.jump index }

section

variable {m : Type → Type} [Monad m] [Host m]

/-- Works on the channel of a session. -/
def onChannel {α : Type} (work : ChannelM m α) : SessionM m α :=
  ExceptT.mk fun session => do
    let (result, channel) ← work session.channel
    pure (result, { session with channel := channel })

/-- The result of a computation whose failure is reported. -/
def orHalt {α : Type} (result : Except Failure α) : SessionM m α :=
  ofExcept (result.mapError Halt.failed)

/-- Sweeps the mailbox and starts again at index zero. -/
def reset : SessionM m Mailbox.SweepReport := do
  let session ← get
  let (report, channel) ← Channel.reset (m := m) session.channel
  set { session with channel := channel }
  pure report

/-- Sends a text. There is no answer when the engine says that there is no value. -/
def sendText (text : String) : SessionM m (Option Payload) := do
  let answer ← onChannel (Channel.send (.ofText text))
  pure (if answer.isNil then none else some answer)

/-- Sends what a file holds. -/
def sendFile (path : Path) : SessionM m (Option Payload) := do
  sendText (← orHalt (← TextFile.readNamed (m := m) path))

/-- Patches a source, on the disk and in the tree. -/
def patch (file : Option Path) (query : Query) (text : String) (afterLine : Nat) :
    SessionM m Patched := do
  let session ← get
  let patched ← orHalt (← session.sources.patch (m := m) file query text afterLine)
  ofExcept (Channel.orFailed patched.path
    (← Host.write (m := m) patched.path (Text.Utf8.encode patched.content)))
  -- the tree follows the disk: where writing fails, both stay as they are
  set { session with sources := session.sources.insert patched.path patched.content }
  pure patched

end

end Session

end ScriptMailbox
