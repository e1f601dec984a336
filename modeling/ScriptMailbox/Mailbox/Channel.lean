import ScriptMailbox.Failure
import ScriptMailbox.Mailbox.Sweep

/-!
# Channels

A channel makes exchanges in a mailbox, one after the other. An exchange posts a request, waits
for the response and collects it. The index moves on as soon as the response has been read, for by
then the engine has taken the request and waits for the next one, even if the response is corrupt.
-/

namespace ScriptMailbox

/-- Why a computation stops before its end. -/
inductive Halt
  /-- A failure that can be reported. -/
  | failed (failure : Failure)
  /-- The last index has been used up. -/
  | exhausted
  /-- A termination signal came. -/
  | terminated
  /-- The response will never come. -/
  | unanswered
  deriving DecidableEq, Repr

/-- One side of a mailbox. -/
structure Channel where
  /-- The directory that is the mailbox. -/
  root : Path
  /-- The index of the next exchange. -/
  index : Index
  /-- The time between two looks for a response, in milliseconds. -/
  pollMs : Nat
  deriving DecidableEq, Repr

/-- A computation on a channel. The channel survives a halt. -/
abbrev ChannelM (m : Type → Type) := ExceptT Halt (StateT Channel m)

namespace Channel

/-- A channel before its first exchange. -/
def start (root : Path) (pollMs : Nat) : Channel := ⟨root, .zero, pollMs⟩

/-- The request file of an exchange. -/
def requestPath (channel : Channel) (index : Index) : Path :=
  channel.root.join (Mailbox.requestName index)

/-- The response file of an exchange. -/
def responsePath (channel : Channel) (index : Index) : Path :=
  channel.root.join (Mailbox.responseName index)

/-- Goes on at an index. No file is touched. -/
def jump (channel : Channel) (index : Index) : Channel :=
  { channel with index := index }

/-- The result of a machine operation on a path. -/
def orFailed {α : Type} (path : Path) (result : Except DiskFault α) : Except Halt α :=
  result.mapError fun fault => .failed (.io path fault.message)

section

variable {m : Type → Type} [Monad m] [Host m]

/-- Sweeps the mailbox and starts again at index zero. -/
def reset (channel : Channel) : m (Mailbox.SweepReport × Channel) := do
  let report ← Mailbox.sweep channel.root
  pure (report, channel.jump .zero)

/-- Writes a request, unless the payload has no document or the flag is up. -/
def post (payload : Payload) : ChannelM m Unit := do
  let channel ← get
  let request := channel.requestPath channel.index
  let document ←
    ofExcept ((Document.write payload).mapError fun fault => Halt.failed (.ofPayloadFault fault))
  if ← Host.isCancelled (m := m) then
    throw (.failed (.cancelled request))
  ofExcept (orFailed channel.root (← Host.makeDirectories (m := m) channel.root))
  ofExcept (orFailed request (← Host.write (m := m) request (Text.Utf8.encode document)))

/-- What the end of a wait for a file means. -/
def ofWait (path : Path) : Wait → Except Halt Unit
  | .arrived => .ok ()
  | .cancelled => .error (.failed (.cancelled path))
  | .terminated => .error .terminated
  | .unanswered => .error .unanswered

/-- Waits for the response. -/
def await : ChannelM m Unit := do
  let channel ← get
  let response := channel.responsePath channel.index
  ofExcept (ofWait response (← Host.await (m := m) response channel.pollMs))

/-- The payload of a response. -/
def payloadOf (response : Path) (raw : Bytes) : Except Halt Payload :=
  (Document.read raw).mapError fun damage =>
    .failed (.corruptResponse (response.text ++ ": " ++ damage.message))

/-- Reads the response and moves on to the next index. -/
def collect : ChannelM m Payload := do
  let channel ← get
  let response := channel.responsePath channel.index
  let raw ← ofExcept (orFailed response (← Host.read (m := m) response))
  match channel.index.next? with
  | none => throw .exhausted
  | some next =>
    set (channel.jump next)
    ofExcept (payloadOf response raw)

/-- One exchange. -/
def send (payload : Payload) : ChannelM m Payload := do
  post payload
  await
  collect

end

end Channel

end ScriptMailbox
