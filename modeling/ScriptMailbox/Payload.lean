import ScriptMailbox.Text.Utf8

/-!
# Payloads

A payload is what one side hands to the other: script text on the way to the engine, any bytes on
the way back.
-/

namespace ScriptMailbox

/-- The bytes that one message carries. -/
structure Payload where
  /-- The bytes, not necessarily text. -/
  bytes : Bytes
  deriving DecidableEq, Repr

namespace Payload

/-- What the engine answers when a script yields no value. -/
def nilMark : String := "nil"

/-- The payload of a text. -/
def ofText (text : String) : Payload :=
  ⟨Text.Utf8.encode text⟩

/-- The text of a payload, if its bytes are text. -/
def text? (payload : Payload) : Option String :=
  Text.Utf8.decode? payload.bytes

/-- The payload as it is shown, with U+FFFD for whatever is no text. -/
def lossyText (payload : Payload) : String :=
  Text.Utf8.decodeLossy payload.bytes

/-- Whether the payload says that there is no value. -/
def isNil (payload : Payload) : Bool :=
  payload == ofText nilMark

end Payload

end ScriptMailbox
