/-!
# Text as bytes

A text is stored as its UTF-8 bytes. Bytes that are no UTF-8 can still be shown: each maximal
ill-formed part is replaced by U+FFFD. A part is maximal when it is the longest start of some
well-formed sequence that stands there, or a single byte if no sequence starts with it.
-/

namespace ScriptMailbox

/-- What a file holds. -/
abbrev Bytes := List UInt8

namespace Text.Utf8

/-- The bytes of a text. -/
def encode (text : String) : Bytes :=
  text.toByteArray.data.toList

/-- The text that the bytes stand for, if they are well-formed. -/
def decode? (bytes : Bytes) : Option String :=
  String.fromUTF8? bytes.toByteArray

/-- The character shown for an ill-formed part. -/
def replacement : Char := '\uFFFD'

/-- A sequence whose first bytes have been read: how many bytes it still needs, the range of the
next one, and the value of the bits so far. -/
structure Partial where
  /-- Bytes still needed, at least one. -/
  needed : Nat
  /-- Least next byte. -/
  least : Nat
  /-- Greatest next byte. -/
  greatest : Nat
  /-- The bits of the bytes read. -/
  value : Nat
  deriving DecidableEq, Repr

/-- What a first byte yields: characters to show and a sequence to go on with. The ranges of the
second byte exclude overlong forms, surrogates and values above U+10FFFF. -/
def start (byte : Nat) : List Char × Option Partial :=
  if byte < 0x80 then ([Char.ofNat byte], none)
  else if 0xC2 ≤ byte ∧ byte ≤ 0xDF then ([], some ⟨1, 0x80, 0xBF, byte - 0xC0⟩)
  else if byte = 0xE0 then ([], some ⟨2, 0xA0, 0xBF, 0⟩)
  else if byte = 0xED then ([], some ⟨2, 0x80, 0x9F, 0xD⟩)
  else if 0xE1 ≤ byte ∧ byte ≤ 0xEF then ([], some ⟨2, 0x80, 0xBF, byte - 0xE0⟩)
  else if byte = 0xF0 then ([], some ⟨3, 0x90, 0xBF, 0⟩)
  else if 0xF1 ≤ byte ∧ byte ≤ 0xF3 then ([], some ⟨3, 0x80, 0xBF, byte - 0xF0⟩)
  else if byte = 0xF4 then ([], some ⟨3, 0x80, 0x8F, 4⟩)
  else ([replacement], none)

/-- What the next byte yields. A byte that cannot continue a sequence ends it as ill-formed and is
read again as a first byte. -/
def advance : Option Partial → Nat → List Char × Option Partial
  | none, byte => start byte
  | some sequence, byte =>
    if sequence.least ≤ byte ∧ byte ≤ sequence.greatest then
      let value := 64 * sequence.value + (byte - 0x80)
      if sequence.needed = 1 then ([Char.ofNat value], none)
      else ([], some ⟨sequence.needed - 1, 0x80, 0xBF, value⟩)
    else (replacement :: (start byte).1, (start byte).2)

/-- The characters shown for the bytes that follow a given state. -/
def showFrom : Option Partial → Bytes → List Char
  | none, [] => []
  | some _, [] => [replacement]
  | state, byte :: rest =>
    let step := advance state byte.toNat
    step.1 ++ showFrom step.2 rest

/-- The text shown for any bytes. -/
def decodeLossy (bytes : Bytes) : String :=
  String.ofList (showFrom none bytes)

end Text.Utf8

end ScriptMailbox
