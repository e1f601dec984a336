import ScriptMailbox.Document.Layout
import ScriptMailbox.Payload

/-!
# Writing a document

A payload is cut into chunks of at most `chunkLimit` characters. A chunk must not end with `]`,
which would join the bracket that closes it, and must not start with a line break, which the engine
drops; so a cut moves back to the last place that allows it. A payload without such places, or with
`]]` inside, has no document.
-/

namespace ScriptMailbox.Document

/-- Why a payload has no document. -/
inductive PayloadFault
  | empty
  | notText
  | closesChunk
  | endsWithBracket
  | startsWithBreak
  /-- No cut is allowed in the window that starts at this character. -/
  | noCut (start : Nat)
  deriving DecidableEq, Repr

/-- The fault in words. -/
def PayloadFault.message : PayloadFault → String
  | empty => "payload is empty"
  | notText => "payload is not valid UTF-8"
  | closesChunk => "payload contains `]]`, which closes the chunk string early"
  | endsWithBracket =>
    "payload ends with `]`, which fuses with the chunk delimiter; append a space"
  | startsWithBreak => "payload starts with a line break, which the engine drops"
  | noCut start =>
    "no safe chunk boundary within " ++ toString chunkLimit ++ " characters of character " ++
      toString start ++ "; break up long runs of line breaks"

/-- The characters that the engine drops at the start of a chunk. -/
def isBreak (c : Char) : Bool :=
  c == '\n' || c == '\r'

/-- Whether a text contains `]]`. -/
def hasClosing : List Char → Bool
  | ']' :: ']' :: _ => true
  | _ :: rest => hasClosing rest
  | [] => false

/-- Whether a text may be cut behind its first `n + 1` characters: it ends there, or neither
neighbour of the cut is in the way. -/
def allowsCut (text : List Char) (n : Nat) : Bool :=
  match text.drop n with
  | [] => false
  | [_] => true
  | before :: after :: _ => before != ']' && !isBreak after

/-- The length of the longest chunk of at most `limit` characters that a text may start with. -/
def chunkLength? (text : List Char) : Nat → Option Nat
  | 0 => none
  | limit + 1 => if allowsCut text limit then some (limit + 1) else chunkLength? text limit

/-- A chunk has at least one character, so cutting a text into chunks comes to an end. -/
theorem chunkLength?_pos {text : List Char} {limit n : Nat} (h : chunkLength? text limit = some n) :
    0 < n := by
  induction limit with
  | zero => simp [chunkLength?] at h
  | succ limit ih =>
    unfold chunkLength? at h
    split at h
    · simp only [Option.some.injEq] at h
      omega
    · exact ih h

/-- Cuts a text into chunks, each as long as possible. `start` counts the characters before it. -/
def chunksFrom (start : Nat) (text : List Char) : Except PayloadFault (List (List Char)) :=
  if htext : text = [] then .ok []
  else
    match h : chunkLength? text chunkLimit with
    | none => .error (.noCut start)
    | some n =>
      have : text.length - n < text.length := by
        have := chunkLength?_pos h
        have := List.length_pos_iff.mpr htext
        omega
      (chunksFrom (start + n) (text.drop n)).map (text.take n :: ·)
termination_by text.length

/-- The chunks of a text. -/
def chunks? (text : List Char) : Except PayloadFault (List (List Char)) :=
  if hasClosing text then .error .closesChunk
  else if text.getLast? = some ']' then .error .endsWithBracket
  else if text.head?.any isBreak then .error .startsWithBreak
  else chunksFrom 0 text

/-- The document of a payload. -/
def write (payload : Payload) : Except PayloadFault String :=
  if payload.bytes.isEmpty then .error .empty
  else
    match payload.text? with
    | none => .error .notText
    | some text => (chunks? text.toList).map fun chunks => String.ofList (render chunks)

end ScriptMailbox.Document
