import ScriptMailbox.Document.Layout
import ScriptMailbox.Payload
import ScriptMailbox.Text.Mark

/-!
# Reading a document

A reader takes what stands between each opener and the next closer, in order. A document that was
cut short shows more openers than chunks and is refused.
-/

namespace ScriptMailbox.Document

/-- The bytes of the opener. -/
def openerBytes : Bytes := Text.Utf8.encode opener

/-- The bytes of the closer. -/
def closerBytes : Bytes := Text.Utf8.encode closer

/-- Openers are not empty, so a search for one gets on. -/
theorem openerBytes_ne_nil : openerBytes ≠ [] := by decide

/-- Neither are closers. -/
theorem closerBytes_ne_nil : closerBytes ≠ [] := by decide

/-- What stands between each opener and the next closer. -/
def chunks (raw : Bytes) : List Bytes :=
  match hopen : Text.cutAt? openerBytes raw with
  | none => []
  | some (_, body) =>
    match hclose : Text.cutAt? closerBytes body with
    | none => []
    | some (chunk, rest) =>
      have : rest.length < raw.length :=
        Nat.lt_trans (Text.length_lt_of_cutAt? closerBytes_ne_nil hclose)
          (Text.length_lt_of_cutAt? openerBytes_ne_nil hopen)
      chunk :: chunks rest
termination_by raw.length

/-- How many openers stand in the bytes, one behind the other. -/
def openerCount (raw : Bytes) : Nat :=
  match h : Text.cutAt? openerBytes raw with
  | none => 0
  | some (_, rest) =>
    have : rest.length < raw.length := Text.length_lt_of_cutAt? openerBytes_ne_nil h
    openerCount rest + 1
termination_by raw.length

/-- A document with chunks that are not closed. -/
structure Damage where
  /-- How many chunks are opened. -/
  opened : Nat
  /-- How many of them are closed. -/
  closed : Nat
  deriving DecidableEq, Repr

/-- The damage in words. -/
def Damage.message (damage : Damage) : String :=
  toString damage.opened ++ " chunk line(s) opened but only " ++ toString damage.closed ++
    " closed"

/-- The payload of a document. -/
def read (raw : Bytes) : Except Damage Payload :=
  if (chunks raw).length < openerCount raw then
    .error ⟨openerCount raw, (chunks raw).length⟩
  else .ok ⟨(chunks raw).flatten⟩

end ScriptMailbox.Document
