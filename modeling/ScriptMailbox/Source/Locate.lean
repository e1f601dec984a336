import ScriptMailbox.Source.LineKind
import ScriptMailbox.Source.Query
import ScriptMailbox.Source.Span

/-!
# Locating a function

A function reaches from its first line to the line at which as many functions have been closed as
were opened. The first line is a header, or any line that declares the name asked for.
-/

namespace ScriptMailbox.Source

/-- Why a function is not located. -/
inductive Miss
  /-- No line starts such a function. -/
  | absent (query : Query)
  /-- The function is never closed. -/
  | unclosed (query : Query)
  deriving DecidableEq, Repr

/-- What was looked for, in words. -/
def Miss.message : Miss → String
  | absent query => query.describe
  | unclosed query => query.describe ++ " (no matching `end`)"

/-- The index of the last header among the first `count` lines. -/
def lastHeader? (lines : List (List Char)) : Nat → Option Nat
  | 0 => none
  | count + 1 =>
    if (lines[count]?).any isHeader then some count else lastHeader? lines count

/-- The index of the line at which the function asked for starts. -/
def firstLine? (lines : List (List Char)) : Query → Option Nat
  | .line number => if lines.length < number then none else lastHeader? lines number
  | .name name => if name = "" then none else lines.findIdx? (declares name.toList)

/-- The lines up to the one that closes a function, when `inner` functions are open inside it. -/
def body? (inner : Nat) : List (List Char) → Option (List (List Char))
  | [] => none
  | line :: rest =>
    match LineKind.ofLine line, inner with
    | .header, _ => (body? (inner + 1) rest).map (line :: ·)
    | .terminator, 0 => some [line]
    | .terminator, inner + 1 => (body? inner rest).map (line :: ·)
    | .other, _ => (body? inner rest).map (line :: ·)

/-- How many bytes a text takes. -/
def byteLength : List Char → Nat
  | [] => 0
  | c :: rest => c.utf8Size + byteLength rest

/-- The span of the lines `found` behind the lines `before`. -/
def spanOfLines (before found : List (List Char)) : Span :=
  let start := byteLength before.flatten
  ⟨start, start + byteLength found.flatten, String.ofList found.flatten⟩

/-- The span of the function asked for. -/
def locate (source : String) (query : Query) : Except Miss Span :=
  let lines := Text.lines source.toList
  match firstLine? lines query with
  | none => .error (.absent query)
  | some first =>
    match lines.drop first with
    | [] => .error (.absent query)
    | line :: rest =>
      match body? 0 rest with
      | none => .error (.unclosed query)
      | some body => .ok (spanOfLines (lines.take first) (line :: body))

end ScriptMailbox.Source
