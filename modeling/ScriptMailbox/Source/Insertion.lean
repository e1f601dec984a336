import ScriptMailbox.Source.Locate

/-!
# Inserting lines

A text is inserted as a line of its own behind a line of a span. What lies outside the span, and
every line inside it, stays as it is; only a line without line feed gets one when the text follows
it.
-/

namespace ScriptMailbox.Source

/-- Where a text goes when a caller names no line: right behind the header. -/
def defaultAfterLine : Nat := 1

/-- Why a text is not inserted. -/
inductive InsertionFault
  /-- The span does not lie in the source. -/
  | stale (start stop : Nat)
  /-- The span has fewer lines than the line to insert behind. -/
  | pastEnd (afterLine lineCount : Nat)
  deriving DecidableEq, Repr

/-- The characters before and behind a byte offset, if it lies between two characters. -/
def splitAtByte? : Nat → List Char → Option (List Char × List Char)
  | 0, text => some ([], text)
  | _ + 1, [] => none
  | offset + 1, c :: rest =>
    if c.utf8Size ≤ offset + 1 then
      (splitAtByte? (offset + 1 - c.utf8Size) rest).map fun (before, after) => (c :: before, after)
    else none

/-- The characters before and behind a span, if its text stands between its offsets. -/
def outside? (source : List Char) (span : Span) : Option (List Char × List Char) :=
  if span.stop < span.start then none
  else do
    let (before, rest) ← splitAtByte? span.start source
    let (inside, after) ← splitAtByte? (span.stop - span.start) rest
    if inside = span.text.toList then some (before, after) else none

/-- A text that ends with a line feed. -/
def closeLine (text : List Char) : List Char :=
  if text.getLast? = some '\n' then text else text ++ ['\n']

/-- The lines with a text as a line of its own behind the first `afterLine` of them. -/
def spliceLine (lines : List (List Char)) (text : List Char) (afterLine : Nat) : List Char :=
  let before := if afterLine = 0 then [] else closeLine (lines.take afterLine).flatten
  before ++ text ++ '\n' :: (lines.drop afterLine).flatten

/-- The source with a text inserted into a span. -/
def insert (source : String) (span : Span) (text : String) (afterLine : Nat) :
    Except InsertionFault String :=
  match outside? source.toList span with
  | none => .error (.stale span.start span.stop)
  | some (before, after) =>
    if span.lineCount < afterLine then .error (.pastEnd afterLine span.lineCount)
    else .ok (String.ofList (before ++ spliceLine span.lines text.toList afterLine ++ after))

end ScriptMailbox.Source
