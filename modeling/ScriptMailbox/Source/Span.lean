import ScriptMailbox.Text.Lines
import ScriptMailbox.Text.Quoted

/-!
# Spans

A span is a stretch of a source: its byte offsets and the text between them.
-/

namespace ScriptMailbox

/-- A stretch of a source. -/
structure Span where
  /-- The byte offset of the first character. -/
  start : Nat
  /-- The byte offset behind the last character. -/
  stop : Nat
  /-- The text between the offsets. -/
  text : String
  deriving DecidableEq, Repr

namespace Span

/-- The lines of the text. -/
def lines (span : Span) : List (List Char) :=
  Text.lines span.text.toList

/-- How many lines the text has; a last line without line feed counts. -/
def lineCount (span : Span) : Nat :=
  span.lines.length

/-- The span as one line of JSON. -/
def json (span : Span) : String :=
  "\x7b\"start\":" ++ toString span.start ++ ",\"end\":" ++ toString span.stop ++
    ",\"text\":" ++ Text.Quoted.quote span.text ++ "\x7d"

end Span

end ScriptMailbox
