/-!
# The layout of a document

A document is a script that the engine preloads. Its header opens a long comment; each chunk line
closes the comment, hands one long string to the collector `i`, and opens the comment again; the
footer closes the comment and publishes what was collected. Long comments and long strings both
end at the first `]]`.
-/

namespace ScriptMailbox.Document

/-- The most characters that one chunk line carries. -/
def chunkLimit : Nat := 255

/-- What stands before the chunk lines. -/
def header : String :=
  "function PreloadFiles takes nothing returns nothing\n\n\tcall PreloadStart()\n" ++
    "\tcall Preload( \"\")\nendfunction\n//!beginusercode\n" ++
    "local p=\x7b\x7d local i=function(s) table.insert(p,s) end--[[\" )\n\t"

/-- What stands behind the chunk lines. -/
def footer : String :=
  "\n\tcall Preload( \"]]BlzSetAbilityTooltip(1095656547, table.concat(p), 0)\n" ++
    "//!endusercode\nfunction a takes nothing returns nothing\n//\" )\n" ++
    "\tcall PreloadEnd( 0.1 )\n\nendfunction\n\n"

/-- What a reader looks for before a chunk. -/
def opener : String := "call Preload( \"]]i([["

/-- What ends a chunk. -/
def closer : String := "]])--[[\" )"

/-- What a chunk line starts with. -/
def linePrefix : String := "\n\t" ++ opener

/-- What a chunk line ends with. -/
def lineSuffix : String := closer

/-- The line that carries a chunk. -/
def chunkLine (chunk : List Char) : List Char :=
  linePrefix.toList ++ chunk ++ lineSuffix.toList

/-- The document that carries the chunks. -/
def render (chunks : List (List Char)) : List Char :=
  header.toList ++ chunks.flatMap chunkLine ++ footer.toList

/-- How many chunk lines a text of this many characters takes when every line is filled. -/
def chunkCount (characters : Nat) : Nat :=
  (characters + (chunkLimit - 1)) / chunkLimit

end ScriptMailbox.Document
