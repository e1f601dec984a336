import ScriptMailbox.Mailbox.Index
import ScriptMailbox.Text.Start

/-!
# Names of exchange files

The request of an exchange is the file `in<index>.txt`, its response the file `out<index>.txt`.
A file belongs to some exchange when its name has one of these forms, whatever its digits.
-/

namespace ScriptMailbox.Mailbox

/-- What the name of a request starts with. -/
def requestStart : String := "in"

/-- What the name of a response starts with. -/
def responseStart : String := "out"

/-- The extension of exchange files. -/
def fileExtension : String := "txt"

/-- The name of an exchange file. -/
def fileName (start : String) (index : Index) : String :=
  start ++ index.text ++ "." ++ fileExtension

/-- The name of the request of an exchange. -/
def requestName (index : Index) : String :=
  fileName requestStart index

/-- The name of the response of an exchange. -/
def responseName (index : Index) : String :=
  fileName responseStart index

/-- A name without its extension, if it has the extension of exchange files. -/
def stem? (name : List Char) : Option (List Char) :=
  Text.dropEnd? ('.' :: fileExtension.toList) name

/-- What follows the start of a request's or response's name. -/
def number? (stem : List Char) : Option (List Char) :=
  (Text.dropStart? responseStart.toList stem).or (Text.dropStart? requestStart.toList stem)

/-- Whether a file name belongs to some exchange. -/
def isExchangeName (name : String) : Bool :=
  match (stem? name.toList).bind number? with
  | some digits => !digits.isEmpty && digits.all Char.isDigit
  | none => false

end ScriptMailbox.Mailbox
