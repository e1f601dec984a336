/-!
# Queries

A query names the function that a caller wants to see or to patch.
-/

namespace ScriptMailbox

/-- How a function is asked for. -/
inductive Query
  /-- The function with this name. -/
  | name (name : String)
  /-- The function around this line; lines count from one. -/
  | line (number : Nat)
  deriving DecidableEq, Repr

/-- The query as messages show it. -/
def Query.describe : Query → String
  | .name wanted => "function `" ++ wanted ++ "`"
  | .line number => "function enclosing line " ++ toString number

end ScriptMailbox
