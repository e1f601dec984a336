import ScriptMailbox.Source.Tree
import ScriptMailbox.TextFile

/-!
# Loading sources

The sources of a directory are the script files that directories below it contain; links are
passed over.
-/

namespace ScriptMailbox.SourceTree

variable {m : Type → Type} [Monad m] [Host m]

/-- The extension of script files. -/
def scriptExtension : String := "lua"

/-- Whether a path names a script file. -/
def isScript (path : Path) : Bool :=
  (path.fileName?.bind fun name => Path.extension? name.toList) == some scriptExtension.toList

/-- Reads files into a tree. -/
def loadFiles (tree : SourceTree) : List Path → m (Except Failure SourceTree)
  | [] => pure (.ok tree)
  | path :: rest => do
    match ← TextFile.read path with
    | .error failure => pure (.error failure)
    | .ok content => loadFiles (tree.insert path content) rest

/-- The sources of a directory. -/
def load (root : Path) : m (Except Failure SourceTree) := do
  if (← Host.kind? root) = some .directory then
    let paths ← Host.filesBelow root
    loadFiles empty (paths.filter isScript)
  else pure (.error (.missingFile root))

end ScriptMailbox.SourceTree
