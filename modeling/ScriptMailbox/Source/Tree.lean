import ScriptMailbox.Path
import ScriptMailbox.Source.Insertion
import ScriptMailbox.Table

/-!
# Source trees

A source tree holds sources by path. Spellings of one path are one key, which keeps the spelling
under which it was first inserted, and the keys are ordered by component.
-/

namespace ScriptMailbox

/-- Sources by path. -/
structure SourceTree where
  /-- The path as it was first spelled and the source, by components. -/
  table : Table (List Component) (Path × String)
  deriving DecidableEq

namespace SourceTree

/-- The tree without sources. -/
def empty : SourceTree := ⟨.empty⟩

instance : Inhabited SourceTree := ⟨empty⟩

/-- The paths and sources in order. -/
def files (tree : SourceTree) : List (Path × String) :=
  tree.table.entries.map (·.2)

/-- How many sources there are. -/
def size (tree : SourceTree) : Nat :=
  tree.table.entries.length

/-- The paths in order. -/
def paths (tree : SourceTree) : List Path :=
  tree.files.map (·.1)

/-- The source under a path in any spelling. -/
def get? (tree : SourceTree) (path : Path) : Option String :=
  (tree.table.get? path.components).map (·.2)

/-- Puts a source under a path. -/
def insert (tree : SourceTree) (path : Path) (content : String) : SourceTree :=
  ⟨tree.table.alter path.components fun old => ((old.map (·.1)).getD path, content)⟩

/-- The first source, in the order of paths, in which a name is located. -/
def find? (tree : SourceTree) (name : String) : Option (Path × Span) :=
  tree.files.findSome? fun (path, content) =>
    match Source.locate content (.name name) with
    | .ok span => some (path, span)
    | .error _ => none

end SourceTree

end ScriptMailbox
