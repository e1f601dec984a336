import ScriptMailbox.Source.Tree
import ScriptMailbox.TextFile

/-!
# Patching a source

A patch inserts a line into a function. Without a file the function is looked for by name in the
tree; with a file, the tree's copy is patched if it has one, and what the disk holds otherwise.
-/

namespace ScriptMailbox

/-- A source with a line inserted. -/
structure Patched where
  /-- Where the source belongs. -/
  path : Path
  /-- The source after the insertion. -/
  content : String
  /-- The function before the insertion. -/
  span : Span
  deriving DecidableEq, Repr

namespace SourceTree

/-- Inserts a text into the function asked for in a source. -/
def patchContent (path : Path) (content : String) (query : Query) (text : String)
    (afterLine : Nat) : Except Failure Patched :=
  match Source.locate content query with
  | .error miss => .error (.ofMiss miss)
  | .ok span =>
    match Source.insert content span text afterLine with
    | .error fault => .error (.ofInsertionFault fault)
    | .ok patched => .ok ⟨path, patched, span⟩

/-- The source in which a query without file is resolved. -/
def sourceOf? (tree : SourceTree) : Query → Except Failure (Path × String)
  | .line number =>
    .error (.notFound ((Query.line number).describe ++ " (a line query needs a file)"))
  | .name name =>
    match tree.find? name with
    | some (path, _) => .ok (path, (tree.get? path).getD "")
    | none => .error (.notFound (Query.name name).describe)

/-- The source under a path, from the tree or else from the disk. -/
def readSource {m : Type → Type} [Monad m] [Host m] (tree : SourceTree) (path : Path) :
    m (Except Failure String) :=
  match tree.get? path with
  | some content => pure (.ok content)
  | none => TextFile.readNamed path

/-- The patched source. Nothing is written. -/
def patch {m : Type → Type} [Monad m] [Host m] (tree : SourceTree) (file : Option Path)
    (query : Query) (text : String) (afterLine : Nat) : m (Except Failure Patched) :=
  match file with
  | none =>
    pure (tree.sourceOf? query >>= fun (path, content) =>
      patchContent path content query text afterLine)
  | some path => do
    let content ← tree.readSource path
    pure (content >>= fun content => patchContent path content query text afterLine)

end SourceTree

end ScriptMailbox
