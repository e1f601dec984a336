/-!
# Paths

A path keeps the spelling that it was given, and that is how it is shown. Two spellings lead to
the same entry of a tree when their components agree: repeated and trailing separators and inner
`.` parts leave no component, while a leading `.` and every `..` do.
-/

namespace ScriptMailbox

/-- One step of a path. -/
inductive Component
  /-- The separator at the start of an absolute path. -/
  | root
  /-- A leading `.`. -/
  | current
  /-- A `..`. -/
  | parent
  /-- A named entry. -/
  | normal (name : String)
  deriving DecidableEq, Repr

namespace Component

/-- The place of a kind of component in the order. -/
def rank : Component → Nat
  | root => 0
  | current => 1
  | parent => 2
  | normal _ => 3

/-- The name of a component; only a named entry has one that is not empty. -/
def name : Component → String
  | normal name => name
  | _ => ""

/-- Components are ordered by kind, and named entries by name. -/
instance : Ord Component := ⟨compareLex (compareOn rank) (compareOn name)⟩

instance : Std.TransOrd Component :=
  inferInstanceAs (Std.TransCmp (compareLex (compareOn rank) (compareOn name)))

instance : Std.LawfulEqOrd Component where
  compare_self := by
    intro a
    show compareLex (compareOn rank) (compareOn name) a a = .eq
    simp [compareLex, compareOn]
  eq_of_compare := by
    intro a b h
    replace h : compareLex (compareOn rank) (compareOn name) a b = .eq := h
    simp only [compareLex, compareOn, Ordering.then_eq_eq, Std.LawfulEqCmp.compare_eq_iff_eq] at h
    cases a <;> cases b <;> simp_all [rank, name]

/-- The component that a part between separators leaves inside a path. -/
def ofPart? (part : List Char) : Option Component :=
  if part = [] ∨ part = ['.'] then none
  else if part = ['.', '.'] then some parent
  else some (normal (String.ofList part))

end Component

/-- A path with its spelling. -/
structure Path where
  /-- The path as it was written. -/
  text : String
  deriving DecidableEq, Repr

namespace Path

/-- The parts between the separators, empty ones included. -/
def parts (path : Path) : List (List Char) :=
  path.text.toList.splitOn '/'

/-- Whether a path starts at the root. -/
def isAbsolute (path : Path) : Bool :=
  path.text.toList.head? == some '/'

/-- Whether a path ends with a separator. -/
def endsWithSeparator (path : Path) : Bool :=
  path.text.toList.getLast? == some '/'

/-- The components of a path, by which paths are compared. -/
def components (path : Path) : List Component :=
  let named := path.parts.filterMap Component.ofPart?
  if path.isAbsolute then .root :: named
  else if path.parts.head? = some ['.'] then .current :: named
  else named

/-- The path of an entry below a path. A separator is written unless the first path is empty or
ends with one; an absolute second path stands alone. -/
def join (path : Path) (entry : String) : Path :=
  if Path.isAbsolute ⟨entry⟩ then ⟨entry⟩
  else if path.text = "" ∨ path.endsWithSeparator then ⟨path.text ++ entry⟩
  else ⟨path.text ++ "/" ++ entry⟩

/-- The extension of a file name: what follows its last dot, unless that dot comes first. -/
def extension? (fileName : List Char) : Option (List Char) :=
  let reversed := fileName.reverse
  match reversed.dropWhile (· != '.') with
  | '.' :: _ :: _ => some (reversed.takeWhile (· != '.')).reverse
  | _ => none

/-- The name of the entry that a path ends with, if it ends with a named entry. -/
def fileName? (path : Path) : Option String :=
  match path.components.getLast? with
  | some (.normal name) => some name
  | _ => none

end Path

end ScriptMailbox
