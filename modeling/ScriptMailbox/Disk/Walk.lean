import ScriptMailbox.Disk.Basic

/-!
# Walking along a path

A path leads to a location step by step. A step into a link goes on with the target of the link;
after forty links the walk is given up. A name takes at most 255 bytes, and a path at most 4095.
-/

namespace ScriptMailbox

/-- Why the machine refuses to read or write. -/
inductive DiskFault
  | noEntry
  | entryExists
  | notDirectory
  | isDirectory
  | tooManyLinks
  | nameTooLong
  | nulByte
  | busy
  | invalidArgument
  | notEmpty
  /-- A fault that the disk model does not know. -/
  | other (text : String)
  deriving DecidableEq, Repr

/-- The fault in words. -/
def DiskFault.message : DiskFault → String
  | noEntry => "No such file or directory (os error 2)"
  | entryExists => "File exists (os error 17)"
  | notDirectory => "Not a directory (os error 20)"
  | isDirectory => "Is a directory (os error 21)"
  | tooManyLinks => "Too many levels of symbolic links (os error 40)"
  | nameTooLong => "File name too long (os error 36)"
  | nulByte => "file name contained an unexpected NUL byte"
  | busy => "Device or resource busy (os error 16)"
  | invalidArgument => "Invalid argument (os error 22)"
  | notEmpty => "Directory not empty (os error 39)"
  | other text => text

namespace Path

/-- The parts of a path between separators, without the empty ones. -/
def names (path : Path) : List String :=
  (path.parts.filter (· ≠ [])).map String.ofList

/-- The steps of a path: its names, and an empty step for separators at its end. -/
def steps (path : Path) : List String :=
  if path.endsWithSeparator then path.names ++ [""] else path.names

/-- The most bytes that a path takes. -/
def byteLimit : Nat := 4095

/-- Why a path leads nowhere, whatever is on the disk. -/
def fault? (path : Path) : Option DiskFault :=
  if path.text = "" then some .noEntry
  else if path.text.toList.contains '\x00' then some .nulByte
  else if byteLimit < path.text.utf8ByteSize then some .nameTooLong
  else none

end Path

namespace Disk

/-- What a walk does at the last step. -/
inductive Arrival
  /-- The entry itself is wanted, even if it is a link. -/
  | entry
  /-- What a link leads to is wanted. -/
  | target
  /-- As `target`, but nothing needs to be there yet, and a directory is not wanted: a name with
  separators behind it is refused unseen. -/
  | place
  deriving DecidableEq, Repr

/-- How far a walk without links comes. -/
inductive Walk
  | arrived (location : Location)
  /-- A link was met in a directory, with these steps still to go. -/
  | redirected (directory : Location) (target : Path) (rest : List String)
  | failed (fault : DiskFault)
  deriving DecidableEq, Repr

/-- The most bytes that a name takes. -/
def nameLimit : Nat := 255

/-- Walks from a directory until the steps end or a link is met. -/
def advance (disk : Disk) (arrival : Arrival) (directory : Location) : List String → Walk
  | [] => .arrived directory
  | "" :: rest => advance disk arrival directory rest
  | "." :: rest => advance disk arrival directory rest
  | ".." :: rest => advance disk arrival directory.parent rest
  | name :: rest =>
    -- no file can be created at a path that ends with a separator
    if arrival = .place ∧ rest = [""] then .failed .isDirectory
    else if nameLimit < name.utf8ByteSize then .failed .nameTooLong
    else
      match disk.at? (directory ++ [name]) with
      | none =>
        if rest = [] ∧ arrival = .place then .arrived (directory ++ [name]) else .failed .noEntry
      | some .directory => advance disk arrival (directory ++ [name]) rest
      | some (.file _) =>
        if rest = [] then .arrived (directory ++ [name]) else .failed .notDirectory
      | some (.link target) =>
        if rest = [] ∧ arrival = .entry then .arrived (directory ++ [name])
        else .redirected directory target rest

/-- Where the steps of a path start that is met in a directory. -/
def origin (path : Path) (directory : Location) : Location :=
  if path.isAbsolute then .outer else directory

/-- Walks through at most `links` links. -/
def walk (disk : Disk) (arrival : Arrival) :
    Nat → Location → List String → Except DiskFault Location
  | links, directory, steps =>
    match disk.advance arrival directory steps with
    | .arrived location => .ok location
    | .failed fault => .error fault
    | .redirected directory target rest =>
      match links with
      | 0 => .error .tooManyLinks
      | links + 1 =>
        if target.text = "" then .error .noEntry
        else walk disk arrival links (origin target directory) (target.steps ++ rest)
termination_by structural links => links

/-- The most links that a walk goes through. -/
def linkLimit : Nat := 40

/-- The location to which steps lead from a directory. -/
def resolveFrom (disk : Disk) (arrival : Arrival) (directory : Location) (steps : List String) :
    Except DiskFault Location :=
  disk.walk arrival linkLimit directory steps

/-- The location that a path leads to. -/
def resolve (disk : Disk) (arrival : Arrival) (path : Path) : Except DiskFault Location :=
  match path.fault? with
  | some fault => .error fault
  | none => disk.resolveFrom arrival (origin path []) path.steps

end Disk

end ScriptMailbox
