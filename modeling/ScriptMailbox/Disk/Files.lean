import ScriptMailbox.Disk.Walk

/-!
# Files and directories by path

Reading, writing, listing and creating, as the machine does it for a path: which fault is reported
when several apply follows from the order in which the steps of the path are taken.
-/

namespace ScriptMailbox

/-- What a path leads to in the end. -/
inductive Kind
  | file
  | directory
  deriving DecidableEq, Repr

namespace Disk

/-- The kind of what a path leads to, if it leads anywhere. -/
def kind? (disk : Disk) (path : Path) : Option Kind :=
  match disk.resolve .target path with
  | .error _ => none
  | .ok location =>
    match disk.at? location with
    | some (.file _) => some .file
    | some .directory => some .directory
    | _ => none

/-- What the file at the end of a path holds. -/
def read (disk : Disk) (path : Path) : Except DiskFault Bytes :=
  match disk.resolve .target path with
  | .error fault => .error fault
  | .ok location =>
    match disk.at? location with
    | some (.file content) => .ok content
    | some .directory => .error .isDirectory
    | _ => .error .noEntry

/-- Writes a file; what it held before is lost. -/
def write (disk : Disk) (path : Path) (content : Bytes) : Except DiskFault Disk :=
  match disk.resolve .place path with
  | .error fault => .error fault
  | .ok location =>
    if disk.at? location = some .directory then .error .isDirectory
    else .ok (disk.put location (.file content))

/-- The directory in which the last of some names stands. -/
def parentOf (disk : Disk) (directory : Location) (names : List String) :
    Except DiskFault Location :=
  disk.resolveFrom .target directory (names.dropLast ++ [""])

/-- The location to which names lead from a directory, if nothing is there. -/
def vacant (disk : Disk) (directory : Location) (names : List String) :
    Except DiskFault Location :=
  match disk.parentOf directory names with
  | .error fault => .error fault
  | .ok parent =>
    match names.getLast? with
    | none | some "" | some "." | some ".." => .error .entryExists
    | some name =>
      if nameLimit < name.utf8ByteSize then .error .nameTooLong
      else if (disk.at? (parent ++ [name])).isSome then .error .entryExists
      else .ok (parent ++ [name])

/-- The directory to which names lead from a directory; if they lead to none, the fault that says
why it has not been created. -/
def standing (disk : Disk) (start : Location) (names : List String) (fault : DiskFault) :
    Except DiskFault Location :=
  match disk.resolveFrom .target start names with
  | .error _ => .error fault
  | .ok location => if disk.at? location = some .directory then .ok location else .error fault

/-- The directory to which names lead from a directory, created with what must contain it. The
names come last one first. What has been created stays even if the creation fails later. -/
def makeWay (disk : Disk) (start : Location) : List String → Except DiskFault Location × Disk
  | [] => (.ok start, disk)
  | name :: above =>
    let names := (name :: above).reverse
    match disk.vacant start names with
    | .ok location => (.ok location, disk.put location .directory)
    | .error .noEntry =>
      match makeWay disk start above with
      | (.error fault, made) => (.error fault, made)
      | (.ok parent, made) =>
        match made.vacant parent [name] with
        | .ok location => (.ok location, made.put location .directory)
        | .error fault => (made.standing start names fault, made)
    | .error fault => (disk.standing start names fault, disk)

/-- The name of a component. -/
def nameOf : Component → String
  | .root => ""
  | .current => "."
  | .parent => ".."
  | .normal name => name

/-- Creates all directories that must contain a path. -/
def makeParents (disk : Disk) (path : Path) : Except DiskFault Unit × Disk :=
  let (result, made) :=
    disk.makeWay (origin path []) (path.components.reverse.tail.map nameOf)
  (result.map fun _ => (), made)

/-- Creates a directory and all that must contain it. The empty path needs nothing. -/
def makeDirectories (disk : Disk) (path : Path) : Except DiskFault Unit × Disk :=
  if path.text = "" then (.ok (), disk)
  else
    match path.fault? with
    | some fault => (.error fault, disk)
    | none =>
      let start := origin path []
      match disk.vacant start path.names with
      | .ok location => (.ok (), disk.put location .directory)
      | .error .noEntry =>
        match disk.makeParents path with
        | (.error fault, made) => (.error fault, made)
        | (.ok (), made) =>
          match made.vacant start path.names with
          | .ok location => (.ok (), made.put location .directory)
          | .error fault => ((made.standing start path.names fault).map fun _ => (), made)
      | .error fault => ((disk.standing start path.names fault).map fun _ => (), disk)

/-- Creates a link in a directory that is there. -/
def makeLink (disk : Disk) (path target : Path) : Except DiskFault Disk :=
  match target.fault? <|> path.fault? with
  | some fault => .error fault
  | none => (disk.vacant (origin path []) path.names).map (disk.put · (.link target))

/-- The names in the directory at the end of a path, each with its entry. -/
def list (disk : Disk) (path : Path) : Except DiskFault (List (String × Entry)) :=
  match disk.resolve .target path with
  | .error fault => .error fault
  | .ok location =>
    match disk.at? location with
    | some .directory => .ok (disk.children location)
    | some (.file _) => .error .notDirectory
    | _ => .error .noEntry

/-- Deletes a file or a link. -/
def removeFile (disk : Disk) (path : Path) : Except DiskFault Disk :=
  match disk.resolve .entry path with
  | .error fault => .error fault
  | .ok location =>
    if disk.at? location = some .directory then .error .isDirectory
    else .ok (disk.erase location)

/-- Deletes a directory that contains nothing. A dot or a link at the end of the names does not
count as the directory that it leads to. -/
def removeDirectory (disk : Disk) (directory : Location) (names : List String) :
    Except DiskFault Disk :=
  match disk.parentOf directory names with
  | .error fault => .error fault
  | .ok parent =>
    match names.getLast? with
    | none => .error .busy
    | some "." => .error .invalidArgument
    | some ".." => .error .notEmpty
    | some name =>
      match disk.at? (parent ++ [name]) with
      | none => .error .noEntry
      | some .directory =>
        if (disk.children (parent ++ [name])).isEmpty then .ok (disk.erase (parent ++ [name]))
        else .error .notEmpty
      | some _ => .error .notDirectory

/-- Deletes an entry with all that it contains. What a directory contains is deleted first, and
stays so even if the directory cannot be deleted; if its path leads nowhere by then, there is
nothing left to delete. -/
def remove (disk : Disk) (path : Path) : Except DiskFault Unit × Disk :=
  match disk.resolve .entry path with
  | .error fault => (.error fault, disk)
  | .ok location =>
    if disk.at? location = some .directory then
      let cleared := disk.clear location
      match cleared.removeDirectory (origin path []) path.names with
      | .ok removed => (.ok (), removed)
      | .error .noEntry => (.ok (), cleared)
      | .error fault => (.error fault, cleared)
    else (.ok (), disk.erase location)

/-- The files that directories below a path contain, links apart, each with its path. What the
path of its directory cannot lead to is passed over. -/
def filesBelow (disk : Disk) (path : Path) : List Path :=
  match disk.resolve .target path with
  | .error _ => []
  | .ok top =>
    (disk.below top).filterMap fun (names, entry) =>
      match entry with
      | .file _ =>
        let directory := names.dropLast.foldl Path.join path
        if directory.fault?.isNone then some (names.foldl Path.join path) else none
      | _ => none

end Disk

end ScriptMailbox
