import ScriptMailbox.Disk.Files
import ScriptMailbox.Document.Layout
import ScriptMailbox.Host

/-!
# Worlds

A world is a host that is a value: a disk, a cancel flag, what others will do, and a console with
what will be typed and what has been shown. Others act while the program waits for a file, and
while it waits for a line.
-/

namespace ScriptMailbox

/-- What others wait for. -/
inductive Trigger
  /-- Something is at the end of a path. -/
  | present (path : Path)
  /-- A whole document is at the end of a path. -/
  | complete (path : Path)
  deriving DecidableEq, Repr

/-- What others do. -/
inductive Effect
  /-- Raise the cancel flag. -/
  | cancel
  /-- Send a termination signal. -/
  | terminate
  | write (path : Path) (content : Bytes)
  deriving DecidableEq, Repr

/-- Whether an effect leaves the files alone. -/
def Effect.isSignal : Effect → Bool
  | cancel | terminate => true
  | write _ _ => false

/-- What others do once, as soon as they have seen what they wait for. -/
structure Reaction where
  /-- What they wait for. -/
  trigger : Trigger
  /-- What they do then. -/
  effect : Effect
  deriving DecidableEq, Repr

/-- What others do while the program waits for a line. -/
inductive Action
  /-- Write a file and create the directories that must contain it. -/
  | write (path : Path) (content : Bytes)
  | makeDirectories (path : Path)
  | remove (path : Path)
  | setCancelled (value : Bool)
  /-- From now on, wait for something. -/
  | expect (reaction : Reaction)
  deriving DecidableEq, Repr

/-- What the program gets when it asks for a line: others act, then the line is complete. -/
structure Reading where
  /-- What others do before the line is complete. -/
  actions : List Action
  /-- The line. -/
  text : Bytes
  deriving DecidableEq, Repr

/-- A host as a value. -/
structure World where
  /-- The files. -/
  disk : Disk
  /-- Whether the cancel flag is up. -/
  cancelled : Bool
  /-- Whether a termination signal has been sent. -/
  terminated : Bool
  /-- What others wait for. -/
  pending : List Reaction
  /-- What will be typed. -/
  input : List Reading
  /-- What has been shown. -/
  output : String

namespace World

/-- A world with some files in which nobody else acts. -/
def ofDisk (disk : Disk) : World :=
  ⟨disk, false, false, [], [], ""⟩

end World

/-- Whether a trigger is met. -/
def Trigger.isMet (disk : Disk) : Trigger → Bool
  | present path => (disk.kind? path).isSome
  | complete path =>
    match disk.read path with
    | .ok content => (Text.Utf8.encode Document.footer).isSuffixOf content
    | .error _ => false

namespace Disk

/-- Writes a file and creates the directories that must contain it. What has been created stays
even if the writing fails. -/
def writeNested (disk : Disk) (path : Path) (content : Bytes) : Except DiskFault Unit × Disk :=
  match disk.makeParents path with
  | (.error fault, made) => (.error fault, made)
  | (.ok (), made) =>
    match made.write path content with
    | .ok written => (.ok (), written)
    | .error fault => (.error fault, made)

end Disk

namespace World

/-- The world after others have acted in one way. -/
def apply (world : World) : Effect → World
  | .cancel => { world with cancelled := true }
  | .terminate => { world with terminated := true }
  | .write path content => { world with disk := (world.disk.writeNested path content).2 }

/-- The world after the chosen reactions whose triggers are met. -/
def react (world : World) (acts : Reaction → Bool) : World :=
  world.pending.foldl
    (fun world reaction =>
      if acts reaction && reaction.trigger.isMet world.disk then world.apply reaction.effect
      else { world with pending := world.pending ++ [reaction] })
    { world with pending := [] }

/-- The world after those have acted who have seen what they wait for. -/
def settle (world : World) : World :=
  world.react fun _ => true

/-- The world after a change of the disk, and whether that has failed. -/
def changeDisk (world : World) (change : Disk → Except DiskFault Unit × Disk) :
    Except DiskFault Unit × World :=
  let (result, disk) := change world.disk
  (result, { world with disk := disk })

/-- The world after an action, and whether that has failed. -/
def perform (world : World) : Action → Except DiskFault Unit × World
  | .write path content => world.changeDisk (·.writeNested path content)
  | .makeDirectories path => world.changeDisk (·.makeDirectories path)
  | .remove path => world.changeDisk (·.remove path)
  | .setCancelled value => (.ok (), { world with cancelled := value })
  | .expect reaction => (.ok (), { world with pending := world.pending ++ [reaction] })

/-- Whether something is at the end of a path. -/
def has (world : World) (path : Path) : Bool :=
  (world.disk.kind? path).isSome

/-- How a wait for a file ends, and the world then. A file that is there already ends the wait
before others write; signals take no time. After a termination signal the program does nothing but
the last sweep, as if its handler were left alone. -/
def await (world : World) (path : Path) : Wait × World :=
  if world.has path then (.arrived, world.react (·.effect.isSignal))
  else
    let later := world.settle
    if later.terminated then (.terminated, later)
    else if later.has path then (.arrived, later)
    else if later.cancelled then (.cancelled, later)
    else (.unanswered, later)

/-- The next line, and the world once it has been read. -/
def readLine (world : World) : Bytes × World :=
  match world.input with
  | [] => ([], world)
  | reading :: rest =>
    (reading.text,
      reading.actions.foldl (fun world action => (world.perform action).2)
        { world with input := rest })

end World

/-- A computation on a world. -/
abbrev Model := StateM World

namespace Model

/-- Looks at the disk. -/
def view {α : Type} (look : Disk → α) : Model α :=
  fun world => (look world.disk, world)

/-- Changes the disk, unless that fails. -/
def change (edit : Disk → Except DiskFault Disk) : Model (Except DiskFault Unit) :=
  fun world =>
    match edit world.disk with
    | .ok disk => (.ok (), { world with disk := disk })
    | .error fault => (.error fault, world)

/-- The names of the files among the entries of a directory. -/
def regularNames (entries : List (String × Entry)) : List String :=
  entries.filterMap fun (name, entry) =>
    match entry with
    | .file _ => some name
    | _ => none

instance : Host Model where
  kind? path := view (·.kind? path)
  read path := view (·.read path)
  write path content := change (·.write path content)
  makeDirectories path := fun world => world.changeDisk (·.makeDirectories path)
  fileNames path := view fun disk => (disk.list path).map regularNames
  filesBelow path := view (·.filesBelow path)
  removeFile path := change (·.removeFile path)
  isCancelled := fun world => (world.cancelled, world)
  watchSignals _ := pure ()
  takeLastSweep := pure true
  await path _ := fun world => world.await path
  readLine := fun world => world.readLine
  print text := fun world => ((), { world with output := world.output ++ text })

end Model

/-- One event of what is typed: a byte, or an action of others while the next one is awaited. -/
inductive InputEvent
  | byte (value : UInt8)
  | action (action : Action)
  deriving DecidableEq, Repr

/-- The lines of what is typed, each with the actions before it is complete. -/
def Reading.ofEvents : List InputEvent → List Reading
  | [] => []
  | .byte value :: rest =>
    if value = 10 then ⟨[], [10]⟩ :: ofEvents rest
    else
      match ofEvents rest with
      | [] => [⟨[], [value]⟩]
      | reading :: more => ⟨reading.actions, value :: reading.text⟩ :: more
  | .action action :: rest =>
    match ofEvents rest with
    | [] => [⟨[action], []⟩]
    | reading :: more => ⟨action :: reading.actions, reading.text⟩ :: more

/-- The lines of bytes that are typed while nobody else acts. -/
def Reading.ofBytes (bytes : Bytes) : List Reading :=
  ofEvents (bytes.map .byte)

end ScriptMailbox
