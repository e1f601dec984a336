import ScriptMailbox.Program
import ScriptMailbox.Terminal

/-!
# Duets

A duet is a host on which a partner reacts to what the program does. Once the program has written a
file, the partner moves before each operation, and what it makes of the scene may depend on all that
has happened since. Before that it does nothing.
-/

namespace ScriptMailbox

/-- Whether the program writes a file. -/
def Note.isWriting : Note → Bool
  | happened (.own (.wrote _ _ (.ok ()))) => true
  | _ => false

/-- What a partner makes of a scene, after what has happened since the first file was written. -/
abbrev Partner := List Note → Scene → Scene

/-- A scene on which a partner reacts while someone types. -/
structure Duet where
  /-- The files and the flag now. -/
  scene : Scene
  /-- The lines that will be typed. -/
  typed : List Bytes
  /-- What has been shown. -/
  shown : String
  /-- What has happened since the program first wrote a file, beginning with that. -/
  record : List Note
  partner : Partner
  /-- The order in which directories are listed. -/
  listing : Listing
  /-- How often a file is looked for in vain before it is missing for good. -/
  patience : Nat

namespace Duet

/-- The duet before anything happens. -/
def opening (scene : Scene) (typed : List Bytes) (partner : Partner) (listing : Listing)
    (patience : Nat) : Duet :=
  ⟨scene, typed, "", [], partner, listing, patience⟩

/-- The duet after something that the program does. -/
def note (entry : Note) (duet : Duet) : Duet :=
  if duet.record.isEmpty && !entry.isWriting then duet
  else { duet with record := duet.record ++ [entry] }

/-- The duet after a move of the partner. -/
def move (duet : Duet) : Duet :=
  if duet.record.isEmpty then duet
  else
    let scene := duet.partner duet.record duet.scene
    { duet with
      scene := scene
      record := duet.record ++ [.happened (.others duet.scene scene)] }

/-- An operation of the program, after a move of the partner. -/
def perform {α : Type} (operation : Scene → α × Scene) (record : α → Operation) (duet : Duet) :
    α × Duet :=
  let ready := duet.move
  let (outcome, scene) := operation ready.scene
  (outcome, { ready with scene := scene }.note (.happened (.own (record outcome))))

/-- Asks whether the cancel flag is up. -/
def check : Duet → Bool × Duet :=
  perform (fun scene => (scene.cancelled, scene)) .checked

/-- Looks for what a path leads to. -/
def look (path : Path) : Duet → Option Kind × Duet :=
  perform (Scene.view (·.kind? path)) (.looked path)

/-- How a wait for a file ends, if so many looks are made at most. -/
def await (path : Path) : Nat → Duet → Wait × Duet
  | 0, duet => (.unanswered, duet)
  | looks + 1, duet =>
    let seen := duet.look path
    if seen.1.isSome then (.arrived, seen.2)
    else
      let checked := seen.2.check
      if checked.1 then (.cancelled, checked.2) else await path looks checked.2

/-- The next line, and the duet once it has been read. -/
def readLine (duet : Duet) : Bytes × Duet :=
  let ready := duet.move
  match ready.typed with
  | [] => ([], ready.note (.read []))
  | line :: rest => (line, { ready with typed := rest }.note (.read line))

/-- The duet once a text has been shown. -/
def print (text : String) (duet : Duet) : Duet :=
  let ready := duet.move
  { ready with shown := ready.shown ++ text }.note (.showed text)

end Duet

/-- A computation in a duet. -/
abbrev DuetM := StateM Duet

namespace DuetM

instance : Host DuetM where
  kind? path := Duet.look path
  read path := Duet.perform (Scene.view (·.read path)) (.opened path)
  write path content := Duet.perform (Scene.change (·.write path content)) (.wrote path content)
  makeDirectories path := Duet.perform (Scene.makeDirectories path) (.made path)
  fileNames path duet := duet.perform (Scene.view (duet.listing.names path)) (.listed path)
  filesBelow path := Duet.perform (Scene.view (·.filesBelow path)) (.searched path)
  removeFile path := Duet.perform (Scene.change (·.removeFile path)) (.removed path)
  isCancelled := Duet.check
  watchSignals _ := pure ()
  takeLastSweep := pure true
  await path _ duet := duet.await path duet.patience
  readLine := Duet.readLine
  print text := fun duet => ((), duet.print text)

end DuetM

namespace Duet

/-- Serves the console until what will be typed is used up. -/
def serve : SessionM DuetM Unit := do
  let duet ← (get : DuetM Duet)
  Console.serve (duet.typed.length + 1)

/-- The program in a duet. -/
def runProgram (duet : Duet) (documents : Documents) (arguments : List String) : Ending × Duet :=
  (Program.run serve documents arguments : DuetM Ending) duet

end Duet

end ScriptMailbox
