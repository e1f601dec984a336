import ScriptMailbox.World

/-!
# Stages

A stage is a host on which others may act in any way before each operation of the program. What
they do is laid down beforehand, moment by moment, and the stage keeps a record of everything that
happens: each operation with its outcome, and each act of others with the scene before and after
it. A rule about others is a rule about that record. A directory may be listed in any order.
-/

namespace ScriptMailbox

/-- What the program and others share. -/
structure Scene where
  /-- The files. -/
  disk : Disk
  /-- Whether the cancel flag is up. -/
  cancelled : Bool
  deriving DecidableEq

namespace Scene

/-- Looks at the disk. -/
def view {α : Type} (look : Disk → α) (scene : Scene) : α × Scene :=
  (look scene.disk, scene)

/-- Changes the disk, unless that fails. -/
def change (edit : Disk → Except DiskFault Disk) (scene : Scene) :
    Except DiskFault Unit × Scene :=
  match edit scene.disk with
  | .ok disk => (.ok (), { scene with disk := disk })
  | .error fault => (.error fault, scene)

/-- Creates directories. What has been created stays even if the creation fails. -/
def makeDirectories (path : Path) (scene : Scene) : Except DiskFault Unit × Scene :=
  ((scene.disk.makeDirectories path).1,
    { scene with disk := (scene.disk.makeDirectories path).2 })

end Scene

/-- What the program asks of the machine, with the outcome. -/
inductive Operation
  /-- Asks whether the cancel flag is up. -/
  | checked (up : Bool)
  /-- Looks for what a path leads to. -/
  | looked (path : Path) (found : Option Kind)
  | opened (path : Path) (result : Except DiskFault Bytes)
  | listed (path : Path) (result : Except DiskFault (List String))
  | searched (path : Path) (found : List Path)
  | made (path : Path) (result : Except DiskFault Unit)
  | wrote (path : Path) (content : Bytes) (result : Except DiskFault Unit)
  | removed (path : Path) (result : Except DiskFault Unit)

/-- Something that happens. -/
inductive Event
  /-- The program does something. -/
  | own (operation : Operation)
  /-- Others make one scene of another. -/
  | others (before after : Scene)

/-- An order in which the names of a directory are listed. -/
structure Listing where
  order : List String → List String
  perm : ∀ names, (order names).Perm names

/-- The names as the disk keeps them. -/
def Listing.plain : Listing := ⟨id, List.Perm.refl⟩

/-- The names the other way round. -/
def Listing.reversed : Listing := ⟨List.reverse, List.reverse_perm⟩

/-- The names of the files of a directory, in some order. -/
def Listing.names (listing : Listing) (path : Path) (disk : Disk) :
    Except DiskFault (List String) :=
  (disk.list path).map fun entries => listing.order (Model.regularNames entries)

/-- A host on which others act as laid down. -/
structure Stage where
  /-- The files and the flag now. -/
  scene : Scene
  /-- What has happened, first things first. -/
  history : List Event
  /-- What others will make of the scene, one step after the other, before each operation. -/
  future : List (List Scene)
  /-- The order in which directories are listed. -/
  listing : Listing

namespace Stage

/-- The stage before anything happens. -/
def opening (scene : Scene) (future : List (List Scene)) (listing : Listing) : Stage :=
  ⟨scene, [], future, listing⟩

/-- The stage after one step of others. -/
def step (stage : Stage) (scene : Scene) : Stage :=
  { stage with scene := scene, history := stage.history ++ [.others stage.scene scene] }

/-- The stage after the steps of others before the next operation. -/
def pass (stage : Stage) : Stage :=
  match stage.future with
  | [] => stage
  | moment :: future => moment.foldl step { stage with future := future }

/-- An operation of the program, after others have acted. -/
def perform {α : Type} (operation : Scene → α × Scene) (record : α → Operation) (stage : Stage) :
    α × Stage :=
  let ready := stage.pass
  let (outcome, scene) := operation ready.scene
  (outcome, { ready with scene := scene, history := ready.history ++ [.own (record outcome)] })

/-- Asks whether the cancel flag is up. -/
def check : Stage → Bool × Stage :=
  perform (fun scene => (scene.cancelled, scene)) .checked

/-- Looks for what a path leads to. -/
def look (path : Path) : Stage → Option Kind × Stage :=
  perform (Scene.view (·.kind? path)) (.looked path)

/-- The acts of others in one moment leave what they will do later as it is. -/
theorem future_foldl_step (moment : List Scene) (stage : Stage) :
    (moment.foldl step stage).future = stage.future := by
  induction moment generalizing stage with
  | nil => rfl
  | cons scene moment ih => exact ih (stage.step scene)

/-- Others are through with one more moment when it has passed. -/
theorem future_pass (stage : Stage) : stage.pass.future = stage.future.tail := by
  rw [pass]
  split
  · rename_i hfuture
    rw [hfuture, List.tail_nil]
  · rename_i hfuture
    rw [future_foldl_step, hfuture, List.tail_cons]

/-- Every operation takes up one moment of others. -/
theorem future_perform {α : Type} (operation : Scene → α × Scene) (record : α → Operation)
    (stage : Stage) : (stage.perform operation record).2.future = stage.future.tail :=
  stage.future_pass

/-- Two looks use up two moments. -/
theorem length_future_look_check (path : Path) {stage : Stage} (h : stage.future ≠ []) :
    (stage.look path).2.check.2.future.length < stage.future.length := by
  have hlength := List.length_pos_iff.mpr h
  rw [check, future_perform, look, future_perform, List.length_tail, List.length_tail]
  omega

/-- How a wait for a file ends. The flag is asked for only when the file is not there; when others
have done all that they will do, and both looks were in vain, nothing will ever end the wait. -/
def await (path : Path) (stage : Stage) : Wait × Stage :=
  let looked := stage.look path
  if looked.1.isSome then (.arrived, looked.2)
  else
    let checked := looked.2.check
    if checked.1 then (.cancelled, checked.2)
    else if hfuture : stage.future = [] then (.unanswered, checked.2)
    else
      have := length_future_look_check path hfuture
      await path checked.2
termination_by stage.future.length

end Stage

/-- A computation on a stage. -/
abbrev Play := StateM Stage

namespace Play

/-- No signal comes on a stage, nothing is typed, and what is shown is not kept. -/
instance : Host Play where
  kind? path := Stage.look path
  read path := Stage.perform (Scene.view (·.read path)) (.opened path)
  write path content := Stage.perform (Scene.change (·.write path content)) (.wrote path content)
  makeDirectories path := Stage.perform (Scene.makeDirectories path) (.made path)
  fileNames path stage := stage.perform (Scene.view (stage.listing.names path)) (.listed path)
  filesBelow path := Stage.perform (Scene.view (·.filesBelow path)) (.searched path)
  removeFile path := Stage.perform (Scene.change (·.removeFile path)) (.removed path)
  isCancelled := Stage.check
  watchSignals _ := pure ()
  takeLastSweep := pure true
  await path _ := Stage.await path
  readLine := pure []
  print _ := pure ()

end Play

end ScriptMailbox
