import ScriptMailbox.Program
import ScriptMailbox.Stage

/-!
# Desks

A desk is a host at which someone types while others act as laid down on its stage. Beside the
program its handler of termination signals takes its own steps, one at a time, between the
operations of the program: it raises the flag, takes on the last sweep, lists the mailbox, deletes
one file after the other, and ends the process. What is shown is not kept.
-/

namespace ScriptMailbox

/-- The two threads of the program. -/
inductive Thread
  /-- The one that serves the console or makes the exchange. -/
  | worker
  /-- The one that handles termination signals. -/
  | handler
  deriving DecidableEq, Repr

/-- What the handler of termination signals is at. -/
inductive Handler
  /-- There is no handler yet. -/
  | absent
  /-- It waits for a signal. -/
  | watching (root : Path)
  /-- It has raised the flag. -/
  | raised (root : Path)
  /-- It has taken on the last sweep. -/
  | sweeping (root : Path)
  /-- It has these files yet to delete before it ends the process. -/
  | deleting (root : Path) (names : List String)
  /-- It has ended the process. -/
  | exited
  deriving DecidableEq, Repr

/-- A stage at which someone types. -/
structure Desk where
  /-- The files, and what others do. -/
  stage : Stage
  /-- The lines that will be typed. -/
  typed : List Bytes
  /-- How many steps the handler takes before each operation of the worker. -/
  pace : List Nat
  /-- What the handler is at. -/
  handler : Handler
  /-- Who has taken on the last sweep. -/
  sweeper : Option Thread

namespace Desk

/-- The desk before anything happens. -/
def opening (scene : Scene) (future : List (List Scene)) (listing : Listing) (typed : List Bytes)
    (pace : List Nat) : Desk :=
  ⟨.opening scene future listing, typed, pace, .absent, none⟩

/-- Whether the handler has ended the process. -/
def isOver (desk : Desk) : Bool :=
  desk.handler = .exited

/-! ## The handler -/

/-- The desk after one step of the handler. A handler that finds the last sweep taken on has
nothing to delete. -/
def act (desk : Desk) : Desk :=
  match desk.handler with
  | .absent | .exited => desk
  | .watching root =>
    { desk with
      stage := desk.stage.step { desk.stage.scene with cancelled := true }
      handler := .raised root }
  | .raised root =>
    match desk.sweeper with
    | none => { desk with handler := .sweeping root, sweeper := some .handler }
    | some _ => { desk with handler := .deleting root [] }
  | .sweeping root =>
    let (found, stage) := (Host.fileNames root : Play _) desk.stage
    { desk with stage := stage, handler := .deleting root (Mailbox.exchangeNames found) }
  | .deleting root (name :: names) =>
    let (_, stage) := (Host.removeFile (root.join name) : Play _) desk.stage
    { desk with stage := stage, handler := .deleting root names }
  | .deleting _ [] => { desk with handler := .exited }

/-- The desk after some steps of the handler. -/
def acts : Nat → Desk → Desk
  | 0, desk => desk
  | count + 1, desk => acts count desk.act

/-- The desk after the steps of the handler before the next operation of the worker. -/
def advance (desk : Desk) : Desk :=
  match desk.pace with
  | [] => desk
  | count :: pace => { desk with pace := pace }.acts count

/-- From now on the handler waits for a signal. -/
def watch (root : Path) (desk : Desk) : Desk :=
  match desk.handler with
  | .absent => { desk with handler := .watching root }
  | _ => desk

/-! ## The worker -/

/-- The desk after its stage has changed. -/
def onStage {α : Type} (work : Play α) (desk : Desk) : α × Desk :=
  let (result, stage) := work desk.stage
  (result, { desk with stage := stage })

/-- An operation of the worker, after the handler has taken its steps. Once the process has ended it
does nothing; what it would give then is of no consequence. -/
def perform {α : Type} (work : Play α) (desk : Desk) : α × Desk :=
  let ready := desk.advance
  if ready.isOver then ((work ready.stage).1, ready) else ready.onStage work

/-- Takes on the last sweep, unless that has been done. -/
def takeLastSweep (desk : Desk) : Bool × Desk :=
  let ready := desk.advance
  match ready.sweeper with
  | none => (true, { ready with sweeper := some .worker })
  | some _ => (false, ready)

/-- The next line, and the desk once it has been read. -/
def readLine (desk : Desk) : Bytes × Desk :=
  let ready := desk.advance
  match ready.typed with
  | [] => ([], ready)
  | line :: rest => (line, { ready with typed := rest })

/-! ## Waiting -/

/-- How much longer a wait can take: what others and the handler will still do. -/
def remaining (desk : Desk) : Nat :=
  desk.stage.future.length + desk.pace.length

/-- A step of the handler takes up at most one moment of others, and nothing of its pace. -/
theorem length_future_act (desk : Desk) :
    desk.act.pace = desk.pace ∧ desk.act.stage.future.length ≤ desk.stage.future.length := by
  have htail {after before : Stage} (h : after.future = before.future.tail) :
      after.future.length ≤ before.future.length := by
    rw [h, List.length_tail]
    omega
  obtain ⟨stage, typed, pace, handler, sweeper⟩ := desk
  rcases handler with _ | root | root | root | ⟨root, _ | ⟨name, names⟩⟩ | _
  · exact ⟨rfl, Nat.le_refl _⟩
  · exact ⟨rfl, Nat.le_refl _⟩
  · cases sweeper <;> exact ⟨rfl, Nat.le_refl _⟩
  · exact ⟨rfl, htail (Stage.future_perform (Scene.view _) (.listed root) stage)⟩
  · exact ⟨rfl, Nat.le_refl _⟩
  · exact ⟨rfl, htail (Stage.future_perform (Scene.change (·.removeFile (root.join name)))
      (.removed (root.join name)) stage)⟩
  · exact ⟨rfl, Nat.le_refl _⟩

/-- Its steps never lengthen what others will do. -/
theorem length_future_acts (count : Nat) (desk : Desk) :
    (desk.acts count).pace = desk.pace ∧
      (desk.acts count).stage.future.length ≤ desk.stage.future.length := by
  induction count generalizing desk with
  | zero => exact ⟨rfl, Nat.le_refl _⟩
  | succ count ih =>
    obtain ⟨hpace, hfuture⟩ := length_future_act desk
    exact ⟨(ih desk.act).1.trans hpace, Nat.le_trans (ih desk.act).2 hfuture⟩

/-- Before an operation of the worker one part of the pace is taken. -/
theorem length_future_advance (desk : Desk) :
    desk.advance.pace = desk.pace.tail ∧
      desk.advance.stage.future.length ≤ desk.stage.future.length := by
  rw [advance]
  split
  · rename_i hpace
    exact ⟨by rw [hpace, List.tail_nil], Nat.le_refl _⟩
  · rename_i count pace hpace
    obtain ⟨hrest, hfuture⟩ := length_future_acts count { desk with pace := pace }
    exact ⟨by rw [hrest, hpace, List.tail_cons], hfuture⟩

/-- An operation that is done takes up a moment of others. -/
theorem remaining_onStage {α : Type} {work : Play α}
    (hwork : ∀ stage, (work stage).2.future = stage.future.tail) (desk : Desk) :
    (desk.onStage work).2.remaining = desk.stage.future.length - 1 + desk.pace.length := by
  show (work desk.stage).2.future.length + desk.pace.length = _
  rw [hwork, List.length_tail]

/-- An operation of the worker never makes a wait longer. -/
theorem remaining_perform_le {α : Type} {work : Play α}
    (hwork : ∀ stage, (work stage).2.future = stage.future.tail) (desk : Desk) :
    (desk.perform work).2.remaining ≤ desk.remaining := by
  obtain ⟨hpace, hfuture⟩ := length_future_advance desk
  have hlength := congrArg List.length hpace
  rw [List.length_tail] at hlength
  rw [perform]
  split
  · show desk.advance.stage.future.length + desk.advance.pace.length ≤ desk.remaining
    rw [remaining]
    omega
  · rw [remaining_onStage hwork, remaining]
    omega

/-- It makes it shorter as long as there is something to wait for and the process has not ended. -/
theorem remaining_perform_lt {α : Type} {work : Play α}
    (hwork : ∀ stage, (work stage).2.future = stage.future.tail) {desk : Desk}
    (hover : (desk.perform work).2.isOver = false)
    (hwait : ¬(desk.stage.future = [] ∧ desk.pace = [])) :
    (desk.perform work).2.remaining < desk.remaining := by
  obtain ⟨hpace, hfuture⟩ := length_future_advance desk
  have hlength := congrArg List.length hpace
  rw [List.length_tail] at hlength
  rw [perform] at hover ⊢
  split
  · rename_i hready
    rw [if_pos hready, hready] at hover
    cases hover
  · rw [remaining_onStage hwork, remaining]
    cases hnil : desk.pace with
    | nil =>
      have hlong := List.length_pos_iff.mpr fun hfuture => hwait ⟨hfuture, hnil⟩
      have hadvance : desk.advance = desk := by rw [advance, hnil]
      rw [hadvance, hnil, List.length_nil]
      omega
    | cons count pace =>
      rw [hnil] at hlength
      rw [hlength, List.length_cons]
      omega

/-- Looking and checking in vain comes to an end. -/
theorem remaining_looked (path : Path) {desk : Desk}
    (hseen : ¬(desk.perform (Stage.look path)).2.isOver = true)
    (hwait : ¬(desk.stage.future = [] ∧ desk.pace = [])) :
    ((desk.perform (Stage.look path)).2.perform Stage.check).2.remaining < desk.remaining :=
  Nat.lt_of_le_of_lt (remaining_perform_le (Stage.future_perform _ _) _)
    (remaining_perform_lt (Stage.future_perform _ _) (Bool.eq_false_iff.mpr hseen) hwait)

/-- How a wait for a file ends. It ends with the process, or else as on a stage; when others and the
handler have done all that they will do, and both looks were in vain, nothing will ever end it. -/
def await (path : Path) (desk : Desk) : Wait × Desk :=
  let seen := desk.perform (Stage.look path)
  if hseen : seen.2.isOver then (.terminated, seen.2)
  else if seen.1.isSome then (.arrived, seen.2)
  else
    let checked := seen.2.perform Stage.check
    if checked.2.isOver then (.terminated, checked.2)
    else if checked.1 then (.cancelled, checked.2)
    else if hwait : desk.stage.future = [] ∧ desk.pace = [] then (.unanswered, checked.2)
    else
      have := remaining_looked path hseen hwait
      await path checked.2
termination_by desk.remaining

end Desk

/-- A computation at a desk. -/
abbrev DeskM := StateM Desk

namespace DeskM

instance : Host DeskM where
  kind? path := Desk.perform (Host.kind? path)
  read path := Desk.perform (Host.read path)
  write path content := Desk.perform (Host.write path content)
  makeDirectories path := Desk.perform (Host.makeDirectories path)
  fileNames path := Desk.perform (Host.fileNames path)
  filesBelow path := Desk.perform (Host.filesBelow path)
  removeFile path := Desk.perform (Host.removeFile path)
  isCancelled := Desk.perform Host.isCancelled
  watchSignals root := fun desk => ((), desk.watch root)
  takeLastSweep := Desk.takeLastSweep
  await path _ := Desk.await path
  readLine := Desk.readLine
  print _ := pure ()

end DeskM

namespace Desk

/-- Serves the console until what will be typed is used up. -/
def serve : SessionM DeskM Unit := do
  let desk ← (get : DeskM Desk)
  Console.serve (desk.typed.length + 1)

/-- What the worker makes of a desk. -/
def runWorker (desk : Desk) (documents : Documents) (arguments : List String) : Ending × Desk :=
  (Program.run serve documents arguments : DeskM Ending) desk

/-- The program at a desk. Before its worker ends the process the handler takes its last steps, and
may come first. -/
def runProgram (desk : Desk) (documents : Documents) (arguments : List String) : Ending × Desk :=
  let (ending, done) := desk.runWorker documents arguments
  let last := done.advance
  (if last.isOver then .finished 0 else ending, last)

end Desk

end ScriptMailbox
