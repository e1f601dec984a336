import ScriptMailbox.Proofs.Program.Handling

/-!
# What the program may do

All that a console and a single exchange do to the files is to create the mailbox, to write requests
in it, to delete exchange files in it, and to write what patch commands have made of sources. This
is shown for each part of the program, from what it is made of.
-/

namespace ScriptMailbox

open Mailbox

/-- Whether a patch command among the typed lines makes a file of this content. -/
def IsPatched (typed : List Bytes) (path : Path) (content : Bytes) : Prop :=
  ∃ bytes ∈ typed, ∃ line file query text source patched,
    Console.lineOf bytes = .ok (some line) ∧
      Command.parse line = .ok (.patch file query text) ∧
      (∀ named, file = some named → path = named) ∧
      SourceTree.patchContent path source query text Source.defaultAfterLine = .ok patched ∧
      content = Text.Utf8.encode patched.content

/-- What the program may do with a mailbox, when some lines are typed. -/
inductive Permitted (root : Path) (typed : List Bytes) : Operation → Prop
  | looks {operation : Operation} (h : operation.isChange = false) : Permitted root typed operation
  | makes (result : Except DiskFault Unit) : Permitted root typed (.made root result)
  | posts (index : Index) (content : Bytes) (result : Except DiskFault Unit) :
    Permitted root typed (.wrote (root.join (requestName index)) content result)
  | patches {path : Path} {content : Bytes} (result : Except DiskFault Unit)
    (h : IsPatched typed path content) : Permitted root typed (.wrote path content result)
  | deletes {name : String} (result : Except DiskFault Unit) (h : isExchangeName name = true) :
    Permitted root typed (.removed (root.join name) result)

/-- Looking and deleting exchange files is permitted. -/
theorem OnlyDelete.permitted {root : Path} {typed : List Bytes} {operations : List Operation}
    (h : OnlyDelete root operations) (operation : Operation) (hmem : operation ∈ operations) :
    Permitted root typed operation := by
  rcases h operation hmem with hlooks | ⟨name, hname, result, rfl⟩
  · exact .looks hlooks
  · exact .deletes result hname

/-- Whether permitted operations lead from one stage to another. -/
def Stage.MayBecome (root : Path) (typed : List Bytes) (before after : Stage) : Prop :=
  ∃ operations, before.Does operations after ∧
    ∀ operation ∈ operations, Permitted root typed operation

/-- A stage may stay what it is. -/
theorem Stage.MayBecome.refl {root : Path} {typed : List Bytes} (stage : Stage) :
    stage.MayBecome root typed stage :=
  ⟨[], .refl stage, List.forall_mem_nil _⟩

/-- What is permitted twice in turn is permitted. -/
theorem Stage.MayBecome.trans {root : Path} {typed : List Bytes} {before between after : Stage}
    (h : before.MayBecome root typed between) (hmore : between.MayBecome root typed after) :
    before.MayBecome root typed after := by
  obtain ⟨operations, hdoes, hmay⟩ := h
  obtain ⟨more, hdoes', hmay'⟩ := hmore
  exact ⟨operations ++ more, hdoes.trans hdoes', List.forall_mem_append.mpr ⟨hmay, hmay'⟩⟩

namespace Desk

variable {root : Path} {typed : List Bytes} {desk before between after : Desk}

/-- Whether no signal has come, and none will. -/
def IsQuiet (desk : Desk) : Prop :=
  desk.handler.isQuiet = true ∧ ∀ count ∈ desk.pace, count = 0

/-- Whether nothing but the given lines will be typed, and the handler is where it should be. -/
structure IsSound (root : Path) (typed : List Bytes) (desk : Desk) : Prop where
  lines : ∀ line ∈ desk.typed, line ∈ typed
  tracks : desk.Tracks root

/-- Whether the program does what it may between two desks, before the worker takes on the last
sweep. It types nothing itself, sends itself no signal, and does not come back to life. -/
structure Runs (root : Path) (typed : List Bytes) (before after : Desk) : Prop where
  does : before.stage.MayBecome root typed after.stage
  lines : ∀ line ∈ after.typed, line ∈ before.typed
  tracks : after.Tracks root
  taken : ∀ thread, before.sweeper = some thread → after.sweeper = some thread
  sweeper : after.sweeper = some .worker → before.sweeper = some .worker
  ended : before.isOver = true → after.isOver = true
  quiet : before.IsQuiet → after.IsQuiet

/-- Doing nothing is permitted. -/
theorem Runs.refl (h : desk.Tracks root) : desk.Runs root typed desk :=
  ⟨.refl desk.stage, fun _ => id, h, fun _ => id, id, id, id⟩

/-- One permitted run after the other is permitted. -/
theorem Runs.trans (h : before.Runs root typed between) (hmore : between.Runs root typed after) :
    before.Runs root typed after :=
  ⟨h.does.trans hmore.does,
    fun line hline => h.lines line (hmore.lines line hline), hmore.tracks,
    fun thread htaken => hmore.taken thread (h.taken thread htaken),
    fun hworker => h.sweeper (hmore.sweeper hworker), fun hover => hmore.ended (h.ended hover),
    fun hquiet => hmore.quiet (h.quiet hquiet)⟩

/-- A sound desk stays sound. -/
theorem IsSound.runs (h : before.IsSound root typed) (hruns : before.Runs root typed after) :
    after.IsSound root typed :=
  ⟨fun line hline => h.lines line (hruns.lines line hline), hruns.tracks⟩

/-- The steps of the handler before an operation of the worker. -/
theorem runs_advance (h : desk.Tracks root) : desk.Runs root typed desk.advance := by
  obtain ⟨⟨operations, hdoes, honly, -⟩, htyped, htracks, htaken, hsweeper, hended⟩ :=
    moves_advance h
  refine ⟨⟨operations, hdoes, honly.permitted⟩, fun line hline => htyped ▸ hline, htracks, htaken,
    hsweeper, hended, fun hquiet => ?_⟩
  rw [advance]
  split
  · exact hquiet
  · rename_i count pace hpace
    obtain ⟨hcount, hrest⟩ := List.forall_mem_cons.mp (hpace ▸ hquiet.2)
    rw [hcount, acts]
    exact ⟨hquiet.1, hrest⟩

/-- An operation of the stage that the program may do. -/
theorem runs_onStage {α : Type} {work : Play α} {operation : Operation} {result : α}
    {stage : Stage} (h : desk.Tracks root) (hwork : work desk.stage = (result, stage))
    (hdoes : desk.stage.Does [operation] stage) (hmay : Permitted root typed operation) :
    desk.Runs root typed (desk.onStage work).2 := by
  rw [onStage, hwork]
  refine ⟨⟨_, hdoes, List.forall_mem_singleton.mpr hmay⟩, fun _ => id, ?_, fun _ => id, id, id, id⟩
  obtain ⟨events, hhistory, -⟩ := hdoes
  show Handler.Tracks root _ _ stage.history
  rw [hhistory]
  exact Handler.Tracks.append h events

end Desk

/-! ## Computations at a desk -/

section

variable {root : Path} {typed : List Bytes} {α β : Type}

/-- Whether a computation does what it may while the given lines are typed, and gives a result with
a property. -/
def Keeps (root : Path) (typed : List Bytes) (work : DeskM α) (gives : α → Prop) : Prop :=
  ∀ desk : Desk, desk.IsSound root typed →
    desk.Runs root typed (work desk).2 ∧ gives (work desk).1

variable {gives : α → Prop} {leads : β → Prop}

/-- A result alone does nothing. -/
theorem keeps_pure {a : α} (h : gives a) : Keeps root typed (pure a) gives :=
  fun _ hsound => ⟨.refl hsound.tracks, h⟩

/-- Computations that keep to what is permitted do so in turn. -/
theorem Keeps.bind {first : DeskM α} {next : α → DeskM β} (h : Keeps root typed first gives)
    (hnext : ∀ a, gives a → Keeps root typed (next a) leads) :
    Keeps root typed (first >>= next) leads := by
  intro desk hsound
  obtain ⟨hruns, hgives⟩ := h desk hsound
  -- the second computation starts at a desk that is still sound
  obtain ⟨hmore, hleads⟩ := hnext _ hgives (first desk).2 (hsound.runs hruns)
  exact ⟨hruns.trans hmore, hleads⟩

/-- An operation of the stage that the worker may do, whatever its outcome. -/
theorem keeps_perform {work : Play α} {record : α → Operation}
    (hwork : ∀ stage, ∃ result after, work stage = (result, after) ∧
      stage.Does [record result] after)
    (hmay : ∀ result, Permitted root typed (record result)) :
    Keeps root typed (Desk.perform work) fun _ => True := by
  intro desk hsound
  have hready : desk.Runs root typed desk.advance := Desk.runs_advance hsound.tracks
  refine ⟨?_, trivial⟩
  rw [Desk.perform]
  -- the handler comes first, and may have ended the process
  split
  · exact hready
  · obtain ⟨result, after, hresult, hdoes⟩ := hwork desk.advance.stage
    exact hready.trans (Desk.runs_onStage hready.tracks hresult hdoes (hmay result))

/-- A look for a file is permitted everywhere. -/
theorem keeps_kind? (path : Path) :
    Keeps root typed (Host.kind? path : DeskM (Option Kind)) fun _ => True := by
  have hlook (stage : Stage) : ∃ result after, (Host.kind? path : Play (Option Kind)) stage =
      (result, after) ∧ stage.Does [.looked path result] after :=
    ⟨_, _, rfl, stage.does_look path⟩
  exact keeps_perform hlook fun _ => .looks rfl

/-- So is reading a file. -/
theorem keeps_read (path : Path) :
    Keeps root typed (Host.read path : DeskM (Except DiskFault Bytes)) fun _ => True :=
  keeps_perform (fun stage => Play.read_does stage path) fun _ => .looks rfl

/-- Writing is permitted if that file with that content is. -/
theorem keeps_write {path : Path} {content : Bytes}
    (h : ∀ result, Permitted root typed (.wrote path content result)) :
    Keeps root typed (Host.write path content : DeskM (Except DiskFault Unit)) fun _ => True :=
  keeps_perform (fun stage => Play.write_does stage path content) h

/-- The program may create its root. -/
theorem keeps_makeDirectories :
    Keeps root typed (Host.makeDirectories root : DeskM (Except DiskFault Unit)) fun _ => True :=
  keeps_perform (fun stage => Play.makeDirectories_does stage root) .makes

/-- It may list any directory. -/
theorem keeps_fileNames (path : Path) :
    Keeps root typed (Host.fileNames path : DeskM (Except DiskFault (List String)))
      fun _ => True :=
  keeps_perform (fun stage => Play.fileNames_lists stage path) fun _ => .looks rfl

/-- It may search any directory. -/
theorem keeps_filesBelow (path : Path) :
    Keeps root typed (Host.filesBelow path : DeskM (List Path)) fun _ => True :=
  keeps_perform (fun stage => ⟨_, _, rfl, Stage.does_perform (Scene.view (·.filesBelow path))
    (.searched path) (fun _ => rfl) stage⟩) fun _ => .looks rfl

/-- It may delete exchange files. -/
theorem keeps_removeFile {name : String} (hname : isExchangeName name = true) :
    Keeps root typed (Host.removeFile (root.join name) : DeskM (Except DiskFault Unit))
      fun _ => True :=
  keeps_perform (fun stage => Play.removeFile_does stage (root.join name)) (.deletes · hname)

/-- It may ask for the flag. -/
theorem keeps_isCancelled : Keeps root typed (Host.isCancelled : DeskM Bool) fun _ => True :=
  keeps_perform Play.isCancelled_does fun _ => .looks rfl

/-- It may wait, by induction on the looks and checks of the wait. -/
theorem keeps_await (path : Path) (pollMs : ℕ) :
    Keeps root typed (Host.await path pollMs : DeskM Wait) fun _ => True := by
  intro desk hsound
  refine ⟨?_, trivial⟩
  show desk.Runs root typed (desk.await path).2
  -- whatever the look and the check find, they have been done
  have hlook {desk : Desk} (hsound : desk.IsSound root typed) :
      desk.Runs root typed (desk.perform (Stage.look path)).2 :=
    (keeps_kind? path desk hsound).1
  have hcheck {desk : Desk} (hsound : desk.IsSound root typed) :
      desk.Runs root typed ((desk.perform (Stage.look path)).2.perform Stage.check).2 :=
    (hlook hsound).trans (keeps_isCancelled _ (hsound.runs (hlook hsound))).1
  induction desk using Desk.await.induct path with
  | case1 desk seen hover =>
    rw [Desk.await, dif_pos hover]
    exact hlook hsound
  | case2 desk seen hover hfound =>
    rw [Desk.await, dif_neg hover, if_pos hfound]
    exact hlook hsound
  | case3 desk seen hover hfound checked hended =>
    rw [Desk.await, dif_neg hover, if_neg hfound, if_pos hended]
    exact hcheck hsound
  | case4 desk seen hover hfound checked hended hup =>
    rw [Desk.await, dif_neg hover, if_neg hfound, if_neg hended, if_pos hup]
    exact hcheck hsound
  | case5 desk seen hover hfound checked hended hup hwait =>
    rw [Desk.await, dif_neg hover, if_neg hfound, if_neg hended, if_neg hup, dif_pos hwait]
    exact hcheck hsound
  | case6 desk seen hover hfound checked hended hup hwait _ ih =>
    rw [Desk.await, dif_neg hover, if_neg hfound, if_neg hended, if_neg hup, dif_neg hwait]
    exact (hcheck hsound).trans (ih (hsound.runs (hcheck hsound)))

/-- What is typed is one of the lines. -/
theorem keeps_readLine :
    Keeps root typed (Host.readLine : DeskM Bytes) fun line => line = [] ∨ line ∈ typed := by
  intro desk hsound
  have hready : desk.Runs root typed desk.advance := Desk.runs_advance hsound.tracks
  show desk.Runs root typed desk.readLine.2 ∧ (desk.readLine.1 = [] ∨ desk.readLine.1 ∈ typed)
  rw [Desk.readLine]
  split
  · exact ⟨hready, .inl rfl⟩
  · rename_i line rest htyped
    have hlines : ∀ other ∈ line :: rest, other ∈ desk.typed := htyped ▸ hready.lines
    refine ⟨hready.trans ⟨.refl _, ?_, hready.tracks, fun _ => id, id, id,
      id⟩,
      .inr (hsound.lines line (hlines line List.mem_cons_self))⟩
    rw [htyped]
    exact fun other => List.mem_cons_of_mem line

/-- Waiting for signals does nothing yet. -/
theorem keeps_watchSignals :
    Keeps root typed (Host.watchSignals root : DeskM Unit) fun _ => True := by
  intro desk hsound
  refine ⟨?_, trivial⟩
  show desk.Runs root typed (desk.watch root)
  obtain ⟨stage, lines, pace, handler, sweeper⟩ := desk
  have htracks := hsound.tracks
  cases handler with
  | absent =>
    obtain ⟨h⟩ := htracks
    exact ⟨.refl _, fun _ => id, .watching h, fun _ => id, id, nofun,
      fun hquiet => ⟨rfl, hquiet.2⟩⟩
  | _ => exact .refl htracks

/-- It may show what it likes. -/
theorem keeps_print (text : String) :
    Keeps root typed (Host.print text : DeskM Unit) fun _ => True :=
  keeps_pure trivial

end

/-! ## Computations that may halt -/

section

variable {root : Path} {typed : List Bytes} {σ α β : Type} {holds : σ → Prop} {gives : α → Prop}
  {leads : β → Prop}

/-- Whether a computation keeps a property of its state, too, and what it gives has a property
unless it halts. -/
def KeepsIn (root : Path) (typed : List Bytes) (holds : σ → Prop)
    (work : ExceptT Halt (StateT σ DeskM) α) (gives : α → Prop) : Prop :=
  ∀ state, holds state → Keeps root typed (work state : DeskM (Except Halt α × σ)) fun result =>
    holds result.2 ∧ ∀ a, result.1 = .ok a → gives a

/-- A result leaves the state as it is. -/
theorem keepsIn_pure {a : α} (h : gives a) : KeepsIn root typed holds (pure a) gives := by
  intro state hstate
  refine keeps_pure ⟨hstate, fun b hb => ?_⟩
  cases hb
  exact h

/-- So does a halt. -/
theorem keepsIn_throw (halt : Halt) : KeepsIn root typed holds (throw halt) gives := by
  intro state hstate
  exact keeps_pure ⟨hstate, fun a ha => by cases ha⟩

/-- So does a result that is taken over. -/
theorem keepsIn_ofExcept {result : Except Halt α} (h : ∀ a, result = .ok a → gives a) :
    KeepsIn root typed holds (ofExcept result) gives := by
  cases result with
  | error halt => exact keepsIn_throw halt
  | ok a => exact keepsIn_pure (h a rfl)

/-- Computations with a state keep to what is permitted in turn. -/
theorem KeepsIn.bind {first : ExceptT Halt (StateT σ DeskM) α}
    {next : α → ExceptT Halt (StateT σ DeskM) β} (h : KeepsIn root typed holds first gives)
    (hnext : ∀ a, gives a → KeepsIn root typed holds (next a) leads) :
    KeepsIn root typed holds (first >>= next) leads := by
  intro state hstate desk hsound
  obtain ⟨hruns, hstate', hgives⟩ := h state hstate desk hsound
  rcases hfirst : first state desk with ⟨⟨halt | a, state'⟩, desk'⟩
  · rw [hfirst] at hruns hstate'
    have hhalts : (first >>= next) state desk = ((.error halt, state'), desk') := bind_error hfirst
    rw [hhalts]
    exact ⟨hruns, hstate', fun b hb => by cases hb⟩
  · rw [hfirst] at hruns hstate' hgives
    have hgoes : (first >>= next) state desk = next a state' desk' := bind_ok hfirst
    rw [hgoes]
    obtain ⟨hmore, hlast⟩ := hnext a (hgives a rfl) state' hstate' desk' (hsound.runs hruns)
    exact ⟨hruns.trans hmore, hlast⟩

/-- What stands behind a halt is never done. -/
theorem keepsIn_throw_bind (halt : Halt) (next : α → ExceptT Halt (StateT σ DeskM) β) :
    KeepsIn root typed holds (throw halt >>= next) leads :=
  (keepsIn_throw halt : KeepsIn root typed holds _ fun _ => False).bind fun _ hnever => hnever.elim

/-- A result or a halt without more ado. -/
theorem keepsIn_result (result : Except Halt α) :
    KeepsIn root typed holds (ofExcept result) fun _ => True :=
  keepsIn_ofExcept fun _ _ => trivial

/-- An operation of the host leaves the state as it is. -/
theorem keepsIn_lift {work : DeskM α} (h : Keeps root typed work gives) :
    KeepsIn root typed holds (liftM work) gives := by
  intro state hstate desk hsound
  obtain ⟨hruns, hgives⟩ := h desk hsound
  refine ⟨hruns, hstate, fun a ha => ?_⟩
  cases ha
  exact hgives

/-- The state that is read is the one that has been kept. -/
theorem keepsIn_get : KeepsIn root typed holds (get : ExceptT Halt (StateT σ DeskM) σ) holds := by
  intro state hstate
  refine keeps_pure ⟨hstate, fun a ha => ?_⟩
  cases ha
  exact hstate

/-- A state may be set that fulfils what is kept. -/
theorem keepsIn_set {state : σ} (h : holds state) :
    KeepsIn root typed holds (set state : ExceptT Halt (StateT σ DeskM) PUnit) fun _ => True :=
  fun _ _ => keeps_pure ⟨h, fun _ _ => trivial⟩

/-- The state may be changed in a way that keeps this. -/
theorem keepsIn_modify {change : σ → σ} (h : ∀ state, holds state → holds (change state)) :
    KeepsIn root typed holds (modify change : ExceptT Halt (StateT σ DeskM) PUnit)
      fun _ => True :=
  fun state hstate => keeps_pure ⟨h state hstate, fun _ _ => trivial⟩

/-- Trying a computation gives its result or its halt. -/
theorem keepsIn_observing {work : ExceptT Halt (StateT σ DeskM) α}
    (h : KeepsIn root typed holds work gives) :
    KeepsIn root typed holds (observing work) fun outcome => ∀ a, outcome = .ok a → gives a := by
  intro state hstate desk hsound
  obtain ⟨hruns, hstate', hgives⟩ := h state hstate desk hsound
  have htries : (observing work) state desk =
      ((.ok (work state desk).1.1, (work state desk).1.2), (work state desk).2) :=
    observing_apply rfl
  rw [htries]
  refine ⟨hruns, hstate', fun outcome houtcome => ?_⟩
  cases houtcome
  exact hgives

end

end ScriptMailbox
