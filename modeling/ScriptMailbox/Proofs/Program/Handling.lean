import ScriptMailbox.Desk
import ScriptMailbox.Proofs.Mailbox.Exits

/-!
# The handler of termination signals

The handler and the worker share one stage, and whoever comes first takes on the last sweep. What
the handler is at agrees with the record of the stage (`Handler.Tracks`): once it has listed the
mailbox, every exchange file that it has found is yet to delete, or its deletion has been tried. A
step of the handler keeps that, and so does all that anybody else does. Left alone with the last
sweep, the handler makes the same of a stage as a sweep in one piece (`Desk.acts_sweeping`).
-/

namespace ScriptMailbox

open Mailbox

variable {root : Path} {name : String} {left names : List String} {history events : List Event}

/-! ## What has been listed -/

/-- Whether the mailbox has been listed, and the deletion of every exchange file that was found has
been tried since, apart from some that are left. -/
def HasListed (root : Path) (left : List String) (history : List Event) : Prop :=
  ∃ earlier found later, history = earlier ++ .own (.listed root found) :: later ∧
    ∀ name ∈ exchangeNames found, name ∈ left ∨
      ∃ result, .own (.removed (root.join name) result) ∈ later

/-- What has been done stays done. -/
theorem HasListed.append (h : HasListed root left history) (events : List Event) :
    HasListed root left (history ++ events) := by
  obtain ⟨earlier, found, later, rfl, htried⟩ := h
  refine ⟨earlier, found, later ++ events, by simp, fun name hname => ?_⟩
  exact (htried name hname).imp_right fun ⟨result, hmem⟩ =>
    ⟨result, List.mem_append_left events hmem⟩

/-- Nothing has been tried when the mailbox has just been listed. -/
theorem hasListed_listed {found : Except DiskFault (List String)}
    (hmem : .own (.listed root found) ∈ events) :
    HasListed root (exchangeNames found) (history ++ events) := by
  obtain ⟨early, late, rfl⟩ := List.append_of_mem hmem
  exact ⟨history ++ early, found, late, by simp, fun name hname => .inl hname⟩

/-- One more deletion has been tried. -/
theorem HasListed.removed {result : Except DiskFault Unit}
    (h : HasListed root (name :: names) history)
    (hmem : .own (.removed (root.join name) result) ∈ events) :
    HasListed root names (history ++ events) := by
  obtain ⟨earlier, found, later, rfl, htried⟩ := h
  refine ⟨earlier, found, later ++ events, by simp, fun other hother => ?_⟩
  rcases htried other hother with hleft | ⟨result', hdone⟩
  · rcases List.mem_cons.mp hleft with rfl | hleft
    · exact .inr ⟨result, List.mem_append_right later hmem⟩
    · exact .inl hleft
  · exact .inr ⟨result', List.mem_append_left events hdone⟩

/-- A sweep acts on exchange files alone. -/
theorem isExchangeName_of_mem {found : Except DiskFault (List String)}
    (h : name ∈ exchangeNames found) : isExchangeName name = true := by
  cases found with
  | error fault => cases h
  | ok names => exact (List.mem_filter.mp h).2

/-! ## What the handler is at -/

namespace Handler

/-- Whether what the handler is at agrees with who has taken on the last sweep, and with what has
happened. -/
inductive Tracks (root : Path) : Handler → Option Thread → List Event → Prop
  | absent {sweeper : Option Thread} {history : List Event} (h : sweeper ≠ some .handler) :
    Tracks root .absent sweeper history
  | watching {sweeper : Option Thread} {history : List Event} (h : sweeper ≠ some .handler) :
    Tracks root (.watching root) sweeper history
  | raised {sweeper : Option Thread} {history : List Event} (h : sweeper ≠ some .handler) :
    Tracks root (.raised root) sweeper history
  | sweeping {history : List Event} : Tracks root (.sweeping root) (some .handler) history
  | deleting {names : List String} {history : List Event}
    (hnames : ∀ name ∈ names, isExchangeName name = true) (h : HasListed root names history) :
    Tracks root (.deleting root names) (some .handler) history
  /-- The worker has taken on the last sweep. -/
  | idle {history : List Event} : Tracks root (.deleting root []) (some .worker) history
  | exited {history : List Event} (h : HasListed root [] history) :
    Tracks root .exited (some .handler) history
  /-- The process has ended while the last sweep was up to the worker. -/
  | cut {history : List Event} : Tracks root .exited (some .worker) history

variable {handler : Handler} {sweeper : Option Thread}

/-- What happens besides does not matter. -/
theorem Tracks.append (h : Tracks root handler sweeper history) (events : List Event) :
    Tracks root handler sweeper (history ++ events) := by
  cases h with
  | absent h => exact .absent h
  | watching h => exact .watching h
  | raised h => exact .raised h
  | sweeping => exact .sweeping
  | deleting hnames h => exact .deleting hnames (h.append events)
  | idle => exact .idle
  | exited h => exact .exited (h.append events)
  | cut => exact .cut

/-- Whether no signal has come. -/
def isQuiet : Handler → Bool
  | absent | watching _ => true
  | _ => false

/-- Whether the handler has listing or deleting to do. -/
def isBusy : Handler → Bool
  | sweeping _ | deleting _ (_ :: _) => true
  | _ => false

/-- A handler that has nothing to do any more has tried all deletions, if the last sweep was up to
it. -/
theorem Tracks.hasListed (h : Tracks root handler (some .handler) history)
    (hbusy : handler.isBusy = false) : HasListed root [] history := by
  cases h with
  | absent h => exact absurd rfl h
  | watching h => exact absurd rfl h
  | raised h => exact absurd rfl h
  | sweeping => cases hbusy
  | @deleting names _ hnames h =>
    cases names with
    | nil => exact h
    | cons name names => cases hbusy
  | exited h => exact h

end Handler

/-- An operation that has been done is among the events. -/
theorem mem_of_own_eq_singleton {operation : Operation} (h : own events = [operation]) :
    .own operation ∈ events :=
  mem_own_iff.mp (h ▸ List.mem_singleton_self operation)

/-- Listing is one operation, whatever its outcome. -/
theorem Play.fileNames_lists (stage : Stage) (path : Path) :
    ∃ result after, (Host.fileNames path : Play (Except DiskFault (List String))) stage =
      (result, after) ∧ stage.Does [.listed path result] after := by
  obtain ⟨result, after, hresult, hdoes, -⟩ := fileNames_does stage path
  exact ⟨result, after, hresult, hdoes⟩

/-! ## Steps of the handler -/

/-- Whether some operations look at the files or try to delete exchange files, and do nothing
else. -/
def OnlyDelete (root : Path) (operations : List Operation) : Prop :=
  ∀ operation ∈ operations, operation.isChange = false ∨
    ∃ name, isExchangeName name = true ∧ ∃ result, operation = .removed (root.join name) result

namespace Desk

variable {desk before between after : Desk}

/-- Whether what the handler is at agrees with the rest of the desk. -/
def Tracks (root : Path) (desk : Desk) : Prop :=
  desk.handler.Tracks root desk.sweeper desk.stage.history

/-- The handler lists the mailbox. -/
theorem act_sweeping {stage listed : Stage} {typed : List Bytes} {pace : List ℕ}
    {sweeper : Option Thread} {found : Except DiskFault (List String)}
    (h : (Host.fileNames root : Play _) stage = (found, listed)) :
    act ⟨stage, typed, pace, .sweeping root, sweeper⟩ =
      ⟨listed, typed, pace, .deleting root (exchangeNames found), sweeper⟩ := by
  rw [act]
  dsimp only
  rw [h]

/-- The handler deletes a file. -/
theorem act_deleting {stage removed : Stage} {typed : List Bytes} {pace : List ℕ}
    {sweeper : Option Thread} {result : Except DiskFault Unit}
    (h : (Host.removeFile (root.join name) : Play _) stage = (result, removed)) :
    act ⟨stage, typed, pace, .deleting root (name :: names), sweeper⟩ =
      ⟨removed, typed, pace, .deleting root names, sweeper⟩ := by
  rw [act]
  dsimp only
  rw [h]

/-- What the handler may make of a desk. It leaves the files alone if the last sweep is up to the
worker. -/
structure Moves (root : Path) (before after : Desk) : Prop where
  does : ∃ operations, before.stage.Does operations after.stage ∧ OnlyDelete root operations ∧
    (before.sweeper = some .worker → operations = [])
  typed : after.typed = before.typed
  tracks : after.Tracks root
  taken : ∀ thread, before.sweeper = some thread → after.sweeper = some thread
  sweeper : after.sweeper = some .worker → before.sweeper = some .worker
  ended : before.isOver = true → after.isOver = true

/-- No step is a move. -/
theorem Moves.refl (h : desk.Tracks root) : desk.Moves root desk :=
  ⟨⟨[], .refl desk.stage, List.forall_mem_nil _, fun _ => rfl⟩, rfl, h, fun _ => id, id, id⟩

/-- One move after the other is a move. -/
theorem Moves.trans (h : before.Moves root between) (hmore : between.Moves root after) :
    before.Moves root after := by
  obtain ⟨operations, hdoes, honly, hquiet⟩ := h.does
  obtain ⟨more, hdoes', honly', hquiet'⟩ := hmore.does
  refine ⟨⟨operations ++ more, hdoes.trans hdoes', List.forall_mem_append.mpr ⟨honly, honly'⟩,
    fun hworker => ?_⟩, hmore.typed.trans h.typed, hmore.tracks,
    fun thread htaken => hmore.taken thread (h.taken thread htaken),
    fun hworker => h.sweeper (hmore.sweeper hworker), fun hover => hmore.ended (h.ended hover)⟩
  rw [hquiet hworker, hquiet' (h.taken .worker hworker), List.append_nil]

/-- One step of the handler. -/
theorem moves_act (h : desk.Tracks root) : desk.Moves root desk.act := by
  obtain ⟨stage, typed, pace, handler, sweeper⟩ := desk
  have hhere : (⟨stage, typed, pace, handler, sweeper⟩ : Desk).stage.Does [] stage := .refl stage
  -- one case for each state of the handler that agrees with the rest of the desk
  cases h with
  | absent h => exact .refl (.absent h)
  | watching h =>
    exact ⟨⟨[], stage.does_step _, List.forall_mem_nil _, fun _ => rfl⟩, rfl, .raised h,
      fun _ => id, id, nofun⟩
  | raised h =>
    rcases sweeper with _ | _ | _
    · exact ⟨⟨[], hhere, List.forall_mem_nil _, fun _ => rfl⟩, rfl, .sweeping, nofun,
        nofun, nofun⟩
    · exact ⟨⟨[], hhere, List.forall_mem_nil _, fun _ => rfl⟩, rfl, .idle, fun _ => id,
        id, nofun⟩
    · exact absurd rfl h
  | sweeping =>
    obtain ⟨found, listed, hlist, hdoes⟩ := Play.fileNames_lists stage root
    rw [act_sweeping hlist]
    refine ⟨⟨_, hdoes, List.forall_mem_singleton.mpr (.inl rfl), nofun⟩, rfl, ?_, fun _ => id,
      nofun, nofun⟩
    obtain ⟨events, hhistory, -, hown⟩ := hdoes
    show Handler.Tracks root _ _ listed.history
    rw [hhistory]
    exact .deleting (fun name => isExchangeName_of_mem)
      (hasListed_listed (mem_of_own_eq_singleton hown))
  | @deleting names _ hnames h =>
    cases names with
    | nil =>
      exact ⟨⟨[], hhere, List.forall_mem_nil _, fun _ => rfl⟩, rfl, .exited h,
        fun _ => id, nofun, nofun⟩
    | cons name names =>
      obtain ⟨result, removed, hremove, hdoes⟩ := Play.removeFile_does stage (root.join name)
      obtain ⟨hname, hrest⟩ := List.forall_mem_cons.mp hnames
      rw [act_deleting hremove]
      refine ⟨⟨_, hdoes, List.forall_mem_singleton.mpr (.inr ⟨name, hname, result, rfl⟩), nofun⟩,
        rfl, ?_, fun _ => id, nofun, nofun⟩
      obtain ⟨events, hhistory, -, hown⟩ := hdoes
      show Handler.Tracks root _ _ removed.history
      rw [hhistory]
      exact .deleting hrest (h.removed (mem_of_own_eq_singleton hown))
  | idle => exact ⟨⟨[], hhere, List.forall_mem_nil _, fun _ => rfl⟩, rfl, .cut, fun _ => id, id,
      nofun⟩
  | exited h => exact .refl (.exited h)
  | cut => exact .refl .cut

/-- Any number of steps of the handler. -/
theorem moves_acts (h : desk.Tracks root) (count : ℕ) : desk.Moves root (desk.acts count) := by
  induction count generalizing desk with
  | zero => exact .refl h
  | succ count ih => exact (moves_act h).trans (ih (moves_act h).tracks)

/-- What the handler does before an operation of the worker. -/
theorem moves_advance (h : desk.Tracks root) : desk.Moves root desk.advance := by
  rw [advance]
  split
  · exact .refl h
  · rename_i count pace _
    have htracks : ({ desk with pace := pace } : Desk).Tracks root := h
    obtain ⟨hdoes, htyped, htracks, htaken, hsweeper, hover⟩ := moves_acts htracks count
    exact ⟨hdoes, htyped, htracks, htaken, hsweeper, hover⟩

/-- What the worker does after it has taken on the last sweep, in a process that goes on. -/
theorem perform_does {α : Type} {work : Play α} {record : α → Operation}
    (hwork : ∀ stage, ∃ result after, work stage = (result, after) ∧
      stage.Does [record result] after)
    (htracks : desk.Tracks root) (hworker : desk.sweeper = some .worker)
    (hover : (desk.perform work).2.isOver = false) :
    desk.stage.Does [record (desk.perform work).1] (desk.perform work).2.stage := by
  obtain ⟨operations, hquiet, -, hnil⟩ := (moves_advance htracks).does
  rw [hnil hworker] at hquiet
  rw [perform] at hover ⊢
  split at hover
  · rename_i hready
    rw [hready] at hover
    cases hover
  · rename_i hready
    obtain ⟨result, after, hresult, hdoes⟩ := hwork desk.advance.stage
    rw [if_neg hready, onStage, hresult]
    exact hquiet.trans hdoes

/-! ## A handler that is left alone -/

section

variable (typed : List Bytes) (pace : List ℕ) (sweeper : Option Thread)

/-- What the handler has yet to delete it deletes one file after the other, and then it ends the
process. -/
theorem acts_deleting (root : Path) (names : List String) (stage : Stage) :
    acts (names.length + 1) ⟨stage, typed, pace, .deleting root names, sweeper⟩ =
      ⟨((removeAll root names : Play SweepReport) stage).2, typed, pace, .exited, sweeper⟩ := by
  induction names generalizing stage with
  | nil => rfl
  | cons name names ih =>
    obtain ⟨result, removed, hremove, -⟩ := Play.removeFile_does stage (root.join name)
    rw [List.length_cons, acts, act_deleting hremove, ih, removeAll, host_bind hremove]
    rfl

/-- Left alone with the last sweep, the handler makes the same of the stage as a sweep in one piece,
and then ends the process. -/
theorem acts_sweeping (root : Path) (stage : Stage) :
    ∃ count, acts count ⟨stage, typed, pace, .sweeping root, sweeper⟩ =
      ⟨((sweep root : Play SweepReport) stage).2, typed, pace, .exited, sweeper⟩ := by
  obtain ⟨found, listed, hlist, -⟩ := Play.fileNames_lists stage root
  refine ⟨(exchangeNames found).length + 1 + 1, ?_⟩
  rw [acts, act_sweeping hlist, acts_deleting, sweep, host_bind hlist]
  rcases found with fault | names
  · cases fault <;> rfl
  · rfl

end

end Desk

end ScriptMailbox
