import ScriptMailbox.Proofs.Computations
import ScriptMailbox.Stage
import Mathlib.Data.List.Basic

/-!
# Transcripts

Whatever others do, a run is made of events, each of which turns the scene before it into the scene
after it. What the program does among these events is determined by its own text and by the outcomes
that it gets, so it is stated as a list of operations; others act between them as they like.
-/

namespace ScriptMailbox

deriving instance DecidableEq for Operation, Event

/-- Whether an operation turns one scene into another, with the outcome that it has. -/
def Operation.Turns (before after : Scene) : Operation → Prop
  | .checked up => (before.cancelled, before) = (up, after)
  | .looked path found => before.view (·.kind? path) = (found, after)
  | .opened path result => before.view (·.read path) = (result, after)
  | .listed path result =>
    ∃ listing : Listing, before.view (listing.names path) = (result, after)
  | .searched path found => before.view (·.filesBelow path) = (found, after)
  | .made path result => before.makeDirectories path = (result, after)
  | .wrote path content result => before.change (·.write path content) = (result, after)
  | .removed path result => before.change (·.removeFile path) = (result, after)

/-- Whether an event turns one scene into another. -/
def Event.Turns (before after : Scene) : Event → Prop
  | .own operation => operation.Turns before after
  | .others left reached => before = left ∧ after = reached

/-- A change that succeeds changes the disk alone. -/
theorem Scene.change_eq_ok_iff {edit : Disk → Except DiskFault Disk} {before after : Scene} :
    before.change edit = (.ok (), after) ↔
      edit before.disk = .ok after.disk ∧ after.cancelled = before.cancelled := by
  rw [change]
  cases edit before.disk with
  | error fault => simp
  | ok disk =>
    cases after
    simp [eq_comm]

/-- A change that fails changes nothing. -/
theorem Scene.eq_of_change_error {edit : Disk → Except DiskFault Disk} {before after : Scene}
    {fault : DiskFault} (h : before.change edit = (.error fault, after)) : after = before := by
  rw [change] at h
  cases hedit : edit before.disk <;> rw [hedit] at h <;> cases h
  rfl

/-- What the program does among some events. -/
def own (events : List Event) : List Operation :=
  events.filterMap fun
    | .own operation => some operation
    | .others _ _ => none

/-- The program's own operation counts as one. -/
@[simp] theorem own_cons_own (operation : Operation) (events : List Event) :
    own (.own operation :: events) = operation :: own events := rfl

/-- What the program does among more events is what it does among either part. -/
@[simp] theorem own_append (events more : List Event) :
    own (events ++ more) = own events ++ own more :=
  List.filterMap_append

/-- The program does exactly the operations that are its own events. -/
theorem mem_own_iff {operation : Operation} {events : List Event} :
    operation ∈ own events ↔ .own operation ∈ events := by
  simp only [own, List.mem_filterMap]
  constructor
  · rintro ⟨event | event, hmem, heq⟩ <;> cases heq
    exact hmem
  · intro hmem
    exact ⟨_, hmem, rfl⟩

/-- What the program does at some point splits the events there. -/
theorem own_eq_append_cons {events : List Event} {early late : List Operation}
    {operation : Operation} (h : own events = early ++ operation :: late) :
    ∃ before after, events = before ++ .own operation :: after ∧ own before = early ∧
      own after = late := by
  obtain ⟨before, rest, rfl, hbefore, hrest⟩ := List.filterMap_eq_append_iff.mp h
  obtain ⟨between, event, after, rfl, hbetween, hevent, hafter⟩ :=
    List.filterMap_eq_cons_iff.mp hrest
  obtain rfl : event = .own operation := by
    cases event <;> cases hevent
    rfl
  refine ⟨before ++ between, after, by rw [List.append_assoc], ?_, hafter⟩
  rw [own_append, ← hbefore, own, own, List.filterMap_eq_nil_iff.mpr hbetween, List.append_nil]

/-- Whether others keep to a rule in whatever they do. -/
def Obeys (rule : Scene → Scene → Prop) (events : List Event) : Prop :=
  ∀ before after, .others before after ∈ events → rule before after

section

variable {rule : Scene → Scene → Prop} {event : Event} {events more : List Event}

/-- Others who keep to a rule do so at first. -/
theorem Obeys.of_append_left (h : Obeys rule (events ++ more)) : Obeys rule events :=
  fun before after hmem => h before after (List.mem_append_left _ hmem)

/-- They do so at last. -/
theorem Obeys.of_append_right (h : Obeys rule (events ++ more)) : Obeys rule more :=
  fun before after hmem => h before after (List.mem_append_right _ hmem)

/-- They do so behind the first event. -/
theorem Obeys.of_cons (h : Obeys rule (event :: events)) : Obeys rule events :=
  fun before after hmem => h before after (List.mem_cons_of_mem _ hmem)

end

/-! ## Events in order -/

namespace Scene

/-- Whether events turn one scene into another, one after the other. -/
inductive Becomes : Scene → List Event → Scene → Prop
  | nil (scene : Scene) : Becomes scene [] scene
  | cons {before between after : Scene} {event : Event} {events : List Event}
      (first : event.Turns before between) (rest : Becomes between events after) :
      Becomes before (event :: events) after

variable {before between after : Scene} {event : Event} {events more : List Event}

/-- One run after the other is a run. -/
theorem Becomes.append (h : before.Becomes events between) (hmore : between.Becomes more after) :
    before.Becomes (events ++ more) after := by
  induction h with
  | nil => exact hmore
  | cons first _ ih => exact .cons first (ih hmore)

/-- A run may be taken apart anywhere. -/
theorem Becomes.of_append (h : before.Becomes (events ++ more) after) :
    ∃ between, before.Becomes events between ∧ between.Becomes more after := by
  induction events generalizing before with
  | nil => exact ⟨before, .nil before, h⟩
  | cons event events ih =>
    cases h with
    | cons first rest =>
      obtain ⟨between, hevents, hmore⟩ := ih rest
      exact ⟨between, .cons first hevents, hmore⟩

/-- A run is split at an operation of the program. -/
theorem Becomes.split {early late : List Operation} {operation : Operation}
    (h : before.Becomes events after) (hown : own events = early ++ operation :: late) :
    ∃ first rest left right, events = first ++ .own operation :: rest ∧ own first = early ∧
      own rest = late ∧ before.Becomes first left ∧ operation.Turns left right ∧
      right.Becomes rest after := by
  obtain ⟨first, rest, rfl, hfirst, hrest⟩ := own_eq_append_cons hown
  obtain ⟨left, hleft, hright⟩ := h.of_append
  cases hright with
  | cons hturns hafter => exact ⟨first, rest, left, _, rfl, hfirst, hrest, hleft, hturns, hafter⟩

/-- One event is a run. -/
theorem becomes_singleton (h : event.Turns before after) : before.Becomes [event] after :=
  .cons h (.nil after)

/-- What every event keeps, a run keeps. -/
theorem Becomes.keeps (holds : Scene → Prop) (h : before.Becomes events after)
    (hkeeps : ∀ event ∈ events, ∀ before after, event.Turns before after → holds before →
      holds after)
    (hbefore : holds before) : holds after := by
  induction h with
  | nil => exact hbefore
  | cons first _ ih =>
    exact ih (fun event hmem => hkeeps event (List.mem_cons_of_mem _ hmem))
      (hkeeps _ List.mem_cons_self _ _ first hbefore)

end Scene

/-! ## What the program does -/

namespace Stage

/-- Whether the program does some operations between two stages. -/
def Does (before : Stage) (operations : List Operation) (after : Stage) : Prop :=
  ∃ events, after.history = before.history ++ events ∧
    before.scene.Becomes events after.scene ∧ own events = operations

variable {before between after : Stage} {operations more : List Operation}

/-- Where nothing has happened, the program has done nothing. -/
theorem Does.refl (stage : Stage) : stage.Does [] stage :=
  ⟨[], (List.append_nil _).symm, .nil stage.scene, rfl⟩

/-- What the program does twice in turn, it does as a whole. -/
theorem Does.trans (h : before.Does operations between) (hmore : between.Does more after) :
    before.Does (operations ++ more) after := by
  obtain ⟨events, hhistory, hbecomes, rfl⟩ := h
  obtain ⟨events', hhistory', hbecomes', rfl⟩ := hmore
  refine ⟨events ++ events', ?_, hbecomes.append hbecomes', own_append ..⟩
  rw [hhistory', hhistory, List.append_assoc]

/-- When others act, the program does nothing. -/
theorem does_step (stage : Stage) (scene : Scene) : stage.Does [] (stage.step scene) :=
  ⟨[.others stage.scene scene], rfl, .cons ⟨rfl, rfl⟩ (.nil scene), rfl⟩

/-- It does nothing in a whole moment of others, either. -/
theorem does_foldl_step (moment : List Scene) (stage : Stage) :
    stage.Does [] (moment.foldl step stage) := by
  induction moment generalizing stage with
  | nil => exact Does.refl stage
  | cons scene moment ih => exact (stage.does_step scene).trans (ih (stage.step scene))

/-- It does nothing while a moment passes. -/
theorem does_pass (stage : Stage) : stage.Does [] stage.pass := by
  rw [pass]
  split
  · exact Does.refl stage
  · rename_i moment future hfuture
    exact does_foldl_step moment { stage with future := future }

/-- An operation is done with the outcome that it has. -/
theorem does_perform {α : Type} (operation : Scene → α × Scene) (record : α → Operation)
    (hturns : ∀ before, (record (operation before).1).Turns before (operation before).2)
    (stage : Stage) :
    stage.Does [record (stage.perform operation record).1] (stage.perform operation record).2 :=
  stage.does_pass.trans
    ⟨[.own (record (stage.perform operation record).1)], rfl,
      Scene.becomes_singleton (hturns stage.pass.scene), rfl⟩

/-- A check of the flag is one operation. -/
theorem does_check (stage : Stage) : stage.Does [.checked stage.check.1] stage.check.2 :=
  does_perform (fun scene => (scene.cancelled, scene)) .checked (fun _ => rfl) stage

/-- So is a look for a file. -/
theorem does_look (path : Path) (stage : Stage) :
    stage.Does [.looked path (stage.look path).1] (stage.look path).2 :=
  does_perform (Scene.view (·.kind? path)) (.looked path) (fun _ => rfl) stage

/-! ## Waiting -/

/-- Looks in vain. -/
def polls (path : Path) : ℕ → List Operation
  | 0 => []
  | tries + 1 => .looked path none :: .checked false :: polls path tries

/-- Where others will do nothing more, time passes without any change. -/
theorem pass_of_future_nil {stage : Stage} (h : stage.future = []) : stage.pass = stage := by
  rw [pass, h]

/-- When others have done all that they will do, two looks see the scene as it stays. -/
theorem look_check_of_future_nil (path : Path) {stage : Stage} (h : stage.future = []) :
    (stage.look path).1 = stage.scene.disk.kind? path ∧
      (stage.look path).2.check.1 = stage.scene.cancelled ∧
      (stage.look path).2.check.2.scene = stage.scene := by
  have hlooked : (stage.look path).2.future = [] := by rw [look, future_perform, h, List.tail_nil]
  have hscene : (stage.look path).2.scene = stage.pass.scene := rfl
  have hfound : (stage.look path).1 = stage.pass.scene.disk.kind? path := rfl
  have hup : (stage.look path).2.check.1 = (stage.look path).2.pass.scene.cancelled := rfl
  have hafter : (stage.look path).2.check.2.scene = (stage.look path).2.pass.scene := rfl
  rw [pass_of_future_nil h] at hfound hscene
  rw [pass_of_future_nil hlooked, hscene] at hup hafter
  exact ⟨hfound, hup, hafter⟩

/-- How a wait ends: after some looks in vain the file is there, or the flag is up while the file
is not there, or nothing will ever end the wait. -/
theorem await_cases (path : Path) (stage : Stage) :
    ∃ tries,
      (stage.await path).1 = .arrived ∧
          (∃ kind, stage.Does (polls path tries ++ [.looked path (some kind)])
            (stage.await path).2) ∨
        (stage.await path).1 = .cancelled ∧
          stage.Does (polls path tries ++ [.looked path none, .checked true])
            (stage.await path).2 ∨
        (stage.await path).1 = .unanswered ∧
          stage.Does (polls path tries ++ [.looked path none, .checked false])
            (stage.await path).2 ∧
          (stage.await path).2.scene.disk.kind? path = none ∧
          (stage.await path).2.scene.cancelled = false := by
  -- on the rounds of the wait, which end as others have less and less to do
  induction stage using await.induct path with
  | case1 stage looked hfound =>
    obtain ⟨kind, hkind⟩ := Option.isSome_iff_exists.mp hfound
    have hlook := stage.does_look path
    rw [hkind] at hlook
    rw [await, if_pos hfound]
    exact ⟨0, .inl ⟨rfl, kind, hlook⟩⟩
  | case2 stage looked hfound checked hup =>
    have hlook := (stage.does_look path).trans (does_check (stage.look path).2)
    rw [Option.not_isSome_iff_eq_none.mp hfound, show (stage.look path).2.check.1 = true from hup]
      at hlook
    rw [await, if_neg hfound, if_pos hup]
    exact ⟨0, .inr (.inl ⟨rfl, hlook⟩)⟩
  | case3 stage looked hfound checked hup hfuture =>
    have hnone : (stage.look path).1 = none := Option.not_isSome_iff_eq_none.mp hfound
    have hdown : (stage.look path).2.check.1 = false := Bool.eq_false_iff.mpr hup
    have hlook := (stage.does_look path).trans (does_check (stage.look path).2)
    obtain ⟨hkind, hflag, hscene⟩ := look_check_of_future_nil path hfuture
    rw [hnone, hdown] at hlook
    rw [await, if_neg hfound, if_neg hup, dif_pos hfuture]
    refine ⟨0, .inr (.inr ⟨rfl, hlook, ?_, ?_⟩)⟩
    · exact (congrArg (·.disk.kind? path) hscene).trans (hkind.symm.trans hnone)
    · exact (congrArg (·.cancelled) hscene).trans (hflag.symm.trans hdown)
  | case4 stage looked hfound checked hup hfuture _ ih =>
    have hnone : (stage.look path).1 = none := Option.not_isSome_iff_eq_none.mp hfound
    have hdown : (stage.look path).2.check.1 = false := Bool.eq_false_iff.mpr hup
    have hlook := (stage.does_look path).trans (does_check (stage.look path).2)
    rw [hnone, hdown] at hlook
    rw [await, if_neg hfound, if_neg hup, dif_neg hfuture]
    obtain ⟨tries, ⟨hend, kind, hdoes⟩ | ⟨hend, hdoes⟩ | ⟨hend, hdoes, hlast⟩⟩ := ih
    · exact ⟨tries + 1, .inl ⟨hend, kind, hlook.trans hdoes⟩⟩
    · exact ⟨tries + 1, .inr (.inl ⟨hend, hlook.trans hdoes⟩)⟩
    · exact ⟨tries + 1, .inr (.inr ⟨hend, hlook.trans hdoes, hlast⟩)⟩

end Stage

/-! ## What the program asks of its host -/

namespace Play

variable (stage : Stage)

/-- Asking for the flag is one operation, with the outcome that it has. -/
theorem isCancelled_does :
    ∃ up after, (Host.isCancelled : Play Bool) stage = (up, after) ∧
      stage.Does [.checked up] after :=
  ⟨_, _, rfl, stage.does_check⟩

/-- Creating directories is one operation. -/
theorem makeDirectories_does (path : Path) :
    ∃ result after, (Host.makeDirectories path : Play _) stage = (result, after) ∧
      stage.Does [.made path result] after :=
  ⟨_, _, rfl, Stage.does_perform (Scene.makeDirectories path) (.made path) (fun _ => rfl) stage⟩

/-- Writing a file is one operation: others see all of it, or nothing. -/
theorem write_does (path : Path) (content : Bytes) :
    ∃ result after, (Host.write path content : Play _) stage = (result, after) ∧
      stage.Does [.wrote path content result] after :=
  ⟨_, _, rfl,
    Stage.does_perform (Scene.change (·.write path content)) (.wrote path content) (fun _ => rfl)
      stage⟩

/-- Reading a file is one operation. -/
theorem read_does (path : Path) :
    ∃ result after, (Host.read path : Play _) stage = (result, after) ∧
      stage.Does [.opened path result] after :=
  ⟨_, _, rfl, Stage.does_perform (Scene.view (·.read path)) (.opened path) (fun _ => rfl) stage⟩

/-- Listing the files of a directory is one operation, on a disk at that moment. -/
theorem fileNames_does (path : Path) :
    ∃ result after, (Host.fileNames path : Play _) stage = (result, after) ∧
      stage.Does [.listed path result] after ∧ ∃ disk, result = stage.listing.names path disk :=
  ⟨_, _, rfl,
    Stage.does_perform (Scene.view (stage.listing.names path)) (.listed path)
      (fun _ => ⟨stage.listing, rfl⟩) stage, _, rfl⟩

/-- Deleting a file is one operation. -/
theorem removeFile_does (path : Path) :
    ∃ result after, (Host.removeFile path : Play _) stage = (result, after) ∧
      stage.Does [.removed path result] after :=
  ⟨_, _, rfl,
    Stage.does_perform (Scene.change (·.removeFile path)) (.removed path) (fun _ => rfl) stage⟩

end Play

/-! ## Computations on a channel -/

namespace Channel

variable (channel : Channel) (payload : Payload) (stage : Stage)

/-- What the program does until a request is posted. -/
def posting (document : String) : List Operation :=
  [.checked false, .made channel.root (.ok ()),
    .wrote (channel.requestPath channel.index) (Text.Utf8.encode document) (.ok ())]

/-- Posting stops at the first thing that goes wrong. -/
theorem post_cases :
    ∃ result after, (post payload : ChannelM Play Unit) channel stage = ((result, channel), after) ∧
      ((∃ fault, Document.write payload = .error fault ∧
          result = .error (.failed (.ofPayloadFault fault)) ∧ stage.Does [] after) ∨
        ∃ document, Document.write payload = .ok document ∧
          (result = .error (.failed (.cancelled (channel.requestPath channel.index))) ∧
              stage.Does [.checked true] after ∨
            (∃ fault, result = .error (.failed (.io channel.root fault.message)) ∧
              stage.Does [.checked false, .made channel.root (.error fault)] after) ∨
            (∃ fault,
              result =
                .error (.failed (.io (channel.requestPath channel.index) fault.message)) ∧
              stage.Does
                [.checked false, .made channel.root (.ok ()),
                  .wrote (channel.requestPath channel.index) (Text.Utf8.encode document)
                    (.error fault)] after) ∨
            result = .ok () ∧ stage.Does (channel.posting document) after)) := by
  rw [post, bind_ok get_apply]
  dsimp only
  -- the steps in their order: the document, the flag, the root, the request; each may be the last
  cases hwrite : Document.write payload with
  | error fault =>
    rw [Except.mapError, bind_error (ofExcept_apply _)]
    exact ⟨_, stage, rfl, .inl ⟨fault, rfl, rfl, .refl stage⟩⟩
  | ok document =>
    rw [Except.mapError, bind_ok (ofExcept_apply _)]
    obtain ⟨up, checked, hchecked, hchecks⟩ := Play.isCancelled_does stage
    rw [lift_bind hchecked]
    cases up with
    | true =>
      rw [if_pos rfl]
      exact ⟨_, checked, rfl, .inr ⟨document, rfl, .inl ⟨rfl, hchecks⟩⟩⟩
    | false =>
      rw [if_neg Bool.false_ne_true]
      obtain ⟨result, made, hmade, hmakes⟩ := Play.makeDirectories_does checked channel.root
      rw [lift_bind hmade]
      rcases result with fault | ⟨⟩
      · rw [orFailed_error, bind_error (ofExcept_apply _)]
        exact ⟨_, made, rfl, .inr ⟨document, rfl, .inr (.inl ⟨fault, rfl, hchecks.trans hmakes⟩)⟩⟩
      · rw [orFailed_ok, bind_ok (ofExcept_apply _)]
        obtain ⟨result, wrote, hwrote, hwrites⟩ :=
          Play.write_does made (channel.requestPath channel.index) (Text.Utf8.encode document)
        have hdoes := (hchecks.trans hmakes).trans hwrites
        rw [lift_bind hwrote, ofExcept_apply]
        rcases result with fault | ⟨⟩
        · exact ⟨_, wrote, rfl, .inr ⟨document, rfl, .inr (.inr (.inl ⟨fault, rfl, hdoes⟩))⟩⟩
        · exact ⟨_, wrote, rfl, .inr ⟨document, rfl, .inr (.inr (.inr ⟨rfl, hdoes⟩))⟩⟩

/-- The end of the wait decides whether the exchange goes on. -/
theorem await_apply :
    (await : ChannelM Play Unit) channel stage =
      ((ofWait (channel.responsePath channel.index)
          (stage.await (channel.responsePath channel.index)).1, channel),
        (stage.await (channel.responsePath channel.index)).2) := by
  rw [await, bind_ok get_apply]
  exact (lift_bind rfl).trans (ofExcept_apply _)

/-- The channel moves on when the response has been read and there is a next index. -/
theorem collect_cases :
    ∃ outcome after,
      stage.Does [.opened (channel.responsePath channel.index) outcome] after ∧
        (collect : ChannelM Play Payload) channel stage =
          match outcome with
          | .error fault =>
            ((.error (.failed (.io (channel.responsePath channel.index) fault.message)), channel),
              after)
          | .ok raw =>
            match channel.index.next? with
            | none => ((.error .exhausted, channel), after)
            | some next =>
              ((payloadOf (channel.responsePath channel.index) raw, channel.jump next), after) := by
  rw [collect, bind_ok get_apply]
  obtain ⟨outcome, after, hread, hdoes⟩ :=
    Play.read_does stage (channel.responsePath channel.index)
  refine ⟨outcome, after, hdoes, ?_⟩
  rw [lift_bind hread]
  cases outcome with
  | error fault => rw [orFailed_error, bind_error (ofExcept_apply _)]
  | ok raw =>
    rw [orFailed_ok, bind_ok (ofExcept_apply _)]
    cases channel.index.next? with
    | none => rfl
    | some next =>
      refine (bind_ok rfl).trans ?_
      exact ofExcept_apply _

end Channel

/-! ## Sweeping -/

namespace Mailbox

/-- Files with some names are deleted one after the other. -/
def deletions (root : Path) (names : List String) : List Operation :=
  names.map fun name => .removed (root.join name) (.ok ())

/-- A sweep that meets no failure deletes the files one by one. -/
theorem removeAll_does (root : Path) (names : List String) (stage : Stage) :
    ∃ report after, (removeAll root names : Play SweepReport) stage = (report, after) ∧
      (report.isClean = true → stage.Does (deletions root names) after) := by
  induction names generalizing stage with
  | nil => exact ⟨_, stage, rfl, fun _ => .refl stage⟩
  | cons name names ih =>
    obtain ⟨result, removed, hremove, hremoves⟩ := Play.removeFile_does stage (root.join name)
    obtain ⟨report, after, hrest, hdoes⟩ := ih removed
    refine ⟨report.note (root.join name) result, after, ?_, fun hclean => ?_⟩
    · rw [removeAll, host_bind hremove, host_bind hrest]
      rfl
    · cases result with
      | error fault => cases hclean
      | ok => exact hremoves.trans (hdoes hclean)

/-- What a sweep does in which nothing goes wrong: it finds no mailbox, or it lists the files of the
mailbox and deletes those of exchanges. -/
def IsSweep (listing : Listing) (root : Path) (operations : List Operation) : Prop :=
  operations = [.listed root (.error .noEntry)] ∨
    ∃ disk names, listing.names root disk = .ok names ∧ operations =
      .listed root (.ok names) :: deletions root (names.filter isExchangeName)

/-- Before that it lists the mailbox. -/
theorem sweep_does (root : Path) (stage : Stage) :
    ∃ report after, (sweep root : Play SweepReport) stage = (report, after) ∧
      (report.isClean = true →
        ∃ operations, IsSweep stage.listing root operations ∧ stage.Does operations after) := by
  obtain ⟨result, listed, hlist, hlists, disk, hresult⟩ := Play.fileNames_does stage root
  rw [sweep, host_bind hlist]
  rcases result with fault | names
  · by_cases hfault : fault = .noEntry
    · subst hfault
      exact ⟨_, listed, rfl, fun _ => ⟨_, .inl rfl, hlists⟩⟩
    · refine ⟨⟨[], [(root, fault)]⟩, listed, ?_, fun hclean => by cases hclean⟩
      cases fault <;> first | rfl | exact absurd rfl hfault
  · obtain ⟨report, after, hremove, hdoes⟩ :=
      removeAll_does root (names.filter isExchangeName) listed
    exact ⟨report, after, hremove,
      fun hclean => ⟨_, .inr ⟨disk, names, hresult.symm, rfl⟩, hlists.trans (hdoes hclean)⟩⟩

end Mailbox

end ScriptMailbox
