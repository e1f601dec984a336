import ScriptMailbox.Proofs.Arguments.Accepted
import ScriptMailbox.Proofs.Program.FinalSweep

/-!
# What the program leaves behind

Whichever way the console or a single exchange ends, the mailbox is swept last, and all that the
program does is permitted. So no exchange file survives that could be deleted and that nobody has
touched since, and everything else is accounted for (`run_leaves`). The exception is a termination
signal: then one thread may end the process before the other has finished the last sweep, and the
worker may write while the handler sweeps.
-/

namespace ScriptMailbox

open Disk Mailbox

/-! ## Ends of runs -/

section

variable {root : Path} {typed : List Bytes} {α β : Type}

/-- Whether a computation does what it may, and then the last sweep, unless that is up to the
handler, and nothing more. -/
def EndsSwept (root : Path) (typed : List Bytes) (work : DeskM α) : Prop :=
  ∀ desk : Desk, desk.IsSound root typed → ∃ last : Desk,
    desk.Runs root typed last ∧ (work desk).2 = ((Program.lastSweep root : DeskM Unit) last).2

/-- The mailbox is swept after any work, whatever its outcome. -/
theorem endsSwept_sweepAfter {work : DeskM α} (h : Keeps root typed work fun _ => True) :
    EndsSwept root typed (Program.sweepAfter root work) := by
  intro desk hsound
  have hwatched := (keeps_watchSignals desk hsound).1
  have hruns := (h _ (hsound.runs hwatched)).1
  exact ⟨(work (desk.watch root)).2, hwatched.trans hruns, rfl⟩

/-- What is done before does not matter. -/
theorem EndsSwept.after {first : DeskM α} {next : α → DeskM β}
    (hfirst : Keeps root typed first fun _ => True) (h : ∀ a, EndsSwept root typed (next a)) :
    EndsSwept root typed (first >>= next) := by
  intro desk hsound
  obtain ⟨hruns, -⟩ := hfirst desk hsound
  obtain ⟨last, hmore, hlast⟩ := h (first desk).1 (first desk).2 (hsound.runs hruns)
  exact ⟨last, hruns.trans hmore, hlast⟩

/-- What leaves the desk alone may follow. -/
theorem EndsSwept.before {work : DeskM α} {next : α → DeskM β} (h : EndsSwept root typed work)
    (hnext : ∀ a desk, (next a desk).2 = desk) : EndsSwept root typed (work >>= next) := by
  intro desk hsound
  obtain ⟨last, hruns, hlast⟩ := h desk hsound
  exact ⟨last, hruns, (hnext (work desk).1 (work desk).2).trans hlast⟩

end

namespace Program

variable {root : Path} {typed : List Bytes} {settings : Settings} {documents : Documents}
  {arguments : List String} {request : Arguments.Request}

/-- Whether a task makes exchanges: the console does, and so does a single exchange. -/
def MakesExchanges : Option Arguments.Task → Prop
  | none | some .repl | some (.send ..) => True
  | _ => False

/-- The console sweeps last, also where its sources cannot be loaded. -/
theorem endsSwept_console :
    EndsSwept settings.rootDir typed (console Desk.serve settings : DeskM (Except Halt Unit)) := by
  refine .after (keeps_sweep settings.rootDir) fun _ => endsSwept_sweepAfter ?_
  refine (keeps_loadSources settings).bind fun result _ => ?_
  cases result with
  | error failure => exact keeps_pure trivial
  | ok sources => exact keeps_onSession Desk.keepsIn_serve rfl

/-- So does a single exchange. -/
theorem endsSwept_send (index : Index) (text : Option String) (file : Option Path) :
    EndsSwept settings.rootDir typed (send settings index text file : DeskM (Except Halt Unit)) :=
  endsSwept_sweepAfter (keeps_onSession (keepsIn_exchange index text file) rfl)

/-- So does every task that makes exchanges. -/
theorem endsSwept_perform {task : Option Arguments.Task} (htask : MakesExchanges task) :
    EndsSwept settings.rootDir typed
      (perform Desk.serve settings task : DeskM (Except Halt Unit)) := by
  rcases task with _ | task
  · exact endsSwept_console
  cases task with
  | repl => exact endsSwept_console
  | send index text file => exact endsSwept_send index text file
  | clean => cases htask
  | locate file selector => cases htask
  | patch file selector text afterLine => cases htask

/-- Saying how the program ends touches nothing. -/
theorem conclude_desk (outcome : Except Halt Unit) (desk : Desk) :
    ((conclude outcome : DeskM Ending) desk).2 = desk := by
  rcases outcome with halt | ⟨⟩
  · cases halt <;> rfl
  · rfl

/-- Accepted arguments with settings lead to their task. -/
theorem run_eq {m : Type → Type} [Monad m] [Host m] {serve : SessionM m Unit}
    (hparse : Arguments.parse arguments = .ok request)
    (hsettings : Settings.resolve documents request = .ok settings) :
    run serve documents arguments = perform serve settings request.task >>= conclude := by
  rw [run, hparse]
  dsimp only
  rw [carryOut, hsettings]

/-- So does the program, for such a task. -/
theorem endsSwept_run (hparse : Arguments.parse arguments = .ok request)
    (htask : MakesExchanges request.task)
    (hsettings : Settings.resolve documents request = .ok settings) :
    EndsSwept settings.rootDir typed (run Desk.serve documents arguments : DeskM Ending) := by
  rw [run_eq hparse hsettings]
  exact (endsSwept_perform htask).before conclude_desk

end Program

/-! ## What is left -/

/-- Whether an operation makes a file or directories. -/
def Operation.isMaking : Operation → Bool
  | made _ _ | wrote _ _ _ => true
  | _ => false

namespace Desk

/-- Whether the process ends before the last sweep has been finished, for it is the other thread
that ends it. `done` is the desk when the worker has nothing more to do. -/
inductive IsCutOff (done last : Desk) : Prop
  | byWorker (htaken : last.sweeper = some .handler) (hbusy : last.handler.isBusy = true)
  | byHandler (htaken : last.sweeper = some .worker) (hover : done.isOver = true)

/-- Whether the last sweep has been done in the end: the mailbox has been listed, and the deletion
of every exchange file that was found has been tried since; the worker does nothing else then. Of
the exchange files that can be reached by their paths only those are left that others have touched
since, unless the sweep was up to the handler and the worker has gone on writing. -/
def IsSwept (root : Path) (last : Desk) : Prop :=
  ∃ earlier found later, last.stage.history = earlier ++ .own (.listed root found) :: later ∧
    (∀ name ∈ exchangeNames found, ∃ result, .own (.removed (root.join name) result) ∈ later) ∧
    (last.sweeper = some .worker → Attempts root (exchangeNames found) (own later)) ∧
    ∀ directory name content, last.stage.scene.disk.Leads root directory →
      isExchangeName name = true →
      last.stage.scene.disk.at? (directory ++ [name]) = some (.file content) → IsFit root name →
      (∃ left reached, .others left reached ∈ later ∧
        reached.disk.at? (directory ++ [name]) ≠ left.disk.at? (directory ++ [name])) ∨
      last.sweeper = some .handler ∧ ∃ operation ∈ own later, operation.isMaking = true

/-- Whether nothing has happened at a desk yet. -/
structure IsOpening (desk : Desk) : Prop where
  history : desk.stage.history = []
  handler : desk.handler = .absent
  sweeper : desk.sweeper = none

/-- What a run leaves between its first desk and its last one: a swept mailbox, unless the last
sweep is cut off; without a termination signal it is the worker that has swept, to the end; and
everything else is accounted for. -/
structure Leaves (root : Path) (first done last : Desk) : Prop where
  swept : IsCutOff done last ∨ IsSwept root last
  quiet : first.IsQuiet → last.sweeper = some .worker ∧ done.isOver = false
  accounts : ∀ location, Accounts root (IsPatch first.typed last.stage.history)
    first.stage.scene.disk last.stage.scene.disk location

variable {root : Path} {typed : List Bytes} {first before last : Desk}

/-- A desk at which nothing has happened is sound. -/
theorem IsOpening.isSound (h : first.IsOpening) : first.IsSound root first.typed := by
  refine ⟨fun _ => id, ?_⟩
  rw [Tracks, h.handler]
  exact .absent (by simp [h.sweeper])

/-- All that has happened in a run. -/
theorem IsOpening.becomes (h : first.IsOpening)
    (hdoes : first.stage.MayBecome root typed last.stage)
    (hothers : Obeys (WritesExchanges root) last.stage.history) :
    first.stage.scene.Becomes last.stage.history last.stage.scene ∧
      AreHarmless root typed last.stage.history := by
  obtain ⟨operations, ⟨events, hhistory, hbecomes, rfl⟩, hmay⟩ := hdoes
  obtain rfl : last.stage.history = events := by rw [hhistory, h.history, List.nil_append]
  exact ⟨hbecomes, fun operation hmem => hmay operation (mem_own_iff.mpr hmem), hothers⟩

/-- What is permitted and makes nothing deletes exchange files at most. -/
theorem onlyDelete_of_permitted {operations : List Operation}
    (hmay : ∀ operation ∈ operations, Permitted root typed operation)
    (hmaking : ∀ operation ∈ operations, operation.isMaking = false) :
    OnlyDelete root operations := by
  intro operation hmem
  cases hmay operation hmem with
  | looks h => exact .inl h
  | makes result => cases hmaking _ hmem
  | posts index content result => cases hmaking _ hmem
  | patches result h => cases hmaking _ hmem
  | deletes result h => exact .inr ⟨_, h, result, rfl⟩

/-- Where the mailbox has been listed and all deletions have been tried since, it is swept. -/
theorem isSwept_of_split {start : Scene} {earlier later : List Event}
    {found : Except DiskFault (List String)} (hroot : root.text ≠ "")
    (hlinks : HasNoLinks start.disk root)
    (hbecomes : start.Becomes last.stage.history last.stage.scene)
    (hharmless : AreHarmless root typed last.stage.history) (htaken : last.sweeper ≠ none)
    (hsplit : last.stage.history = earlier ++ .own (.listed root found) :: later)
    (htried : ∀ name ∈ exchangeNames found, ∃ result,
      .own (.removed (root.join name) result) ∈ later)
    (honly : last.sweeper = some .worker → Attempts root (exchangeNames found) (own later)) :
    IsSwept root last := by
  refine ⟨earlier, found, later, hsplit, htried, honly, ?_⟩
  intro directory name content hleads hname hfile hfit
  -- either the program has made something since the listing, or others have touched what is left
  by_cases hmaking : ∃ operation ∈ own later, operation.isMaking = true
  · refine .inr ⟨?_, hmaking⟩
    -- a last sweep of the worker makes nothing, so it was the handler's
    rcases hsweeper : last.sweeper with _ | _ | _
    · exact absurd hsweeper htaken
    · obtain ⟨operation, hmem, hmakes⟩ := hmaking
      obtain ⟨name, -, result, rfl⟩ := (honly hsweeper).only operation hmem
      cases hmakes
    · rfl
  · left
    push Not at hmaking
    rw [hsplit] at hbecomes hharmless
    obtain ⟨listing, hbefore, hrest⟩ := hbecomes.of_append
    have hlisting := (accounts_of_becomes hbefore hharmless.of_append_left hlinks).1
    have hdeletes : OnlyDelete root (own later) :=
      onlyDelete_of_permitted (fun operation hmem => hharmless.own operation
        (List.mem_append_right _ (List.mem_cons_of_mem _ (mem_own_iff.mp hmem))))
        fun operation hmem => Bool.eq_false_iff.mpr (hmaking operation hmem)
    cases hrest with
    | cons hturns hafter =>
      exact touched_of_left hroot hlisting hturns htried hdeletes
        hharmless.others.of_append_right.of_cons hafter hleads hname hfit hfile

/-- The worker takes on the last sweep, or finds that the handler has done so. -/
theorem lastSweep_cases (before : Desk) :
    before.advance.sweeper = none ∧
        ((Program.lastSweep root : DeskM Unit) before).2 =
          ((sweep root : DeskM SweepReport)
            { before.advance with sweeper := some .worker }).2 ∨
      before.advance.sweeper ≠ none ∧
        ((Program.lastSweep root : DeskM Unit) before).2 = before.advance := by
  rcases htaken : before.advance.sweeper with _ | thread
  · have htake : (Host.takeLastSweep : DeskM Bool) before =
        (true, { before.advance with sweeper := some .worker }) := by
      show before.takeLastSweep = _
      rw [takeLastSweep, htaken]
    refine .inl ⟨rfl, ?_⟩
    rw [Program.lastSweep, host_bind htake]
    rfl
  · have htake : (Host.takeLastSweep : DeskM Bool) before = (false, before.advance) := by
      show before.takeLastSweep = _
      rw [takeLastSweep, htaken]
    refine .inr ⟨(Option.some_ne_none thread), ?_⟩
    rw [Program.lastSweep, host_bind htake]
    rfl

end Desk

namespace Handler

variable {root : Path} {handler : Handler} {sweeper : Option Thread} {history : List Event}

/-- The handler finds that the worker has taken on the last sweep. -/
theorem Tracks.take (h : Tracks root handler none history) :
    Tracks root handler (some .worker) history := by
  cases h with
  | absent h => exact .absent (by simp)
  | watching h => exact .watching (by simp)
  | raised h => exact .raised (by simp)

/-- Where no signal has come, the handler has not taken on the last sweep, nor ended the process. -/
theorem Tracks.of_isQuiet (h : Tracks root handler sweeper history)
    (hquiet : handler.isQuiet = true) : sweeper ≠ some .handler ∧ handler ≠ .exited := by
  cases h with
  | absent h => exact ⟨h, nofun⟩
  | watching h => exact ⟨h, nofun⟩
  | _ => cases hquiet

end Handler

namespace Desk

variable {root : Path} {typed : List Bytes} {first before last : Desk}

/-- What is left when the last sweep is up to the worker. -/
theorem leaves_of_worker (hopening : first.IsOpening) (hroot : root.text ≠ "")
    (hlinks : HasNoLinks first.stage.scene.disk root)
    (hruns : first.Runs root first.typed before) (htaken : before.sweeper = none) {done : Desk}
    (hdone : done = ((sweep root : DeskM SweepReport) { before with sweeper := some .worker }).2)
    (hothers : Obeys (WritesExchanges root) done.advance.stage.history) :
    Leaves root first done done.advance := by
  let taken : Desk := { before with sweeper := some .worker }
  have htracks : before.handler.Tracks root none before.stage.history := htaken ▸ hruns.tracks
  have hsound : taken.IsSound root first.typed := ⟨hruns.lines, htracks.take⟩
  have hsweep : taken.Runs root first.typed done := hdone ▸ (keeps_sweep root taken hsound).1
  have hlast : done.Runs root first.typed done.advance := runs_advance hsweep.tracks
  have hworker : done.sweeper = some .worker := hsweep.taken .worker rfl
  obtain ⟨hbecomes, hharmless⟩ :=
    hopening.becomes (hruns.does.trans (hsweep.trans hlast).does) hothers
  refine ⟨?_, fun hquiet => ?_, (accounts_of_becomes hbecomes hharmless hlinks).2⟩
  · -- unless the handler has ended the process, the sweep ran to its end
    by_cases hover : done.isOver = true
    · exact .inl (.byHandler (hlast.taken .worker hworker) hover)
    right
    rw [Bool.not_eq_true, hdone] at hover
    obtain ⟨found, operations, hattempts, hsweeps⟩ := sweep_attempts hsound rfl hover
    -- after the sweep the handler leaves the files alone
    obtain ⟨more, hadvances, -, hnothing⟩ := (moves_advance hsweep.tracks).does
    rw [hnothing hworker] at hadvances
    rw [← hdone] at hsweeps
    obtain ⟨events, hhistory, -, hown⟩ := hsweeps.trans hadvances
    rw [List.append_nil] at hown
    obtain ⟨early, later, rfl, -, rfl⟩ := own_eq_append_cons (hown.trans (List.nil_append _).symm)
    rw [← List.append_assoc] at hhistory
    refine isSwept_of_split hroot hlinks hbecomes hharmless ?_ hhistory (fun name hname => ?_)
      fun _ => hattempts
    · rw [hlast.taken .worker hworker]
      exact Option.some_ne_none _
    · obtain ⟨result, hmem⟩ := hattempts.all name hname
      exact ⟨result, mem_own_iff.mp hmem⟩
  · have hcalm : taken.IsQuiet := hruns.quiet hquiet
    have hrests := hsweep.tracks.of_isQuiet (hsweep.quiet hcalm).1
    exact ⟨hlast.taken .worker hworker, decide_eq_false hrests.2⟩

/-- What is left when the last sweep is up to the handler. -/
theorem leaves_of_handler (hopening : first.IsOpening) (hroot : root.text ≠ "")
    (hlinks : HasNoLinks first.stage.scene.disk root)
    (hruns : first.Runs root first.typed before) (htaken : before.sweeper ≠ none)
    (hothers : Obeys (WritesExchanges root) before.advance.stage.history) :
    Leaves root first before before.advance := by
  have hlast : before.Runs root first.typed before.advance := runs_advance hruns.tracks
  obtain ⟨hbecomes, hharmless⟩ := hopening.becomes (hruns.trans hlast).does hothers
  have hhandler : before.sweeper = some .handler := by
    rcases hsweeper : before.sweeper with _ | _ | _
    · exact absurd hsweeper htaken
    · exact absurd (hruns.sweeper hsweeper) (by simp [hopening.sweeper])
    · rfl
  have hstays := hlast.taken .handler hhandler
  refine ⟨?_, fun hquiet => ?_, (accounts_of_becomes hbecomes hharmless hlinks).2⟩
  · cases hbusy : before.advance.handler.isBusy with
    | true => exact .inl (.byWorker hstays hbusy)
    | false =>
      have htracks : before.advance.handler.Tracks root (some .handler)
          before.advance.stage.history := hstays ▸ hlast.tracks
      obtain ⟨earlier, found, later, hsplit, htried⟩ := htracks.hasListed hbusy
      refine .inr (isSwept_of_split hroot hlinks hbecomes hharmless (by simp [hstays]) hsplit
        (fun name hname => (htried name hname).resolve_left (List.not_mem_nil)) fun hworker => ?_)
      rw [hstays] at hworker
      cases hworker
  · exact absurd hhandler (hruns.tracks.of_isQuiet (hruns.quiet hquiet).1).1

/-- The handler takes its last steps when the worker has nothing more to do. -/
theorem runProgram_desk (desk : Desk) (documents : Documents) (arguments : List String) :
    (desk.runProgram documents arguments).2 = (desk.runWorker documents arguments).2.advance :=
  rfl

end Desk

namespace Program

/-! ## An exchange that is refused -/

/-- A mailbox `t` without files. -/
def emptyMailbox : Disk :=
  Disk.empty.put ["t"] .directory

/-- A mailbox `t` with an old request. -/
def staleMailbox : Disk :=
  (Disk.empty.put ["t"] .directory).put ["t", "in0.txt"] (.file (Text.Utf8.encode "old"))

/-- The mailbox after others have written a response. -/
def answeredMailbox : Disk :=
  staleMailbox.put ["t", "out0.txt"] (.file [])

/-- Paths to `t` lead to the mailbox. -/
theorem leads_stale {root : Path} (hnames : root.names = ["t"])
    (hrelative : root.isAbsolute = false) : staleMailbox.Leads root ["t"] := by
  rw [Leads, origin, hrelative, hnames]
  exact ⟨by rfl, by rfl⟩

/-- The mailbox holds no link. -/
theorem hasNoLinks_stale {root : Path} (hleads : staleMailbox.Leads root ["t"]) :
    HasNoLinks staleMailbox root := by
  intro directory hmay name hname target
  obtain rfl := hmay.eq_of_leads hleads
  have hentries : staleMailbox.entries = .cons ".." .directory .nil (.cons "t" .directory
      (.cons "in0.txt" (.file (Text.Utf8.encode "old")) .nil .nil) .nil) := by rfl
  have hentry : staleMailbox.at? (["t"] ++ [name]) =
      if "in0.txt" = name then some (.file (Text.Utf8.encode "old")) else none := by
    rw [Disk.at?, hentries]
    by_cases heq : "in0.txt" = name <;> simp [Forest.at?, Forest.find?, heq]
  rw [hentry]
  split_ifs <;> simp

/-- The response is one that others may write. -/
theorem writesExchanges_answered {root : Path} (hleads : staleMailbox.Leads root ["t"]) :
    WritesExchanges root ⟨staleMailbox, false⟩ ⟨answeredMailbox, false⟩ := by
  have hput : staleMailbox.mayPut ["t", "out0.txt"] := by decide +kernel
  have hnone : staleMailbox.at? ["t", "out0.txt"] = none := by decide +kernel
  exact .inr ⟨"out0.txt", [], ["t"], by decide +kernel,
    hleads, ⟨by simp [hnone], by simp [hnone]⟩, fun other => at?_put _ other hput⟩

/-- Others who write that response and nothing else keep to the rule. -/
theorem obeys_answered {events : List Event} (h : ∀ left reached, .others left reached ∈ events →
    left = ⟨staleMailbox, false⟩ ∧ reached = ⟨answeredMailbox, false⟩) :
    Obeys (WritesExchanges ⟨"t"⟩) events := by
  intro left reached hmem
  obtain ⟨rfl, rfl⟩ := h left reached hmem
  exact writesExchanges_answered (leads_stale (by decide +kernel) (by decide +kernel))

/-- A desk at which nothing is typed, and at which the handler takes its steps at some pace. -/
def deskOf (disk : Disk) (future : List (List Scene)) (pace : List ℕ) : Desk :=
  .opening ⟨disk, false⟩ future .plain [] pace

/-- The arguments for a single exchange of a text in a mailbox. -/
def sendArguments (root text : String) : List String :=
  ["--root-dir", root, "send", "--text", text]

/-- The settings for an exchange in a mailbox. -/
def sendSettings (root : String) : Settings :=
  ⟨⟨root⟩, none, Arguments.defaultPollMs⟩

/-- A text that closes its string has no document, so there is nothing to do but the last sweep. -/
theorem run_refused {root : String} (hroot : Arguments.Shape.ofArgument root = .word)
    (hne : root ≠ "") (desk : Desk) :
    (desk.runWorker .absent (sendArguments root "]]")).2 =
      ((lastSweep ⟨root⟩ : DeskM Unit) (desk.watch ⟨root⟩)).2 := by
  have hparse := Arguments.parse_send hroot hne
    (by decide +kernel : Arguments.Shape.ofArgument "]]" = .word)
  have hsettings : Settings.resolve .absent ⟨some ⟨root⟩, none, Arguments.defaultPollMs,
      some (.send .zero (some "]]") none)⟩ = .ok (sendSettings root) := rfl
  have hsend : ((send (sendSettings root) .zero (some "]]") none : DeskM (Except Halt Unit))
      desk).2 = ((lastSweep ⟨root⟩ : DeskM Unit) (desk.watch ⟨root⟩)).2 := rfl
  let outcome := (send (sendSettings root) .zero (some "]]") none : DeskM (Except Halt Unit)) desk
  rw [Desk.runWorker, sendArguments, run_eq hparse hsettings, ← hsend]
  exact conclude_desk outcome.1 outcome.2

/-- A mailbox `t` with separators behind it. -/
def slashed (count : ℕ) : String :=
  String.ofList ('t' :: List.replicate count '/')

/-- The letters of the path of such a mailbox. -/
theorem toList_slashed (count : ℕ) : (slashed count).toList = 't' :: List.replicate count '/' :=
  String.toList_ofList

/-- The separators name nothing more. -/
theorem names_slashed (count : ℕ) : Path.names ⟨slashed count⟩ = ["t"] := by
  rw [Path.names_eq, toList_slashed, ← List.singleton_append, Path.namesOf_separators]
  decide +kernel

/-- So all these paths lead to the same mailbox. -/
theorem leads_slashed (count : ℕ) : staleMailbox.Leads ⟨slashed count⟩ ["t"] := by
  refine leads_stale (names_slashed count) ?_
  rw [Path.isAbsolute, toList_slashed]
  rfl

/-- None of them is empty. -/
theorem slashed_ne_empty (count : ℕ) : slashed count ≠ "" := by
  rw [← String.toList_inj.ne, toList_slashed]
  exact List.cons_ne_nil _ _

/-- Each is an argument of its own. -/
theorem ofArgument_slashed (count : ℕ) :
    Arguments.Shape.ofArgument (slashed count) = .word := by
  rw [Arguments.Shape.ofArgument, toList_slashed]
  rfl

/-- They are as long as one likes. -/
theorem utf8ByteSize_slashed (count : ℕ) : (slashed count).utf8ByteSize = count + 1 := by
  have hslashes (count : ℕ) : String.utf8Len (List.replicate count '/') = count := by
    induction count with
    | zero => rfl
    | succ count ih =>
      rw [List.replicate_succ, String.utf8Len_cons, ih, show '/'.utf8Size = 1 from rfl]
  rw [slashed, String.utf8ByteSize_ofList, String.utf8Len_cons, hslashes]
  rfl

/-- So from some length on the machine refuses them. -/
theorem fault?_slashed (count : ℕ) :
    Path.fault? ⟨slashed count⟩ =
      if Path.byteLimit ≤ count then some .nameTooLong else none := by
  have hnul : (slashed count).toList.contains '\x00' = false := by
    simp [toList_slashed]
  rw [Path.fault?, if_neg (slashed_ne_empty count), hnul, if_neg Bool.false_ne_true,
    utf8ByteSize_slashed]
  simp only [Nat.lt_add_one_iff]

/-- A mailbox that is not listed is left as it is. -/
theorem sweep_of_list_error {root : Path} {fault : DiskFault} {desk : Desk} (hpace : desk.pace = [])
    (hover : desk.isOver = false) (hfuture : desk.stage.future = [])
    (hlist : desk.stage.scene.disk.list root = .error fault) :
    ((sweep root : DeskM SweepReport) desk).2 =
      { desk with
        stage := { desk.stage with
          history := desk.stage.history ++ [.own (.listed root (.error fault))] } } := by
  have hfirst : (Host.fileNames root : DeskM (Except DiskFault (List String))) desk =
      (.error fault, { desk with
        stage := { desk.stage with
          history := desk.stage.history ++ [.own (.listed root (.error fault))] } }) := by
    have hadvance : desk.advance = desk := by rw [Desk.advance, hpace]
    have hlisted : (Host.fileNames root : Play (Except DiskFault (List String))) desk.stage =
        (.error fault, { desk.stage with
          history := desk.stage.history ++ [.own (.listed root (.error fault))] }) := by
      show Stage.perform (Scene.view (desk.stage.listing.names root)) _ _ = _
      simp [Stage.perform, Stage.pass, hfuture, Scene.view, Listing.names, hlist, Except.map]
    show desk.perform (Host.fileNames root : Play _) = _
    rw [Desk.perform, hadvance, hover, if_neg Bool.false_ne_true, Desk.onStage, hlisted]
  rw [sweep, host_bind hfirst]
  cases fault <;> rfl

/-- It does not list the mailbox then. -/
theorem list_slashed {count : ℕ} (hlong : Path.byteLimit ≤ count) (disk : Disk) :
    disk.list ⟨slashed count⟩ = .error .nameTooLong := by
  rw [Disk.list, Disk.resolve, fault?_slashed, if_pos hlong]

/-- An exchange in a mailbox whose path is too long for the machine. -/
theorem run_slashed {count : ℕ} (hlong : Path.byteLimit ≤ count) :
    (∃ request, Arguments.parse (sendArguments (slashed count) "]]") = .ok request ∧
        MakesExchanges request.task ∧
        Settings.resolve .absent request = .ok (sendSettings (slashed count))) ∧
      ((deskOf staleMailbox [] []).runProgram .absent
          (sendArguments (slashed count) "]]")).2.stage =
        ⟨⟨staleMailbox, false⟩, [.own (.listed ⟨slashed count⟩ (.error .nameTooLong))], [],
          .plain⟩ := by
  have hword := ofArgument_slashed count
  have hne := slashed_ne_empty count
  have hparse := Arguments.parse_send hword hne
    (by decide +kernel : Arguments.Shape.ofArgument "]]" = .word)
  refine ⟨⟨_, hparse, trivial, rfl⟩, ?_⟩
  let ready : Desk := ⟨.opening ⟨staleMailbox, false⟩ [] .plain, [], [],
    .watching ⟨slashed count⟩, some .worker⟩
  have hlist : ready.stage.scene.disk.list ⟨slashed count⟩ = .error .nameTooLong :=
    list_slashed hlong staleMailbox
  have hsweep := @sweep_of_list_error _ _ ready rfl rfl rfl hlist
  have hlast : ((lastSweep ⟨slashed count⟩ : DeskM Unit)
      ((deskOf staleMailbox [] []).watch ⟨slashed count⟩)).2 =
      ((sweep ⟨slashed count⟩ : DeskM SweepReport) ready).2 := rfl
  rw [Desk.runProgram_desk, run_refused hword hne, hlast, hsweep]
  rfl

/-! ## Runs -/

variable {desk : Desk} {documents : Documents} {arguments : List String}
  {request : Arguments.Request} {settings : Settings}

end Program

end ScriptMailbox
