import ScriptMailbox.Proofs.Console.Retaining
import ScriptMailbox.Proofs.Mailbox.Clearing

/-!
# Restarting

A restart sweeps the mailbox and goes back to the first index, as the end of one console and the
start of the next one do, but it keeps the sources that are in memory where the next console loads
them again. So a restart is the same as the next console where loading gives what is in memory
(`runConsole_restart`). Elsewhere it may differ: a source that has been patched by its path stays in
memory although the next console does not know of it (`runConsole_restart_ne`).
-/

namespace ScriptMailbox

open Mailbox

/-! ## Sweeping a world -/

namespace World

/-- The world once a mailbox has been swept. -/
def swept (world : World) (root : Path) : World :=
  { world with disk := world.disk.cleared .plain root }

section

variable (world : World) (root : Path)

/-- A sweep leaves a swept world. -/
theorem sweep_apply : ((sweep root : Model SweepReport) world).2 = world.swept root := by
  refine sweep_of_discards (fun disk => { world with disk := disk }) (fun path disk => ?_)
    (fun path disk => ?_) root world.disk
  · show (Model.change _ _).2 = _
    simp only [Model.change, Disk.discard]
    cases disk.removeFile path <;> rfl
  · rfl

/-- A swept world stays as it is when it is swept again. -/
@[simp] theorem swept_swept : (world.swept root).swept root = world.swept root :=
  congrArg (fun disk => { world with disk := disk }) (Disk.cleared_cleared .plain root world.disk)

end

end World

open World Console

/-! ## The line that restarts -/

namespace Console

variable {session : Session} {world : World} {script : List Reading}

/-- A console that has used up a script has not been called off. -/
theorem UsesUp.cancelled (h : UsesUp world session script) :
    (withScript world session script).2.cancelled = false := by
  obtain ⟨session', world', hgoes, hflag, hnil⟩ := h
  rw [withScript_eq, hgoes.serves_eq, serves_of_input_eq_nil session' hflag hnil]
  exact hflag

/-- A script that is used up leaves the session in its mailbox. -/
theorem UsesUp.isAt {root : Path} {pollMs : ℕ} (h : UsesUp world session script)
    (hsession : session.IsAt root pollMs) :
    (withScript world session script).1.2.IsAt root pollMs := by
  obtain ⟨session', world', hgoes, hflag, hnil⟩ := h
  rw [withScript_eq, hgoes.serves_eq, serves_of_input_eq_nil session' hflag hnil]
  exact hgoes.isAt hsession

/-- What is shown after a restart. -/
def restarted : String := "State reset. You can start a new game now.\n"

/-- The command `restart` sweeps, goes back to the first index, and says so. -/
theorem answerLine_restart (session : Session) (world : World) :
    world.runSession session (answerLine "restart") =
      ((.ok .again, session.jump .zero),
        (world.swept session.channel.root).withConsole world.input
          (world.output ++ restarted)) := by
  have hparse : Command.parse "restart" = .ok .restart := by decide +kernel
  have hreset : (Session.reset : SessionM Model SweepReport) session world =
      ((.ok ((sweep session.channel.root : Model SweepReport) world).1, session.jump .zero),
        world.swept session.channel.root) := by
    rw [Session.reset_apply, sweep_apply]
  have hobey : (obeyLine "restart" : SessionM Model Turn) session world =
      ((.ok .again, session.jump .zero),
        (world.swept session.channel.root).withConsole world.input
          (world.output ++ restarted)) := by
    rw [obeyLine, hparse]
    show (obey .restart : SessionM Model Turn) session world = _
    rw [obey, bind_ok hreset]
    rfl
  rw [runSession, answerLine, bind_ok (observing_apply hobey)]
  rfl

/-- A restart goes on as a new session with the same sources does in a swept mailbox. -/
theorem withScript_restart (session : Session) (hflag : world.cancelled = false)
    (more : List Reading) :
    let later := withScript (world.swept session.channel.root) (session.jump .zero) more
    ∃ said, later.2.output = banner ++ said ∧
      withScript world session (Reading.ofEvents (typing "restart\n") ++ more) =
        (later.1, later.2.withConsole later.2.input
          (banner ++ promptText session.channel.index ++ restarted ++ said)) := by
  intro later
  have hline : lineOf (Text.Utf8.encode "restart\n") = .ok (some "restart") := by decide +kernel
  have htyped : Reading.ofEvents (typing "restart\n") = [⟨[], Text.Utf8.encode "restart\n"⟩] := by
    decide +kernel
  let shown := banner ++ promptText session.channel.index ++ restarted
  have hturn : (world.withConsole (⟨[], Text.Utf8.encode "restart\n"⟩ :: more) banner).runSession
      session turn = ((.ok .again, session.jump .zero),
        (world.swept session.channel.root).withConsole more shown) := by
    have hasks := @turn_of_asks (world.withConsole (⟨[], Text.Utf8.encode "restart\n"⟩ :: more)
      banner) session hflag
    simp only [input_withConsole, hline, readingOf_withConsole, answerLine_restart] at hasks
    exact hasks
  obtain ⟨said, hsaid⟩ := serves_withConsole (session.jump .zero)
    ((world.swept session.channel.root).withConsole more banner)
  simp only [withConsole_withConsole, input_withConsole] at hsaid
  refine ⟨said, ?_, ?_⟩
  · show (withScript _ _ _).2.output = _
    rw [withScript_eq, hsaid, output_withConsole]
  · have hgoes : GoesOn session
        (world.withConsole (⟨[], Text.Utf8.encode "restart\n"⟩ :: more) banner) _ _ :=
      .step hturn (.refl _ _)
    rw [htyped, List.singleton_append, withScript_eq, hgoes.serves_eq, hsaid]
    rfl

/-- A console that is restarted after a script goes on as a new session does, with the sources that
the script has left in memory. -/
theorem withScript_append_restart {root : Path} {pollMs : ℕ} (h : UsesUp world session script)
    (hsession : session.IsAt root pollMs) :
    let left := withScript world session script
    ∃ shown, left.1.1 = .ok () ∧ left.2.output = shown ++ "\n" ∧ ∀ more, ∃ said,
      let later := withScript (left.2.swept root) (.start root pollMs left.1.2.sources) more
      later.2.output = banner ++ said ∧
      withScript world session (script ++ (Reading.ofEvents (typing "restart\n") ++ more)) =
        (later.1, later.2.withConsole later.2.input (shown ++ restarted ++ said)) := by
  intro left
  obtain ⟨shown, hok, houtput, hmore⟩ := withScript_append_of_usesUp h
  refine ⟨shown ++ promptText left.1.2.channel.index, hok, houtput, fun more => ?_⟩
  have hat : left.1.2.IsAt root pollMs := h.isAt hsession
  have hnew : left.1.2.jump .zero = .start root pollMs left.1.2.sources :=
    congrArg (Session.mk · left.1.2.sources) (Channel.IsAt.eq_start hat)
  obtain ⟨said, hsaid, hrestart⟩ := withScript_restart left.1.2 h.cancelled more
  rw [hat.1, hnew] at hsaid hrestart
  obtain ⟨after, hafter, hwhole⟩ := hmore (Reading.ofEvents (typing "restart\n") ++ more)
  rw [hrestart] at hafter hwhole
  have hshown : after = promptText left.1.2.channel.index ++ restarted ++ said := by
    rw [output_withConsole] at hafter
    simpa only [String.append_assoc, String.append_right_inj] using hafter.symm
  refine ⟨said, hsaid, ?_⟩
  rw [hwhole, hshown]
  simp only [String.append_assoc]
  rfl

end Console

namespace Program

variable {settings : Settings} {world : World} {sources : SourceTree}

/-- The sources to patch, as a disk has them. -/
def loaded (settings : Settings) (disk : Disk) : Except Failure SourceTree :=
  ((loadSources settings : Model (Except Failure SourceTree)) (World.ofDisk disk)).1

/-- Whether work looks at nothing but the disk and changes nothing. -/
def IsLook {α : Type} (work : Model α) : Prop :=
  ∀ world, work world = ((work (World.ofDisk world.disk)).1, world)

/-- A result alone only looks. -/
theorem isLook_pure {α : Type} (a : α) : IsLook (pure a : Model α) := fun _ => rfl

/-- So does a view of the disk. -/
theorem isLook_view {α : Type} (look : Disk → α) : IsLook (Model.view look) := fun _ => rfl

/-- One look after the other is a look. -/
theorem IsLook.bind {α β : Type} {first : Model α} {next : α → Model β} (hfirst : IsLook first)
    (hnext : ∀ a, IsLook (next a)) : IsLook (first >>= next) := by
  intro world
  rw [host_bind (hfirst world), host_bind (hfirst (.ofDisk world.disk))]
  exact hnext _ world

/-- Loading files only looks. -/
theorem isLook_loadFiles (tree : SourceTree) (paths : List Path) :
    IsLook (SourceTree.loadFiles tree paths) := by
  induction paths generalizing tree with
  | nil => exact isLook_pure _
  | cons path paths ih =>
    refine IsLook.bind (IsLook.bind (isLook_view _) fun bytes => isLook_pure _) fun content => ?_
    cases content with
    | error failure => exact isLook_pure _
    | ok content => exact ih _

/-- Loading the sources changes nothing, and depends on the disk alone. -/
theorem loadSources_apply (settings : Settings) (world : World) :
    (loadSources settings : Model (Except Failure SourceTree)) world =
      (loaded settings world.disk, world) := by
  have hlook : IsLook (loadSources settings) := by
    rw [loadSources]
    cases settings.sourceDir with
    | none => exact isLook_pure _
    | some directory =>
      refine IsLook.bind (isLook_view _) fun kind => ?_
      split
      · exact IsLook.bind (isLook_view _) fun paths => isLook_loadFiles _ _
      · exact isLook_pure _
  exact hlook world

/-- A console on a world in which some things are typed and nothing has been shown. -/
def runConsole (settings : Settings) (world : World) (typed : List InputEvent) :
    Except Halt Unit × World :=
  (console World.serve settings : Model (Except Halt Unit))
    (world.withConsole (Reading.ofEvents typed) "")

/-- A guarded piece of work ends on a swept mailbox. -/
theorem sweepAfter_apply {α : Type} {root : Path} {work : Model α} {result : α} {ended : World}
    (h : work world = (result, ended)) :
    sweepAfter root work world = (result, ended.swept root) := by
  have hsweep : (sweep root : Model SweepReport) ended =
      (((sweep root : Model SweepReport) ended).1, ended.swept root) :=
    Prod.ext rfl (sweep_apply ended root)
  have hlast : (lastSweep root : Model Unit) ended = ((), ended.swept root) := by
    have htake : (Host.takeLastSweep : Model Bool) ended = (true, ended) := rfl
    rw [lastSweep, host_bind htake, if_pos rfl, Crew.finish, if_neg (by decide)]
    exact host_bind (host_bind hsweep)
  have hwatch : (Host.watchSignals root : Model Unit) world = ((), world) := rfl
  rw [sweepAfter, host_bind hwatch, host_bind h]
  exact host_bind hlast

/-- Where the sources can be loaded, the console serves on a swept mailbox, and leaves one. -/
theorem runConsole_eq (typed : List InputEvent)
    (hload : loaded settings (world.swept settings.rootDir).disk = .ok sources) :
    let ended := withScript (world.swept settings.rootDir)
      (.start settings.rootDir settings.pollMs sources) (Reading.ofEvents typed)
    runConsole settings world typed = (ended.1.1, ended.2.swept settings.rootDir) := by
  intro ended
  let start := (world.swept settings.rootDir).withConsole (Reading.ofEvents typed) ""
  have hsweep : (sweep settings.rootDir : Model SweepReport)
      (world.withConsole (Reading.ofEvents typed) "") = (_, start) :=
    Prod.ext rfl (sweep_apply _ _)
  have hsources : (loadSources settings : Model (Except Failure SourceTree)) start =
      (.ok sources, start) := by
    rw [loadSources_apply]
    exact congrArg (·, start) hload
  rw [runConsole, console, host_bind hsweep]
  refine sweepAfter_apply ?_
  rw [host_bind hsources]
  rfl

/-- Where loading the sources again gives what is in memory, a console that is restarted goes on as
the next one does that is opened once it has been left: they end alike, show the same after the
one's restart and the other's banner, and leave the same files. -/
theorem runConsole_restart {typed : List InputEvent} (hlines : EndsLine typed)
    (hload : loaded settings (world.swept settings.rootDir).disk = .ok sources)
    (hused : UsesUp (world.swept settings.rootDir)
      (.start settings.rootDir settings.pollMs sources) (Reading.ofEvents typed))
    (hreload : loaded settings (runConsole settings world typed).2.disk =
      .ok (withScript (world.swept settings.rootDir)
        (.start settings.rootDir settings.pollMs sources)
        (Reading.ofEvents typed)).1.2.sources) :
    let first := runConsole settings world typed
    ∃ shown, first.1 = .ok () ∧ first.2.output = shown ++ "\n" ∧ ∀ more, ∃ said,
      let second := runConsole settings first.2 more
      second.2.output = banner ++ said ∧
      runConsole settings world (typed ++ typing "restart\n" ++ more) =
        (second.1, second.2.withConsole second.2.input (shown ++ restarted ++ said)) := by
  intro first
  let root := settings.rootDir
  let left := withScript (world.swept root) (.start root settings.pollMs sources)
    (Reading.ofEvents typed)
  have hfirst : first = (left.1.1, left.2.swept root) := runConsole_eq typed hload
  obtain ⟨shown, hok, houtput, hmore⟩ := withScript_append_restart hused ⟨rfl, rfl⟩
  refine ⟨shown, ?_, ?_, fun more => ?_⟩
  · rw [hfirst]
    exact hok
  · rw [hfirst]
    exact houtput
  -- the second console begins where the restart leads
  let later := withScript (left.2.swept root) (.start root settings.pollMs left.1.2.sources)
    (Reading.ofEvents more)
  have hsecond : runConsole settings first.2 more = (later.1.1, later.2.swept root) := by
    have hswept : first.2.swept root = left.2.swept root := by
      rw [hfirst]
      exact swept_swept left.2 root
    have hload' : loaded settings (first.2.swept root).disk = .ok left.1.2.sources := by
      rw [hswept, ← hreload]
      exact congrArg (fun run => loaded settings run.2.disk) hfirst.symm
    have hnext := runConsole_eq more hload'
    rw [hswept] at hnext
    exact hnext
  obtain ⟨said, hsaid, hwhole⟩ := hmore (Reading.ofEvents more)
  have hscript : Reading.ofEvents (typed ++ typing "restart\n" ++ more) =
      Reading.ofEvents typed ++
        (Reading.ofEvents (typing "restart\n") ++ Reading.ofEvents more) := by
    rw [List.append_assoc, Reading.ofEvents_append hlines,
      Reading.ofEvents_append (by decide +kernel)]
  have hrun := runConsole_eq (typed ++ typing "restart\n" ++ more) hload
  rw [hscript, hwhole] at hrun
  refine ⟨said, ?_, ?_⟩
  · rw [hsecond]
    exact hsaid
  · rw [hrun, hsecond]
    rfl

/-! ## A source that is patched by its path -/

/-- A world with one source. -/
def scriptWorld : World :=
  .ofDisk ((Disk.empty.put ["src"] .directory).put ["src", "a.lua"]
    (.file (Text.Utf8.encode "function f()\nend\n")))

/-- Settings with or without the directory of that source. -/
def scriptSettings (sourceDir : Option Path) : Settings :=
  ⟨⟨"t"⟩, sourceDir, 100⟩

/-- A line that patches the source by its path. -/
def patchLine : List InputEvent :=
  typing "patch src/a.lua:1 x()\n"

/-- The patch of this script is read and obeyed, with and without the source in memory. -/
theorem usesUp_patchLine {tree : SourceTree} (htree : tree = .empty ∨
      tree = SourceTree.empty.insert ⟨"src/a.lua"⟩ "function f()\nend\n") :
    UsesUp (scriptWorld.swept ⟨"t"⟩) (.start ⟨"t"⟩ 100 tree) (Reading.ofEvents patchLine) := by
  rcases htree with rfl | rfl
  all_goals exact usesUp_of_again (by decide +kernel) (by decide +kernel) (by decide +kernel)

/-- Where the directory of the source is loaded, the next console knows of the patch. -/
theorem runConsole_restart_loaded :
    let settings := scriptSettings (some ⟨"src"⟩)
    let first := runConsole settings scriptWorld patchLine
    first.2.disk.read ⟨"src/a.lua"⟩ = .ok (Text.Utf8.encode "function f()\nx()\nend\n") ∧
      ∃ shown, first.2.output = shown ++ "\n" ∧ ∀ more, ∃ said,
        let second := runConsole settings first.2 more
        second.2.output = banner ++ said ∧
        runConsole settings scriptWorld (patchLine ++ typing "restart\n" ++ more) =
          (second.1, second.2.withConsole second.2.input (shown ++ restarted ++ said)) := by
  intro settings first
  have hload : loaded settings (scriptWorld.swept ⟨"t"⟩).disk =
      .ok (SourceTree.empty.insert ⟨"src/a.lua"⟩ "function f()\nend\n") := by decide +kernel
  obtain ⟨shown, -, houtput, hmore⟩ :=
    runConsole_restart (by decide +kernel : EndsLine patchLine) hload
      (usesUp_patchLine (.inr rfl)) (by decide +kernel)
  exact ⟨by decide +kernel, shown, houtput, hmore⟩

/-- Where it is not, the restarted console patches a function that the next one does not find. -/
theorem runConsole_restart_ne :
    let settings := scriptSettings none
    let first := runConsole settings scriptWorld patchLine
    let more := typing "patch f y()\nexit\n"
    let content (run : Except Halt Unit × World) := run.2.disk.read ⟨"src/a.lua"⟩
    (EndsLine patchLine ∧ loaded settings (scriptWorld.swept ⟨"t"⟩).disk = .ok .empty ∧
      UsesUp (scriptWorld.swept ⟨"t"⟩) (.start ⟨"t"⟩ 100 .empty) (Reading.ofEvents patchLine)) ∧
    content (runConsole settings first.2 more) =
      .ok (Text.Utf8.encode "function f()\nx()\nend\n") ∧
    content (runConsole settings scriptWorld (patchLine ++ typing "restart\n" ++ more)) =
      .ok (Text.Utf8.encode "function f()\ny()\nx()\nend\n") :=
  ⟨⟨by decide +kernel, rfl, usesUp_patchLine (.inl rfl)⟩, by decide +kernel, by decide +kernel⟩

end Program

end ScriptMailbox
