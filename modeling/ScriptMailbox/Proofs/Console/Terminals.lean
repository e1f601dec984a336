import ScriptMailbox.Proofs.Hosts
import ScriptMailbox.Proofs.Mailbox.Exits
import ScriptMailbox.Terminal

/-!
# What happens at a terminal

The log of a terminal is made of what the program does and what others do. What the program does is
its deeds: operations on the stage, lines read and texts shown. A part of a session is described by
the deeds with which it may end, whatever others do between them. Only lines that are read use up
what will be typed, so a console comes to its end by itself (`serve_of_lt`).
-/

namespace ScriptMailbox

deriving instance DecidableEq for Note

namespace Note

/-- The program does something on the stage. -/
@[match_pattern]
def did (operation : Operation) : Note :=
  .happened (.own operation)

/-- Whether the program does it. -/
def isDeed : Note → Bool
  | .happened (.others _ _) => false
  | _ => true

/-- What happens on the stage among what is noted. -/
def events (notes : List Note) : List Event :=
  notes.filterMap fun
    | .happened event => some event
    | _ => none

/-- What the program does among what is noted. -/
def deeds (notes : List Note) : List Note :=
  notes.filter isDeed

/-- What happens in two parts of a log happens one after the other. -/
@[simp] theorem events_append (notes more : List Note) :
    events (notes ++ more) = events notes ++ events more :=
  List.filterMap_append

/-- So are the deeds of both parts. -/
@[simp] theorem deeds_append (notes more : List Note) :
    deeds (notes ++ more) = deeds notes ++ deeds more :=
  List.filter_append ..

/-- What has been noted as happening has happened. -/
theorem events_map (happenings : List Event) : events (happenings.map happened) = happenings := by
  induction happenings with
  | nil => rfl
  | cons event happenings ih => exact congrArg (event :: ·) ih

/-- The deeds among what has happened are the program's own operations. -/
theorem deeds_map (happenings : List Event) :
    deeds (happenings.map happened) = (own happenings).map did := by
  induction happenings with
  | nil => rfl
  | cons event happenings ih =>
    cases event with
    | own operation => exact congrArg (did operation :: ·) ih
    | others before after => exact ih

end Note

/-- Whatever the program does on a stage is operations. -/
theorem corresponds_does :
    Corresponds (m := Play) (n := Play) fun _ work _ =>
      ∀ stage : Stage, ∃ operations, stage.Does operations (work stage).2 where
  pure _ stage := ⟨[], .refl stage⟩
  bind hfirst hnext stage := by
    obtain ⟨operations, hdoes⟩ := hfirst stage
    obtain ⟨more, hmore⟩ := hnext _ _
    exact ⟨operations ++ more, hdoes.trans hmore⟩
  kind? path stage := ⟨_, stage.does_look path⟩
  read path stage := by
    obtain ⟨_, _, hrun, hdoes⟩ := Play.read_does stage path
    rw [hrun]
    exact ⟨_, hdoes⟩
  write path content stage := by
    obtain ⟨_, _, hrun, hdoes⟩ := Play.write_does stage path content
    rw [hrun]
    exact ⟨_, hdoes⟩
  makeDirectories path stage := by
    obtain ⟨_, _, hrun, hdoes⟩ := Play.makeDirectories_does stage path
    rw [hrun]
    exact ⟨_, hdoes⟩
  fileNames path stage := by
    obtain ⟨_, _, hrun, hdoes, -⟩ := Play.fileNames_does stage path
    rw [hrun]
    exact ⟨_, hdoes⟩
  removeFile path stage := by
    obtain ⟨_, _, hrun, hdoes⟩ := Play.removeFile_does stage path
    rw [hrun]
    exact ⟨_, hdoes⟩
  isCancelled stage := ⟨_, stage.does_check⟩
  await path _ stage := by
    obtain ⟨tries, ⟨-, _, hdoes⟩ | ⟨-, hdoes⟩ | ⟨-, hdoes, -⟩⟩ := stage.await_cases path
    · exact ⟨_, hdoes⟩
    · exact ⟨_, hdoes⟩
    · exact ⟨_, hdoes⟩

namespace Terminal

open Console (Turn turn turns ask lineOf promptText obeyLine afterLine)
open Note (events deeds did)

/-- Whether the program does some things between two terminals. -/
def Does (before : Terminal) (done : List Note) (after : Terminal) : Prop :=
  ∃ notes, after.log = before.log ++ notes ∧
    before.stage.scene.Becomes (events notes) after.stage.scene ∧ deeds notes = done

variable {before between after : Terminal} {done more : List Note}

/-- Where nothing is noted, nothing has been done. -/
theorem Does.refl (terminal : Terminal) : terminal.Does [] terminal :=
  ⟨[], (List.append_nil _).symm, .nil terminal.stage.scene, rfl⟩

/-- What is done twice in turn is done as a whole. -/
theorem Does.trans (h : before.Does done between) (hmore : between.Does more after) :
    before.Does (done ++ more) after := by
  obtain ⟨notes, hlog, hbecomes, rfl⟩ := h
  obtain ⟨notes', hlog', hbecomes', rfl⟩ := hmore
  refine ⟨notes ++ notes', ?_, ?_, Note.deeds_append ..⟩
  · rw [hlog', hlog, List.append_assoc]
  · rw [Note.events_append]
    exact hbecomes.append hbecomes'

/-- What the program does between two terminals is what the second one has noted since the first. -/
theorem Does.unique (h : before.Does done after) (hmore : before.Does more after) :
    done = more := by
  obtain ⟨notes, hlog, -, rfl⟩ := h
  obtain ⟨notes', hlog', -, rfl⟩ := hmore
  rw [hlog] at hlog'
  rw [List.append_cancel_left hlog']

/-- What is done on the stage is done at the terminal. -/
theorem does_onStage {terminal : Terminal} {operations : List Operation} {stage : Stage}
    (h : terminal.stage.Does operations stage) :
    terminal.Does (operations.map did) { terminal with stage := stage } := by
  obtain ⟨happenings, hhistory, hbecomes, rfl⟩ := h
  refine ⟨happenings.map .happened, ?_, ?_, Note.deeds_map happenings⟩
  · simp only [log, hhistory, List.map_append, List.append_assoc]
  · rw [Note.events_map]
    exact hbecomes

/-- What happens at the console is noted after what others do meanwhile. -/
theorem does_note (terminal : Terminal) {entry : Note} (hdeed : entry.isDeed = true)
    (hevents : events [entry] = []) : terminal.Does [entry] (terminal.note entry) := by
  obtain ⟨happenings, hhistory, hbecomes, hown⟩ := terminal.stage.does_pass
  refine ⟨happenings.map .happened ++ [entry], ?_, ?_, ?_⟩
  · simp only [log, note, hhistory, List.map_append, List.map_nil, List.append_nil,
      List.append_assoc]
  · rw [Note.events_append, Note.events_map, hevents, List.append_nil]
    exact hbecomes
  · rw [Note.deeds_append, Note.deeds_map, hown, List.map_nil, List.nil_append, deeds,
      List.filter_cons_of_pos hdeed, List.filter_nil]

/-- On the stage of a terminal the program does what it does on a stage. -/
theorem corresponds_onStage :
    Corresponds (m := TerminalM) (n := Play) fun _ work play => work = Terminal.onStage play where
  pure _ := rfl
  bind {_ _ first first' next next'} hfirst hnext := by
    subst hfirst
    obtain rfl : next = fun a => Terminal.onStage (next' a) := funext hnext
    rfl
  kind? _ := rfl
  read _ := rfl
  write _ _ := rfl
  makeDirectories _ := rfl
  fileNames _ := rfl
  removeFile _ := rfl
  isCancelled := rfl
  await _ _ := rfl

/-! ## Computations on the host -/

section

variable {α β : Type}

/-- Whether a computation on the host does things and gives a result as described. -/
def Gives (work : TerminalM α) (ends : List Note → α → Prop) : Prop :=
  ∀ terminal, ∃ done, terminal.Does done (work terminal).2 ∧ ends done (work terminal).1

variable {ends : List Note → α → Prop} {leads : List Note → β → Prop}

/-- A result is given without doing anything. -/
theorem gives_pure (a : α) : Gives (pure a) fun done result => done = [] ∧ result = a :=
  fun terminal => ⟨[], .refl terminal, rfl, rfl⟩

/-- What a computation does in two parts, each part does for itself. -/
theorem Gives.bind {first : TerminalM α} {next : α → TerminalM β} (hfirst : Gives first ends)
    (hnext : ∀ done a, ends done a → Gives (next a) fun more => leads (done ++ more)) :
    Gives (first >>= next) leads := by
  intro terminal
  obtain ⟨done, hdoes, hends⟩ := hfirst terminal
  obtain ⟨more, hmore, hleads⟩ := hnext done _ hends (first terminal).2
  exact ⟨done ++ more, hdoes.trans hmore, hleads⟩

/-- A computation that ends in a stricter way ends in a weaker one. -/
theorem Gives.mono {other : List Note → α → Prop} {work : TerminalM α} (h : Gives work ends)
    (himp : ∀ done a, ends done a → other done a) : Gives work other := by
  intro terminal
  obtain ⟨done, hdoes, hends⟩ := h terminal
  exact ⟨done, hdoes, himp done _ hends⟩

/-- An operation of the stage. -/
theorem gives_onStage {play : Play α} {record : α → Operation}
    (h : ∀ stage : Stage, stage.Does [record (play stage).1] (play stage).2) :
    Gives (Terminal.onStage play) fun done result => done = [did (record result)] :=
  fun terminal => ⟨_, does_onStage (h terminal.stage), rfl⟩

/-- A look for a file is noted with what it has found. -/
theorem gives_kind? (path : Path) :
    Gives (Host.kind? path : TerminalM (Option Kind)) fun done found =>
      done = [did (.looked path found)] :=
  gives_onStage fun stage => stage.does_look path

/-- Reading a file is noted with its outcome. -/
theorem gives_read (path : Path) :
    Gives (Host.read path : TerminalM (Except DiskFault Bytes)) fun done result =>
      done = [did (.opened path result)] :=
  gives_onStage fun stage =>
    Stage.does_perform (Scene.view (·.read path)) (.opened path) (fun _ => rfl) stage

/-- So is writing one. -/
theorem gives_write (path : Path) (content : Bytes) :
    Gives (Host.write path content : TerminalM (Except DiskFault Unit)) fun done result =>
      done = [did (.wrote path content result)] :=
  gives_onStage fun stage => Stage.does_perform (Scene.change (·.write path content))
    (.wrote path content) (fun _ => rfl) stage

/-- So is listing a directory. -/
theorem gives_fileNames (path : Path) :
    Gives (Host.fileNames path : TerminalM (Except DiskFault (List String))) fun done result =>
      done = [did (.listed path result)] :=
  gives_onStage fun stage => Stage.does_perform (Scene.view (stage.listing.names path))
    (.listed path) (fun _ => ⟨stage.listing, rfl⟩) stage

/-- So is deleting a file. -/
theorem gives_removeFile (path : Path) :
    Gives (Host.removeFile path : TerminalM (Except DiskFault Unit)) fun done result =>
      done = [did (.removed path result)] :=
  gives_onStage fun stage =>
    Stage.does_perform (Scene.change (·.removeFile path)) (.removed path) (fun _ => rfl) stage

/-- A look at the flag is noted with what it has found. -/
theorem gives_isCancelled :
    Gives (Host.isCancelled : TerminalM Bool) fun done up => done = [did (.checked up)] :=
  gives_onStage Stage.does_check

/-- A text that is shown is noted. -/
theorem gives_print (text : String) :
    Gives (Host.print text : TerminalM Unit) fun done _ => done = [.showed text] :=
  fun terminal => ⟨_, does_note terminal rfl rfl, rfl⟩

/-- A line that is read is noted, also at the end of the input. -/
theorem gives_readLine :
    Gives (Host.readLine : TerminalM Bytes) fun done line => done = [.read line] := by
  rintro ⟨stage, _ | ⟨line, rest⟩, past⟩
  · exact ⟨_, does_note _ rfl rfl, rfl⟩
  · exact ⟨_, does_note ⟨stage, rest, past⟩ rfl rfl, rfl⟩

end

/-! ## Computations on a session -/

section

variable {α β : Type} {ends : List Note → (Except Halt α × Session) × Terminal → Prop}
  {leads : List Note → (Except Halt β × Session) × Terminal → Prop} {session : Session}

/-- Whether a part of a session that begins with some session does things and ends as described. -/
def RunsFrom (session : Session) (work : SessionM TerminalM α)
    (ends : List Note → (Except Halt α × Session) × Terminal → Prop) : Prop :=
  ∀ terminal, ∃ done, terminal.Does done (work session terminal).2 ∧
    ends done (work session terminal)

namespace RunsFrom

/-- A part of a session that comes after another starts where that one ends, or is left out if that
one halts. -/
theorem bind {first : SessionM TerminalM α} {next : α → SessionM TerminalM β}
    (hfirst : RunsFrom session first ends)
    (hnext : ∀ done a reached terminal, ends done ((.ok a, reached), terminal) →
      RunsFrom reached (next a) fun more => leads (done ++ more))
    (hhalt : ∀ done halt reached terminal, ends done ((.error halt, reached), terminal) →
      leads done ((.error halt, reached), terminal)) :
    RunsFrom session (first >>= next) leads := by
  intro terminal
  obtain ⟨done, hdoes, hends⟩ := hfirst terminal
  rcases hrun : first session terminal with ⟨⟨halt | a, session'⟩, terminal'⟩
  · rw [hrun] at hdoes hends
    have hhalts : (first >>= next) session terminal = ((.error halt, session'), terminal') :=
      bind_error hrun
    rw [hhalts]
    exact ⟨done, hdoes, hhalt done halt session' terminal' hends⟩
  · rw [hrun] at hdoes hends
    have hgoes : (first >>= next) session terminal = next a session' terminal' := bind_ok hrun
    rw [hgoes]
    obtain ⟨more, hmore, hleads⟩ := hnext done a session' terminal' hends terminal'
    exact ⟨done ++ more, hdoes.trans hmore, hleads⟩

/-- A part that ends in a stricter way ends in a weaker one. -/
theorem mono {other : List Note → (Except Halt α × Session) × Terminal → Prop}
    {work : SessionM TerminalM α} (h : RunsFrom session work ends)
    (himp : ∀ done run, ends done run → other done run) : RunsFrom session work other := by
  intro terminal
  obtain ⟨done, hdoes, hends⟩ := h terminal
  exact ⟨done, hdoes, himp done _ hends⟩

/-- A result goes on, or halts without doing anything. -/
theorem ofExcept_bind (result : Except Halt α) {next : α → SessionM TerminalM β}
    (hnext : ∀ a, result = .ok a → RunsFrom session (next a) leads)
    (hhalt : ∀ halt terminal, result = .error halt →
      leads [] ((.error halt, session), terminal)) :
    RunsFrom session (ofExcept result >>= next) leads := by
  intro terminal
  have happlies : (ofExcept result : SessionM TerminalM α) session terminal =
      ((result, session), terminal) := ofExcept_apply result
  cases result with
  | error halt =>
    have hhalts : ((ofExcept (.error halt) : SessionM TerminalM α) >>= next) session terminal =
        ((.error halt, session), terminal) := bind_error happlies
    rw [hhalts]
    exact ⟨[], .refl terminal, hhalt halt terminal rfl⟩
  | ok a =>
    have hgoes : ((ofExcept (.ok a) : SessionM TerminalM α) >>= next) session terminal =
        next a session terminal := bind_ok happlies
    rw [hgoes]
    exact hnext a rfl terminal

/-- What follows may depend on the session that it starts from. -/
theorem get_bind {next : Session → SessionM TerminalM β}
    (hnext : RunsFrom session (next session) leads) : RunsFrom session (get >>= next) leads := by
  intro terminal
  have hgoes : (get >>= next) session terminal = next session session terminal :=
    bind_ok get_apply
  rw [hgoes]
  exact hnext terminal

/-- What the host gives is a result. -/
theorem lift_bind {work : TerminalM α} {gives : List Note → α → Prop}
    {next : α → SessionM TerminalM β} (h : Gives work gives)
    (hnext : ∀ done a, gives done a →
      RunsFrom session (next a) fun more => leads (done ++ more)) :
    RunsFrom session (liftM work >>= next) leads := by
  intro terminal
  obtain ⟨done, hdoes, hgives⟩ := h terminal
  have hgoes : (liftM work >>= next) session terminal =
      next (work terminal).1 session (work terminal).2 := ScriptMailbox.lift_bind rfl
  obtain ⟨more, hmore, hleads⟩ := hnext done _ hgives (work terminal).2
  rw [hgoes]
  exact ⟨done ++ more, hdoes.trans hmore, hleads⟩

/-- What becomes of some work is known when it is tried. -/
theorem observing_bind {work : SessionM TerminalM α}
    {next : Except Halt α → SessionM TerminalM β} (h : RunsFrom session work ends)
    (hnext : ∀ done outcome reached terminal, ends done ((outcome, reached), terminal) →
      RunsFrom reached (next outcome) fun more => leads (done ++ more)) :
    RunsFrom session (observing work >>= next) leads := by
  intro terminal
  obtain ⟨done, hdoes, hends⟩ := h terminal
  rcases hrun : work session terminal with ⟨⟨outcome, session'⟩, terminal'⟩
  rw [hrun] at hdoes hends
  have hgoes : (observing work >>= next) session terminal = next outcome session' terminal' :=
    bind_ok (observing_apply hrun)
  obtain ⟨more, hmore, hleads⟩ := hnext done outcome session' terminal' hends terminal'
  rw [hgoes]
  exact ⟨done ++ more, hdoes.trans hmore, hleads⟩

/-- What is done is settled, so two descriptions of it are about the same. -/
theorem and {work : SessionM TerminalM α}
    {other : List Note → (Except Halt α × Session) × Terminal → Prop}
    (h : RunsFrom session work ends) (hother : RunsFrom session work other) :
    RunsFrom session work fun done run => ends done run ∧ other done run := by
  intro terminal
  obtain ⟨done, hdoes, hends⟩ := h terminal
  obtain ⟨done', hdoes', hother⟩ := hother terminal
  obtain rfl := hdoes.unique hdoes'
  exact ⟨done, hdoes, hends, hother⟩

end RunsFrom

/-- Whether a part of a session does things and ends as described. -/
def Runs (work : SessionM TerminalM α)
    (ends : List Note → (Except Halt α × Session) × Terminal → Prop) : Prop :=
  ∀ session terminal, ∃ done, terminal.Does done (work session terminal).2 ∧
    ends done (work session terminal)

/-- What holds from every session holds from each. -/
theorem Runs.runsFrom {work : SessionM TerminalM α} (h : Runs work ends) (session : Session) :
    RunsFrom session work ends :=
  h session

/-- What holds from each session holds from all. -/
theorem runs_of_runsFrom {work : SessionM TerminalM α}
    (h : ∀ session, RunsFrom session work ends) : Runs work ends :=
  h

/-- The rule for parts that come one after the other, from all sessions. -/
theorem Runs.bind {first : SessionM TerminalM α} {next : α → SessionM TerminalM β}
    (hfirst : Runs first ends)
    (hnext : ∀ done a session terminal, ends done ((.ok a, session), terminal) →
      Runs (next a) fun more => leads (done ++ more))
    (hhalt : ∀ done halt session terminal, ends done ((.error halt, session), terminal) →
      leads done ((.error halt, session), terminal)) :
    Runs (first >>= next) leads :=
  fun session => (hfirst.runsFrom session).bind
    (fun done a reached terminal hends => hnext done a reached terminal hends reached) hhalt

/-- A weaker end, from all sessions. -/
theorem Runs.mono {other : List Note → (Except Halt α × Session) × Terminal → Prop}
    {work : SessionM TerminalM α} (h : Runs work ends)
    (himp : ∀ done run, ends done run → other done run) : Runs work other :=
  fun session => (h.runsFrom session).mono himp

/-- A result does nothing. -/
theorem runs_pure (a : α) : Runs (pure a) fun done run => done = [] ∧ run.1.1 = .ok a :=
  fun _ terminal => ⟨[], .refl terminal, rfl, rfl⟩

/-- Neither does a halt. -/
theorem runs_throw (halt : Halt) :
    Runs (throw halt : SessionM TerminalM α) fun done run =>
      done = [] ∧ run.1.1 = .error halt :=
  fun _ terminal => ⟨[], .refl terminal, rfl, rfl⟩

/-- A result goes on or halts, from all sessions. -/
theorem runs_ofExcept_bind (result : Except Halt α) {next : α → SessionM TerminalM β}
    (hnext : ∀ a, result = .ok a → Runs (next a) leads)
    (hhalt : ∀ halt session terminal, result = .error halt →
      leads [] ((.error halt, session), terminal)) :
    Runs (ofExcept result >>= next) leads :=
  fun session => RunsFrom.ofExcept_bind result (fun a hresult => hnext a hresult session)
    fun halt terminal herror => hhalt halt session terminal herror

/-- What follows may depend on the session, whichever it is. -/
theorem runs_get_bind {next : Session → SessionM TerminalM β}
    (hnext : ∀ session, Runs (next session) leads) : Runs (get >>= next) leads :=
  fun session => RunsFrom.get_bind (hnext session session)

/-- What the host gives is a result. -/
theorem runs_lift_bind {work : TerminalM α} {gives : List Note → α → Prop}
    {next : α → SessionM TerminalM β} (h : Gives work gives)
    (hnext : ∀ done a, gives done a → Runs (next a) fun more => leads (done ++ more)) :
    Runs (liftM work >>= next) leads :=
  fun session => RunsFrom.lift_bind h fun done a hgives => hnext done a hgives session

/-- A change of the session does nothing at the terminal. -/
theorem runs_modify_bind {change : Session → Session} {next : PUnit → SessionM TerminalM β}
    (hnext : Runs (next ⟨⟩) leads) : Runs (modify change >>= next) leads := by
  intro session terminal
  have hgoes : (modify change >>= next) session terminal = next ⟨⟩ (change session) terminal :=
    bind_ok rfl
  rw [hgoes]
  exact hnext (change session) terminal

end

/-! ## What will be typed -/

/-- Whether work leaves what will be typed as it is. -/
def KeepsTyped {α : Type} (work : TerminalM α) : Prop :=
  ∀ terminal, (work terminal).2.typed = terminal.typed

/-- What is done on the stage leaves what will be typed as it is. -/
theorem keepsTyped_onStage {α : Type} (play : Play α) : KeepsTyped (onStage play) :=
  fun _ => rfl

/-- So does what is shown. -/
theorem keepsTyped_print (text : String) : KeepsTyped (Host.print text) :=
  fun _ => rfl

/-- Only reading a line uses up what will be typed. -/
theorem corresponds_keepsTyped :
    Corresponds (m := TerminalM) (n := TerminalM) fun _ work _ => KeepsTyped work where
  pure _ _ := rfl
  bind hfirst hnext terminal := (hnext _ _).trans (hfirst terminal)
  kind? _ := keepsTyped_onStage _
  read _ := keepsTyped_onStage _
  write _ _ := keepsTyped_onStage _
  makeDirectories _ := keepsTyped_onStage _
  fileNames _ := keepsTyped_onStage _
  removeFile _ := keepsTyped_onStage _
  isCancelled := keepsTyped_onStage _
  await _ _ := keepsTyped_onStage _

variable {session session' : Session} {terminal terminal' : Terminal}

/-- So does whatever a line makes the console do. -/
theorem keepsTyped_answer (line : String) (session : Session) :
    KeepsTyped
      ((do afterLine (← observing (obeyLine line)) : SessionM TerminalM Turn) session) := by
  have h := corresponds_keepsTyped
  have hanswer : Corresponds.In (m := TerminalM) (n := TerminalM) (fun _ work _ => KeepsTyped work)
      (do afterLine (← observing (obeyLine line))) (do afterLine (← observing (obeyLine line))) :=
    h.bindIn (h.observingIn (h.obeyLine keepsTyped_print line)) fun outcome =>
      h.afterLine keepsTyped_print outcome
  exact hanswer session

/-- Asking takes the next line, and no more. -/
theorem typed_ask (question : String) (terminal : Terminal) :
    ((ask question : TerminalM _) terminal).1 = lineOf (terminal.typed.headD []) ∧
      ((ask question : TerminalM _) terminal).2.typed = terminal.typed.tail := by
  obtain ⟨stage, typed, past⟩ := terminal
  cases typed <;> exact ⟨rfl, rfl⟩

/-- A turn behind which the console goes on has used up a line. -/
theorem typed_of_again
    (h : (turn : SessionM TerminalM Turn) session terminal = ((.ok .again, session'), terminal')) :
    terminal'.typed.length < terminal.typed.length := by
  rcases hlook : (Host.isCancelled : TerminalM Bool) terminal with ⟨up, looked⟩
  have htyped : looked.typed = terminal.typed := by
    rw [← corresponds_keepsTyped.isCancelled terminal, hlook]
  rw [turn, lift_bind hlook] at h
  -- the loop goes on only if the flag is down, a line was there, and it was legible
  cases up with
  | true => cases h
  | false =>
    rw [if_neg Bool.false_ne_true, bind_ok get_apply] at h
    rcases hask : (ask (promptText session.channel.index) : TerminalM _) looked with
      ⟨answer, asked⟩
    obtain ⟨hanswer, hrest⟩ := typed_ask (promptText session.channel.index) looked
    rw [hask, htyped] at hanswer hrest
    obtain rfl : answer = lineOf (terminal.typed.headD []) := hanswer
    rw [lift_bind hask] at h
    have hresult : (Session.orHalt (lineOf (terminal.typed.headD [])) :
        SessionM TerminalM (Option String)) session asked =
          (((lineOf (terminal.typed.headD [])).mapError Halt.failed, session), asked) :=
      ofExcept_apply _
    rcases hline : lineOf (terminal.typed.headD []) with failure | _ | line
    · rw [hline] at hresult h
      rw [bind_error hresult] at h
      cases h
    · rw [hline] at hresult h
      rw [bind_ok hresult] at h
      cases h
    · rw [hline] at hresult h
      rw [bind_ok hresult] at h
      dsimp only at h
      have hkept := keepsTyped_answer line session asked
      rw [h] at hkept
      cases htyped' : terminal.typed with
      | nil =>
        rw [htyped'] at hline
        cases hline
      | cons first rest =>
        rw [htyped', List.tail_cons] at hrest
        rw [hkept, hrest, List.length_cons]
        exact Nat.lt_succ_self _

/-- A run with more turns than there are lines is not cut off. -/
theorem turns_of_lt {limit : ℕ} (hlimit : terminal.typed.length < limit) (more : ℕ) :
    (turns (limit + more) : SessionM TerminalM Unit) session terminal =
      (turns limit : SessionM TerminalM Unit) session terminal := by
  induction limit generalizing session terminal with
  | zero => exact absurd hlimit (Nat.not_lt_zero _)
  | succ limit ih =>
    rw [Nat.succ_add, turns, turns]
    rcases hturn : (turn : SessionM TerminalM Turn) session terminal with
      ⟨⟨halt | next, session'⟩, terminal'⟩
    · rw [bind_error hturn, bind_error hturn]
    · rw [bind_ok hturn, bind_ok hturn]
      cases next with
      | quit => rfl
      | again =>
        have hshorter := typed_of_again hturn
        exact ih (by omega)

/-- The console at a terminal comes to its end by itself: more turns make no difference. -/
theorem serve_of_lt {limit : ℕ} (hlimit : terminal.typed.length < limit) :
    (Console.serve limit : SessionM TerminalM Unit) session terminal = terminal.serves session := by
  obtain ⟨more, rfl⟩ := Nat.exists_eq_add_of_le (Nat.succ_le_of_lt hlimit)
  have hbanner : (Host.print Console.banner : TerminalM Unit) terminal =
      ((), terminal.note (.showed Console.banner)) := rfl
  have hserves : terminal.serves session =
      (Console.serve (terminal.typed.length + 1) : SessionM TerminalM Unit) session terminal := rfl
  rw [hserves, Console.serve, Console.serve, Console.say, lift_bind hbanner, lift_bind hbanner]
  have hstill : (terminal.note (.showed Console.banner)).typed.length <
      terminal.typed.length.succ := Nat.lt_succ_self _
  exact turns_of_lt hstill more

end Terminal

end ScriptMailbox
