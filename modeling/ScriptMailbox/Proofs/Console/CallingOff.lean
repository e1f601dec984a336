import ScriptMailbox.Proofs.Console.Commands
import ScriptMailbox.Proofs.Console.Serving
import Mathlib.Data.List.Infix

/-!
# Calling off a session

When the cancel flag is raised for good, at whatever point of a run, the console comes to its end:
it looks at the flag before each line, before each request, and while it waits for a response, and
between two looks it does little. What happens after the raise is part of the last stretch of the
run (`serves_called_off`).
-/

namespace ScriptMailbox

open Note (did deeds events)
open Terminal

/-! ## Turns -/

namespace Console

/-- The look at the flag that follows a turn after which the console goes on, if that look finds the
flag up. -/
def lastLook : Except Halt Turn → List Note
  | .ok .again => [did (.checked true)]
  | _ => []

/-- What a turn does: it looks at the flag, and stops if it is up; otherwise what follows its last
look, up to the look that ends the run, is part of a stretch. -/
inductive IsTurn : List Note → Except Halt Turn → Prop
  | stopped : IsTurn [did (.checked true)] (.ok .quit)
  | took {rest shape : List Note} {result : Except Halt Turn} (hshape : IsStretch shape)
    (hsince : IsSince (rest ++ lastLook result) shape) :
    IsTurn (did (.checked false) :: rest) result

/-- What is known at the end of turns: unless a line is no text, they do not fail. -/
structure IsKnown {α : Type} (done : List Note)
    (run : (Except Halt α × Session) × Terminal) : Prop where
  told : IsTold done (haltOf run.1.1) run.1.2 run.2
  failed : ∀ failure, run.1.1 = .error (.failed failure) →
    ∃ line, .read line ∈ done ∧ lineOf line = .error failure

variable {done more rest shape past : List Note} {text : String}

/-- What was done before may be added, if its files were seen. -/
theorem IsKnown.prepend {α : Type} {run : (Except Halt α × Session) × Terminal}
    (h : IsKnown more run) (hseen : IsSeen done) : IsKnown (done ++ more) run := by
  refine ⟨h.told.prepend hseen, fun failure herror => ?_⟩
  obtain ⟨line, hmem, hline⟩ := h.failed failure herror
  exact ⟨line, List.mem_append_right done hmem, hline⟩

/-- Turns that end well have only to have seen their files. -/
theorem isKnown_ok {α : Type} {run : (Except Halt α × Session) × Terminal} {a : α}
    (h : IsSeen done) (hok : run.1.1 = .ok a) : IsKnown done run := by
  refine ⟨?_, fun failure herror => ?_⟩
  · rw [hok]
    exact isTold_none h
  · rw [hok] at herror
    cases herror

/-- What a line does behind the prompt and its reading, up to the next look at the flag. -/
def Answers (index : Index) (line : Bytes) (done : List Note)
    (run : (Except Halt Turn × Session) × Terminal) : Prop :=
  IsKnown done run ∧ ∃ shape, IsStretch shape ∧
    IsSince (.showed (promptText index) :: .read line :: (done ++ lastLook run.1.1)) shape

/-- The look behind a turn is one that finds the flag up, if there is one. -/
theorem lastLook_sublist (result : Except Halt Turn) :
    (lastLook result).Sublist [did (.checked true)] := by
  rcases result with halt | next
  · exact List.nil_sublist _
  · cases next with
    | again => exact List.Sublist.refl _
    | quit => exact List.nil_sublist _

/-- When little has been done for a line, the console may stop or look at the flag again. -/
theorem answers_of_modest {index : Index} {line : Bytes}
    {run : (Except Halt Turn × Session) × Terminal} (hknown : IsKnown done run)
    (hsince : IsSince done rest) (hrest : IsModest 1 rest) : Answers index line done run := by
  refine ⟨hknown, _, .intro index line hrest .quits, ?_⟩
  have hwork : (rest ++ lastLook run.1.1).Sublist (rest ++ [did (.checked true)]) :=
    (List.Sublist.refl rest).append (lastLook_sublist run.1.1)
  exact ((hsince.append (lastLook run.1.1)).mono hwork).prepend
    [.showed (promptText index), .read line]

/-- A failure is reported, and a cancelled exchange ends the console. -/
theorem afterLine_failed (failure : Failure) (session : Session) (terminal : Terminal) :
    ∃ next, (afterLine (.error (.failed failure)) : SessionM TerminalM Turn) session terminal =
        ((.ok next, session), terminal.note (.showed (Report.failedLine failure))) ∧
      ∀ path, failure = .cancelled path → next = .quit := by
  cases failure with
  | cancelled path => exact ⟨.quit, rfl, fun _ _ => rfl⟩
  | _ => exact ⟨.again, rfl, fun path hnever => by cases hnever⟩

/-- A failure is reported within the stretch of its line, behind the look that ends the run if an
exchange has been cancelled. -/
theorem answers_of_failed {index : Index} {line : Bytes} {failure : Failure} {next : Turn}
    {session : Session} {terminal after : Terminal}
    (h : Handles done
      (((.error (.failed failure), session) : Except Halt Turn × Session), terminal))
    (hnext : ∀ path, failure = .cancelled path → next = .quit) :
    Answers index line (done ++ [.showed (Report.failedLine failure)])
      ((.ok next, session), after) := by
  obtain ⟨⟨rest, hsince, hended⟩, htold⟩ := h
  have hseen := htold.seen.append (isSeen_showed (Report.failedLine failure))
  have hreported := hsince.append [.showed (Report.failedLine failure)]
  obtain hmodest | ⟨quiet, path, hhalt, rfl, hquiet⟩ := hended
  · exact answers_of_modest (isKnown_ok hseen rfl) hreported
      (hmodest.concat_lines (isLines_append _))
  · obtain rfl : failure = .cancelled path := Halt.failed.inj hhalt
    obtain rfl : next = .quit := hnext path rfl
    refine ⟨isKnown_ok hseen rfl, _, .intro index line hquiet (.cancels path), ?_⟩
    have hquits : lastLook (.ok .quit) = [] := rfl
    rw [hquits, List.append_nil]
    rw [List.append_assoc] at hreported
    exact hreported.prepend [.showed (promptText index), .read line]

/-- Any other halt than a failure ends the console without a word. -/
theorem answers_of_halt {index : Index} {line : Bytes} {halt : Halt} {session : Session}
    {terminal : Terminal}
    (h : Handles done (((.error halt, session) : Except Halt Turn × Session), terminal))
    (hfailed : ∀ failure, halt ≠ .failed failure) :
    Answers index line done ((.error halt, session), terminal) := by
  obtain ⟨⟨rest, hsince, hended⟩, htold⟩ := h
  refine answers_of_modest ⟨htold, fun failure herror => ?_⟩ hsince ?_
  · exact absurd (Except.error.inj herror) (hfailed failure)
  · obtain hmodest | ⟨quiet, path, hhalt, -⟩ := hended
    · exact hmodest.mono (Nat.zero_le 1)
    · exact absurd hhalt (hfailed _)

/-- When a line has been handled, the console stops, or goes on within the same stretch. -/
theorem answers_afterLine (index : Index) (line : Bytes) {outcome : Except Halt Turn}
    {session : Session} {terminal : Terminal}
    (h : Handles done ((outcome, session), terminal)) :
    let run := (afterLine outcome : SessionM TerminalM Turn) session terminal
    ∃ more, terminal.Does more run.2 ∧ Answers index line (done ++ more) run := by
  have hsilent {run : (Except Halt Turn × Session) × Terminal} (hrun : run.2 = terminal)
      (hanswers : Answers index line done run) :
      ∃ more, terminal.Does more run.2 ∧ Answers index line (done ++ more) run := by
    refine ⟨[], hrun ▸ .refl terminal, ?_⟩
    rwa [List.append_nil]
  cases outcome with
  | ok next =>
    obtain ⟨⟨rest, hsince, hmodest⟩, htold⟩ := h
    exact hsilent rfl (answers_of_modest (isKnown_ok htold.seen rfl) hsince hmodest)
  | error halt =>
    cases halt with
    | failed failure =>
      obtain ⟨next, hafter, hnext⟩ := afterLine_failed failure session terminal
      rw [hafter]
      exact ⟨_, does_note terminal rfl rfl, answers_of_failed h hnext⟩
    | _ => exact hsilent rfl (answers_of_halt h fun _ => Halt.noConfusion)

/-- A line is answered within one stretch. -/
theorem runs_answer (index : Index) (line : Bytes) (asked : String) :
    Runs (do afterLine (← observing (obeyLine asked))) (Answers index line) := by
  intro session terminal
  obtain ⟨done, hdoes, hhandles⟩ := runs_obeyLine asked session terminal
  rcases hrun : (obeyLine asked : SessionM TerminalM Turn) session terminal with
    ⟨⟨outcome, session'⟩, terminal'⟩
  rw [hrun] at hdoes hhandles
  have hgoes : (do afterLine (← observing (obeyLine asked)) : SessionM TerminalM Turn)
      session terminal = (afterLine outcome : SessionM TerminalM Turn) session' terminal' :=
    bind_ok (observing_apply hrun)
  obtain ⟨more, hmore, hanswers⟩ := answers_afterLine index line hhandles
  rw [hgoes]
  exact ⟨done ++ more, hdoes.trans hmore, hanswers⟩

/-- Whoever is asked types a line. -/
theorem gives_ask (question : String) :
    Gives (ask question) fun done answer =>
      ∃ line, done = [.showed question, .read line] ∧ answer = lineOf line := by
  refine (gives_print question).bind ?_
  rintro _ _ rfl
  refine gives_readLine.bind ?_
  rintro _ line rfl
  refine (gives_pure (lineOf line)).mono ?_
  rintro _ _ ⟨rfl, rfl⟩
  exact ⟨line, rfl, rfl⟩

/-- What a turn does behind a look that finds the flag down. -/
theorem took_of_answers {index : Index} {line : Bytes}
    {run : (Except Halt Turn × Session) × Terminal} (h : Answers index line done run) :
    let all := did (.checked false) :: .showed (promptText index) :: .read line :: done
    IsKnown all run ∧ IsTurn all run.1.1 := by
  obtain ⟨hknown, shape, hshape, hsince⟩ := h
  have hseen : IsSeen [did (.checked false), .showed (promptText index), .read line] :=
    isSeen_of_no_opening (by simp)
  exact ⟨hknown.prepend hseen, .took hshape hsince⟩

/-- At the end of what is typed the console stops. -/
theorem runs_end (index : Index) (line : Bytes) :
    Runs (do say "\n"; pure Turn.quit : SessionM TerminalM Turn) (Answers index line) := by
  refine (runs_say "\n").bind ?_ fun _ _ _ _ hends => by cases hends.2
  rintro done _ _ _ ⟨rfl, -⟩
  refine (runs_pure Turn.quit).mono ?_
  rintro _ run ⟨rfl, hok⟩
  exact answers_of_modest (isKnown_ok (isSeen_showed "\n") hok) (isSince_self _)
    (isModest_nil.concat_lines rfl)

/-- A line that is no text ends the console. -/
theorem took_of_illegible {index : Index} {line : Bytes} {failure : Failure} {session : Session}
    {terminal : Terminal} (hline : lineOf line = .error failure) :
    let all := [did (.checked false), .showed (promptText index), .read line]
    let run := (((.error (.failed failure), session) : Except Halt Turn × Session), terminal)
    IsKnown all run ∧ IsTurn all run.1.1 := by
  refine ⟨⟨isTold_failed (isSeen_of_no_opening (by simp)) failure, fun other hother => ?_⟩,
    .took (.intro index line isModest_nil .quits) ?_⟩
  · obtain rfl : failure = other := Halt.failed.inj (Except.error.inj hother)
    exact ⟨line, by simp, hline⟩
  · exact (isSince_self _).mono (List.sublist_append_left _ [did (.checked true)])

/-- A turn stops when it finds the flag up, and otherwise belongs to one stretch. -/
theorem runs_turn : Runs turn fun done run => IsKnown done run ∧ IsTurn done run.1.1 := by
  refine runs_lift_bind gives_isCancelled ?_
  rintro _ up rfl
  cases up with
  | true =>
    refine (runs_pure Turn.quit).mono ?_
    rintro more run ⟨rfl, hok⟩
    have hseen : IsSeen [did (.checked true)] := isSeen_of_no_opening (by simp)
    rw [hok]
    exact ⟨isKnown_ok hseen hok, .stopped⟩
  | false =>
    refine runs_get_bind fun session => ?_
    refine runs_lift_bind (gives_ask (promptText session.channel.index)) ?_
    rintro _ answer ⟨line, rfl, rfl⟩
    cases hanswer : lineOf line with
    | error failure =>
      refine runs_ofExcept_bind _ (fun _ hnever => by cases hnever) fun halt _ _ herror => ?_
      obtain rfl := Except.error.inj herror
      exact took_of_illegible hanswer
    | ok asked? =>
      refine runs_ofExcept_bind _ (fun asked hasked => ?_) fun _ _ _ hnever => by cases hnever
      obtain rfl := Except.ok.inj hasked
      cases asked? with
      | none =>
        exact (runs_end session.channel.index line).mono fun _ _ hanswers =>
          took_of_answers hanswers
      | some asked =>
        exact (runs_answer session.channel.index line asked).mono fun _ _ hanswers =>
          took_of_answers hanswers

/-- Whether what follows the last look that finds the flag down is part of a stretch. -/
def IsCourse (done : List Note) : Prop :=
  ∃ shape, IsStretch shape ∧ IsSince done shape

/-- An earlier part of a course is one if the flag is not seen down behind it. -/
theorem IsCourse.of_append (h : IsCourse (done ++ more)) (hmore : did (.checked false) ∉ more) :
    IsCourse done := by
  obtain ⟨shape, hshape, hsince⟩ := h
  exact ⟨shape, hshape, hsince.of_append hmore⟩

/-- The look that ends a run may come before a turn, and then behind it. -/
theorem IsTurn.course {result : Except Halt Turn} (h : IsTurn done result)
    (hpast : IsCourse (past ++ [did (.checked true)])) :
    IsCourse (past ++ (done ++ lastLook result)) := by
  cases h with
  | stopped => exact hpast
  | @took rest shape result hshape hsince => exact ⟨shape, hshape, hsince.behind past⟩

/-- What holds of each turn holds of all of them. -/
theorem runs_turns (limit : ℕ) (past : List Note)
    (hpast : IsCourse (past ++ [did (.checked true)])) :
    Runs (turns limit) fun done run => IsKnown done run ∧ IsCourse (past ++ done) := by
  induction limit generalizing past with
  | zero =>
    refine (runs_pure ()).mono ?_
    rintro done run ⟨rfl, hok⟩
    rw [List.append_nil]
    exact ⟨isKnown_ok (isSeen_of_no_opening (by simp)) hok, hpast.of_append (by simp [did])⟩
  | succ limit ih =>
    refine runs_turn.bind ?_ ?_
    · rintro done next session terminal ⟨hknown, hturn⟩
      have hcourse := hturn.course hpast
      cases next with
      | quit =>
        refine (runs_pure ()).mono ?_
        rintro more run ⟨rfl, hok⟩
        rw [List.append_nil]
        exact ⟨isKnown_ok hknown.told.seen hok, by simpa [lastLook] using hcourse⟩
      | again =>
        rw [lastLook, ← List.append_assoc] at hcourse
        refine (ih (past ++ done) hcourse).mono ?_
        rintro more run ⟨hends, hcourse⟩
        rw [List.append_assoc] at hcourse
        exact ⟨hends.prepend hknown.told.seen, hcourse⟩
    · rintro done halt session terminal ⟨hknown, hturn⟩
      have hcourse := hturn.course hpast
      exact ⟨⟨hknown.told, fun failure herror => hknown.failed failure (by cases herror; rfl)⟩,
        by simpa [lastLook] using hcourse⟩

end Console

namespace Terminal

open Console (IsCourse IsKnown banner runs_say runs_turns)

variable {notes early late before behind : List Note}

/-- A whole run. -/
theorem runs_serve :
    Runs serve fun done run => IsKnown done run ∧ IsCourse done := by
  have hlines : isLines banner = true := by decide +kernel
  have hbanner : IsCourse ([.showed banner] ++ [did (.checked true)]) := by
    refine ⟨_, .intro .zero [] (isModest_nil.concat_lines hlines) .quits, ?_⟩
    exact (isSince_self _).mono (List.sublist_append_right [_, _] _)
  have hseen : IsSeen [.showed banner] := Console.isSeen_showed banner
  have hserves (limit : ℕ) : Runs (Console.serve limit) fun done run =>
      IsKnown done run ∧ IsCourse done := by
    refine (runs_say banner).bind ?_ fun _ _ _ _ hends => by cases hends.2
    rintro _ _ _ _ ⟨rfl, -⟩
    refine (runs_turns limit _ hbanner).mono ?_
    rintro more run ⟨hknown, hcourse⟩
    exact ⟨hknown.prepend hseen, hcourse⟩
  exact fun session terminal => hserves (terminal.typed.length + 1) session terminal

/-! ## The flag -/

/-- Whether the flag is up after some notes. Only others raise it or take it down. -/
def flagAfter (up : Bool) (notes : List Note) : Bool :=
  notes.foldl (fun
    | _, .happened (.others _ after) => after.cancelled
    | up, _ => up) up

/-- No operation of the program moves the flag. -/
theorem cancelled_of_turns {operation : Operation} {scene reached : Scene}
    (h : operation.Turns scene reached) : reached.cancelled = scene.cancelled := by
  have hchange (edit : Disk → Except DiskFault Disk) (result : Except DiskFault Unit)
      (h : scene.change edit = (result, reached)) : reached.cancelled = scene.cancelled := by
    cases result with
    | ok _ => exact (Scene.change_eq_ok_iff.mp h).2
    | error fault => rw [Scene.eq_of_change_error h]
  cases operation with
  | wrote path content result => exact hchange _ result h
  | removed path result => exact hchange _ result h
  | made path result =>
    obtain rfl := congrArg Prod.snd h
    rfl
  | _ => rw [Operation.Turns.eq_of_view h rfl]

/-- The flag that is read off a log is the one of the last scene. -/
theorem flagAfter_of_becomes {scene reached : Scene}
    (h : scene.Becomes (events notes) reached) :
    flagAfter scene.cancelled notes = reached.cancelled := by
  induction notes generalizing scene with
  | nil =>
    cases h
    rfl
  | cons note notes ih =>
    cases note with
    | read line => exact ih h
    | showed text => exact ih h
    | happened event =>
      cases h with
      | @cons _ between _ _ _ first rest =>
        rw [← ih rest]
        cases event with
        | own operation => rw [cancelled_of_turns first]; rfl
        | others left right =>
          obtain ⟨-, rfl⟩ := first
          rfl

/-- A look at the flag finds it as it is. -/
theorem flagAfter_of_checked {scene reached : Scene} {up : Bool}
    (h : scene.Becomes (events (before ++ did (.checked up) :: behind)) reached) :
    flagAfter scene.cancelled before = up := by
  rw [Note.events_append] at h
  obtain ⟨between, hbefore, hbehind⟩ := h.of_append
  rw [flagAfter_of_becomes hbefore]
  cases hbehind with
  | cons first rest => exact congrArg Prod.fst first

/-- What a run does and how it may end, with the flag as others leave it. -/
theorem serves_ends (scene : Scene) (future : List (List Scene)) (listing : Listing)
    (typed : List Bytes) (session : Session) :
    let run := (opening scene future listing typed).serves session
    scene.Becomes (events run.2.log) run.2.stage.scene ∧ IsKnown (deeds run.2.log) run ∧
      IsCourse (deeds run.2.log) := by
  obtain ⟨done, ⟨notes, hlog, hbecomes, rfl⟩, hends⟩ :=
    runs_serve session (opening scene future listing typed)
  have hall : ((opening scene future listing typed).serves session).2.log = notes := hlog
  dsimp only
  rw [hall]
  exact ⟨hbecomes, hends⟩

/-! ## The end of a session -/

/-- Where the flag stays up, no look finds it down. -/
theorem checked_of_flagAfter {scene reached : Scene}
    (hbecomes : scene.Becomes (events (early ++ late)) reached)
    (hup : ∀ more, more <+: late → flagAfter scene.cancelled (early ++ more) = true) {up : Bool}
    (hmem : did (.checked up) ∈ late) : up = true := by
  obtain ⟨before, behind, rfl⟩ := List.append_of_mem hmem
  rw [← List.append_assoc] at hbecomes
  rw [← flagAfter_of_checked hbecomes]
  exact hup before (List.prefix_append before _)

/-- When the flag is up in the end and every line is a text, only a lack of indexes is left to go
wrong. -/
theorem ends_of_isKnown {run : (Except Halt Unit × Session) × Terminal}
    (hknown : IsKnown (deeds notes) run) (hflag : run.2.stage.scene.cancelled = true)
    (hreads : ∀ line, .read line ∈ notes → ∃ answer, Console.lineOf line = .ok answer) :
    run.1.1 = .ok () ∨
      run.1.1 = .error .exhausted ∧ run.1.2.channel.index.value + 1 = Text.Decimal.bound64 ∧
        ∃ raw, did (.opened (run.1.2.channel.responsePath run.1.2.channel.index) (.ok raw)) ∈
          notes := by
  obtain ⟨⟨-, hexhausted, hunanswered, hterminated⟩, hfailed⟩ := hknown
  rcases hresult : run.1.1 with halt | ⟨⟩
  · have hhalt : haltOf run.1.1 = some halt := by rw [hresult]; rfl
    cases halt with
    | failed failure =>
      obtain ⟨line, hmem, herror⟩ := hfailed failure hresult
      obtain ⟨answer, hanswer⟩ := hreads line (List.mem_of_mem_filter hmem)
      rw [hanswer] at herror
      cases herror
    | exhausted =>
      obtain ⟨hlast, raw, hmem⟩ := hexhausted hhalt
      exact .inr ⟨rfl, hlast, raw, List.mem_of_mem_filter hmem⟩
    | terminated => exact absurd hhalt hterminated
    | unanswered =>
      rw [hunanswered hhalt] at hflag
      cases hflag
  · exact .inl rfl

/-- When the flag is raised for good at whatever point of a run, what is done from then on is
restrained. No look finds the flag down any more, and the first one is followed by nothing but the
report of a cancelled exchange: an exchange that looks at the flag after the raise neither writes a
request nor reads a response. A response is read only right after it has been seen. Unless a line is
no text, the console ends well, except that a response at the last index uses up the indexes. -/
theorem serves_called_off (scene : Scene) (future : List (List Scene)) (listing : Listing)
    (typed : List Bytes) (session : Session) {run : (Except Halt Unit × Session) × Terminal}
    (hrun : (opening scene future listing typed).serves session = run)
    (hlog : run.2.log = early ++ late)
    (hup : ∀ more, more <+: late → flagAfter scene.cancelled (early ++ more) = true) :
    IsRestrained (deeds late) ∧
      (∀ up, did (.checked up) ∈ late → up = true) ∧
      IsSeen (deeds run.2.log) ∧
      ((∀ line, .read line ∈ run.2.log → ∃ answer, Console.lineOf line = .ok answer) →
        run.1.1 = .ok () ∨
          run.1.1 = .error .exhausted ∧ run.1.2.channel.index.value + 1 = Text.Decimal.bound64 ∧
            ∃ raw, did (.opened (run.1.2.channel.responsePath run.1.2.channel.index) (.ok raw)) ∈
              run.2.log) := by
  subst hrun
  obtain ⟨hbecomes, hknown, shape, hshape, hsince⟩ :=
    serves_ends scene future listing typed session
  generalize (opening scene future listing typed).serves session = run at *
  have hflag : run.2.stage.scene.cancelled = true := by
    rw [← flagAfter_of_becomes hbecomes, hlog]
    exact hup late (List.prefix_refl late)
  have hchecks : ∀ up, did (.checked up) ∈ late → up = true := fun up hmem =>
    checked_of_flagAfter (hlog ▸ hbecomes) hup hmem
  have hdown : did (.checked false) ∉ deeds late := by
    intro hmem
    cases hchecks false (List.mem_of_mem_filter hmem)
  have hsuffix : deeds late <:+ deeds run.2.log := by
    rw [hlog, Note.deeds_append]
    exact List.suffix_append _ _
  exact ⟨hshape.restrained (hsince _ hsuffix hdown), hchecks, hknown.told.seen,
    ends_of_isKnown hknown hflag⟩

/-! ## A flag that is raised between a look and a request -/

/-- What others do if they raise the flag right before the root is created for the first line. -/
def raising (disk : Disk) : List (List Scene) :=
  [[], [], [], [], [], [⟨disk, true⟩]]

/-- Where nothing but one legible line is read, every line that is read is a text. -/
theorem lineOf_of_read {notes : List Note}
    (h : ∀ note ∈ notes, note.isRead = true → note = .read (Text.Utf8.encode "a\n")) :
    ∀ line, .read line ∈ notes → ∃ answer, Console.lineOf line = .ok answer := by
  intro line hmem
  obtain rfl := Note.read.inj (h (.read line) hmem rfl)
  have hanswer : Console.lineOf (Text.Utf8.encode "a\n") = .ok (some "a") := by decide +kernel
  exact ⟨_, hanswer⟩

/-- The request is written, and then the exchange is cancelled. The second line is not read. -/
theorem serves_called_off_posting :
    let run := (opening ⟨.empty, false⟩ (raising .empty) .plain
      [Text.Utf8.encode "a\n", Text.Utf8.encode "b\n"]).serves Console.fresh
    let late := run.2.log.drop 6
    IsRestrained (deeds late) ∧ (∀ up, did (.checked up) ∈ late → up = true) ∧
      IsSeen (deeds run.2.log) ∧ run.1.1 = .ok () ∧ late.countP Note.isWrite = 1 ∧
      late.getLast? = some (.showed (Report.failedLine (.cancelled ⟨"t/out0.txt"⟩))) := by
  intro run late
  have hup : ∀ more ∈ late.inits, flagAfter false (run.2.log.take 6 ++ more) = true := by
    decide +kernel
  have hreads : ∀ note ∈ run.2.log, note.isRead = true →
      note = .read (Text.Utf8.encode "a\n") := by decide +kernel
  have hindex : run.1.2.channel.index.value = 0 := by decide +kernel
  obtain ⟨hrestrained, hchecks, hseen, hends⟩ := serves_called_off ⟨.empty, false⟩
    (raising .empty) .plain [Text.Utf8.encode "a\n", Text.Utf8.encode "b\n"] Console.fresh rfl
    (List.take_append_drop 6 run.2.log).symm
    fun more hmore => hup more ((List.mem_inits _ _).mpr hmore)
  refine ⟨hrestrained, hchecks, hseen, ?_, by decide +kernel, by decide +kernel⟩
  obtain hok | ⟨-, hlast, -⟩ := hends (lineOf_of_read hreads)
  · exact hok
  · rw [hindex] at hlast
    cases hlast

/-- A session at the last index. -/
def lastSession : Session :=
  Console.fresh.jump ⟨Text.Decimal.bound64 - 1, by decide⟩

/-- A disk with a response for the last index. -/
def lastAnswered : Disk :=
  (Disk.empty.put ["t"] .directory).put ["t", "out18446744073709551615.txt"]
    (.file (Text.Utf8.encode "preload"))

/-- A run at the last index, in which the flag is raised before the request is written. -/
def lastRun : (Except Halt Unit × Session) × Terminal :=
  (opening ⟨lastAnswered, false⟩ (raising lastAnswered) .plain [Text.Utf8.encode "a\n"]).serves
    lastSession

/-- A session that is called off does not end well when its indexes are used up. -/
theorem called_off_exhausted :
    (∃ early late, lastRun.2.log = early ++ late ∧
      ∀ more, more <+: late → flagAfter false (early ++ more) = true) ∧
    (∀ line, .read line ∈ lastRun.2.log → ∃ answer, Console.lineOf line = .ok answer) ∧
    lastRun.1.1 = .error .exhausted := by
  have hup : ∀ more ∈ (lastRun.2.log.drop 6).inits,
      flagAfter false (lastRun.2.log.take 6 ++ more) = true := by decide +kernel
  have hreads : ∀ note ∈ lastRun.2.log, note.isRead = true →
      note = .read (Text.Utf8.encode "a\n") := by decide +kernel
  have hresult : lastRun.1.1 = .error .exhausted := by decide +kernel
  exact ⟨⟨lastRun.2.log.take 6, lastRun.2.log.drop 6,
    (List.take_append_drop 6 lastRun.2.log).symm,
    fun more hmore => hup more ((List.mem_inits _ _).mpr hmore)⟩, lineOf_of_read hreads, hresult⟩

end Terminal

end ScriptMailbox
