import ScriptMailbox.Proofs.Computations
import ScriptMailbox.Proofs.Hosts
import ScriptMailbox.World.Run
import Mathlib.Data.List.Basic

/-!
# The turns of a console

On a world, a turn of the console takes one reading from what will be typed and adds to what has
been shown; what it makes of the reading depends on neither of the two (`turn_append`). A run goes
on from turn to turn until one of them is the last (`exists_last`), so a run can be cut between any
two turns (`GoesOn.serves_eq`), and a stretch of it be played again with other things to be typed
afterwards (`GoesOn.replay`).
-/

namespace ScriptMailbox

namespace World

/-- The world when other things will be typed and have been shown. -/
def withConsole (world : World) (input : List Reading) (output : String) : World :=
  { world with input := input, output := output }

section

variable (world : World) (input more : List Reading) (output text : String)

/-- A world has the console that it has. -/
@[simp] theorem withConsole_self : world.withConsole world.input world.output = world := rfl

/-- Only the last change of the console counts. -/
@[simp] theorem withConsole_withConsole :
    (world.withConsole input output).withConsole more text = world.withConsole more text := rfl

/-- The input is the new one. -/
@[simp] theorem input_withConsole : (world.withConsole input output).input = input := rfl

/-- The output is the new one. -/
@[simp] theorem output_withConsole : (world.withConsole input output).output = output := rfl

/-- The flag stays as it is. -/
@[simp] theorem cancelled_withConsole :
    (world.withConsole input output).cancelled = world.cancelled := rfl

/-- So does the disk. -/
@[simp] theorem disk_withConsole : (world.withConsole input output).disk = world.disk := rfl

end

/-! ## Others, and the console -/

section

variable (world : World) (input : List Reading) (output : String)

/-- The effects of others do not depend on the console. -/
theorem apply_withConsole (effect : Effect) :
    (world.withConsole input output).apply effect =
      (world.apply effect).withConsole input output := by
  cases effect <;> rfl

/-- Those who wait for something do not look at the console. -/
theorem react_withConsole (acts : Reaction → Bool) :
    (world.withConsole input output).react acts =
      (world.react acts).withConsole input output := by
  have hfold (reactions : List Reaction) (world : World) :
      reactions.foldl (fun world reaction =>
          if acts reaction && reaction.trigger.isMet world.disk then world.apply reaction.effect
          else { world with pending := world.pending ++ [reaction] })
          (world.withConsole input output) =
        (reactions.foldl (fun world reaction =>
          if acts reaction && reaction.trigger.isMet world.disk then world.apply reaction.effect
          else { world with pending := world.pending ++ [reaction] }) world).withConsole
            input output := by
    induction reactions generalizing world with
    | nil => rfl
    | cons reaction reactions ih =>
      rw [List.foldl_cons, List.foldl_cons, ← ih, disk_withConsole]
      congr 1
      split_ifs
      · exact apply_withConsole world input output reaction.effect
      · rfl
  exact hfold world.pending { world with pending := [] }

/-- Neither does a wait. -/
theorem await_withConsole (path : Path) :
    (world.withConsole input output).await path =
      ((world.await path).1, (world.await path).2.withConsole input output) := by
  have hhas (world : World) :
      (world.withConsole input output).has path = world.has path := rfl
  have hsettle : (world.withConsole input output).settle =
      world.settle.withConsole input output := react_withConsole world input output _
  have hterminated (world : World) :
      (world.withConsole input output).terminated = world.terminated := rfl
  unfold await
  simp only [hhas, hsettle, hterminated, cancelled_withConsole, react_withConsole]
  split_ifs <;> rfl

/-- Neither does what others do. -/
theorem perform_withConsole (action : Action) :
    ((world.withConsole input output).perform action).2 =
      (world.perform action).2.withConsole input output := by
  cases action <;> rfl

/-- The world after others have acted. -/
def after (actions : List Action) (world : World) : World :=
  actions.foldl (fun world action => (world.perform action).2) world

/-- Neither does the world after several of their acts. -/
theorem after_withConsole (actions : List Action) :
    (world.withConsole input output).after actions =
      (world.after actions).withConsole input output := by
  induction actions generalizing world with
  | nil => rfl
  | cons action actions ih =>
    show ((world.withConsole input output).perform action).2.after actions = _
    rw [perform_withConsole]
    exact ih _

end

end World

/-! ## Work that is blind to the console -/

/-- Whether work neither looks at what will be typed nor at what has been shown: it leaves the one
as it is, and adds to the other. -/
def IsBlind {α : Type} (work : Model α) : Prop :=
  ∀ world : World, ∃ shown, ∀ input output,
    work (world.withConsole input output) =
      ((work world).1, (work world).2.withConsole input (output ++ shown))

/-- Work that shows nothing is blind if it leaves the console as it is. -/
theorem isBlind_silent {α : Type} {work : Model α}
    (h : ∀ world input output, work (world.withConsole input output) =
      ((work world).1, (work world).2.withConsole input output)) : IsBlind work := by
  intro world
  refine ⟨"", fun input output => ?_⟩
  rw [h, String.append_empty]

/-- A text is added to whatever has been shown. -/
theorem isBlind_print (text : String) : IsBlind (Host.print text : Model Unit) :=
  fun _ => ⟨text, fun _ _ => rfl⟩

/-- A change of the disk is blind to the console. -/
theorem isBlind_change (edit : Disk → Except DiskFault Disk) : IsBlind (Model.change edit) := by
  apply isBlind_silent
  intro world input output
  unfold Model.change
  rw [World.disk_withConsole]
  cases edit world.disk <;> rfl

/-- So whatever a session does on a world is blind, one operation after the other. -/
theorem corresponds_isBlind :
    Corresponds (m := Model) (n := Model) fun _ work _ => IsBlind work where
  pure a := isBlind_silent fun _ _ _ => rfl
  bind {_ _ first _ next _} hfirst hnext := by
    intro world
    obtain ⟨shown, hshown⟩ := hfirst world
    obtain ⟨said, hsaid⟩ := hnext (first world).1 (first world).2
    refine ⟨shown ++ said, fun input output => ?_⟩
    have hgoes : (first >>= next) (world.withConsole input output) =
        next (first world).1 ((first world).2.withConsole input (output ++ shown)) :=
      host_bind (hshown input output)
    rw [hgoes, hsaid, String.append_assoc]
    rfl
  kind? path := isBlind_silent fun _ _ _ => rfl
  read path := isBlind_silent fun _ _ _ => rfl
  write path content := isBlind_change _
  makeDirectories path := isBlind_silent fun _ _ _ => rfl
  fileNames path := isBlind_silent fun _ _ _ => rfl
  removeFile path := isBlind_change _
  isCancelled := isBlind_silent fun _ _ _ => rfl
  await path pollMs := isBlind_silent fun world input output =>
    world.await_withConsole input output path

namespace Console

open World

/-! ## One turn -/

/-- What the console makes of a line. -/
def answerLine (line : String) : SessionM Model Turn := do
  let outcome ← observing (obeyLine line)
  afterLine outcome

/-- What the console makes of a line is blind to what else will be typed. -/
theorem isBlind_answerLine (line : String) (session : Session) :
    IsBlind (answerLine line session) := by
  have h := corresponds_isBlind
  have hanswer : Corresponds.In (m := Model) (n := Model) (fun _ work _ => IsBlind work)
      (answerLine line) (answerLine line) :=
    h.bindIn (h.observingIn (h.obeyLine isBlind_print line)) fun outcome =>
      h.afterLine isBlind_print outcome
  exact hanswer session

variable {session session' : Session} {world world' : World}

/-- With the flag up the console quits at once. -/
theorem turn_of_cancelled (session : Session) (h : world.cancelled = true) :
    world.runSession session turn = ((.ok .quit, session), world) := by
  have hup : (Host.isCancelled : Model Bool) world = (true, world) := by
    rw [← h]
    rfl
  rw [runSession, turn, lift_bind hup]
  rfl

/-- The world in which a line is read: others have acted, and the prompt has been shown. -/
def readingOf (session : Session) (reading : Reading) (rest : List Reading) (world : World) :
    World :=
  (world.withConsole rest (world.output ++ promptText session.channel.index)).after
    reading.actions

/-- Asking shows the question and reads a line. -/
theorem ask_of_readLine {question : String} {bytes : Bytes} {after : World}
    (h : (world.withConsole world.input (world.output ++ question)).readLine = (bytes, after)) :
    (ask question : Model (Except Failure (Option String))) world = (lineOf bytes, after) := by
  have hprint : (Host.print question : Model Unit) world =
      ((), world.withConsole world.input (world.output ++ question)) := rfl
  rw [ask, host_bind hprint]
  exact host_bind h

/-- A turn in which the flag is down asks for a line. -/
theorem turn_of_asks (session : Session) (h : world.cancelled = false) :
    world.runSession session turn =
      match world.input with
      | [] => ((.ok .quit, session),
          world.withConsole [] (world.output ++ promptText session.channel.index ++ "\n"))
      | reading :: rest =>
        match lineOf reading.text with
        | .error failure =>
          ((.error (.failed failure), session), readingOf session reading rest world)
        | .ok none => ((.ok .quit, session),
            (readingOf session reading rest world).withConsole
              (readingOf session reading rest world).input
              ((readingOf session reading rest world).output ++ "\n"))
        | .ok (some line) =>
          (readingOf session reading rest world).runSession session (answerLine line) := by
  have hdown : (Host.isCancelled : Model Bool) world = (false, world) := by
    rw [← h]
    rfl
  rw [runSession, turn, lift_bind hdown, if_neg Bool.false_ne_true, bind_ok get_apply]
  cases hinput : world.input with
  | nil =>
    have hread : (world.withConsole world.input
        (world.output ++ promptText session.channel.index)).readLine =
          ([], world.withConsole [] (world.output ++ promptText session.channel.index)) := by
      rw [hinput]
      rfl
    rw [lift_bind (ask_of_readLine hread)]
    rfl
  | cons reading rest =>
    have hread : (world.withConsole world.input
        (world.output ++ promptText session.channel.index)).readLine =
          (reading.text, readingOf session reading rest world) := by
      rw [hinput]
      rfl
    rw [lift_bind (ask_of_readLine hread)]
    dsimp only
    rcases lineOf reading.text with failure | _ | line <;> rfl

/-- The world in which a line is read has the console of that moment. -/
theorem readingOf_withConsole (session : Session) (reading : Reading) (rest : List Reading)
    (world : World) (input : List Reading) (output : String) :
    readingOf session reading rest (world.withConsole input output) =
      (world.after reading.actions).withConsole rest
        (output ++ promptText session.channel.index) := by
  rw [readingOf, withConsole_withConsole, output_withConsole, after_withConsole]

/-- A turn that reads takes the next reading, and it does the same whatever comes behind this
reading and whatever has been shown. -/
theorem turn_reading (session : Session) (reading : Reading) (h : world.cancelled = false) :
    ∃ result, ∃ after : World, ∃ shown, ∀ rest output,
      (world.withConsole (reading :: rest) output).runSession session turn =
        (result, after.withConsole rest (output ++ shown)) := by
  let prompt := promptText session.channel.index
  let read := world.after reading.actions
  have hasks (rest : List Reading) (output : String) :=
    @turn_of_asks (world.withConsole (reading :: rest) output) session h
  simp only [input_withConsole, readingOf_withConsole, withConsole_withConsole,
    output_withConsole] at hasks
  cases hline : lineOf reading.text with
  | error failure =>
    refine ⟨(.error (.failed failure), session), read, prompt, fun rest output => ?_⟩
    rw [hasks, hline]
  | ok asked =>
    cases asked with
    | none =>
      refine ⟨(.ok .quit, session), read, prompt ++ "\n", fun rest output => ?_⟩
      rw [hasks, hline, ← String.append_assoc]
    | some line =>
      obtain ⟨shown, hshown⟩ := isBlind_answerLine line session read
      refine ⟨(read.runSession session (answerLine line)).1,
        (read.runSession session (answerLine line)).2, prompt ++ shown, fun rest output => ?_⟩
      rw [hasks, hline, ← String.append_assoc]
      exact hshown rest (output ++ prompt)

/-- A turn that goes on has taken one reading. -/
theorem input_of_again
    (h : world.runSession session turn = ((.ok .again, session'), world')) :
    ∃ reading, world.input = reading :: world'.input := by
  cases hflag : world.cancelled with
  | true =>
    rw [turn_of_cancelled session hflag] at h
    cases h
  | false =>
    cases hinput : world.input with
    | nil =>
      rw [turn_of_asks session hflag, hinput] at h
      cases h
    | cons reading rest =>
      obtain ⟨result, after, shown, hturn⟩ := turn_reading session reading hflag
      have hself := hturn rest world.output
      rw [← hinput, withConsole_self, h] at hself
      obtain ⟨-, rfl⟩ := Prod.mk.inj hself
      exact ⟨reading, rfl⟩

/-- Unless a turn finds nothing left to read, it does not matter what comes behind what will be
typed, or what has been shown. -/
theorem turn_append (session : Session) (h : world.cancelled = true ∨ world.input ≠ []) :
    ∃ shown, ∀ more output,
      (world.withConsole (world.input ++ more) output).runSession session turn =
        ((world.runSession session turn).1,
          (world.runSession session turn).2.withConsole
            ((world.runSession session turn).2.input ++ more) (output ++ shown)) := by
  cases hflag : world.cancelled with
  | true =>
    refine ⟨"", fun more output => ?_⟩
    have hup : (world.withConsole (world.input ++ more) output).cancelled = true := hflag
    rw [turn_of_cancelled session hflag, turn_of_cancelled session hup, String.append_empty]
  | false =>
    have hne : world.input ≠ [] := h.resolve_left (by rw [hflag]; exact Bool.false_ne_true)
    obtain ⟨reading, rest, hinput⟩ := List.exists_cons_of_ne_nil hne
    obtain ⟨result, after, shown, hturn⟩ := turn_reading session reading hflag
    have hself := hturn rest world.output
    rw [← hinput, withConsole_self] at hself
    refine ⟨shown, fun more output => ?_⟩
    rw [hinput, List.cons_append, hturn, hself]
    rfl

/-! ## Going on -/

/-- Whether a console goes on, turn by turn, from a session and a world to others. -/
inductive GoesOn : Session → World → Session → World → Prop
  | refl (session : Session) (world : World) : GoesOn session world session world
  | step {session between later : Session} {world reached after : World}
    (first : world.runSession session turn = ((.ok .again, between), reached))
    (rest : GoesOn between reached later after) : GoesOn session world later after

/-- A turn after which the console goes on, spelled out. -/
theorem turn_eq_of_again (h : (world.runSession session turn).1.1 = .ok .again) :
    world.runSession session turn =
      ((.ok .again, (world.runSession session turn).1.2), (world.runSession session turn).2) :=
  Prod.ext (Prod.ext h rfl) rfl

/-- A console goes on with its first turn and from there. -/
theorem GoesOn.of_again (h : (world.runSession session turn).1.1 = .ok .again)
    (hrest : GoesOn (world.runSession session turn).1.2 (world.runSession session turn).2
      session' world') : GoesOn session world session' world' :=
  .step (turn_eq_of_again h) hrest

/-- A console does not go on from its last turn. -/
theorem GoesOn.eq_of_last (h : GoesOn session world session' world')
    (hlast : (world.runSession session turn).1.1 ≠ .ok .again) :
    session' = session ∧ world' = world := by
  cases h with
  | refl => exact ⟨rfl, rfl⟩
  | step first rest =>
    rw [first] at hlast
    exact absurd rfl hlast

/-- Each turn takes one reading, and the same turns are taken when other things will be typed after
these readings, and other things have been shown before. -/
theorem GoesOn.replay (h : GoesOn session world session' world') :
    ∃ script shown, world.input = script ++ world'.input ∧
      world'.output = world.output ++ shown ∧
      ∀ rest output, GoesOn session (world.withConsole (script ++ rest) output)
        session' (world'.withConsole rest (output ++ shown)) := by
  induction h with
  | refl session world =>
    refine ⟨[], "", rfl, (String.append_empty).symm, fun rest output => ?_⟩
    rw [String.append_empty, List.nil_append]
    exact .refl session _
  | @step session between later world reached after first rest ih =>
    obtain ⟨script, shown, hinput, houtput, hagain⟩ := ih
    obtain ⟨reading, hreading⟩ := input_of_again first
    have hflag : world.cancelled = false := by
      by_contra hup
      rw [Bool.not_eq_false] at hup
      rw [turn_of_cancelled session hup] at first
      cases first
    obtain ⟨result, read, said, hturn⟩ := turn_reading session reading hflag
    have hself := hturn reached.input world.output
    rw [← hreading, withConsole_self, first] at hself
    obtain ⟨rfl, hreached⟩ := Prod.mk.inj hself
    refine ⟨reading :: script, said ++ shown, ?_, ?_, fun rest output => ?_⟩
    · rw [hreading, hinput, List.cons_append]
    · rw [houtput, hreached, output_withConsole, String.append_assoc]
    · have hfirst := hturn (script ++ rest) output
      have hnext := hagain rest (output ++ said)
      rw [hreached, withConsole_withConsole, String.append_assoc] at hnext
      exact .step hfirst hnext

/-- Every console comes to a last turn. -/
theorem exists_last (session : Session) (world : World) :
    ∃ session' world', GoesOn session world session' world' ∧
      (world'.runSession session' turn).1.1 ≠ .ok .again := by
  induction hlength : world.input.length generalizing session world with
  | zero =>
    refine ⟨session, world, .refl session world, fun hagain => ?_⟩
    obtain ⟨reading, hinput⟩ := input_of_again (turn_eq_of_again hagain)
    rw [hinput, List.length_cons] at hlength
    omega
  | succ length ih =>
    by_cases hagain : (world.runSession session turn).1.1 = .ok .again
    · obtain ⟨reading, hinput⟩ := input_of_again (turn_eq_of_again hagain)
      have hshorter : (world.runSession session turn).2.input.length = length := by
        rw [hinput, List.length_cons] at hlength
        omega
      obtain ⟨session', world', hgoes, hlast⟩ := ih _ _ hshorter
      exact ⟨session', world', .of_again hagain hgoes, hlast⟩
    · exact ⟨session, world, .refl session world, hagain⟩

/-! ## Whole runs -/

/-- The console without its banner. -/
def serves (session : Session) (world : World) : (Except Halt Unit × Session) × World :=
  world.runSession session (turns (world.input.length + 1))

/-- Turns are one turn, and then the others unless it was the last. -/
theorem turns_succ (limit : ℕ) (session : Session) (world : World) :
    world.runSession session (turns (limit + 1)) =
      match world.runSession session turn with
      | ((.ok .again, session'), world') => world'.runSession session' (turns limit)
      | ((.ok .quit, session'), world') => ((.ok (), session'), world')
      | ((.error halt, session'), world') => ((.error halt, session'), world') := by
  unfold runSession
  rw [turns]
  rcases hturn : (turn : SessionM Model Turn) session world with ⟨⟨halt | next, session'⟩, world'⟩
  · rw [bind_error hturn]
  · rw [bind_ok hturn]
    cases next <;> rfl

/-- A run goes on as from the middle of it. -/
theorem GoesOn.serves_eq (h : GoesOn session world session' world') :
    serves session world = serves session' world' := by
  induction h with
  | refl => rfl
  | @step session between later world reached after first rest ih =>
    obtain ⟨reading, hreading⟩ := input_of_again first
    rw [← ih, serves, turns_succ, first, hreading, List.length_cons]
    rfl

/-- A run ends with its last turn. -/
theorem serves_of_last (h : (world.runSession session turn).1.1 ≠ .ok .again) :
    serves session world =
      (((world.runSession session turn).1.1.map fun _ => (),
        (world.runSession session turn).1.2), (world.runSession session turn).2) := by
  rw [serves, turns_succ]
  rcases hturn : world.runSession session turn with ⟨⟨halt | next, session'⟩, world'⟩
  · rfl
  · cases next with
    | again =>
      rw [hturn] at h
      exact absurd rfl h
    | quit => rfl

/-- A run in which nothing is left to be read ends after one more prompt. -/
theorem serves_of_input_eq_nil (session : Session) (hflag : world.cancelled = false)
    (hinput : world.input = []) :
    serves session world =
      ((.ok (), session),
        world.withConsole [] (world.output ++ promptText session.channel.index ++ "\n")) := by
  have hturn := turn_of_asks session hflag
  rw [hinput] at hturn
  rw [serves, turns_succ, hturn]

/-- What has been shown before does not matter for a run. -/
theorem serves_withConsole (session : Session) (world : World) :
    ∃ said, ∀ output,
      serves session (world.withConsole world.input output) =
        ((serves session world).1,
          (serves session world).2.withConsole (serves session world).2.input
            (output ++ said)) := by
  obtain ⟨session', world', hgoes, hlast⟩ := exists_last session world
  obtain ⟨script, shown, hinput, -, hagain⟩ := hgoes.replay
  rw [hgoes.serves_eq]
  by_cases hend : world'.cancelled = true ∨ world'.input ≠ []
  · obtain ⟨said, hsaid⟩ := turn_append session' hend
    refine ⟨shown ++ said, fun output => ?_⟩
    have hgoes' := hagain world'.input output
    have hturn := hsaid [] (output ++ shown)
    rw [List.append_nil, List.append_nil] at hturn
    rw [hinput, hgoes'.serves_eq, serves_of_last hlast, serves_of_last (by rw [hturn]; exact hlast),
      hturn, String.append_assoc]
  · obtain ⟨hflag, hnil⟩ := not_or.mp hend
    rw [Bool.not_eq_true] at hflag
    rw [not_not] at hnil
    refine ⟨shown ++ promptText session'.channel.index ++ "\n", fun output => ?_⟩
    have hgoes' := hagain [] output
    have hflag' : (world'.withConsole [] (output ++ shown)).cancelled = false := hflag
    rw [hinput, hnil, hgoes'.serves_eq, serves_of_input_eq_nil session' hflag hnil,
      serves_of_input_eq_nil session' hflag' rfl]
    simp only [withConsole_withConsole, output_withConsole, input_withConsole, String.append_assoc]

/-- The console with a script, in a world in which nothing has been shown yet. -/
def withScript (world : World) (session : Session) (script : List Reading) :
    (Except Halt Unit × Session) × World :=
  (world.withConsole script "").runSession session World.serve

/-- The console shows its banner and serves. -/
theorem withScript_eq (world : World) (session : Session) (script : List Reading) :
    withScript world session script = serves session (world.withConsole script banner) :=
  rfl

/-- A session before its first exchange. -/
def fresh : Session :=
  .start ⟨"t"⟩ 100 .empty

end Console

end ScriptMailbox
