import ScriptMailbox.Proofs.Console.Serving

/-!
# Scripts that follow one another

A console that has used up a script stands where a console with the rest of the script begins: the
session, the files and what others will do are all that it carries from one line to the next. A
console that stops earlier leaves whatever comes behind unread.
-/

namespace ScriptMailbox

/-- Whether what is typed ends with a whole line. -/
def EndsLine (typed : List InputEvent) : Prop :=
  typed = [] ∨ typed.getLast? = some (.byte 10)

instance (typed : List InputEvent) : Decidable (EndsLine typed) :=
  inferInstanceAs (Decidable (_ ∨ _))

/-- What ends a line ends it without its first events, too. -/
theorem endsLine_of_cons {event : InputEvent} {rest : List InputEvent}
    (h : EndsLine (event :: rest)) : EndsLine rest := by
  cases rest with
  | nil => exact .inl rfl
  | cons next rest =>
    right
    have hlast := h.resolve_left (List.cons_ne_nil _ _)
    rwa [List.getLast?_cons_cons] at hlast

/-- Only a line feed may end a line. -/
theorem rest_ne_nil_of_endsLine {event : InputEvent} {rest : List InputEvent}
    (h : EndsLine (event :: rest)) (hevent : event ≠ .byte 10) : rest ≠ [] := by
  rintro rfl
  have hlast := h.resolve_left (List.cons_ne_nil _ _)
  rw [List.getLast?_singleton, Option.some_inj] at hlast
  exact hevent hlast

namespace Reading

/-- Something that is typed makes at least one reading. -/
theorem ofEvents_ne_nil {typed : List InputEvent} (h : typed ≠ []) : ofEvents typed ≠ [] := by
  cases typed with
  | nil => exact absurd rfl h
  | cons event rest =>
    cases event with
    | byte value =>
      rw [ofEvents]
      split_ifs
      · exact List.cons_ne_nil _ _
      · cases ofEvents rest <;> exact List.cons_ne_nil _ _
    | action action =>
      rw [ofEvents]
      cases ofEvents rest <;> exact List.cons_ne_nil _ _

/-- Behind a whole line a new line begins. -/
theorem ofEvents_append {typed : List InputEvent} (h : EndsLine typed) (more : List InputEvent) :
    ofEvents (typed ++ more) = ofEvents typed ++ ofEvents more := by
  induction typed with
  | nil => rfl
  | cons event rest ih =>
    have hrest := ih (endsLine_of_cons h)
    cases event with
    | byte value =>
      by_cases hfeed : value = 10
      · rw [List.cons_append, ofEvents, ofEvents, if_pos hfeed, if_pos hfeed, hrest,
          List.cons_append]
      · have hne : rest ≠ [] := rest_ne_nil_of_endsLine h fun heq => hfeed (InputEvent.byte.inj heq)
        obtain ⟨reading, readings, hcons⟩ := List.exists_cons_of_ne_nil (ofEvents_ne_nil hne)
        rw [List.cons_append, ofEvents, ofEvents, if_neg hfeed, if_neg hfeed, hrest, hcons]
        rfl
    | action action =>
      have hne : rest ≠ [] := rest_ne_nil_of_endsLine h InputEvent.noConfusion
      obtain ⟨reading, readings, hcons⟩ := List.exists_cons_of_ne_nil (ofEvents_ne_nil hne)
      rw [List.cons_append, ofEvents, ofEvents, hrest, hcons]
      rfl

end Reading

namespace Console

variable {session session' : Session} {world world' : World} {script : List Reading}

/-- Whether the console comes to the end of a script, and would still ask for a line there. -/
def UsesUp (world : World) (session : Session) (script : List Reading) : Prop :=
  ∃ session' world', GoesOn session (world.withConsole script banner) session' world' ∧
    world'.cancelled = false ∧ world'.input = []

/-- Where a script is used up, the next one goes on with the session and the files that are
there. -/
theorem withScript_append_of_usesUp (h : UsesUp world session script) :
    ∃ shown,
      (withScript world session script).1.1 = .ok () ∧
      (withScript world session script).2.output =
        shown ++ promptText (withScript world session script).1.2.channel.index ++ "\n" ∧
      ∀ more, ∃ said,
        let second :=
          withScript (withScript world session script).2 (withScript world session script).1.2 more
        second.2.output = banner ++ said ∧
        withScript world session (script ++ more) =
          (second.1, second.2.withConsole second.2.input (shown ++ said)) := by
  obtain ⟨session', world', hgoes, hflag, hnil⟩ := h
  have hfirst : withScript world session script =
      ((.ok (), session'),
        world'.withConsole [] (world'.output ++ promptText session'.channel.index ++ "\n")) := by
    rw [withScript_eq, hgoes.serves_eq, serves_of_input_eq_nil session' hflag hnil]
  -- what has been typed so far does the same whatever comes behind it
  obtain ⟨typed, shown, hscript, houtput, hagain⟩ := hgoes.replay
  rw [World.input_withConsole, hnil, List.append_nil] at hscript
  rw [World.output_withConsole] at houtput
  rw [hfirst]
  refine ⟨world'.output, rfl, rfl, fun more => ?_⟩
  dsimp only
  obtain ⟨said, hsaid⟩ := serves_withConsole session' (world'.withConsole more banner)
  simp only [World.withConsole_withConsole, World.input_withConsole] at hsaid
  have hfull : withScript world session (script ++ more) =
      serves session' (world'.withConsole more world'.output) := by
    have hgoes' := hagain more banner
    rw [World.withConsole_withConsole, ← hscript, ← houtput] at hgoes'
    rw [withScript_eq, hgoes'.serves_eq]
  refine ⟨said, ?_, ?_⟩
  · rw [withScript_eq, World.withConsole_withConsole, hsaid, World.output_withConsole]
  · rw [hfull, withScript_eq, World.withConsole_withConsole]
    exact hsaid world'.output

/-- Where the console stops before a script is used up, nothing behind it is read. -/
theorem withScript_append_of_not_usesUp (h : ¬ UsesUp world session script)
    (more : List Reading) :
    withScript world session (script ++ more) =
      ((withScript world session script).1,
        (withScript world session script).2.withConsole
          ((withScript world session script).2.input ++ more)
          (withScript world session script).2.output) := by
  obtain ⟨session', world', hgoes, hlast⟩ :=
    exists_last session (world.withConsole script banner)
  have hend : world'.cancelled = true ∨ world'.input ≠ [] := by
    by_contra hnone
    obtain ⟨hflag, hnil⟩ := not_or.mp hnone
    exact h ⟨session', world', hgoes, Bool.not_eq_true _ ▸ hflag, not_not.mp hnil⟩
  obtain ⟨typed, shown, hscript, houtput, hagain⟩ := hgoes.replay
  rw [World.input_withConsole] at hscript
  rw [World.output_withConsole] at houtput
  obtain ⟨said, hturn⟩ := turn_append session' hend
  have hshown : (world'.runSession session' turn).2.output = world'.output ++ said := by
    have hself := hturn [] world'.output
    rw [List.append_nil, List.append_nil, World.withConsole_self] at hself
    exact congrArg (·.2.output) hself
  have hgoes' := hagain (world'.input ++ more) banner
  rw [World.withConsole_withConsole, ← List.append_assoc, ← hscript, ← houtput] at hgoes'
  have hturn' := hturn more world'.output
  rw [withScript_eq, withScript_eq, hgoes.serves_eq, serves_of_last hlast, hgoes'.serves_eq,
    serves_of_last (by rw [hturn']; exact hlast), hturn', ← hshown]

/-- A console with some whole lines and then more: if the lines are used up, it does what the
console with the rest does in the session and the files that the lines leave, and shows the one
after the other, without the prompt for a line that is not there and without a second banner. If
it stops earlier, it does what it does with the lines alone. -/
theorem withScript_append (world : World) (session : Session) {typed : List InputEvent}
    (hlines : EndsLine typed) :
    let first := withScript world session (Reading.ofEvents typed)
    (UsesUp world session (Reading.ofEvents typed) →
      ∃ shown,
        first.1.1 = .ok () ∧
        first.2.output = shown ++ promptText first.1.2.channel.index ++ "\n" ∧
        ∀ more, ∃ said,
          let second := withScript first.2 first.1.2 (Reading.ofEvents more)
          second.2.output = banner ++ said ∧
          withScript world session (Reading.ofEvents (typed ++ more)) =
            (second.1, second.2.withConsole second.2.input (shown ++ said))) ∧
    (¬ UsesUp world session (Reading.ofEvents typed) →
      ∀ more,
        withScript world session (Reading.ofEvents (typed ++ more)) =
          (first.1,
            first.2.withConsole (first.2.input ++ Reading.ofEvents more) first.2.output)) := by
  intro first
  constructor
  · intro hused
    obtain ⟨shown, hok, houtput, hmore⟩ := withScript_append_of_usesUp hused
    refine ⟨shown, hok, houtput, fun more => ?_⟩
    rw [Reading.ofEvents_append hlines]
    exact hmore (Reading.ofEvents more)
  · intro hstops more
    rw [Reading.ofEvents_append hlines]
    exact withScript_append_of_not_usesUp hstops (Reading.ofEvents more)

/-! ## A line that is answered, and a line that ends the console -/

/-- One line is used up if the console goes on after it. -/
theorem usesUp_of_again
    (hagain : ((world.withConsole script banner).runSession session turn).1.1 = .ok .again)
    (hflag : ((world.withConsole script banner).runSession session turn).2.cancelled = false)
    (hnil : ((world.withConsole script banner).runSession session turn).2.input = []) :
    UsesUp world session script :=
  ⟨_, _, .of_again hagain (.refl _ _), hflag, hnil⟩

/-- A script is not used up if the console ends with its first line. -/
theorem not_usesUp_of_last
    (hlast : ((world.withConsole script banner).runSession session turn).1.1 ≠ .ok .again)
    (hscript : script ≠ []) : ¬ UsesUp world session script := by
  rintro ⟨session', world', hgoes, -, hnil⟩
  obtain ⟨rfl, rfl⟩ := hgoes.eq_of_last hlast
  exact hscript hnil

/-- What is typed when a text is typed while nobody else acts. -/
def typing (text : String) : List InputEvent :=
  (Text.Utf8.encode text).map .byte

/-- A line that moves the session on is used up, a line that leaves the console is not. -/
theorem withScript_append_jump :
    let world := World.ofDisk .empty
    let line := typing "jump 3\n"
    let exit := typing "exit\n"
    (EndsLine line ∧ UsesUp world fresh (Reading.ofEvents line) ∧
      ∃ shown said,
        (withScript world fresh (Reading.ofEvents line)).2.output = shown ++ "3 >>> " ++ "\n" ∧
        (withScript world fresh (Reading.ofEvents (line ++ exit))).2.output = shown ++ said) ∧
      EndsLine exit ∧ ¬ UsesUp world fresh (Reading.ofEvents exit) ∧
        (withScript world fresh (Reading.ofEvents (exit ++ line))).1 =
          (withScript world fresh (Reading.ofEvents exit)).1 := by
  intro world line exit
  have hline : EndsLine line := by decide +kernel
  have hexit : EndsLine exit := by decide +kernel
  have hused : UsesUp world fresh (Reading.ofEvents line) :=
    usesUp_of_again (by decide +kernel) (by decide +kernel) (by decide +kernel)
  have hstops : ¬ UsesUp world fresh (Reading.ofEvents exit) :=
    not_usesUp_of_last (by decide +kernel) (by decide +kernel)
  obtain ⟨shown, -, houtput, hmore⟩ := (withScript_append world fresh hline).1 hused
  have hprompt : promptText (withScript world fresh
      (Reading.ofEvents line)).1.2.channel.index = "3 >>> " := by decide +kernel
  rw [hprompt] at houtput
  obtain ⟨said, -, hboth⟩ := hmore exit
  refine ⟨⟨hline, hused, shown, said, houtput, ?_⟩, hexit, hstops, ?_⟩
  · exact congrArg (·.2.output) hboth
  · exact congrArg (·.1) ((withScript_append world fresh hexit).2 hstops line)

end Console

end ScriptMailbox
