import ScriptMailbox.Proofs.Arguments.Spellings

/-!
# What the arguments choose

Some modes need exactly one of two options: a text or a file to send, the name of a function or a
line inside it. Where arguments are accepted, exactly one argument among all of them writes one of
the two (`Chooses`), and the value that counts is the one that is written there.
-/

namespace ScriptMailbox.Arguments

variable {level : Level} {mode : Mode} {option other : Opt} {argument value : String}
  {arguments rest written : List String} {given before behind : Given} {awaited : Option Opt}
  {next : Option (Mode × List String)}

/-! ## Options among arguments -/

/-- Whether an argument writes an option, with or without its value. -/
def Opt.IsWrittenBy (option : Opt) (argument : String) : Prop :=
  argument = option.flag ∨ ∃ value, argument = option.assignment value

/-- An argument writes an option if it is read as that option, with or without a value. -/
theorem Opt.isWrittenBy_iff :
    option.IsWrittenBy argument ↔
      ∃ text, Shape.ofArgument argument = .long option.spelling.toList text := by
  constructor
  · rintro (rfl | ⟨value, rfl⟩)
    · exact ⟨none, Shape.ofArgument_flag option⟩
    · exact ⟨some value.toList, Shape.ofArgument_assignment option value⟩
  · rintro ⟨_ | text, hshape⟩
    · refine .inl (String.toList_inj.mp ?_)
      rw [Shape.toList_of_long hshape]
      simp [Opt.flag]
    · refine .inr ⟨String.ofList text, String.toList_inj.mp ?_⟩
      rw [Shape.toList_of_long hshape]
      simp [Opt.assignment, Opt.flag]

instance (option : Opt) (argument : String) : Decidable (option.IsWrittenBy argument) :=
  match hshape : Shape.ofArgument argument with
  | .long name text =>
    if h : name = option.spelling.toList then
      .isTrue (Opt.isWrittenBy_iff.mpr ⟨text, h ▸ hshape⟩)
    else .isFalse fun hwritten => by
      obtain ⟨text', htext⟩ := Opt.isWrittenBy_iff.mp hwritten
      cases hshape.symm.trans htext
      exact h rfl
  | .escape | .short _ | .word => .isFalse fun hwritten => by
      obtain ⟨text, htext⟩ := Opt.isWrittenBy_iff.mp hwritten
      cases hshape.symm.trans htext

/-- How many arguments write an option. -/
def Opt.timesIn (option : Opt) (arguments : List String) : ℕ :=
  arguments.countP (option.IsWrittenBy ·)

/-- Whether an option stands among the arguments with a value. -/
def Opt.IsGivenIn (option : Opt) (value : String) (arguments : List String) : Prop :=
  option.assignment value ∈ arguments ∨ [option.flag, value] <:+: arguments

/-- An option that stands alone writes itself. -/
theorem Opt.isWrittenBy_flag : option.IsWrittenBy other.flag ↔ other = option := by
  rw [isWrittenBy_iff, Shape.ofArgument_flag]
  constructor
  · rintro ⟨text, htext⟩
    exact Opt.spelling_injective (Shape.long.inj htext).1
  · rintro rfl
    exact ⟨none, rfl⟩

/-- So does one with its value. -/
theorem Opt.isWrittenBy_assignment :
    option.IsWrittenBy (other.assignment value) ↔ other = option := by
  rw [isWrittenBy_iff, Shape.ofArgument_assignment]
  constructor
  · rintro ⟨text, htext⟩
    exact Opt.spelling_injective (Shape.long.inj htext).1
  · rintro rfl
    exact ⟨_, rfl⟩

/-- A value writes no option. -/
theorem Opt.not_isWrittenBy_value (h : IsValue argument) : ¬option.IsWrittenBy argument := by
  rw [isWrittenBy_iff, Shape.ofArgument_eq_word_iff.mpr h]
  simp

/-- What is given in some of the arguments is given in all of them. -/
theorem Opt.IsGivenIn.of_isInfix {inner : List String} (h : option.IsGivenIn value inner)
    (hinner : inner <:+: arguments) : option.IsGivenIn value arguments := by
  rcases h with hmem | hpair
  · exact .inl (hinner.subset hmem)
  · exact .inr (hpair.trans hinner)

/-! ## Options that have been spelled -/

/-- What is written before the value of an option that is awaited. -/
def named (awaited : Option Opt) : List String :=
  (awaited.map Opt.flag).toList

/-- Each option with a value is written in one argument. -/
theorem Spells.timesIn (h : Spells awaited written given) (option : Opt) :
    option.timesIn (named awaited ++ written) = (given.map Prod.fst).count option := by
  induction h with
  | nil => rfl
  | @assignment arguments given other value _ ih =>
    rw [List.map_cons, List.count_cons, ← ih]
    simp [named, Opt.timesIn, List.countP_cons, Opt.isWrittenBy_assignment]
  | flag _ ih => exact ih
  | @value arguments given other value hvalue _ ih =>
    rw [List.map_cons, List.count_cons, ← ih]
    simp [named, Opt.timesIn, List.countP_cons, Opt.isWrittenBy_flag,
      Opt.not_isWrittenBy_value hvalue]

/-- An option that has got a value stands there with it. -/
theorem Spells.isGivenIn (h : Spells awaited written given) (hmem : (option, value) ∈ given) :
    option.IsGivenIn value (named awaited ++ written) := by
  induction h with
  | nil => cases hmem
  | assignment other text _ ih =>
    rcases List.mem_cons.mp hmem with heq | hmem
    · cases heq
      exact .inl List.mem_cons_self
    · exact (ih hmem).of_isInfix (List.infix_cons (List.infix_refl _))
  | flag _ ih => exact ih hmem
  | value other _ _ ih =>
    rcases List.mem_cons.mp hmem with heq | hmem
    · cases heq
      exact .inr ⟨[], _, rfl⟩
    · exact (ih hmem).of_isInfix (List.infix_cons (List.infix_cons (List.infix_refl _)))

/-! ## Options of a level -/

/-- The word of a mode writes no option. -/
theorem Opt.not_isWrittenBy_word (mode : Mode) : ¬option.IsWrittenBy mode.word :=
  Opt.not_isWrittenBy_value (isValue_word mode)

/-- What a level ends with writes nothing but what stands behind the mode. -/
theorem Ends.timesIn (h : Ends level rest next) (option : Opt) :
    option.timesIn rest = next.elim 0 (option.timesIn ·.2) := by
  cases h with
  | nothing => rfl
  | dashes =>
    have hshape : Shape.ofArgument "--" = .escape := by decide
    simp [Opt.timesIn, Opt.isWrittenBy_iff, hshape]
  | mode mode rest =>
    simp [Opt.timesIn, Opt.not_isWrittenBy_word]

namespace Level.Reads

/-- The options of a level are written once each. -/
theorem timesIn (h : level.Reads arguments given next) (option : Opt) :
    option.timesIn arguments =
      (if given.has option then 1 else 0) + next.elim 0 (option.timesIn ·.2) := by
  obtain ⟨hadmits, written, rest, rfl, hspells, hends⟩ := h
  have hhas : given.has option = true ↔ option ∈ given.map Prod.fst := by
    simp [Given.has]
  have hwritten : option.timesIn written = if given.has option then 1 else 0 := by
    rw [← List.nil_append written]
    exact (hspells.timesIn option).trans (by simp only [hadmits.nodup.count, hhas])
  rw [Opt.timesIn, List.countP_append, ← Opt.timesIn, ← Opt.timesIn, hwritten, hends.timesIn]

/-- A value that has been read for an option is given by the arguments. -/
theorem isGivenIn (h : level.Reads arguments given next)
    (hvalue : given.value? option = some value) : option.IsGivenIn value arguments := by
  obtain ⟨-, written, rest, rfl, hspells, -⟩ := h
  obtain ⟨early, late, rfl, -⟩ := List.lookup_eq_some_iff.mp hvalue
  exact (hspells.isGivenIn (by simp)).of_isInfix (List.prefix_append _ _).isInfix

/-- What stands behind the mode stands at the end. -/
theorem isSuffix (h : level.Reads arguments given (some (mode, rest))) : rest <:+ arguments := by
  obtain ⟨-, written, _, rfl, -, hends⟩ := h
  cases hends
  exact ⟨written ++ [mode.word], by simp⟩

/-- General options alone stand before the mode. -/
theorem not_has (h : Level.Reads none arguments given next) (hoption : option ∉ generalOptions) :
    given.has option = false := by
  rw [Given.has, List.any_eq_false]
  intro entry hentry heq
  rw [← eq_of_beq heq] at hoption
  exact hoption (h.1.options entry hentry)

end Level.Reads

/-! ## One of two options -/

/-- The two options of which a mode needs exactly one. -/
def Mode.choice? : Mode → Option (Opt × Opt)
  | .repl | .clean => none
  | .send => some (.text, .file)
  | .locate | .patch => some (.function, .line)

/-- Whether exactly one argument writes one of two options. -/
def Chooses (arguments : List String) (option other : Opt) : Prop :=
  option.timesIn arguments + other.timesIn arguments = 1

/-- The options that a mode chooses between are its own. -/
theorem Mode.not_general_of_choice (h : mode.choice? = some (option, other)) :
    option ∉ generalOptions ∧ other ∉ generalOptions := by
  cases mode <;> cases h <;> decide

/-- A mode that is not refused has been given exactly one of its two options. -/
theorem has_eq_not_of_choice (h : mode.choice? = some (option, other))
    (hfault : given.fault? mode = none) : given.has option = !given.has other := by
  cases mode with
  | repl | clean => cases h
  | send =>
    cases h
    rw [Given.fault?] at hfault
    cases htext : given.has .text <;> cases hfile : given.has .file <;>
      simp [htext, hfile] at hfault ⊢
  | locate | patch =>
    cases h
    rw [Given.fault?] at hfault
    cases hname : given.has .function <;> cases hline : given.has .line <;>
      simp [hname, hline] at hfault ⊢

/-- An option has no value exactly if it has not been given. -/
theorem value?_eq_none_iff : given.value? option = none ↔ given.has option = false := by
  rw [Given.value?, List.lookup_eq_none_iff, Given.has, List.any_eq_false]
  simp only [bne_iff_ne, beq_iff_eq]
  exact forall₂_congr fun entry _ => ne_comm

/-- Exactly one of the two options is written, and its value counts. -/
theorem chooses_of_reads (hbefore : Level.Reads none arguments before (some (mode, rest)))
    (hbehind : Level.Reads (some mode) rest behind none) (hfault : behind.fault? mode = none)
    (hchoice : mode.choice? = some (option, other)) :
    Chooses arguments option other ∧
      ((∃ value, option.IsGivenIn value arguments ∧ behind.value? option = some value ∧
          behind.value? other = none) ∨
        ∃ value, other.IsGivenIn value arguments ∧ behind.value? option = none ∧
          behind.value? other = some value) := by
  have hhas := has_eq_not_of_choice hchoice hfault
  obtain ⟨hoption, hother⟩ := Mode.not_general_of_choice hchoice
  -- options of a mode are never written in front of its name
  have htimes (either : Opt) (heither : either ∉ generalOptions) :
      either.timesIn arguments = if behind.has either then 1 else 0 := by
    rw [hbefore.timesIn, hbefore.not_has heither]
    simp [hbehind.timesIn]
  have hgiven (either : Opt) {value : String} (hvalue : behind.value? either = some value) :
      either.IsGivenIn value arguments :=
    (hbehind.isGivenIn hvalue).of_isInfix hbefore.isSuffix.isInfix
  constructor
  · rw [Chooses, htimes option hoption, htimes other hother, hhas]
    cases behind.has other <;> rfl
  · cases hcase : behind.has other with
    | false =>
      rw [hcase] at hhas
      cases hvalue : behind.value? option with
      | none => cases hhas.symm.trans (value?_eq_none_iff.mp hvalue)
      | some value =>
        exact .inl ⟨value, hgiven option hvalue, rfl, value?_eq_none_iff.mpr hcase⟩
    | true =>
      rw [hcase] at hhas
      cases hvalue : behind.value? other with
      | none => cases hcase.symm.trans (value?_eq_none_iff.mp hvalue)
      | some value =>
        exact .inr ⟨value, hgiven other hvalue, value?_eq_none_iff.mpr hhas, rfl⟩

end ScriptMailbox.Arguments
