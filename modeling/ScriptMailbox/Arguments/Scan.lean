import ScriptMailbox.Arguments.Option

/-!
# Scanning arguments

Arguments are read from left to right. An option without attached value takes the next argument
that does not look like an option itself. Its value is looked at only when the next option comes or
the arguments end, so an unknown argument is noticed before a bad value in front of it.
-/

namespace ScriptMailbox.Arguments

/-- What an argument looks like. -/
inductive Shape
  /-- Two dashes alone: no options follow. -/
  | escape
  /-- Two dashes, a name, and perhaps a value behind an equals sign. -/
  | long (name : List Char) (value : Option (List Char))
  /-- One dash and letters, of which the first decides. -/
  | short (letter : Char)
  /-- Anything else, a single dash included. -/
  | word
  deriving DecidableEq, Repr

/-- The shape of an argument. -/
def Shape.ofArgument (argument : String) : Shape :=
  match argument.toList with
  | ['-', '-'] => escape
  | '-' :: '-' :: rest =>
    match rest.dropWhile (· != '=') with
    | _ :: value => long (rest.takeWhile (· != '=')) (some value)
    | [] => long rest none
  | '-' :: letter :: _ => short letter
  | _ => word

/-- The options that have been given, with their values. -/
abbrev Given := List (Opt × String)

/-- What has been read at a level. -/
structure Progress where
  /-- The options whose values have been accepted. -/
  given : Given
  /-- The option read last, with its value if there is one already. -/
  pending : Option (Opt × Option String)
  deriving DecidableEq, Repr

namespace Progress

/-- Nothing has been read. -/
def start : Progress := ⟨[], none⟩

/-- Whether the next argument may be the value of an option. -/
def awaitsValue (progress : Progress) : Bool :=
  match progress.pending with
  | some (_, none) => true
  | _ => false

end Progress

/-- Accepts an option with its value. No option is given twice at a level. -/
def Given.add (given : Given) (option : Opt) (value : String) : Except Refusal Given :=
  if given.any (·.1 == option) then .error .argumentConflict
  else
    match option.refuses? value with
    | some refusal => .error refusal
    | none => .ok (given ++ [(option, value)])

/-- Looks at the value of the option read last. -/
def Progress.settle (progress : Progress) : Except Refusal Given :=
  match progress.pending with
  | none => .ok progress.given
  | some (_, none) => .error .invalidValue
  | some (option, some value) => progress.given.add option value

/-- The answer to `help` and the words behind it. -/
def helpAbout : List String → Refusal
  | [] => .displayHelp
  | [word] =>
    if word = "help" ∨ (Mode.ofWord? word).isSome then .displayHelp else .invalidSubcommand
  | _ => .invalidSubcommand

/-- The answer to a word that is no value. -/
def strayWord : Level → Refusal
  | none => .invalidSubcommand
  | some _ => .unknownArgument

/-- The answer to an argument behind two dashes. -/
def strayBehindEscape (argument : String) : Level → Refusal
  | none =>
    if argument = "help" ∨ (Mode.ofWord? argument).isSome then .unknownArgument
    else .invalidSubcommand
  | some _ => .unknownArgument

/-- The text that a flag asks for; only the first level shows the version. -/
def display? (level : Level) (long : List Char) : Option Refusal :=
  if long = "help".toList then some .displayHelp
  else if long = "version".toList ∧ level = none then some .displayVersion
  else none

/-- The text that a letter asks for. -/
def displayLetter? (level : Level) (letter : Char) : Option Refusal :=
  if letter = 'h' then some .displayHelp
  else if letter = 'V' ∧ level = none then some .displayVersion
  else none

/-- Shows a text, if the option read last is in order. -/
def Progress.display (progress : Progress) (text : Refusal) : Refusal :=
  match progress.settle with
  | .ok _ => text
  | .error refusal => refusal

/-- What has been read at a level, and the mode with the arguments behind it. -/
abbrev Scanned := Progress × Option (Mode × List String)

/-- Reads the arguments of a level up to a mode or to their end. -/
def scan (level : Level) (progress : Progress) : List String → Except Refusal Scanned
  | [] => .ok (progress, none)
  | argument :: rest =>
    -- an option that awaits its value takes any word, also one that names a mode
    if level = none ∧ ¬progress.awaitsValue ∧ (Mode.ofWord? argument).isSome then
      .ok (progress, (Mode.ofWord? argument).map (·, rest))
    else if level = none ∧ ¬progress.awaitsValue ∧ argument = "help" then
      .error (helpAbout rest)
    else
      match Shape.ofArgument argument with
      | .escape =>
        match rest with
        | [] => .ok (progress, none)
        | stray :: _ => .error (strayBehindEscape stray level)
      | .long name value =>
        match level.option? name, value with
        | some option, some value => do
          let given ← progress.settle
          scan level ⟨← given.add option (String.ofList value), none⟩ rest
        | some option, none => do
          scan level ⟨← progress.settle, some (option, none)⟩ rest
        | none, value =>
          match display? level name with
          | some text => .error (if value.isSome then .tooManyValues else progress.display text)
          | none => .error .unknownArgument
      | .short letter =>
        match displayLetter? level letter with
        | some text => .error (progress.display text)
        | none => .error .unknownArgument
      | .word =>
        match progress.pending with
        | some (option, none) => scan level ⟨progress.given, some (option, some argument)⟩ rest
        | _ => .error (strayWord level)

end ScriptMailbox.Arguments
