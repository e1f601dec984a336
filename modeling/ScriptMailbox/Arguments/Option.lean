import ScriptMailbox.Text.Decimal

/-!
# Options of the command line

Each option takes one value. Some modes have options of their own; the general options may stand
before and behind the mode.
-/

namespace ScriptMailbox.Arguments

/-- Why the arguments are not carried out. The two display refusals ask for a text instead. -/
inductive Refusal
  | unknownArgument
  | invalidSubcommand
  | invalidValue
  | valueValidation
  | argumentConflict
  | missingRequiredArgument
  | tooManyValues
  | displayHelp
  | displayVersion
  deriving DecidableEq, Repr

/-- The name of a refusal. -/
def Refusal.kind : Refusal → String
  | unknownArgument => "UnknownArgument"
  | invalidSubcommand => "InvalidSubcommand"
  | invalidValue => "InvalidValue"
  | valueValidation => "ValueValidation"
  | argumentConflict => "ArgumentConflict"
  | missingRequiredArgument => "MissingRequiredArgument"
  | tooManyValues => "TooManyValues"
  | displayHelp => "DisplayHelp"
  | displayVersion => "DisplayVersion"

/-- The exit code of a refusal: showing a text is no error. -/
def Refusal.exitCode : Refusal → Nat
  | displayHelp | displayVersion => 0
  | _ => 2

/-- The options. -/
inductive Opt
  | rootDir
  | sourceDir
  | pollMs
  | seq
  | text
  | file
  | function
  | line
  | afterLine
  deriving DecidableEq, Repr

namespace Opt

/-- How an option is written behind two dashes. -/
def spelling : Opt → String
  | rootDir => "root-dir"
  | sourceDir => "source-dir"
  | pollMs => "poll-ms"
  | seq => "seq"
  | text => "text"
  | file => "file"
  | function => "function"
  | line => "line"
  | afterLine => "after-line"

/-- What an option refuses as its value: paths must not be empty, and numbers must be written in
digits and fit 64 bits. Texts may be anything. -/
def refuses? (value : String) : Opt → Option Refusal
  | rootDir | sourceDir | file => if value = "" then some .invalidValue else none
  | pollMs | seq | line | afterLine =>
    match Text.Decimal.read? Text.Decimal.bound64 value.toList with
    | some _ => none
    | none => some .valueValidation
  | text | function => none

end Opt

/-- The modes of the program. -/
inductive Mode
  | repl
  | send
  | locate
  | patch
  | clean
  deriving DecidableEq, Repr

namespace Mode

/-- The word that selects a mode. -/
def word : Mode → String
  | repl => "repl"
  | send => "send"
  | locate => "locate"
  | patch => "patch"
  | clean => "clean"

/-- All modes. -/
def all : List Mode := [repl, send, locate, patch, clean]

/-- The mode that a word selects. -/
def ofWord? (text : String) : Option Mode :=
  all.find? (·.word == text)

/-- The options of a mode alone. -/
def ownOptions : Mode → List Opt
  | repl | clean => []
  | send => [.seq, .text, .file]
  | locate => [.file, .function, .line]
  | patch => [.file, .function, .line, .text, .afterLine]

end Mode

/-- The options that stand before or behind the mode. -/
def generalOptions : List Opt := [.rootDir, .sourceDir, .pollMs]

/-- A level of the arguments: `none` before the mode, and the mode behind it. -/
abbrev Level := Option Mode

/-- The options of a level. -/
def Level.options : Level → List Opt
  | none => generalOptions
  | some mode => generalOptions ++ mode.ownOptions

/-- The option of a level with a spelling. -/
def Level.option? (level : Level) (name : List Char) : Option Opt :=
  level.options.find? (·.spelling.toList == name)

end ScriptMailbox.Arguments
