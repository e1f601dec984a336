import ScriptMailbox.Arguments.Scan
import ScriptMailbox.Mailbox.Index
import ScriptMailbox.Path
import ScriptMailbox.Source.Insertion
import ScriptMailbox.Source.Query

/-!
# Requests

A request is what accepted arguments ask for. A general option behind the mode wins over the same
option before it.
-/

namespace ScriptMailbox.Arguments

/-- The function that the arguments select. -/
structure Selector where
  /-- Its name, if it is asked for by name. -/
  function : Option String
  /-- A line inside it, if it is asked for by line. -/
  line : Option Nat
  deriving DecidableEq, Repr

/-- The query of a selector. A name wins, and without name and line the query is for line 0. -/
def Selector.query (selector : Selector) : Query :=
  match selector.function with
  | some name => .name name
  | none => .line (selector.line.getD 0)

/-- What the program is asked to do. -/
inductive Task
  /-- Serve the console. -/
  | repl
  /-- Sweep the mailbox. -/
  | clean
  /-- Make one exchange. -/
  | send (index : Index) (text : Option String) (file : Option Path)
  /-- Show a function. -/
  | locate (file : Path) (selector : Selector)
  /-- Insert a line into a function. -/
  | patch (file : Option Path) (selector : Selector) (text : String) (afterLine : Nat)
  deriving DecidableEq, Repr

/-- What the arguments ask for. -/
structure Request where
  /-- The mailbox. -/
  rootDir : Option Path
  /-- The sources to patch. -/
  sourceDir : Option Path
  /-- The time between two looks at the mailbox, in milliseconds. -/
  pollMs : Nat
  /-- The task, if a mode is given. -/
  task : Option Task
  deriving DecidableEq, Repr

/-- The time between two looks at the mailbox unless another is asked for. -/
def defaultPollMs : Nat := 100

namespace Given

/-- Whether an option is given. -/
def has (given : Given) (option : Opt) : Bool :=
  given.any (·.1 == option)

/-- The value of an option. -/
def value? (given : Given) (option : Opt) : Option String :=
  given.lookup option

/-- The path that is the value of an option. -/
def path? (given : Given) (option : Opt) : Option Path :=
  (given.value? option).map Path.mk

/-- The number that is the value of an option. -/
def number? (given : Given) (option : Opt) : Option Nat :=
  (given.value? option).bind fun value =>
    Text.Decimal.read? Text.Decimal.bound64 value.toList

/-- The function that the options select. -/
def selector (given : Given) : Selector :=
  ⟨given.value? .function, given.number? .line⟩

/-- What a mode misses or cannot combine. Two options that exclude each other are noticed first. -/
def fault? (given : Given) : Mode → Option Refusal
  | .repl | .clean => none
  | .send =>
    if given.has .text && given.has .file then some .argumentConflict
    else if given.has .text || given.has .file then none
    else some .missingRequiredArgument
  | .locate =>
    if given.has .function && given.has .line then some .argumentConflict
    else if given.has .file && (given.has .function || given.has .line) then none
    else some .missingRequiredArgument
  | .patch =>
    if given.has .function && given.has .line then some .argumentConflict
    else if given.has .text && (given.has .function || given.has .line) then none
    else some .missingRequiredArgument

/-- The task of a mode. -/
def task (given : Given) : Mode → Task
  | .repl => .repl
  | .clean => .clean
  | .send =>
    .send (((given.value? .seq).bind (Index.read? ·.toList)).getD .zero) (given.value? .text)
      (given.path? .file)
  | .locate => .locate ((given.path? .file).getD ⟨""⟩) given.selector
  | .patch =>
    .patch (given.path? .file) given.selector ((given.value? .text).getD "")
      ((given.number? .afterLine).getD Source.defaultAfterLine)

end Given

/-- The request of the options before the mode and of those behind it. -/
def Request.ofGiven (before behind : Given) (task : Option Task) : Request where
  rootDir := (behind.path? .rootDir).or (before.path? .rootDir)
  sourceDir := (behind.path? .sourceDir).or (before.path? .sourceDir)
  pollMs := ((behind.number? .pollMs).or (before.number? .pollMs)).getD defaultPollMs
  task := task

/-- The options behind a mode. -/
def readMode (mode : Mode) (arguments : List String) : Except Refusal Given := do
  let (progress, _) ← scan (some mode) .start arguments
  let given ← progress.settle
  match given.fault? mode with
  | some refusal => .error refusal
  | none => .ok given

/-- The request that the arguments make. What stands behind the mode is judged first. -/
def parse (arguments : List String) : Except Refusal Request := do
  let (progress, rest) ← scan none .start arguments
  match rest with
  | none => return .ofGiven (← progress.settle) [] none
  | some (mode, rest) =>
    let behind ← readMode mode rest
    return .ofGiven (← progress.settle) behind (some (behind.task mode))

end ScriptMailbox.Arguments
