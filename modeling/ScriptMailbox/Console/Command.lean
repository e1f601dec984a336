import ScriptMailbox.Mailbox.Index
import ScriptMailbox.Path
import ScriptMailbox.Source.Query
import ScriptMailbox.Text.Blank
import ScriptMailbox.Text.Start

/-!
# Commands

A line typed at the console is a command. A few words and prefixes have a meaning of their own;
every other line is script text for the engine.
-/

namespace ScriptMailbox

/-- What a line asks for. -/
inductive Command
  /-- Nothing. -/
  | empty
  | help
  /-- Leave the console. -/
  | exit
  /-- Sweep the mailbox and start again at index zero. -/
  | restart
  /-- Go on at an index. -/
  | jump (index : Index)
  /-- Send what a file holds. -/
  | file (path : Path)
  /-- Insert a line of script into a function. -/
  | patch (file : Option Path) (query : Query) (text : String)
  /-- Send script text. -/
  | send (text : String)
  deriving DecidableEq, Repr

/-- Why a line is no command. -/
inductive CommandFault
  /-- `jump` is followed by something else than an index. -/
  | noIndex (value : String)
  | noPath
  | noTarget
  | noCode
  deriving DecidableEq, Repr

/-- The fault in words. -/
def CommandFault.message : CommandFault → String
  | noIndex value => "jump needs a non-negative integer, got `" ++ value ++ "`"
  | noPath => "file needs a path"
  | noTarget => "patch needs a target and the code to insert"
  | noCode => "patch needs code to insert"

namespace Command

/-- What the console prints when asked for help. -/
def helpLines : List String :=
  ["Available commands:",
    "  help - Show this help message",
    "  exit - Exit the program",
    "  restart - Clean the transport folder so a new game can be started " ++
      "(same as exiting and restarting)",
    "  jump <number> - Continue from a specific file index after the console was closed while " ++
      "the game kept running. Use the index shown before `>>>`",
    "  file <path> - Send a file with Lua code to the game. End the file with `return <data>` " ++
      "to print the data here",
    "  patch <function|file:line> <code> - Insert a line of code after the header of a loaded " ++
      "function and save the file",
    "  <lua code> - Run Lua code in the game. A `return` statement prints its value here",
    "** Exiting or restarting while the game is running stops the game side until the game is " ++
      "restarted too **"]

/-- The part of a target before its last colon and the line number behind it, if the target has
this form. -/
def fileLine? (target : List Char) : Option (List Char × Nat) :=
  let reversed := target.reverse
  match reversed.dropWhile (· != ':') with
  | ':' :: first :: path =>
    let number := (reversed.takeWhile (· != ':')).reverse
    (Text.Decimal.read? Text.Decimal.bound64 number).map ((first :: path).reverse, ·)
  | _ => none

/-- The patch command of a target and a text. -/
def ofTarget (target text : List Char) : Command :=
  match fileLine? target with
  | some (path, line) => patch (some ⟨String.ofList path⟩) (.line line) (String.ofList text)
  | none => patch none (.name (String.ofList target)) (String.ofList text)

/-- The command that follows `patch`. -/
def parsePatch (rest : List Char) : Except CommandFault Command :=
  let target := rest.takeWhile (!Text.isBlank ·)
  match rest.dropWhile (!Text.isBlank ·) with
  | [] => .error .noTarget
  | _ :: code =>
    let text := Text.trimStart code
    if text.isEmpty then .error .noCode else .ok (ofTarget target text)

/-- The command that a line stands for. -/
def parse (line : String) : Except CommandFault Command :=
  if line = "" then .ok empty
  else if line = "help" then .ok help
  else if line = "exit" then .ok exit
  else if line = "restart" then .ok restart
  else if let some rest := Text.dropStart? "jump ".toList line.toList then
    match Index.read? (Text.trim rest) with
    | some index => .ok (jump index)
    | none => .error (.noIndex (String.ofList (Text.trim rest)))
  else if let some rest := Text.dropStart? "file ".toList line.toList then
    let path := Text.trim rest
    if path.isEmpty then .error .noPath else .ok (file ⟨String.ofList path⟩)
  else if let some rest := Text.dropStart? "patch ".toList line.toList then
    parsePatch (Text.trimStart rest)
  else .ok (send line)

end Command

end ScriptMailbox
