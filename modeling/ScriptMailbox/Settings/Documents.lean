import ScriptMailbox.Path
import ScriptMailbox.Text.Start

/-!
# The documents directory

A desktop lists the directories of its user in a file of lines such as
`XDG_DOCUMENTS_DIR="$HOME/Documents"`. A value is quoted, lies below the home directory or is
absolute, and escapes a character with a backslash. The home directory itself means that there is
no such directory. Lines are read up to the first one that names the documents directory.
-/

namespace ScriptMailbox

/-- What is known of the documents directory of a user. -/
inductive Documents
  /-- None is named. -/
  | absent
  | found (directory : Path)
  /-- A line of the listing cannot be taken apart, so that nothing behind it is known. -/
  | malformed
  deriving DecidableEq, Repr

namespace Documents

/-- A text without the spaces and tabs at its ends. -/
def trimSpaces (text : List Char) : List Char :=
  let isSpace (c : Char) : Bool := c == ' ' || c == '\t'
  ((text.dropWhile isSpace).reverse.dropWhile isSpace).reverse

/-- A text whose escapes have been carried out. -/
def unescaped : List Char → List Char
  | [] => []
  | ['\\'] => []
  | '\\' :: c :: rest => c :: unescaped rest
  | c :: rest => c :: unescaped rest

/-- The key of the documents directory. -/
def key : List Char := "XDG_DOCUMENTS_DIR".toList

/-- The key without the name of a directory, whose start and end overlap. -/
def namelessKey : List Char := "XDG_DIR".toList

/-- The directory that a text between quotes stands for. -/
def ofQuoted (home : Path) (text : List Char) : Documents :=
  match Text.dropStart? "$HOME/".toList text with
  | some [] => absent
  | some rest => found (home.join (String.ofList (unescaped rest)))
  | none => if text.head? = some '/' then found ⟨String.ofList (unescaped text)⟩ else absent

/-- The directory that a value stands for. A single quote both opens and closes the value. -/
def ofValue (home : Path) (value : List Char) : Documents :=
  if value = ['"'] then malformed
  else
    match (Text.dropStart? ['"'] value).bind (Text.dropEnd? ['"']) with
    | some text => ofQuoted home text
    | none => absent

/-- What a line says about the documents directory. -/
def ofLine (home : Path) (line : List Char) : Documents :=
  match line.dropWhile (· != '=') with
  | _ :: value =>
    let given := trimSpaces (line.takeWhile (· != '='))
    if given = namelessKey then malformed
    else if given = key then ofValue home (trimSpaces value)
    else absent
  | [] => absent

/-- What the first line with something to say tells. -/
def ofLines (home : Path) : List (List Char) → Documents
  | [] => absent
  | line :: rest =>
    match ofLine home line with
    | absent => ofLines home rest
    | known => known

/-- What a listing tells about the documents directory. -/
def ofListing (home : Path) (listing : String) : Documents :=
  ofLines home (listing.toList.splitOn '\n')

end Documents

end ScriptMailbox
