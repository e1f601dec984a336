/-!
# Quoted text

A quoted text stands between double quotes on one line: a quote and a backslash are escaped, a
control character below U+0020 is written with a short escape where there is one and as `\u00xx`
otherwise, and all other characters stand for themselves.
-/

namespace ScriptMailbox.Text.Quoted

/-- The lower-case hexadecimal digit of a number below sixteen. -/
def hexDigit (n : Nat) : Char :=
  Nat.digitChar n

/-- How one character is written between the quotes. -/
def escape (c : Char) : List Char :=
  if c = '"' then ['\\', '"']
  else if c = '\\' then ['\\', '\\']
  else if c = '\n' then ['\\', 'n']
  else if c = '\r' then ['\\', 'r']
  else if c = '\t' then ['\\', 't']
  else if c = '\x08' then ['\\', 'b']
  else if c = '\x0c' then ['\\', 'f']
  else if c.toNat < 0x20 then
    ['\\', 'u', '0', '0', hexDigit (c.toNat / 16), hexDigit (c.toNat % 16)]
  else [c]

/-- The characters of a text between double quotes. -/
def encode (text : List Char) : List Char :=
  '"' :: text.flatMap escape ++ ['"']

/-- A text between double quotes. -/
def quote (text : String) : String :=
  String.ofList (encode text.toList)

end ScriptMailbox.Text.Quoted
