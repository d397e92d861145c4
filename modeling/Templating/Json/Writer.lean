import Templating.Json.Basic

/-!
# Writing JSON

Two layouts: compact, without any white space, and indented, with one item to a line. Strings escape
quotes, backslashes and control characters only.
-/

namespace Templating.Json

/-- A lower-case hexadecimal digit. -/
def lowerHex (n : Nat) : Char := if n < 10 then Char.ofNat (48 + n) else Char.ofNat (87 + n)

/-- The text of one character inside a string. -/
def escapeChar (c : Char) : List Char :=
  if c = '"' then ['\\', '"']
  else if c = '\\' then ['\\', '\\']
  else if c = '\x08' then ['\\', 'b']
  else if c = '\x0c' then ['\\', 'f']
  else if c = '\n' then ['\\', 'n']
  else if c = '\r' then ['\\', 'r']
  else if c = '\t' then ['\\', 't']
  else if c.toNat < 32 then
    ['\\', 'u', '0', '0', lowerHex (c.toNat / 16), lowerHex (c.toNat % 16)]
  else [c]

/-- A string in quotes. -/
def quoted (s : String) : String :=
  "\"" ++ String.ofList (s.toList.flatMap escapeChar) ++ "\""

/-- The text of a scalar document. -/
def scalarText : Json → String
  | null => "null"
  | bool b => if b then "true" else "false"
  | int n => Number.intText n
  | float x => Number.floatText .json x
  | text s => quoted s
  | array _ => "[]"
  | object _ => "\x7b\x7d"

mutual

/-- The compact text of a document. -/
def compact : Json → String
  | array items => "[" ++ compactItems items ++ "]"
  | object members => "\x7b" ++ compactMembers members ++ "\x7d"
  | null => "null"
  | bool b => scalarText (bool b)
  | int n => scalarText (int n)
  | float x => scalarText (float x)
  | text s => scalarText (text s)

/-- Items joined by commas. -/
def compactItems : List Json → String
  | [] => ""
  | [j] => compact j
  | j :: k :: rest => compact j ++ "," ++ compactItems (k :: rest)

/-- Members joined by commas. -/
def compactMembers : List (String × Json) → String
  | [] => ""
  | [(name, j)] => quoted name ++ ":" ++ compact j
  | (name, j) :: m :: rest => quoted name ++ ":" ++ compact j ++ "," ++ compactMembers (m :: rest)

end

/-- A new line with so many steps of indentation. -/
def newLine (step : String) (depth : Nat) : String :=
  "\n" ++ String.join (List.replicate depth step)

mutual

/-- The indented text of a document that stands at the given depth. -/
def indented (step : String) (depth : Nat) : Json → String
  | array [] => "[]"
  | array (j :: items) =>
    "[" ++ indentedItems step (depth + 1) (j :: items) ++ newLine step depth ++ "]"
  | object [] => "\x7b\x7d"
  | object (m :: members) =>
    "\x7b" ++ indentedMembers step (depth + 1) (m :: members) ++ newLine step depth ++ "\x7d"
  | null => "null"
  | bool b => scalarText (bool b)
  | int n => scalarText (int n)
  | float x => scalarText (float x)
  | text s => scalarText (text s)

/-- Items, each on a line of its own. -/
def indentedItems (step : String) (depth : Nat) : List Json → String
  | [] => ""
  | [j] => newLine step depth ++ indented step depth j
  | j :: k :: rest =>
    newLine step depth ++ indented step depth j ++ "," ++ indentedItems step depth (k :: rest)

/-- Members, each on a line of its own. -/
def indentedMembers (step : String) (depth : Nat) : List (String × Json) → String
  | [] => ""
  | [(name, j)] => newLine step depth ++ quoted name ++ ": " ++ indented step depth j
  | (name, j) :: m :: rest =>
    newLine step depth ++ quoted name ++ ": " ++ indented step depth j ++ "," ++
      indentedMembers step depth (m :: rest)

end

/-- The indented text of a document. -/
def pretty (step : String) (j : Json) : String := indented step 0 j

end Templating.Json
