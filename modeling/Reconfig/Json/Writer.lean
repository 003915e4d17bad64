import Reconfig.Json.Basic
import Reconfig.Number.Layout

/-!
# Writing JSON text

A value is written without any space, or spread over lines that are indented by two spaces for
each enclosing array or object. Members are written in the order in which they stand.

* `quoted`: a text between quotes; quotes, backslashes and control characters are escaped, all
  else stands for itself;
* **`Json.compact`**, **`Json.pretty`**.
-/

namespace Reconfig.Json

/-- A hexadecimal digit in lower case. -/
def hexDigit (n : Nat) : Char := Nat.digitChar (n % 16)

/-- A character inside a quoted text. -/
def escaped (c : Char) : List Char :=
  if c = '\x22' then ['\\', '\x22']
  else if c = '\\' then ['\\', '\\']
  else if c = '\x08' then ['\\', 'b']
  else if c = '\x0c' then ['\\', 'f']
  else if c = '\n' then ['\\', 'n']
  else if c = '\r' then ['\\', 'r']
  else if c = '\t' then ['\\', 't']
  else if c.toNat < 0x20 then
    ['\\', 'u', '0', '0', hexDigit (c.toNat / 16), hexDigit c.toNat]
  else [c]

/-- A text between quotes. -/
def quoted (s : String) : String :=
  String.ofList ('\x22' :: (s.toList.flatMap escaped ++ ['\x22']))

/-- The text of a number. -/
def Number.text : Number → String
  | .natural n => toString n.toNat
  | .negative i => toString i.toInt
  | .real x => Layout.json.render x

mutual

/-- **A value written without space.** -/
def compact : Json → String
  | .null => "null"
  | .bool b => if b then "true" else "false"
  | .number n => n.text
  | .string s => quoted s
  | .array items => "[" ++ compactItems items ++ "]"
  | .object members => "\x7b" ++ compactMembers members ++ "\x7d"

/-- Items between commas. -/
def compactItems : List Json → String
  | [] => ""
  | [j] => j.compact
  | j :: rest => j.compact ++ "," ++ compactItems rest

/-- Members between commas. -/
def compactMembers : List (String × Json) → String
  | [] => ""
  | [(name, j)] => quoted name ++ ":" ++ j.compact
  | (name, j) :: rest => quoted name ++ ":" ++ j.compact ++ "," ++ compactMembers rest

end

/-- The start of a line at a depth. -/
def newLine (depth : Nat) : String := String.ofList ('\n' :: List.replicate (2 * depth) ' ')

mutual

/-- A value spread over lines, the first of which is already begun. -/
def prettyAt (depth : Nat) : Json → String
  | .array [] => "[]"
  | .array items => "[" ++ prettyItems (depth + 1) items ++ newLine depth ++ "]"
  | .object [] => "\x7b\x7d"
  | .object members =>
    "\x7b" ++ prettyMembers (depth + 1) members ++ newLine depth ++ "\x7d"
  | .null => "null"
  | .bool b => if b then "true" else "false"
  | .number n => n.text
  | .string s => quoted s

/-- Items on lines of their own. -/
def prettyItems (depth : Nat) : List Json → String
  | [] => ""
  | [j] => newLine depth ++ prettyAt depth j
  | j :: rest => newLine depth ++ prettyAt depth j ++ "," ++ prettyItems depth rest

/-- Members on lines of their own. -/
def prettyMembers (depth : Nat) : List (String × Json) → String
  | [] => ""
  | [(name, j)] => newLine depth ++ quoted name ++ ": " ++ prettyAt depth j
  | (name, j) :: rest =>
    newLine depth ++ quoted name ++ ": " ++ prettyAt depth j ++ "," ++ prettyMembers depth rest

end

/-- **A value spread over indented lines.** -/
def pretty (j : Json) : String := prettyAt 0 j

end Reconfig.Json
