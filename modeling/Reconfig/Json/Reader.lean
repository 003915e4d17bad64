import Reconfig.Json.Numeral
import Reconfig.Text.Scan

/-!
# Reading JSON text

A text is one JSON value with white space around it. Members of objects are kept in increasing
order of their names, the last of equal names counts, and at most 127 arrays and objects may
enclose one another. Texts that are not JSON have no further distinction.

* `quotedTail?`: the rest of a string after its opening quote;
* `value?`, `items?`, `members?`: a value, and the rest of an array or an object;
* **`Json.read?`**: a whole document.

The readers of values recurse on a bound on the number of calls; twice the length of the text is
enough, as no two calls in a row leave the text as it is.
-/

namespace Reconfig.Json

/-- Space between tokens. -/
def isSpace (c : Char) : Bool := c == ' ' || c == '\n' || c == '\t' || c == '\r'

/-- The text after leading space. -/
def skipSpace (s : List Char) : List Char := s.dropWhile isSpace

/-! ## Strings -/

/-- The character after `\u`: one code unit, or two that form a pair. A unit of a pair that stands
alone is no character. -/
def escapedUnits? (s : List Char) : Option (Char × List Char) :=
  match Text.hex? 4 s with
  | none => none
  | some (n, rest) =>
    if n < 0xd800 ∨ 0xdfff < n then some (Char.ofNat n, rest)
    else if n < 0xdc00 then
      match rest with
      | '\\' :: 'u' :: rest =>
        match Text.hex? 4 rest with
        | some (m, rest) =>
          if 0xdc00 ≤ m ∧ m ≤ 0xdfff then
            some (Char.ofNat (0x10000 + (n - 0xd800) * 0x400 + (m - 0xdc00)), rest)
          else none
        | none => none
      | _ => none
    else none

/-- The character that a letter after a backslash denotes. -/
def escapedLetter? (c : Char) : Option Char :=
  if c = '\x22' ∨ c = '\\' ∨ c = '/' then some c
  else if c = 'b' then some '\x08'
  else if c = 'f' then some '\x0c'
  else if c = 'n' then some '\n'
  else if c = 'r' then some '\r'
  else if c = 't' then some '\t'
  else none

/-- What the next characters of a string are. -/
def step : List Char → Text.Step
  | [] => .fail
  | '\x22' :: rest => .close rest
  | '\\' :: 'u' :: rest =>
    match escapedUnits? rest with
    | some (c, rest) => .emit [c] rest
    | none => .fail
  | '\\' :: e :: rest =>
    match escapedLetter? e with
    | some c => .emit [c] rest
    | none => .fail
  | c :: rest => if c.toNat < 0x20 ∨ c = '\\' then .fail else .emit [c] rest

/-- The rest of a string after its opening quote. -/
def quotedTail? (s : List Char) : Option (String × List Char) :=
  (Text.span? step s).map fun (chars, rest) => (String.ofList chars, rest)

/-! ## Values -/

/-- The text after a given word. -/
def after? (word s : List Char) : Option (List Char) :=
  if word.isPrefixOf s then some (s.drop word.length) else none

/-- A value that is neither an array nor an object. -/
def plain? (s : List Char) : Option (Json × List Char) :=
  match s with
  | '\x22' :: rest => (quotedTail? rest).map fun (t, rest) => (.string t, rest)
  | 'n' :: _ => (after? "null".toList s).map (.null, ·)
  | 't' :: _ => (after? "true".toList s).map (.bool true, ·)
  | 'f' :: _ => (after? "false".toList s).map (.bool false, ·)
  | _ => (Number.literal? s).map fun (n, rest) => (.number n, rest)

mutual

/-- A value after optional space. `depth` counts the arrays and objects that may still enclose
one another. -/
def value? : (bound depth : Nat) → List Char → Option (Json × List Char)
  | 0, _, _ => none
  | bound + 1, depth, s =>
    match skipSpace s with
    | '[' :: rest =>
      if depth = 0 then none
      else
        match skipSpace rest with
        | ']' :: rest => some (.array [], rest)
        | rest => items? bound (depth - 1) [] rest
    | '{' :: rest =>
      if depth = 0 then none
      else
        match skipSpace rest with
        | '}' :: rest => some (.object [], rest)
        | rest => members? bound (depth - 1) ∅ rest
    | s => plain? s

/-- The items of an array from the next one on; `before` holds the earlier ones in reverse. -/
def items? : (bound depth : Nat) → List Json → List Char → Option (Json × List Char)
  | 0, _, _, _ => none
  | bound + 1, depth, before, s =>
    match value? bound depth s with
    | none => none
    | some (j, rest) =>
      match skipSpace rest with
      | ',' :: rest => items? bound depth (j :: before) rest
      | ']' :: rest => some (.array (j :: before).reverse, rest)
      | _ => none

/-- The members of an object from the next one on. -/
def members? : (bound depth : Nat) → Dict Json → List Char → Option (Json × List Char)
  | 0, _, _, _ => none
  | bound + 1, depth, before, s =>
    match skipSpace s with
    | '\x22' :: rest =>
      match quotedTail? rest with
      | none => none
      | some (name, rest) =>
        match skipSpace rest with
        | ':' :: rest =>
          match value? bound depth rest with
          | none => none
          | some (j, rest) =>
            match skipSpace rest with
            | ',' :: rest => members? bound depth (before.insert name j) rest
            | '}' :: rest => some (.ofDict (before.insert name j), rest)
            | _ => none
        | _ => none
    | _ => none

end

/-- The greatest number of arrays and objects that enclose one another. -/
def maxDepth : Nat := 127

/-- The value of a JSON document with at most the given depth. -/
def readWithin? (depth : Nat) (text : String) : Option Json :=
  let s := text.toList
  match value? (2 * s.length + 2) depth s with
  | some (j, rest) => if skipSpace rest = [] then some j else none
  | none => none

/-- **The value of a JSON document.** -/
def read? (text : String) : Option Json := readWithin? maxDepth text

end Reconfig.Json
