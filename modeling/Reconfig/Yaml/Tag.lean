import Reconfig.Yaml.Cursor
import Reconfig.Text.Percent

/-!
# Tags and directives of YAML

A tag names the type of a node. It is written in full between angle brackets, or as a handle with
an ending; a directive before a document says what a handle stands for.

* `name?`: the names of anchors and aliases;
* `Tag`, `Tag.read?`: a tag as it is written; `Handles`, `Tag.resolve?`: what it stands for;
* `Directive`, `Directive.read?`: the lines that begin with a percent sign.
-/

namespace Reconfig.Yaml

/-! ## Names -/

/-- A character of a name. -/
def isNameChar (c : Char) : Bool := c.isAlphanum || c == '_' || c == '-'

/-- The marks that may follow a name. -/
def endsName (s : List Char) : Bool :=
  atBlank s || s.head?.any fun c => ['?', ':', ',', ']', '}', '%', '@', '\x60'].contains c

/-- A name behind its mark, and the place after it. -/
def name? (c : Cursor) : Option (String × Cursor) :=
  let name := c.rest.takeWhile isNameChar
  let after := c.drop name.length
  if name ≠ [] ∧ endsName after.rest = true then some (String.ofList name, after) else none

/-! ## Tags -/

/-- A tag as it is written. -/
structure Tag where
  /-- The handle, empty if the tag is written in full. -/
  handle : String
  /-- What follows the handle. -/
  ending : String

/-- A character of an address; commas and square brackets only where they cannot separate. -/
def isAddressChar (alone : Bool) (c : Char) : Bool :=
  isNameChar c ||
    [';', '/', '?', ':', '@', '&', '=', '+', '$', '.', '%', '!', '~', '*', '\'', '(', ')'].contains
      c || (alone && [',', '[', ']'].contains c)

/-- Every percent sign is followed by two hexadecimal digits. -/
def hasWholeEscapes : List Char → Bool
  | '%' :: a :: b :: rest => (Text.byte? a b).isSome && hasWholeEscapes rest
  | '%' :: _ => false
  | _ :: rest => hasWholeEscapes rest
  | [] => true

/-- A percent-encoded address, and the place after it. -/
def address? (alone : Bool) (c : Cursor) : Option (List Char × Cursor) :=
  let written := c.rest.takeWhile (isAddressChar alone)
  if hasWholeEscapes written then
    (Text.percentDecoded? written).map (·, c.drop written.length)
  else none

/-- A handle: an exclamation mark, a name, and an exclamation mark again if there is one. -/
def handleAt (c : Cursor) : List Char × Cursor :=
  let name := c.next.rest.takeWhile isNameChar
  let after := c.next.drop name.length
  if after.rest.head? = some '!' then ('!' :: name ++ ['!'], after.next) else ('!' :: name, after)

/-- A tag without angle brackets. What looks like a handle but does not end in a second exclamation
mark belongs to the ending; a lone exclamation mark is an ending, too. -/
def Tag.short? (c : Cursor) : Option (Tag × Cursor) :=
  let (name, after) := handleAt c
  match address? false after with
  | none => none
  | some (ending, after) =>
    if 1 < name.length ∧ name.getLast? = some '!' then
      if ending = [] then none else some (⟨String.ofList name, String.ofList ending⟩, after)
    else
      match name.drop 1 ++ ending with
      | [] => some (⟨"", "!"⟩, after)
      | whole => some (⟨"!", String.ofList whole⟩, after)

/-- A tag between angle brackets. -/
def Tag.verbatim? (c : Cursor) : Option (Tag × Cursor) :=
  match address? true (c.drop 2) with
  | none => none
  | some (address, after) =>
    if address ≠ [] ∧ after.rest.head? = some '>' then
      some (⟨"", String.ofList address⟩, after.next)
    else none

/-- A tag, and the place after it; white space has to follow, or a comma within brackets. -/
def Tag.read? (inBrackets : Bool) (c : Cursor) : Option (Tag × Cursor) :=
  let found := if c.next.rest.head? = some '<' then verbatim? c else short? c
  found.filter fun (_, after) =>
    atBlank after.rest || (inBrackets && after.rest.head? == some ',')

/-- The handles with what they stand for. -/
abbrev Handles : Type := List (String × String)

/-- The handles that are always known. -/
def Handles.standard : Handles := [("!", "!"), ("!!", "tag:yaml.org,2002:")]

/-- What a tag stands for, if its handle is known. -/
def Tag.resolve? (handles : Handles) (t : Tag) : Option String :=
  if t.handle = "" then some t.ending
  else (handles.lookup t.handle).map fun start => start ++ t.ending

/-! ## Directives -/

/-- A line that begins with a percent sign. -/
inductive Directive where
  /-- The version of the language. -/
  | version (major minor : Nat)
  /-- What a handle stands for. -/
  | tag (handle start : String)

/-- A decimal number of at most nine digits, and the place after it. -/
def decimal? (c : Cursor) : Option (Nat × Cursor) :=
  let digits := c.rest.takeWhile Char.isDigit
  if digits.length ≤ 9 then (Numeral.natural? 10 digits).map (·, c.drop digits.length) else none

/-- The version in a directive. -/
def version? (c : Cursor) : Option (Directive × Cursor) := do
  let (major, c) ← decimal? c.skipBlanks
  if c.rest.head? = some '.' then
    let (minor, c) ← decimal? c.next
    some (.version major minor, c)
  else none

/-- A handle that stands alone in a directive. -/
def isWholeHandle (name : List Char) : Bool := name == ['!'] || name.getLast? == some '!'

/-- The handle in a directive and what it stands for. -/
def tagDirective? (c : Cursor) : Option (Directive × Cursor) :=
  let c := c.skipBlanks
  if c.rest.head? = some '!' then
    let (name, after) := handleAt c
    if isWholeHandle name && after.rest.head?.any isBlank then
      match address? true after.skipBlanks with
      | none => none
      | some (start, after) =>
        if start ≠ [] ∧ atBlank after.rest = true then
          some (.tag (String.ofList name) (String.ofList start), after)
        else none
    else none
  else none

/-- The directive at a percent sign, and the place after its line. -/
def Directive.read? (c : Cursor) : Option (Directive × Cursor) := do
  let name := c.next.rest.takeWhile isNameChar
  let after := c.next.drop name.length
  let (d, after) ←
    if atBlank after.rest = false then none
    else if name = "YAML".toList then version? after
    else if name = "TAG".toList then tagDirective? after
    else none
  let after ← after.lineEnd?
  some (d, after)

end Reconfig.Yaml
