/-!
# Places in a YAML text

A place in a text is the text from there on with its line and its column, as indentation and the
ends of lines carry the structure.

* `isBlank`, `isBreak`, `atBlank`: white space;
* `normalised`, `isAllowed`: line breaks in one form, and the characters of a text;
* `Cursor`, `Cursor.next`, `Cursor.drop`: places and how to go on;
* `Cursor.skip`: over white space and comments;
* `Cursor.atStartMarker`, `Cursor.atEndMarker`: the marks between documents.
-/

namespace Reconfig.Yaml

/-! ## Characters -/

/-- A blank within a line. -/
def isBlank (c : Char) : Bool := c == ' ' || c == '\t'

/-- A line break, in a text whose breaks are in one form. -/
def isBreak (c : Char) : Bool := c == '\n' || c == '\u2028' || c == '\u2029'

/-- The text is at its end, or white space follows. -/
def atBlank : List Char → Bool
  | [] => true
  | c :: _ => isBlank c || isBreak c

/-- All line breaks but the separators of lines and paragraphs become line feeds. -/
def normalised : List Char → List Char
  | '\r' :: '\n' :: rest => '\n' :: normalised rest
  | '\r' :: rest => '\n' :: normalised rest
  | '\u0085' :: rest => '\n' :: normalised rest
  | c :: rest => c :: normalised rest
  | [] => []

/-- A character that a text may hold. -/
def isAllowed (c : Char) : Bool :=
  let n := c.toNat
  n == 0x09 || n == 0x0a || n == 0x0d || (0x20 ≤ n && n ≤ 0x7e) || n == 0x85 ||
    (0xa0 ≤ n && n != 0xfffe && n != 0xffff)

/-! ## Places -/

/-- A place in a text. -/
structure Cursor where
  /-- The text from the place on. -/
  rest : List Char
  /-- The number of bytes before the place. -/
  index : Nat
  /-- The number of lines before the place. -/
  line : Nat
  /-- The number of characters before the place in its line. -/
  column : Nat

namespace Cursor

/-- The beginning of a text. -/
def start (s : List Char) : Cursor := ⟨s, 0, 0, 0⟩

/-- The place after one character. -/
def next (c : Cursor) : Cursor :=
  match c.rest with
  | [] => c
  | x :: rest =>
    if isBreak x then ⟨rest, c.index + x.utf8Size, c.line + 1, 0⟩
    else ⟨rest, c.index + x.utf8Size, c.line, c.column + 1⟩

/-- The place after a number of characters. -/
def drop : Nat → Cursor → Cursor
  | 0, c => c
  | n + 1, c => drop n c.next

/-- The place after the characters of the line that satisfy a test. -/
def dropWhile (p : Char → Bool) (c : Cursor) : Cursor := c.drop (c.rest.takeWhile p).length

/-- The place after blanks of the line. -/
def skipBlanks (c : Cursor) : Cursor := c.dropWhile isBlank

/-- The place after the characters of the line. -/
def skipLine (c : Cursor) : Cursor := c.dropWhile fun x => !isBreak x

/-- The place after blanks and a comment, if the line ends there. -/
def lineEnd? (c : Cursor) : Option Cursor :=
  let c := c.skipBlanks
  let c := if c.rest.head? = some '#' then c.skipLine else c
  match c.rest with
  | [] => some c
  | x :: _ => if isBreak x then some c.next else none

/-- The place after white space and comments, and whether a key may begin there. Within brackets
all is white space and nothing changes for keys. Outside, a key may begin on a new line, and where
a key may begin a tab is no white space. A mark of byte order may begin a line. -/
def skipFrom (inBrackets : Bool) :
    (keyAllowed comment : Bool) → List Char → (index line column : Nat) → Bool × Cursor
  | keyAllowed, _, [], index, line, column => (keyAllowed, ⟨[], index, line, column⟩)
  | keyAllowed, comment, x :: rest, index, line, column =>
    if isBreak x then
      skipFrom inBrackets (keyAllowed || !inBrackets) false rest (index + x.utf8Size) (line + 1) 0
    else if comment || x == '#' then
      skipFrom inBrackets keyAllowed true rest (index + x.utf8Size) line (column + 1)
    else if x == ' ' || (x == '\t' && (inBrackets || !keyAllowed)) ||
        (x == '\ufeff' && column == 0) then
      skipFrom inBrackets keyAllowed false rest (index + x.utf8Size) line (column + 1)
    else (keyAllowed, ⟨x :: rest, index, line, column⟩)

/-- The place of the next content, and whether a key may begin there. -/
def skip (inBrackets keyAllowed : Bool) (c : Cursor) : Bool × Cursor :=
  skipFrom inBrackets keyAllowed false c.rest c.index c.line c.column

/-! ## Marks between documents -/

/-- The mark that begins a document stands at the place. -/
def atStartMarker (c : Cursor) : Bool :=
  match c.column, c.rest with
  | 0, '-' :: '-' :: '-' :: rest => atBlank rest
  | _, _ => false

/-- The mark that ends a document stands at the place. -/
def atEndMarker (c : Cursor) : Bool :=
  match c.column, c.rest with
  | 0, '.' :: '.' :: '.' :: rest => atBlank rest
  | _, _ => false

/-- A mark between documents stands at the place. -/
def atMarker (c : Cursor) : Bool := c.atStartMarker || c.atEndMarker

end Cursor

end Reconfig.Yaml
