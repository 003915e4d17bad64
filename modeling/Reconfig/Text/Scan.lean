import Reconfig.Number.Numeral

/-!
# Reading delimited text

The characters of a delimited text up to its end, where one step of reading decides what the next
characters stand for.

* `Step`: what the next characters of a text are; `scan`: the steps up to the end;
* `span?`: the same, with a bound that is enough where every step takes a character;
* `hex?`: a number of hexadecimal digits; `character?`: the character of a code point.
-/

namespace Reconfig.Text

/-- What the next characters of a delimited text are. -/
inductive Step where
  /-- The end. -/
  | close (rest : List Char)
  /-- What stands for some characters. -/
  | emit (chars rest : List Char)
  /-- Nothing that may stand there. -/
  | fail

/-- The characters up to the end, and the text after it; `before` holds the characters read so far
in reverse. -/
def scan (step : List Char → Step) : Nat → List Char → List Char → Option (List Char × List Char)
  | 0, _, _ => none
  | bound + 1, before, s =>
    match step s with
    | .close rest => some (before.reverse, rest)
    | .emit chars rest => scan step bound (chars.reverse ++ before) rest
    | .fail => none

/-- The characters up to the end, and the text after it. -/
def span? (step : List Char → Step) (s : List Char) : Option (List Char × List Char) :=
  scan step (s.length + 1) [] s

/-- The number that the given number of hexadecimal digits denotes, and the text after them. -/
def hex? (count : Nat) (s : List Char) : Option (Nat × List Char) :=
  if (s.take count).length = count then
    (Numeral.natural? 16 (s.take count)).map fun n => (n, s.drop count)
  else none

/-- The character of a code point, if it has one. -/
def character? (n : Nat) : Option Char :=
  if n.isValidChar then some (Char.ofNat n) else none

end Reconfig.Text
