/-!
# Integer numerals

Texts that denote integers: digits in some radix, after an optional sign, within 64 bits.

* `digit?`, `natural?`: a digit, a non-empty run of digits;
* `unsigned?`, `signed?`: a numeral within an unsigned or a signed word;
* `isIndex`: a text that counts as a position in a list.
-/

namespace Reconfig.Numeral

/-- The value of a digit in the given radix; letters count from ten in either case. -/
def digit? (radix : Nat) (c : Char) : Option Nat :=
  let n := c.toNat
  let value :=
    if 48 ≤ n ∧ n ≤ 57 then n - 48
    else if 97 ≤ n ∧ n ≤ 122 then n - 87
    else if 65 ≤ n ∧ n ≤ 90 then n - 55
    else radix
  if value < radix then some value else none

/-- The number that digits denote after a number read so far. -/
def digitsFrom? (radix : Nat) : Nat → List Char → Option Nat
  | n, [] => some n
  | n, c :: rest => (digit? radix c).bind fun d => digitsFrom? radix (n * radix + d) rest

/-- The number that a non-empty run of digits denotes. -/
def natural? (radix : Nat) : List Char → Option Nat
  | [] => none
  | c :: rest => digitsFrom? radix 0 (c :: rest)

/-- A natural number as an unsigned word, if it fits. -/
def word? (n : Nat) : Option UInt64 := if n < Nat.pow 2 64 then some (UInt64.ofNat n) else none

/-- An integer as a signed word, if it fits. -/
def signedWord? (i : Int) : Option Int64 :=
  if -(Nat.pow 2 63 : Nat) ≤ i ∧ i < (Nat.pow 2 63 : Nat) then some (Int64.ofInt i) else none

/-- The text after an optional plus sign. -/
def dropPlus : List Char → List Char
  | '+' :: rest => rest
  | s => s

/-- The integer that a run of digits after an optional sign denotes. -/
def integer? (radix : Nat) : List Char → Option Int
  | '-' :: rest => (natural? radix rest).map fun n => -(n : Int)
  | s => (natural? radix (dropPlus s)).map fun n => (n : Int)

/-- An unsigned word in decimal, with an optional plus sign. -/
def unsigned? (s : List Char) : Option UInt64 := (natural? 10 (dropPlus s)).bind word?

/-- A signed word in decimal, with an optional sign. -/
def signed? (s : List Char) : Option Int64 := (integer? 10 s).bind signedWord?

/-- The text is a decimal numeral within an unsigned word. -/
def isIndex (s : List Char) : Bool := (unsigned? s).isSome

example : unsigned? "+15".toList = some 15 := by decide
example : unsigned? "-0".toList = none := by decide
example : signed? "-9223372036854775809".toList = none := by decide

end Reconfig.Numeral
