import Reconfig.Json.Basic
import Reconfig.Number.Decimal

/-!
# Numbers in JSON text

An integer within 64 bits is read as it is, except the negative zero. Any other number is read
from its leading digits, as many as fit an unsigned word, and a power of ten: the digits are
rounded to a double-precision number, then multiplied or divided by the rounded power of ten.
What exceeds the greatest number is no JSON number.

* `scaled?`: digits times a power of ten, rounded at each step;
* `literal?`: the number at the front of a text, with the text after it.
-/

namespace Reconfig.Json.Number

/-- A power of ten, rounded. -/
def powerOfTen (k : Nat) : Binary64 := .nearest false (Nat.pow 10 k * Binary64.one) 1

/-- Digits divided by a power of ten, in steps of at most `10 ^ 308`. -/
def scaledDown (x : Binary64) (k : Nat) : Binary64 :=
  if k ≤ 308 then x.div (powerOfTen k)
  else if k ≤ 616 then (x.div (powerOfTen 308)).div (powerOfTen (k - 308))
  else .zero false

/-- Digits times a power of ten, unless that exceeds the greatest number. -/
def scaled? (minus : Bool) (digits : Nat) (exponent : Int) : Option Number :=
  let x := Binary64.ofInt digits
  if digits = 0 then some (.real (.zero minus))
  else
    match exponent with
    | .ofNat k =>
      if 308 < k then none
      else
        let y := x.mul (powerOfTen k)
        if y.isFinite then some (.real (y.withSign minus)) else none
    | .negSucc k => some (.real ((scaledDown x (k + 1)).withSign minus))

/-- Digits taken into a number for as long as it fits an unsigned word: the number, how many were
taken, and the rest of the text. -/
def takeDigits : Nat → Nat → List Char → Nat × Nat × List Char
  | n, taken, c :: rest =>
    match Numeral.digit? 10 c with
    | some d => if n * 10 + d < Nat.pow 2 64 then takeDigits (n * 10 + d) (taken + 1) rest
      else (n, taken, c :: rest)
    | none => (n, taken, c :: rest)
  | n, taken, [] => (n, taken, [])

/-- An integer written without point and exponent. -/
def integer (minus : Bool) (digits : Nat) : Number :=
  if minus then
    if digits = 0 ∨ Nat.pow 2 63 < digits then .real ((Binary64.ofInt digits).withSign true)
    else .negative (Int64.ofInt (-digits))
  else .natural (UInt64.ofNat digits)

/-- What follows the digits after an exponent's letter: a sign and at least one digit. -/
def exponent? (s : List Char) : Option (Int × List Char) :=
  let (minus, s) := Decimal.sign s
  let (digits, rest) := s.span Char.isDigit
  (Numeral.natural? 10 digits).map fun n => (if minus then -(n : Int) else n, rest)

/-- A number whose digits have been read, up to an exponent. -/
def exponential? (minus : Bool) (digits : Nat) (exponent : Int) (s : List Char) :
    Option (Number × List Char) :=
  match s with
  | c :: rest =>
    if c = 'e' ∨ c = 'E' then do
      let (e, rest) ← exponent? rest
      let x ← scaled? minus digits (exponent + e)
      some (x, rest)
    else (scaled? minus digits exponent).map (·, s)
  | [] => (scaled? minus digits exponent).map (·, s)

/-- A number whose digits before the point have been read, up to the digits after it. -/
def fractional? (minus : Bool) (digits : Nat) (exponent : Int) (s : List Char) :
    Option (Number × List Char) :=
  let (digits, taken, rest) := takeDigits digits 0 s
  let dropped := rest.takeWhile Char.isDigit
  if taken = 0 ∧ dropped = [] then none
  else exponential? minus digits (exponent - taken) (rest.dropWhile Char.isDigit)

/-- An unsigned number at the front of a text. -/
def magnitude? (minus : Bool) (s : List Char) : Option (Number × List Char) :=
  match s with
  | [] => none
  | c :: rest =>
    if !c.isDigit then none
    else if c = '0' ∧ rest.head?.any Char.isDigit then none
    else
      let (digits, _, rest) := takeDigits 0 0 s
      let dropped := rest.takeWhile Char.isDigit
      match rest.dropWhile Char.isDigit with
      | '.' :: part => fractional? minus digits dropped.length part
      | after =>
        if dropped = [] ∧ !after.head?.any (fun c => c = 'e' ∨ c = 'E') then
          some (integer minus digits, after)
        else exponential? minus digits dropped.length after

/-- The number at the front of a text, and the text after it. -/
def literal? : List Char → Option (Number × List Char)
  | '-' :: rest => magnitude? true rest
  | s => magnitude? false s

end Reconfig.Json.Number
