import Reconfig.Number.Binary64
import Reconfig.Number.Numeral

/-!
# Decimal numerals with a fraction and an exponent

A numeral such as `-12.5e3` denotes a signed decimal number; `Decimal.toBinary64` rounds it to
the nearest double-precision number.

* `Decimal`, `Decimal.read?`: digits with an optional point and an optional exponent;
* `Decimal.toBinary64`;
* `Binary64.read?`: the same, and the names of the infinities and of the number without value.
-/

namespace Reconfig

/-- The number `digits * 10 ^ exponent` with a sign. -/
structure Decimal where
  /-- The number carries a minus sign. -/
  negative : Bool
  /-- All digits, read as one natural number. -/
  digits : Nat
  /-- The power of ten of the last digit. -/
  exponent : Int
  deriving DecidableEq

namespace Decimal

/-- The number of decimal digits of a natural number. -/
def length (n : Nat) : Nat := (Nat.toDigits 10 n).length

/-- The nearest double-precision number. What is below half of the least number or beyond the
greatest one is settled by the place of the first digit alone. -/
def toBinary64 (d : Decimal) : Binary64 :=
  if d.digits = 0 then .zero d.negative
  else
    let places : Int := length d.digits + d.exponent
    if 310 < places then .infinite d.negative
    else if places < -330 then .zero d.negative
    else
      match d.exponent with
      | .ofNat k => .nearest d.negative (d.digits * Nat.pow 10 k * Binary64.one) 1
      | .negSucc k => .nearest d.negative (d.digits * Binary64.one) (Nat.pow 10 (k + 1))

/-! ## Reading -/

/-- A sign in front of a text: whether it is a minus, and what follows. -/
def sign : List Char → Bool × List Char
  | '-' :: rest => (true, rest)
  | '+' :: rest => (false, rest)
  | s => (false, s)

/-- The exponent of a numeral: nothing, or a letter `e` and a signed run of digits to the end. -/
def exponent? : List Char → Option Int
  | [] => some 0
  | c :: rest =>
    if c = 'e' ∨ c = 'E' then
      let (negative, digits) := sign rest
      (Numeral.natural? 10 digits).map fun n => if negative then -(n : Int) else n
    else none

/-- The digits after the point of a numeral, if there is one, and the rest. -/
def fraction : List Char → List Char × List Char
  | '.' :: rest => rest.span Char.isDigit
  | s => ([], s)

/-- An unsigned numeral: digits with an optional point among them, at least one, and an optional
exponent. -/
def unsigned? (negative : Bool) (s : List Char) : Option Decimal :=
  let (whole, s) := s.span Char.isDigit
  let (part, s) := fraction s
  match Numeral.natural? 10 (whole ++ part), exponent? s with
  | some digits, some e => some ⟨negative, digits, e - part.length⟩
  | _, _ => none

/-- A numeral with an optional sign. -/
def read? (s : List Char) : Option Decimal :=
  let (negative, s) := sign s
  unsigned? negative s

end Decimal

/-- A number in decimal, or in any case of its letters `inf`, `infinity` or `nan`, with an
optional sign. -/
def Binary64.read? (s : List Char) : Option Binary64 :=
  let (negative, rest) := Decimal.sign s
  let name := rest.map Char.toLower
  if name = "inf".toList ∨ name = "infinity".toList then some (.infinite negative)
  else if name = "nan".toList then some .nan
  else (Decimal.unsigned? negative rest).map Decimal.toBinary64

end Reconfig
