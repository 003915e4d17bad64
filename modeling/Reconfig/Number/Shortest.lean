import Reconfig.Number.Binary64

/-!
# The shortest decimal digits of a number

The decimal digits of a double-precision number that read back to the same number: as few of them
as possible, and of those the nearest. Of two that are equally near a rule for ties takes one.

The reals that round to a number form an interval around it, with its ends exactly if the
mantissa is even. For 1, 2, … digits the number's two neighbours on the decimal grid of that many
digits are tried, in exact arithmetic, and the first grid with a neighbour in the interval is
taken.

* `Digits`, the digits with the power of ten of the first one; `Tie`, the rule for ties;
* `Interval`, `onGrid?`; `shortest`.
-/

namespace Reconfig.Shortest

/-- The number `d.ddd… * 10 ^ exponent`. -/
structure Digits where
  /-- The digits, the first and the last of them not zero. -/
  digits : List Char
  /-- The power of ten of the first digit. -/
  exponent : Int
  deriving DecidableEq

/-- Which of two equally near candidates is taken. -/
inductive Tie where
  /-- The greater one. -/
  | up
  /-- The one whose last digit is even. -/
  | even
  deriving DecidableEq

/-- The lower of two equally near neighbours on a grid is taken. -/
def Tie.takesLower (t : Tie) (lower : Nat) : Bool :=
  match t with
  | .up => false
  | .even => lower % 2 == 0

/-- The reals that round to a number, in quarters of a step of `2 ^ -1074`. -/
structure Interval where
  /-- The number itself. -/
  centre : Nat
  /-- The lower end. -/
  low : Nat
  /-- The upper end. -/
  high : Nat
  /-- The ends belong to it. -/
  closed : Bool

/-- The interval of a mantissa and an exponent. Below a power of two the numbers lie closer. -/
def interval (m e : Nat) : Interval where
  centre := 4 * (m * Nat.pow 2 e)
  low := 4 * (m * Nat.pow 2 e) - (if m = Nat.pow 2 52 ∧ 0 < e then Nat.pow 2 e else 2 * Nat.pow 2 e)
  high := 4 * (m * Nat.pow 2 e) + 2 * Nat.pow 2 e
  closed := m % 2 = 0

/-- The factors `num / den` that turn quarters of a step into units of `10 ^ k`. -/
def gridFactors (k : Int) : Nat × Nat :=
  match k with
  | .ofNat k => (1, Nat.pow 2 1076 * Nat.pow 10 k)
  | .negSucc k => (Nat.pow 10 (k + 1), Nat.pow 2 1076)

/-- The neighbour on the grid of `10 ^ k` that lies in the interval, the nearer one of two. -/
def onGrid? (tie : Tie) (i : Interval) (k : Int) : Option Nat :=
  let (num, den) := gridFactors k
  let c := i.centre * num / den
  let below := if i.closed then i.low * num ≤ c * den else i.low * num < c * den
  let above :=
    if i.closed then (c + 1) * den ≤ i.high * num else (c + 1) * den < i.high * num
  let down := i.centre * num - c * den
  let up := (c + 1) * den - i.centre * num
  let nearer := down < up || (down == up && tie.takesLower c)
  if below then
    if above then (if nearer then some c else some (c + 1)) else some c
  else if above then some (c + 1)
  else none

/-- The quarters of a step reach `10 ^ k`. -/
def reaches (centre : Nat) (k : Int) : Bool :=
  let (num, den) := gridFactors k
  decide (den ≤ centre * num)

/-- The power of ten of the first digit: an estimate from the binary logarithm, mended by one. -/
def firstPlace (centre : Nat) : Int :=
  let guess := ((centre.log2 : Int) - 1076) * 30103 / 100000
  if reaches centre (guess + 1) then guess + 1
  else if reaches centre guess then guess
  else guess - 1

/-- Remove the zeros at the end. -/
def dropZeros (ds : List Char) : List Char := (ds.reverse.dropWhile (· == '0')).reverse

/-- The digits of `c * 10 ^ k`. -/
def ofGrid (c : Nat) (k : Int) : Digits :=
  let ds := Nat.toDigits 10 c
  ⟨dropZeros ds, k + ds.length - 1⟩

/-- The shortest digits of the number with the given mantissa, not zero, and exponent. Seventeen
digits always suffice. -/
def shortest (tie : Tie) (m e : Nat) : Digits :=
  let i := interval m e
  let place := firstPlace i.centre
  let found := (List.range 17).findSome? fun n =>
    let k := place - (n : Nat)
    (onGrid? tie i k).map fun c => ofGrid c k
  found.getD ⟨['0'], 0⟩

example : shortest .up 1 0 = ⟨['5'], -324⟩ := by decide +kernel
example : shortest .up (2 ^ 52) 1022 = ⟨['1'], 0⟩ := by decide +kernel
example : shortest .up (2 ^ 53 - 1) 2045 = ⟨"17976931348623157".toList, 308⟩ := by decide +kernel
example : shortest .up 4503599627370497 1072 = ⟨"11258999068426243".toList, 15⟩ := by decide +kernel
example : shortest .even 4503599627370497 1072 = ⟨"11258999068426242".toList, 15⟩ := by
  decide +kernel

end Reconfig.Shortest
