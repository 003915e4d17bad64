import Reconfig.Number.Shortest

/-!
# The text of a number

A `Layout` fixes which of two equally near digits a number shows, between which powers of ten it
is written without an exponent, and whether a whole number shows a fraction.

* `Layout`, `Layout.render`;
* `Layout.plain`: never an exponent, no fraction on whole numbers, ties go up;
* `Layout.json`: a fraction on whole numbers, an exponent from `1e+16` on and below `1e-5`, ties go
  to the even digit.
-/

namespace Reconfig

/-- How digits become a text. -/
structure Layout where
  /-- Which of two equally near candidates for the digits is taken. -/
  tie : Shortest.Tie
  /-- Numbers that start at a lower power of ten are written with an exponent. -/
  least? : Option Int
  /-- Numbers that start at a higher power of ten are written with an exponent. -/
  greatest? : Option Int
  /-- Whole numbers without an exponent end in `.0`. -/
  wholeFraction : Bool

namespace Layout

/-- Never an exponent, and no fraction on whole numbers; ties go up. -/
def plain : Layout := ⟨.up, none, none, false⟩

/-- Exponents below `-5` and above `15` are written out, whole numbers end in `.0`, and ties go to
the even digit. -/
def json : Layout := ⟨.even, some (-5), some 15, true⟩

/-- The first digit's power of ten is within the bounds for writing without an exponent. -/
def isPositional (l : Layout) (e : Int) : Bool :=
  l.least?.all (fun b => decide (b ≤ e)) && l.greatest?.all (fun b => decide (e ≤ b))

/-- Digits written without an exponent. -/
def positional (l : Layout) (d : Shortest.Digits) : List Char :=
  match d.exponent with
  | .ofNat e =>
    let whole := d.digits.take (e + 1)
    let zeros := List.replicate (e + 1 - whole.length) '0'
    match d.digits.drop (e + 1) with
    | [] => whole ++ zeros ++ (if l.wholeFraction then ['.', '0'] else [])
    | part => whole ++ '.' :: part
  | .negSucc e => '0' :: '.' :: (List.replicate e '0' ++ d.digits)

/-- Digits written with an exponent, whose sign is always shown. -/
def scientific (d : Shortest.Digits) : List Char :=
  let mantissa :=
    match d.digits with
    | [] => ['0']
    | [c] => [c]
    | c :: part => c :: '.' :: part
  let sign := if d.exponent < 0 then '-' else '+'
  mantissa ++ 'e' :: sign :: Nat.toDigits 10 d.exponent.natAbs

/-- The text of a number. -/
def render (l : Layout) : Binary64 → String
  | .nan => "NaN"
  | .infinite negative => if negative then "-inf" else "inf"
  | .finite negative m e _ =>
    let sign := if negative then ['-'] else []
    if m = 0 then String.ofList (sign ++ (if l.wholeFraction then ['0', '.', '0'] else ['0']))
    else
      let d := Shortest.shortest l.tie m e
      String.ofList (sign ++ (if l.isPositional d.exponent then l.positional d else scientific d))

end Layout

end Reconfig
