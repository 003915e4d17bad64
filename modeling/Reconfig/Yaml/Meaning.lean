import Reconfig.Json.Basic
import Reconfig.Number.Decimal

/-!
# The values of YAML scalars

A scalar without quotes is a null, a truth value or a number if it is written as one, and a text
otherwise; a scalar within quotes or in a block is a text. A tag of the standard types decides for
one type.

* `isNull`, `truth?`, `integer?`, `float?`: what a scalar is written as;
* `plainValue?`: scalars without quotes; `taggedValue?`: scalars with a tag;
* **`scalarValue?`**.
-/

namespace Reconfig.Yaml

/-! ## What a scalar is written as -/

/-- The scalar is written as a null. -/
def isNull (s : String) : Bool := ["~", "null", "Null", "NULL"].contains s

/-- The truth value that a scalar is written as. -/
def truth? (s : String) : Option Bool :=
  if ["true", "True", "TRUE"].contains s then some true
  else if ["false", "False", "FALSE"].contains s then some false
  else none

/-- Digits after a zero; they are a text. -/
def hasLeadingZero (s : List Char) : Bool :=
  match (Decimal.sign s).2 with
  | '0' :: c :: rest => (c :: rest).all Char.isDigit
  | _ => false

/-- The natural number that digits denote, in the radix that a letter after a zero names. -/
def magnitude? : List Char → Option Nat
  | '0' :: 'x' :: rest => Numeral.natural? 16 rest
  | '0' :: 'o' :: rest => Numeral.natural? 8 rest
  | '0' :: 'b' :: rest => Numeral.natural? 2 rest
  | s => Numeral.natural? 10 s

/-- The integer that a scalar is written as, with whether it has a minus sign. -/
def integer? (s : List Char) : Option (Bool × Nat) :=
  if hasLeadingZero s then none
  else (magnitude? (Decimal.sign s).2).map fun n => ((Decimal.sign s).1, n)

/-- The number that a scalar is written as, with or without a fraction and an exponent. -/
def float? (s : List Char) : Option Binary64 :=
  let (negative, rest) := Decimal.sign s
  let name := String.ofList rest
  if [".inf", ".Inf", ".INF"].contains name then some (.infinite negative)
  else if [".nan", ".NaN", ".NAN"].contains (String.ofList s) then some .nan
  else ((Decimal.unsigned? negative rest).map Decimal.toBinary64).filter Binary64.isFinite

/-- The value of a number with a fraction; one without a finite value is a null. -/
def floatValue (x : Binary64) : Json := if x.isFinite then .number (.real x) else .null

/-- The greatest magnitude of an integer that is one at all, however large: greater ones are read
as numbers with a fraction. -/
def integerLimit (negative : Bool) : Nat := if negative then Nat.pow 2 127 else Nat.pow 2 128 - 1

/-- The value of an integer; none if it takes more than 64 bits. -/
def integerValue? (negative : Bool) (n : Nat) : Option Json :=
  if negative ∧ n ≠ 0 then
    if n ≤ Nat.pow 2 63 then some (.number (.negative (Int64.ofInt (-n)))) else none
  else (Numeral.word? n).map fun w => .number (.natural w)

/-- The value of an integer; greater ones than `integerLimit` have none as integers. -/
def wholeValue? (s : String) : Option (Option Json) :=
  match integer? s.toList with
  | some (negative, n) =>
    if n ≤ integerLimit negative then some (integerValue? negative n) else none
  | none => none

/-! ## Values -/

/-- The value of a scalar that is neither a null nor a truth value nor an integer. -/
def otherValue (s : String) : Json :=
  if hasLeadingZero s.toList then .string s
  else
    match float? s.toList with
    | some x => floatValue x
    | none => .string s

/-- The value of a scalar without quotes; none if it is an integer beyond 64 bits. -/
def plainValue? (s : String) : Option Json :=
  if s.isEmpty || isNull s then some .null
  else
    match truth? s, wholeValue? s with
    | some b, _ => some (.bool b)
    | none, some value? => value?
    | none, none => some (otherValue s)

/-- The standard types of scalars other than texts. -/
inductive ScalarType where
  /-- Truth values. -/
  | truth
  /-- Integers. -/
  | integer
  /-- Numbers. -/
  | float
  /-- The null. -/
  | null

/-- The type that a tag names; all other tags name texts. -/
def ScalarType.ofTag? (tag : String) : Option ScalarType :=
  [("tag:yaml.org,2002:bool", .truth), ("tag:yaml.org,2002:int", .integer),
    ("tag:yaml.org,2002:float", .float), ("tag:yaml.org,2002:null", .null)].lookup tag

/-- The value of a scalar of a type, if it is written as one. -/
def ScalarType.value? (t : ScalarType) (s : String) : Option Json :=
  match t with
  | .truth => (truth? s).map .bool
  | .integer => (wholeValue? s).bind id
  | .float => (float? s.toList).map floatValue
  | .null => if isNull s then some .null else none

/-- A tag that is not one of the standard types'; no value has it. -/
def isLocal (tag? : Option String) : Bool := tag?.any fun tag => tag.toList.head? == some '!'

/-- The value of a scalar with a tag. -/
def taggedValue? (tag s : String) : Option Json :=
  match ScalarType.ofTag? tag with
  | some t => t.value? s
  | none => some (.string s)

/-- **The value of a scalar**; none if it has a local tag, is not written as its tag says, or is an
integer beyond 64 bits. -/
def scalarValue? (tag? : Option String) (plain : Bool) (s : String) : Option Json :=
  if isLocal tag? then none
  else
    match tag? with
    | some tag => taggedValue? tag s
    | none => if plain then plainValue? s else some (.string s)

end Reconfig.Yaml
