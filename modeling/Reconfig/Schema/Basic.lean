import Reconfig.Json.Basic
import Reconfig.Schema.Format

/-!
# Schemas

A schema constrains JSON values. An object of keywords is the conjunction of what its keywords
say, in the order of their names.

* `TypeName`, `TypeName.accepts`; `Bound`, `Measure`: limits on numbers and on sizes;
* `isConstant`: equality with a value that a schema names; `isMultiple`; `areDistinct`;
* `Content`: how a text holds a value;
* `Schema`.
-/

namespace Reconfig

/-- The types by which schemas tell values apart. -/
inductive TypeName where
  /-- Lists. -/
  | array
  /-- Truth values. -/
  | boolean
  /-- Numbers without a fraction. -/
  | integer
  /-- The null. -/
  | null
  /-- Numbers. -/
  | number
  /-- Objects. -/
  | object
  /-- Texts. -/
  | string
  deriving DecidableEq, Repr

namespace TypeName

/-- The name of a type in documents. -/
def name : TypeName → String
  | .array => "array"
  | .boolean => "boolean"
  | .integer => "integer"
  | .null => "null"
  | .number => "number"
  | .object => "object"
  | .string => "string"

/-- All types, in the order of their names. -/
def all : List TypeName := [.array, .boolean, .integer, .null, .number, .object, .string]

/-- The type of a name. -/
def ofName? (s : String) : Option TypeName := all.find? fun t => t.name == s

/-- A value is of a type. -/
def accepts : TypeName → Json → Bool
  | .array, .array _ => true
  | .boolean, .bool _ => true
  | .integer, .number n => n.isInteger
  | .null, .null => true
  | .number, .number _ => true
  | .object, .object _ => true
  | .string, .string _ => true
  | _, _ => false

/-- **Every type has a name of its own.** -/
theorem ofName?_name (t : TypeName) : ofName? t.name = some t := by
  cases t <;> decide

end TypeName

/-- The limits on numbers. -/
inductive Bound where
  /-- Not less than the limit. -/
  | minimum
  /-- Not greater than the limit. -/
  | maximum
  /-- Greater than the limit. -/
  | exclusiveMinimum
  /-- Less than the limit. -/
  | exclusiveMaximum
  deriving DecidableEq, Repr

/-- A number keeps a limit. -/
def Bound.admits (b : Bound) (limit n : Json.Number) : Bool :=
  match b with
  | .minimum => !n.less limit
  | .maximum => !limit.less n
  | .exclusiveMinimum => limit.less n
  | .exclusiveMaximum => n.less limit

/-- A value is the one that a schema names. A number only has to come close to it. -/
def Schema.isConstant (expected j : Json) : Bool :=
  match expected, j with
  | .number a, .number b => a.toBinary64.close b.toBinary64
  | _, _ => j.same expected

/-- A number is a multiple of a divisor. Both have to be whole, or the rounded quotient lies less
than `2 ^ -52` above a whole number or below the next one; a quotient below zero is never too far
above. A quotient that is too large is judged exactly. -/
def Schema.isMultiple (divisor n : Json.Number) : Bool :=
  let x := n.toBinary64
  let d := divisor.toBinary64
  match x.steps?, d.steps? with
  | some a, some b =>
    if d.isWhole then x.isWhole && b != 0 && a.tmod b == 0
    else
      match (x.div d).steps? with
      | some q =>
        let rest := q.tmod Binary64.one
        let least : Int := Binary64.one / Nat.pow 2 52
        rest < least || (Binary64.one : Int) - least < rest
      | none => a.tmod b == 0
  | _, _ => false

/-- No two values of a list are equal. -/
def Schema.areDistinct : List Json → Bool
  | [] => true
  | j :: rest => !(rest.any fun k => j.same k) && areDistinct rest

/-- How a text holds a value. -/
inductive Schema.Content where
  /-- The text encodes bytes. -/
  | bytes
  /-- The text is a JSON document. -/
  | document
  /-- The text encodes the bytes of a JSON document. -/
  | encodedDocument
  deriving DecidableEq, Repr

/-- What a size counts. -/
inductive Measure where
  /-- The characters of a text. -/
  | characters
  /-- The items of an array. -/
  | items
  /-- The members of an object. -/
  | properties
  deriving DecidableEq, Repr

/-- The size of a value, if it is of the kind that the measure counts. -/
def Measure.size? : Measure → Json → Option Nat
  | .characters, .string s => some s.length
  | .items, .array list => some list.length
  | .properties, .object members => some members.length
  | _, _ => none

/-- A constraint on JSON values. -/
inductive Schema where
  /-- No value is allowed. -/
  | reject
  /-- The schema at an address. -/
  | reference (target : Url)
  /-- Every part holds. -/
  | all (parts : List Schema)
  /-- At least one part holds. -/
  | any (parts : List Schema)
  /-- Exactly one part holds. -/
  | one (parts : List Schema)
  /-- The part, which the document writes as `source`, does not hold. -/
  | unless (part : Schema) (source : Json)
  /-- One of two parts holds, as a test decides. -/
  | conditional (test yes no : Schema)
  /-- The value is of one of the types. -/
  | types (names : List TypeName)
  /-- An object has the fields. -/
  | required (names : List String)
  /-- The value is one of a list. -/
  | enumeration (values : List Json)
  /-- The value is a given one. -/
  | constant (value : Json)
  /-- A number keeps a limit. -/
  | bound (b : Bound) (limit : Json.Number)
  /-- A number is a multiple of another one. -/
  | multiple (divisor : Json.Number)
  /-- A part of a text matches a pattern, which the document writes as `source`. -/
  | matching (p : Pattern) (source : String)
  /-- A text has the form of a format. -/
  | format (f : Schema.Format)
  /-- A text holds a value. -/
  | content (c : Schema.Content)
  /-- A size is at least the limit. -/
  | atLeast (measure : Measure) (limit : Nat)
  /-- A size is at most the limit. -/
  | atMost (measure : Measure) (limit : Nat)
  /-- The fields of an object, where it has them, satisfy their schemas. -/
  | fields (known : List (String × Schema))
  /-- The fields of an object satisfy the schemas of all patterns that their names match. -/
  | patternFields (patterns : List (Pattern × Schema))
  /-- The fields of an object satisfy their schemas and those of the patterns that their names
  match, and an object has no other fields. -/
  | closedFields (known : List (String × Schema)) (patterns : List (Pattern × Schema))
  /-- An object has no fields. -/
  | noFields
  /-- The same, but fields that are neither known nor match a pattern satisfy another schema. -/
  | otherFields (known : List (String × Schema)) (patterns : List (Pattern × Schema))
      (other : Schema)
  /-- The names of the fields of an object, as texts, satisfy a schema. -/
  | fieldNames (each : Schema)
  /-- An object has no fields, as no name is allowed. -/
  | noFieldNames
  /-- An object that has a field satisfies the schema under its name. -/
  | dependent (parts : List (String × Schema))
  /-- Every item of an array satisfies a schema. -/
  | items (each : Schema)
  /-- The items of an array satisfy the schemas in turn. -/
  | itemsInTurn (parts : List Schema)
  /-- The items of an array behind the first `count` ones satisfy a schema. -/
  | furtherItems (count : Nat) (each : Schema)
  /-- An array has no items behind the first `count` ones. -/
  | noFurtherItems (count : Nat)
  /-- No two items of an array are equal. -/
  | distinctItems
  /-- Some item of an array satisfies a schema. -/
  | someItem (each : Schema)

instance : Inhabited Schema := ⟨.reject⟩

/-- The schema that allows every value. -/
def Schema.anything : Schema := .all []

end Reconfig
