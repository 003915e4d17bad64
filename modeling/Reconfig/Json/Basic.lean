import Reconfig.Number.Binary64
import Reconfig.Dict

/-!
# JSON values

The values of a JSON document. A number keeps the form in which it was written: a natural number
or a negative integer within 64 bits, else a double-precision number.

* `Json.Number`, `Json.Number.value?` (the value in steps), `Json.Number.isInteger`;
* `Json`, `Json.kind`, `Json.member?`, `Json.ofDict`;
* `Json.Ordered`: the members of every object are in increasing order of their names.
-/

namespace Reconfig

/-- A number of a JSON document. -/
inductive Json.Number where
  /-- A natural number. -/
  | natural (n : UInt64)
  /-- An integer below zero. -/
  | negative (i : Int64)
  /-- Any other number. -/
  | real (x : Binary64)
  deriving DecidableEq

namespace Json.Number

/-- The value in steps of `2 ^ -1074`, for a number that has one. -/
def value? : Number → Option Int
  | .natural n => some (n.toNat * Binary64.one)
  | .negative i => some (i.toInt * Binary64.one)
  | .real x => x.steps?

/-- The nearest double-precision number. -/
def toBinary64 : Number → Binary64
  | .natural n => .ofInt n.toNat
  | .negative i => .ofInt i.toInt
  | .real x => x

/-- The number is an integer, however it is written. -/
def isInteger : Number → Bool
  | .real x => x.isWhole
  | _ => true

/-- Two numbers have the same value. -/
def same (a b : Number) : Bool :=
  match a.value?, b.value? with
  | some x, some y => x == y
  | _, _ => false

/-- The first number is less than the second. -/
def less (a b : Number) : Bool :=
  match a.value?, b.value? with
  | some x, some y => decide (x < y)
  | _, _ => false

end Json.Number

/-- A JSON value. -/
inductive Json where
  /-- The value without content. -/
  | null
  /-- A truth value. -/
  | bool (b : Bool)
  /-- A number. -/
  | number (n : Json.Number)
  /-- A text. -/
  | string (s : String)
  /-- A list of values. -/
  | array (items : List Json)
  /-- Named values. -/
  | object (members : List (String × Json))

instance : Inhabited Json := ⟨.null⟩

namespace Json

/-- The name of the form of a value. -/
def kind : Json → String
  | .null => "null"
  | .bool _ => "boolean"
  | .number _ => "number"
  | .string _ => "string"
  | .array _ => "array"
  | .object _ => "object"

/-- The value is an object. -/
def isObject : Json → Bool
  | .object _ => true
  | _ => false

/-- The value is a list. -/
def isArray : Json → Bool
  | .array _ => true
  | _ => false

/-- The text of a string. -/
def string? : Json → Option String
  | .string s => some s
  | _ => none

/-- The value is the given truth value. -/
def isBool (b : Bool) : Json → Bool
  | .bool c => b == c
  | _ => false

/-- The member of an object under a name. -/
def member? (j : Json) (name : String) : Option Json :=
  match j with
  | .object members => members.lookup name
  | _ => none

/-- The names of the members of an object. -/
def memberNames : Json → List String
  | .object members => members.map (·.1)
  | _ => []

/-- The object of a dictionary. -/
def ofDict (d : Dict Json) : Json := .object d.entries

/-- The natural number of a length. -/
def ofNat (n : Nat) : Json := .number (.natural (UInt64.ofNat n))

mutual

/-- The members of every object are in increasing order of their names. -/
def Ordered : Json → Prop
  | .array items => OrderedItems items
  | .object members =>
    members.Pairwise (fun a b => a.1 < b.1) ∧ OrderedMembers members
  | _ => True

/-- Every item is ordered. -/
def OrderedItems : List Json → Prop
  | [] => True
  | j :: rest => j.Ordered ∧ OrderedItems rest

/-- Every member is ordered. -/
def OrderedMembers : List (String × Json) → Prop
  | [] => True
  | (_, j) :: rest => j.Ordered ∧ OrderedMembers rest

end

mutual

/-- The number of values in a document, itself included. -/
def size : Json → Nat
  | .array items => 1 + sizeItems items
  | .object members => 1 + sizeMembers members
  | _ => 1

/-- The number of values in a list of documents. -/
def sizeItems : List Json → Nat
  | [] => 0
  | j :: rest => j.size + sizeItems rest

/-- The number of values in the members of an object. -/
def sizeMembers : List (String × Json) → Nat
  | [] => 0
  | (_, j) :: rest => j.size + sizeMembers rest

end

mutual

/-- Equality of values: numbers by value, objects without regard to the order of members. -/
def same : Json → Json → Bool
  | .null, .null => true
  | .bool a, .bool b => a == b
  | .number a, .number b => a.same b
  | .string a, .string b => a == b
  | .array a, .array b => sameItems a b
  | .object a, .object b => a.length == b.length && sameMembers a b
  | _, _ => false

/-- Equality of lists of values. -/
def sameItems : List Json → List Json → Bool
  | [], [] => true
  | a :: as, b :: bs => a.same b && sameItems as bs
  | _, _ => false

/-- Every member has an equal one in a second list. -/
def sameMembers : List (String × Json) → List (String × Json) → Bool
  | [], _ => true
  | (k, v) :: rest, other =>
    (match other.lookup k with
      | some w => v.same w
      | none => false) && sameMembers rest other

end

end Json

end Reconfig
