import Reconfig.Number.Layout
import Reconfig.Vocabulary

/-!
# Configuration trees

A configuration is a tree of named fields. The value of a field is a scalar, a list of texts, a
nested section, or a list of sections. Fields keep the order in which they were written, and
equality ignores that order.

* `Scalar`, `Value`, `Tree`; `Scalar.render`, `Scalar.toBinary64?`, `Value.kind`;
* `Tree.find?`, `Tree.insert`, `Tree.remove`, `Tree.ofList`, `Tree.identity?`;
* `Value.same`, `Tree.same`: equality of values;
* **`Tree.find?_insert`**: an insertion is seen at its own field and nowhere else;
* **`Value.induct`**: the induction principle over sections.
-/

namespace Reconfig

/-- A value without parts. -/
inductive Scalar where
  /-- A text. -/
  | text (s : String)
  /-- A truth value. -/
  | bool (b : Bool)
  /-- An integer with a sign. -/
  | int (i : Int64)
  /-- A natural number. -/
  | uint (n : UInt64)
  /-- A number with a fraction. -/
  | float (x : Binary64)
  deriving DecidableEq

namespace Scalar

/-- The name of the kind of a scalar. -/
def kind : Scalar → String
  | .text _ => "string"
  | .bool _ => "bool"
  | .int _ => "int"
  | .uint _ => "uint"
  | .float _ => "float"

/-- The text of a text. -/
def text? : Scalar → Option String
  | .text s => some s
  | _ => none

/-- The text by which a scalar is shown and sent. -/
def render : Scalar → String
  | .text s => s
  | .bool b => if b then "true" else "false"
  | .int i => toString i.toInt
  | .uint n => toString n.toNat
  | .float x => Layout.plain.render x

/-- The integer of an integral scalar. -/
def integer? : Scalar → Option Int
  | .int i => some i.toInt
  | .uint n => some n.toNat
  | _ => none

/-- The number nearest to a numeric scalar. -/
def toBinary64? : Scalar → Option Binary64
  | .int i => some (.ofInt i.toInt)
  | .uint n => some (.ofInt n.toNat)
  | .float x => some x
  | _ => none

/-- Equality of scalars of one kind; numbers with a fraction are equal by value. -/
def same : Scalar → Scalar → Bool
  | .float x, .float y => x.same y
  | a, b => a == b

end Scalar

/-- The value of a configuration field. -/
inductive Value where
  /-- A single value. -/
  | scalar (s : Scalar)
  /-- A list of texts. -/
  | list (items : List String)
  /-- A section. -/
  | nested (fields : List (String × Value))
  /-- A list of sections. -/
  | repeated (sections : List (List (String × Value)))

instance : Inhabited Value := ⟨.list []⟩

/-- The fields of a configuration or of a section, in the order in which they were written. -/
abbrev Tree : Type := List (String × Value)

namespace Value

/-- The value of a text. -/
def text (s : String) : Value := .scalar (.text s)

/-- The name of the kind of a value. -/
def kind : Value → String
  | .scalar s => s.kind
  | .list _ => "string-list"
  | .nested _ => "section"
  | .repeated _ => "section-list"

/-- The text of a text. -/
def text? : Value → Option String
  | .scalar s => s.text?
  | _ => none

/-- The scalar of a single value. -/
def scalar? : Value → Option Scalar
  | .scalar s => some s
  | _ => none

/-- The texts of a list of texts. -/
def list? : Value → Option (List String)
  | .list items => some items
  | _ => none

/-- The fields of a section. -/
def nested? : Value → Option Tree
  | .nested fields => some fields
  | _ => none

/-- The value is a section. -/
def isNested (v : Value) : Bool := v.nested?.isSome

end Value

/-! ## Fields -/

namespace Tree

/-- The tree without fields. -/
def empty : Tree := []

/-- The value of a field. -/
def find? (t : Tree) (name : String) : Option Value := t.lookup name

/-- The tree has a field of that name. -/
def contains (t : Tree) (name : String) : Bool := (t.find? name).isSome

/-- Give a field a value: in its place if the tree has it, else as the last one. -/
def insert : Tree → String → Value → Tree
  | [], name, value => [(name, value)]
  | (k, v) :: rest, name, value =>
    if k = name then (name, value) :: rest else (k, v) :: insert rest name value

/-- The tree without a field. -/
def remove (t : Tree) (name : String) : Tree := t.filter fun f => f.1 != name

/-- The tree of a list of fields. A repeated name keeps its first place and its last value. -/
def ofList (fields : List (String × Value)) : Tree :=
  fields.foldl (fun t f => insert t f.1 f.2) empty

/-- The identity of a section: its name or, if it has no such field, its type. Only a text
identifies. -/
def identity? (t : Tree) : Option String :=
  ((t.find? Vocabulary.nameField).or (t.find? Vocabulary.typeField)).bind Value.text?

/-- The names of the fields. -/
def names (t : Tree) : List String := t.map (·.1)

/-- **An insertion is seen at its own field and nowhere else.** -/
theorem find?_insert (t : Tree) (name other : String) (value : Value) :
    (t.insert name value).find? other = if other = name then some value else t.find? other := by
  induction t with
  | nil =>
    by_cases h : other = name
    · simp [insert, find?, h]
    · have hb : (other == name) = false := by simpa using h
      simp [insert, find?, List.lookup_cons, hb, h]
  | cons f rest ih =>
    obtain ⟨k, v⟩ := f
    simp only [find?] at ih
    by_cases hk : k = name
    · subst hk
      by_cases h : other = k
      · simp [insert, find?, h]
      · have hb : (other == k) = false := by simpa using h
        simp [insert, find?, List.lookup_cons, hb, h]
    · by_cases h : other = k
      · subst h
        simp [insert, find?, hk]
      · have hb : (other == k) = false := by simpa using h
        simp [insert, find?, hk, List.lookup_cons, hb, ih]

end Tree

/-! ## Equality -/

mutual

/-- Equality of values, without regard to the order of fields. -/
def Value.same : Value → Value → Bool
  | .scalar a, .scalar b => a.same b
  | .list a, .list b => a == b
  | .nested a, .nested b => a.length == b.length && sameFields a b
  | .repeated a, .repeated b => sameSections a b
  | _, _ => false

/-- Every field has an equal one in a second list. -/
def sameFields : List (String × Value) → List (String × Value) → Bool
  | [], _ => true
  | (k, v) :: rest, other =>
    (match other.lookup k with
      | some w => v.same w
      | none => false) && sameFields rest other

/-- Equality of lists of sections. -/
def sameSections : List (List (String × Value)) → List (List (String × Value)) → Bool
  | [], [] => true
  | a :: as, b :: bs => (a.length == b.length && sameFields a b) && sameSections as bs
  | _, _ => false

end

/-- Equality of trees, without regard to the order of fields. -/
def Tree.same (a b : Tree) : Bool := a.length == b.length && sameFields a b

/-! ## Induction -/

/-- **Induction over sections**: a property that passes from the fields of sections to the values
that hold the sections is one of all values. -/
theorem Value.induct {P : Value → Prop} (scalar : ∀ s, P (.scalar s)) (list : ∀ l, P (.list l))
    (nested : ∀ fields, (∀ f ∈ fields, P f.2) → P (.nested fields))
    (repeated : ∀ sections, (∀ t ∈ sections, ∀ f ∈ t, P f.2) → P (.repeated sections)) :
    ∀ v, P v := by
  refine Value.rec (motive_1 := P) (motive_2 := fun fields => ∀ f ∈ fields, P f.2)
    (motive_3 := fun sections => ∀ t ∈ sections, ∀ f ∈ t, P f.2)
    (motive_4 := fun f => P f.2) scalar list (fun fields ih => nested fields ih)
    (fun sections ih => repeated sections ih) ?_ ?_ ?_ ?_ ?_
  · intro f hf; cases hf
  · intro head tail hh ht f hf
    rcases List.mem_cons.1 hf with rfl | hf
    · exact hh
    · exact ht f hf
  · intro t ht; cases ht
  · intro head tail hh ht t hmem
    rcases List.mem_cons.1 hmem with rfl | hmem
    · exact hh
    · exact ht t hmem
  · intro name value h
    exact h

end Reconfig
