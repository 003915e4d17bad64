import Reconfig.Tree.Document

/-!
# Changes

A change edits the value of one key: it replaces the value, or it adds elements, removes elements,
or does both. Adding or removing a single text creates or destroys the instance of that identity.

* `Operation`, `Change`, `Change.value?`, `Change.operations`;
* `Change.ofSides?`, `Change.ofLists?`: the change of two optional sides, if there is one;
* `ChangeSet`: the changes of a configuration by key;
* **`value?_eq_none_of_has_update`**: a change replaces or edits, never both.
-/

namespace Reconfig

/-- The kinds of edit. -/
inductive Operation where
  /-- Replace the value. -/
  | update
  /-- Add elements, or create an instance. -/
  | add
  /-- Remove elements, or destroy an instance. -/
  | remove
  deriving DecidableEq, Repr

/-- The name of an operation. -/
def Operation.name : Operation → String
  | .update => "update"
  | .add => "add"
  | .remove => "remove"

/-- All operations; a change's edits are listed in this order. -/
def Operation.all : List Operation := [.update, .add, .remove]

/-- An edit of the value at one key. -/
inductive Change where
  /-- The value is replaced. -/
  | update (value : Value)
  /-- Elements are added, or an instance is created. -/
  | add (value : Value)
  /-- Elements are removed, or an instance is destroyed. -/
  | remove (value : Value)
  /-- Elements are added and others removed. -/
  | exchange (added removed : Value)

instance : Inhabited Change := ⟨.update default⟩

namespace Change

/-- The change of an added and a removed side; without either there is none. -/
def ofSides? : (added removed : Option Value) → Option Change
  | none, none => none
  | some a, none => some (.add a)
  | none, some r => some (.remove r)
  | some a, some r => some (.exchange a r)

/-- A list of elements as a side of a change; an empty list is no side. -/
def side? (items : List String) : Option Value :=
  if items.isEmpty then none else some (.list items)

/-- The change of a list of added and a list of removed elements. -/
def ofLists? (added removed : List String) : Option Change :=
  ofSides? (side? added) (side? removed)

/-- The value that a change carries for an operation. -/
def value? (c : Change) (op : Operation) : Option Value :=
  match c, op with
  | .update v, .update => some v
  | .add v, .add => some v
  | .remove v, .remove => some v
  | .exchange a _, .add => some a
  | .exchange _ r, .remove => some r
  | _, _ => none

/-- The change carries an operation. -/
def has (c : Change) (op : Operation) : Bool := (c.value? op).isSome

/-- The operations of a change with their values. -/
def operations (c : Change) : List (Operation × Value) :=
  Operation.all.filterMap fun op => (c.value? op).map fun v => (op, v)

/-- The change adds or removes elements. -/
def isSetEdit : Change → Bool
  | .update _ => false
  | _ => true

/-- The document of a change: a member for each operation. -/
def inOrder (c : Change) : Json :=
  .object (c.operations.map fun e => (e.1.name, e.2.inOrder))

/-- **A change replaces or edits, never both.** -/
theorem value?_eq_none_of_has_update {c : Change} (h : c.has .update = true) :
    c.value? .add = none ∧ c.value? .remove = none := by
  cases c <;> simp_all [has, value?]

/-- **Every change carries an operation.** -/
theorem operations_ne_nil (c : Change) : c.operations ≠ [] := by
  cases c <;> simp [operations, Operation.all, value?]

end Change

/-- The changes of a configuration, by key. -/
abbrev ChangeSet : Type := Dict Change

/-- The document of a set of changes: a member for each key. -/
def ChangeSet.inOrder (changes : ChangeSet) : Json :=
  .object (changes.entries.map fun e => (e.1, e.2.inOrder))

end Reconfig
