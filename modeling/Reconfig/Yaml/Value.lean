import Reconfig.Yaml.Node
import Reconfig.Yaml.Meaning

/-!
# The JSON value of a YAML document

The keys of a mapping are texts. A node that is repeated counts as if it were written again.

The names of nodes are numbered first, in the order of the document: a node gets the number of
names that are known before it, also where its name is known already. A repetition has the number
that its name has at its place, and stands for the last node of that number in the document. So a
node may stand for one that comes later.

* `Anchors`, `Node.numbered?`: the numbers of names; `Node.named`: the nodes that have one;
* `Node.events`: the length of a document;
* `valueFrom?`: values, within limits on the depth and on the number of repetitions;
* **`Node.toJson?`**.
-/

namespace Reconfig.Yaml

/-! ## Names -/

/-- The names that are known, with their numbers. -/
abbrev Anchors : Type := Dict Nat

/-- The number of a node with a name, and the names known then. -/
def Anchors.declare (known : Anchors) : Option String → Option Nat × Anchors
  | none => (none, known)
  | some name => (some known.size, known.insert name known.size)

mutual

/-- The node with numbers for names; fails if a name is not known where it is repeated. -/
def Node.numbered? (known : Anchors) : Node String → Option (Node Nat × Anchors)
  | .alias name => (known.find? name).map fun n => (.alias n, known)
  | .scalar name? tag? plain text =>
    let (n?, known) := known.declare name?
    some (.scalar n? tag? plain text, known)
  | .sequence name? tag? items =>
    let (n?, known) := known.declare name?
    (numberedItems? known items).map fun (items, known) => (.sequence n? tag? items, known)
  | .mapping name? tag? entries =>
    let (n?, known) := known.declare name?
    (numberedEntries? known entries).map fun (entries, known) => (.mapping n? tag? entries, known)

/-- The items of a sequence with numbers for names. -/
def numberedItems? (known : Anchors) : List (Node String) → Option (List (Node Nat) × Anchors)
  | [] => some ([], known)
  | n :: rest =>
    match n.numbered? known with
    | none => none
    | some (n, known) => (numberedItems? known rest).map fun (l, known) => (n :: l, known)

/-- The entries of a mapping with numbers for names. -/
def numberedEntries? (known : Anchors) :
    List (Node String × Node String) → Option (List (Node Nat × Node Nat) × Anchors)
  | [] => some ([], known)
  | (k, v) :: rest =>
    match k.numbered? known with
    | none => none
    | some (k, known) =>
      match v.numbered? known with
      | none => none
      | some (v, known) =>
        (numberedEntries? known rest).map fun (l, known) => ((k, v) :: l, known)

end

/-- The entry of a node in the list of numbered nodes. -/
def entryOf (n? : Option Nat) (n : Node Nat) : List (Nat × Node Nat) := (n?.map (·, n)).toList

mutual

/-- The nodes that have a number, in the order of the document. -/
def Node.named : Node Nat → List (Nat × Node Nat)
  | .alias _ => []
  | .scalar n? tag? plain text => entryOf n? (.scalar n? tag? plain text)
  | .sequence n? tag? items => entryOf n? (.sequence n? tag? items) ++ namedItems items
  | .mapping n? tag? entries => entryOf n? (.mapping n? tag? entries) ++ namedEntries entries

/-- The nodes of a sequence that have a number. -/
def namedItems : List (Node Nat) → List (Nat × Node Nat)
  | [] => []
  | n :: rest => n.named ++ namedItems rest

/-- The nodes of a mapping that have a number. -/
def namedEntries : List (Node Nat × Node Nat) → List (Nat × Node Nat)
  | [] => []
  | (k, v) :: rest => k.named ++ v.named ++ namedEntries rest

end

mutual

/-- The length of a document: scalars and repetitions count once, and sequences and mappings twice,
for their beginning and their end. -/
def Node.events : Node Nat → Nat
  | .alias _ => 1
  | .scalar .. => 1
  | .sequence _ _ items => 2 + eventsOfItems items
  | .mapping _ _ entries => 2 + eventsOfEntries entries

/-- The length of the items of a sequence. -/
def eventsOfItems : List (Node Nat) → Nat
  | [] => 0
  | n :: rest => n.events + eventsOfItems rest

/-- The length of the entries of a mapping. -/
def eventsOfEntries : List (Node Nat × Node Nat) → Nat
  | [] => 0
  | (k, v) :: rest => k.events + v.events + eventsOfEntries rest

end

/-! ## Values -/

/-- The node that a node stands for. A repetition takes one of the repetitions that are left. -/
def Node.target? (targets : List (Nat × Node Nat)) (left : Nat) :
    Node Nat → Option (Node Nat × Nat)
  | .alias n =>
    match left with
    | 0 => none
    | left + 1 => (targets.lookup n).map (·, left)
  | n => some (n, left)

/-- The text of a key. -/
def key? (targets : List (Nat × Node Nat)) (left : Nat) (n : Node Nat) : Option (String × Nat) :=
  match n.target? targets left with
  | some (.scalar _ _ _ text, left) => some (text, left)
  | _ => none

/-- The values of a sequence, given how to get one. -/
def valuesOf? (value? : Node Nat → Nat → Option (Json × Nat)) (left : Nat) :
    List (Node Nat) → Option (List Json × Nat)
  | [] => some ([], left)
  | n :: rest =>
    match value? n left with
    | none => none
    | some (j, left) => (valuesOf? value? left rest).map fun (l, left) => (j :: l, left)

/-- The members of a mapping, given how to get a name and a value. -/
def membersOf? (name? : Nat → Node Nat → Option (String × Nat))
    (value? : Node Nat → Nat → Option (Json × Nat)) (left : Nat) :
    List (Node Nat × Node Nat) → Option (List (String × Json) × Nat)
  | [] => some ([], left)
  | (k, v) :: rest =>
    match name? left k with
    | none => none
    | some (name, left) =>
      match value? v left with
      | none => none
      | some (j, left) =>
        (membersOf? name? value? left rest).map fun (l, left) => ((name, j) :: l, left)

/-- The value of a node in which at most `depth` sequences and mappings enclose one another, and
the number of repetitions that are left. -/
def valueFrom? (targets : List (Nat × Node Nat)) :
    (depth : Nat) → Node Nat → (left : Nat) → Option (Json × Nat)
  | 0, n, left =>
    match n.target? targets left with
    | some (.scalar _ tag? plain text, left) => (scalarValue? tag? plain text).map (·, left)
    | _ => none
  | depth + 1, n, left =>
    match n.target? targets left with
    | some (.scalar _ tag? plain text, left) => (scalarValue? tag? plain text).map (·, left)
    | some (.sequence _ tag? items, left) =>
      if isLocal tag? then none
      else
        (valuesOf? (valueFrom? targets depth) left items).map fun (l, left) => (.array l, left)
    | some (.mapping _ tag? entries, left) =>
      if isLocal tag? then none
      else
        (membersOf? (key? targets) (valueFrom? targets depth) left entries).map
          fun (l, left) => (.ofDict (.ofList l), left)
    | _ => none

/-- The greatest number of sequences and mappings that enclose one another. -/
def maxDepth : Nat := 128

/-- The number of repetitions for each unit of a document's length. -/
def maxRepetitions : Nat := 100

/-- **The JSON value of a document**; none if a repeated name is not known, a key is not a scalar,
a scalar has no value, or one of the limits is passed. -/
def Node.toJson? (n : Node String) : Option Json :=
  match n.numbered? ∅ with
  | none => none
  | some (n, _) =>
    (valueFrom? n.named.reverse maxDepth n (maxRepetitions * n.events)).map (·.1)

end Reconfig.Yaml
