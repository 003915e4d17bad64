import Reconfig.Flat.Flatten
import Reconfig.Number.Numeral

/-!
# The tree of a flat configuration

Keys are gathered into a trie of their segments, and the trie is read off as a tree. A place with
selectors only becomes a list of sections, ordered by the markers of their positions; sections
without a valid marker follow in the order of their keys. A section without an identity of its own
is named by its selector.

* `Trie`, `Trie.insert`, `Trie.find?`;
* `indexOf?`: the position that a marker denotes;
* `Trie.toTree`, **`FlatConfig.expand`**;
* **`Trie.find?_insert`**: an insertion is seen at its own path and nowhere else.
-/

namespace Reconfig

/-- A tree of segments with values. -/
inductive Trie where
  /-- The value at this place, and the places below it in the order of their first insertion. -/
  | node (value : Option Value) (children : List (Segment × Trie))

namespace Trie

/-- The trie without values. -/
def empty : Trie := .node none []

/-- The value at the top. -/
def value? : Trie → Option Value
  | .node value _ => value

/-- The places below the top. -/
def children : Trie → List (Segment × Trie)
  | .node _ children => children

/-- Change the place below a segment, which is a new last one if there is none. -/
def alter (s : Segment) (f : Trie → Trie) : List (Segment × Trie) → List (Segment × Trie)
  | [] => [(s, f empty)]
  | (t, n) :: rest => if t = s then (t, f n) :: rest else (t, n) :: alter s f rest

/-- Put a value at a path. -/
def insert : Path → Value → Trie → Trie
  | [], v, .node _ children => .node (some v) children
  | s :: rest, v, .node value children => .node value (alter s (insert rest v) children)

/-- The value at a path. -/
def find? : Path → Trie → Option Value
  | [], t => t.value?
  | s :: rest, t => (t.children.lookup s).bind (find? rest)

theorem find?_empty (p : Path) : find? p empty = none := by
  cases p <;> rfl

theorem lookup_alter (s t : Segment) (f : Trie → Trie) (l : List (Segment × Trie)) :
    (alter s f l).lookup t = if t = s then some (f ((l.lookup s).getD empty)) else l.lookup t := by
  induction l with
  | nil =>
    by_cases h : t = s
    · simp [alter, h]
    · have hb : (t == s) = false := by simpa using h
      simp [alter, List.lookup_cons, hb, h]
  | cons e rest ih =>
    obtain ⟨u, n⟩ := e
    by_cases hu : u = s
    · subst hu
      by_cases h : t = u
      · simp [alter, h]
      · have hb : (t == u) = false := by simpa using h
        simp [alter, List.lookup_cons, hb, h]
    · have hsu : (s == u) = false := by simpa using fun h => hu h.symm
      by_cases h : t = u
      · subst h
        simp [alter, hu]
      · have hb : (t == u) = false := by simpa using h
        simp [alter, hu, List.lookup_cons, hb, hsu, ih]

/-- **An insertion is seen at its own path and nowhere else.** -/
theorem find?_insert (p q : Path) (v : Value) (t : Trie) :
    find? q (insert p v t) = if q = p then some v else find? q t := by
  induction p generalizing q t with
  | nil =>
    obtain ⟨value, children⟩ := t
    cases q <;> simp [insert, find?, value?, Trie.children]
  | cons s rest ih =>
    obtain ⟨value, children⟩ := t
    cases q with
    | nil => simp [insert, find?, value?]
    | cons u more =>
      simp only [insert, find?, Trie.children, lookup_alter]
      by_cases hu : u = s
      · subst hu
        simp only [if_true, Option.bind_some, ih, List.cons.injEq, true_and]
        congr 1
        cases List.lookup u children <;> simp [find?_empty]
      · simp [hu]

/-- The trie of a list of entries. -/
def ofEntries (entries : List (String × Value)) : Trie :=
  entries.foldl (fun t e => t.insert (Path.parse e.1) e.2) empty

end Trie

/-! ## Reading the trie -/

/-- The position that a marker denotes: a natural number within 64 bits, or the text of one. -/
def indexOf? (v : Value) : Option Nat :=
  match v with
  | .scalar (.uint n) => some n.toNat
  | .scalar (.int i) => if i.toInt < 0 then none else some i.toInt.toNat
  | .scalar (.text s) => (Numeral.unsigned? s.toList).map UInt64.toNat
  | _ => none

/-- The name under which a segment is a field. -/
def Segment.label : Segment → String
  | .field name => name
  | .selector id => "\x7b" ++ id ++ "\x7d"

/-- A value without places below it: a bare text at a section that is identified by its type
stands for that type. -/
def leafValue (field : String) : Value → Value
  | .scalar (.text s) =>
    if Vocabulary.isTypedSection field then .nested [(Vocabulary.typeField, .text s)] else .text s
  | v => v

/-- A section with an identity: its own, else its selector as its name. -/
def named (s : Segment) (t : Tree) : Tree :=
  match s with
  | .selector id =>
    if t.identity?.isNone then t.insert Vocabulary.nameField (.text id) else t
  | .field _ => t

/-- Sections with a position come first, in the order of their positions. -/
def inPlace (a b : Option Nat × Tree) : Bool :=
  match a.1, b.1 with
  | some i, some j => i ≤ j
  | none, some _ => false
  | _, none => true

/-- Sections in the order of their positions, those without one last. -/
def arranged (sections : List (Option Nat × Tree)) : List Tree :=
  (sections.mergeSort inPlace).map (·.2)

namespace Trie

/-- The position marked below a place. -/
def index? (t : Trie) : Option Nat :=
  ((t.children.lookup (.field Vocabulary.indexField)).bind value?).bind indexOf?

mutual

/-- The value at a place, as the value of the named field. Values below a place hide the one at
it. -/
def toValue (field : String) : Trie → Option Value
  | .node value children =>
    if children.isEmpty then value.map (leafValue field)
    else if children.all (fun c => c.1.isSelector) then
      some (.repeated (arranged (instances children)))
    else some (.nested (Tree.ofList (fields children)))

/-- The fields that places become; markers of positions become none. -/
def fields : List (Segment × Trie) → List (String × Value)
  | [] => []
  | (s, t) :: rest =>
    if s = .field Vocabulary.indexField then fields rest
    else
      match toValue s.label t with
      | some v => (s.label, v) :: fields rest
      | none => fields rest

/-- The sections that places become, each with its marked position. -/
def instances : List (Segment × Trie) → List (Option Nat × List (String × Value))
  | [] => []
  | (s, .node value children) :: rest =>
    (index? (.node value children), named s (Tree.ofList (fields children))) :: instances rest

end

/-- The tree of a trie. -/
def toTree (t : Trie) : Tree := Tree.ofList (fields t.children)

end Trie

/-- **The tree of a flat configuration.** -/
def FlatConfig.expand (flat : FlatConfig) : Tree := (Trie.ofEntries flat.entries).toTree

end Reconfig
