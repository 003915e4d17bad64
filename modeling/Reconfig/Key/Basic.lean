import Reconfig.Vocabulary

/-!
# Paths to configuration fields

A path leads from the root of a configuration to a field. Its segments are field names and
selectors, and a selector picks one instance of a repeated section.

* `Segment`, `Path`; the order of paths (`Path.compare`);
* `Path.context?`, `Path.baseField?`, `Path.isIndexMarker`, `Path.isIdentity`;
* `Path.logicalKey`: the field names alone, joined by points;
* `Path.instancePaths`, `Path.section?`: the instances that enclose the end of a path.
-/

namespace Reconfig

/-- One step of a path. -/
inductive Segment where
  /-- The field of that name. -/
  | field (name : String)
  /-- The instance of that identity. -/
  | selector (id : String)
  deriving DecidableEq, Repr

namespace Segment

/-- The name of a field segment. -/
def field? : Segment → Option String
  | .field name => some name
  | .selector _ => none

/-- The identity of a selector. -/
def selector? : Segment → Option String
  | .field _ => none
  | .selector id => some id

/-- The segment is a selector. -/
def isSelector (s : Segment) : Bool := s.selector?.isSome

/-- Fields come before selectors; within either the texts decide. -/
def compare : Segment → Segment → Ordering
  | .field a, .field b => Ord.compare a b
  | .field _, .selector _ => .lt
  | .selector _, .field _ => .gt
  | .selector a, .selector b => Ord.compare a b

end Segment

/-- The segments from the root to a field. -/
abbrev Path : Type := List Segment

namespace Path

/-- The path without its last segment; the empty path has none. -/
def parent? (p : Path) : Option Path := if p.isEmpty then none else some p.dropLast

/-- The path followed by a field. -/
def child (p : Path) (name : String) : Path := p ++ [.field name]

/-- The path followed by a selector. -/
def select (p : Path) (id : String) : Path := p ++ [.selector id]

/-- The field at the root. -/
def context? (p : Path) : Option String := p.head?.bind Segment.field?

/-- The field at the end. -/
def baseField? (p : Path) : Option String := p.getLast?.bind Segment.field?

/-- The path ends at the position field of an instance. -/
def isIndexMarker (p : Path) : Bool := p.baseField? == some Vocabulary.indexField

/-- The names of the fields on the path. -/
def fields (p : Path) : List String := p.filterMap Segment.field?

/-- The names of the fields on the path, joined by points. -/
def logicalKey (p : Path) : String := ".".intercalate p.fields

/-- The beginnings of the path that end with a selector, the shortest first. -/
def instancePaths : Path → List Path
  | [] => []
  | s :: rest =>
    let deeper := (instancePaths rest).map (s :: ·)
    if s.isSelector then [s] :: deeper else deeper

/-- The longest beginning of the path that ends with a selector. -/
def section? (p : Path) : Option Path := p.instancePaths.getLast?

/-- The identity selected right after the first occurrence of a field before the end. -/
def instanceOf? (name : String) : Path → Option String
  | s :: next :: rest =>
    if s = .field name then next.selector? else instanceOf? name (next :: rest)
  | _ => none

/-- The segments after a given beginning of the path. -/
def relativeTo? (p ancestor : Path) : Option Path :=
  if ancestor.isPrefixOf p then some (p.drop ancestor.length) else none

/-- The order of paths by their first difference; a beginning comes before what it begins. -/
def compare : Path → Path → Ordering
  | [], [] => .eq
  | [], _ :: _ => .lt
  | _ :: _, [] => .gt
  | a :: p, b :: q => (a.compare b).then (compare p q)

/-- The last three segments are a field, a selector and an identity field. -/
def endsInIdentity : List Segment → Bool
  | .field f :: .selector _ :: .field _ :: _ =>
    f == Vocabulary.nameField || f == Vocabulary.typeField
  | _ => false

/-- The path ends at the field that identifies an instance of a repeated section. -/
def isIdentity (p : Path) : Bool := endsInIdentity p.reverse

/-! ## Instances around a path -/

/-- Every path of an instance is a beginning of the path. -/
theorem prefix_of_mem_instancePaths {p q : Path} (h : q ∈ p.instancePaths) : q <+: p := by
  induction p generalizing q with
  | nil => simp [instancePaths] at h
  | cons s rest ih =>
    rw [instancePaths] at h
    have deeper : ∀ q ∈ (instancePaths rest).map (s :: ·), q <+: s :: rest := by
      intro q hq
      obtain ⟨r, hr, rfl⟩ := List.mem_map.1 hq
      exact (List.prefix_cons_inj s).2 (ih hr)
    split at h
    · rcases List.mem_cons.1 h with rfl | h
      · exact ⟨rest, rfl⟩
      · exact deeper q h
    · exact deeper q h

/-- A path is empty or ends with the last segment after its parent. -/
theorem parent?_child (p : Path) (name : String) : (p.child name).parent? = some p := by
  simp [parent?, child]

end Path

end Reconfig
