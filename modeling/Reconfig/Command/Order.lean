import Reconfig.Change
import Reconfig.Key.Text

/-!
# The order of changes

The objects of cross-cluster replication depend on each other: a namespace is attached to a
destination that exists, and a destination is deleted once its namespaces are detached. Changes are
applied in five phases, and in the order of their keys within a phase. The fields of a destination
that is deleted, and of a namespace that is detached, are left out.

* `ReplicationPlace`, `ReplicationPlace.of`: where a path lies among the replication objects;
* `Phase`, `Departures`, `phase?`;
* **`rearrange`**: the changes in the order of application;
* **`mem_rearrange`**: nothing is invented.
-/

namespace Reconfig

/-- The context of replication. -/
def xdrContext : String := "xdr"

/-- Where a path lies among the replication objects. -/
inductive ReplicationPlace where
  /-- The identity of a destination. -/
  | destination (dc : String)
  /-- A direct field of a destination. -/
  | destinationField (dc field : String)
  /-- The identity of a namespace of a destination. -/
  | namespaceOf (dc ns : String)
  /-- Anything else at or below a namespace of a destination. -/
  | namespaceField (dc ns : String)
  /-- Anything else at or below a destination. -/
  | destinationNested (dc : String)
  /-- Anything else in the context. -/
  | root
  /-- Another context. -/
  | outside
  deriving DecidableEq, Repr

namespace ReplicationPlace

/-- The place of a path below a destination. -/
def below (dc : String) : Path → ReplicationPlace
  | [.field f] => if f = Vocabulary.nameField then .destination dc else .destinationField dc f
  | .field list :: .selector ns :: rest =>
    if list = "namespaces" then
      if rest = [.field Vocabulary.nameField] then .namespaceOf dc ns else .namespaceField dc ns
    else .destinationNested dc
  | _ => .destinationNested dc

/-- The place of a path in the context of replication. -/
def within : Path → ReplicationPlace
  | .field list :: .selector dc :: rest => if list = "dcs" then below dc rest else .root
  | _ => .root

/-- The place of a path. -/
def of : Path → ReplicationPlace
  | .field context :: rest => if context = xdrContext then within rest else .outside
  | _ => .outside

end ReplicationPlace

/-- The phases of application, in order. -/
inductive Phase where
  /-- Namespaces are detached from destinations. -/
  | detach
  /-- Destinations are created and deleted. -/
  | destinations
  /-- Direct fields of destinations are set. -/
  | destinationFields
  /-- Namespaces are attached to destinations. -/
  | attach
  /-- All other changes. -/
  | remaining
  deriving DecidableEq, Repr

/-- All phases in their order. -/
def Phase.all : List Phase := [.detach, .destinations, .destinationFields, .attach, .remaining]

/-- The replication objects that changes remove. -/
structure Departures where
  /-- Destinations to be deleted. -/
  destinations : List String
  /-- Namespaces to be detached, each with its destination. -/
  namespaces : List (String × String)

/-- The place of a key. -/
def placeOf (key : String) : ReplicationPlace := .of (Path.parse key)

/-- The destination whose identity a change removes. -/
def departingDestination? (key : String) (change : Change) : Option String :=
  match placeOf key with
  | .destination dc => if change.has .remove then some dc else none
  | _ => none

/-- The namespace, with its destination, whose identity a change removes. -/
def departingNamespace? (key : String) (change : Change) : Option (String × String) :=
  match placeOf key with
  | .namespaceOf dc ns => if change.has .remove then some (dc, ns) else none
  | _ => none

/-- The replication objects that a set of changes removes. -/
def departures (changes : ChangeSet) : Departures where
  destinations := changes.entries.filterMap fun e => departingDestination? e.1 e.2
  namespaces := changes.entries.filterMap fun e => departingNamespace? e.1 e.2

/-- The phase of a change, none if it is left out. -/
def phase? (gone : Departures) (key : String) (change : Change) : Option Phase :=
  match placeOf key with
  | .destination _ =>
    if change.has .add || change.has .remove then some .destinations else some .remaining
  | .destinationField dc _ =>
    if gone.destinations.contains dc then none else some .destinationFields
  | .namespaceOf _ _ =>
    if change.has .remove then some .detach
    else if change.has .add then some .attach
    else some .remaining
  | .namespaceField dc ns =>
    if gone.destinations.contains dc || gone.namespaces.contains (dc, ns) then none
    else some .remaining
  | .destinationNested dc => if gone.destinations.contains dc then none else some .remaining
  | .root => some .remaining
  | .outside => some .remaining

/-- **The changes in the order of application.** -/
def rearrange (changes : ChangeSet) : List (String × Change) :=
  let gone := departures changes
  Phase.all.flatMap fun p => changes.entries.filter fun e => phase? gone e.1 e.2 == some p

/-- **Nothing is invented**: what is applied is one of the changes. -/
theorem mem_rearrange {changes : ChangeSet} {e : String × Change} :
    e ∈ rearrange changes ↔
      e ∈ changes.entries ∧ (phase? (departures changes) e.1 e.2).isSome = true := by
  simp only [rearrange, List.mem_flatMap, List.mem_filter, beq_iff_eq]
  constructor
  · rintro ⟨p, -, he, hp⟩
    exact ⟨he, by rw [hp]; rfl⟩
  · rintro ⟨he, hs⟩
    obtain ⟨p, hp⟩ := Option.isSome_iff_exists.1 hs
    exact ⟨p, by cases p <;> simp [Phase.all], he, hp⟩

end Reconfig
