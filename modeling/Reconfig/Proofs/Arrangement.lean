import Reconfig.Proofs.Order

/-!
# Every change once, in its phase

The arranged changes are the given ones, each once and as it is, but for those that concern an
object which is removed anyway. They come in the order of the phases and, within a phase, of the
keys. To arrange what has been kept changes nothing.

* `Path.NamesDestination`, `Path.NamesNamespace`, `Path.IsDestinationField`, `Phase.Admits`: the
  phase of a change, told from the path of its key;
* `ChangeSet.Removes`, `ChangeSet.LeavesOut`: the changes that are left out;
* `destinationAround?_of`, `namespaceAround?_of`: the object that a path lies at or below;
* `phaseAt`, `isDropped`, **`phase?_eq`**: the two decisions about a change;
* `admits_iff`, **`leavesOut_iff`**;
* **`changes_arranged_once`**.
-/

namespace Reconfig

open Vocabulary (nameField)
open Reconfig.Path (parse)

/-! ## The phase of a path -/

/-- The path is the name of a destination. -/
def Path.NamesDestination (p : Path) : Prop := ∃ dc, p = (destinationPath dc).child nameField

/-- The path is the name of a namespace of a destination. -/
def Path.NamesNamespace (p : Path) : Prop := ∃ dc ns, p = (namespacePath dc ns).child nameField

/-- The path is a direct field of a destination, other than its name. -/
def Path.IsDestinationField (p : Path) : Prop :=
  ∃ dc field, field ≠ nameField ∧ p = (destinationPath dc).child field

/-- **The changes of a phase**: the removals of namespaces; what creates or deletes destinations;
the direct fields of destinations; the additions of namespaces; and all else. -/
def Phase.Admits (p : Path) (change : Change) : Phase → Prop
  | .detach => p.NamesNamespace ∧ change.has .remove = true
  | .destinations => p.NamesDestination ∧ (change.has .add = true ∨ change.has .remove = true)
  | .destinationFields => p.IsDestinationField
  | .attach => p.NamesNamespace ∧ change.has .remove = false ∧ change.has .add = true
  | .remaining =>
    ¬ (p.NamesNamespace ∧ (change.has .add = true ∨ change.has .remove = true)) ∧
      ¬ (p.NamesDestination ∧ (change.has .add = true ∨ change.has .remove = true)) ∧
        ¬ p.IsDestinationField

/-- The change of the name of the object at a path carries a removal. -/
def ChangeSet.Removes (changes : ChangeSet) (p : Path) : Prop :=
  ∃ key change, changes.find? key = some change ∧ parse key = p.child nameField ∧
    change.has .remove = true

/-- **The changes that are left out**: at or below a destination that is removed, but for the names
of destinations and namespaces, and at or below a namespace that is removed, but for its name. -/
def ChangeSet.LeavesOut (changes : ChangeSet) (p : Path) : Prop :=
  (∃ dc, destinationPath dc <+: p ∧ ¬ p.NamesDestination ∧ ¬ p.NamesNamespace ∧
      changes.Removes (destinationPath dc)) ∨
    ∃ dc ns, namespacePath dc ns <+: p ∧ p ≠ (namespacePath dc ns).child nameField ∧
      changes.Removes (namespacePath dc ns)

/-! ## Places and paths -/

namespace ReplicationPlace

/-- The destination that a place lies at or below. -/
def destinationAround? : ReplicationPlace → Option String
  | .destination dc => some dc
  | .destinationField dc _ => some dc
  | .namespaceOf dc _ => some dc
  | .namespaceField dc _ => some dc
  | .destinationNested dc => some dc
  | _ => none

/-- The namespace, with its destination, that a place lies at or below. -/
def namespaceAround? : ReplicationPlace → Option (String × String)
  | .namespaceOf dc ns => some (dc, ns)
  | .namespaceField dc ns => some (dc, ns)
  | _ => none

theorem of_destinationPath (dc : String) (rest : Path) :
    of (destinationPath dc ++ rest) = below dc rest := by
  simp [of, within, destinationPath]

theorem of_eq_destination {p : Path} {dc : String} :
    of p = .destination dc ↔ p = (destinationPath dc).child nameField := by
  constructor
  · intro h
    have hat := of_isAt p
    rwa [h] at hat
  · rintro rfl
    exact of_destination dc

theorem of_eq_namespaceOf {p : Path} {dc ns : String} :
    of p = .namespaceOf dc ns ↔ p = (namespacePath dc ns).child nameField := by
  constructor
  · intro h
    have hat := of_isAt p
    rwa [h] at hat
  · rintro rfl
    exact of_namespace dc ns

theorem of_eq_destinationField {p : Path} {dc field : String} :
    of p = .destinationField dc field ↔
      field ≠ nameField ∧ p = (destinationPath dc).child field := by
  constructor
  · intro h
    have hat := of_isAt p
    rw [h] at hat
    refine ⟨?_, hat⟩
    rintro rfl
    rw [of_eq_destination.2 hat] at h
    cases h
  · rintro ⟨hfield, rfl⟩
    rw [Path.child, of_destinationPath, below, if_neg hfield]

theorem destinationAround?_of {p : Path} {dc : String} :
    (of p).destinationAround? = some dc ↔ destinationPath dc <+: p := by
  constructor
  · intro h
    have hat := of_isAt p
    cases hp : of p with
    | root => simp [hp, destinationAround?] at h
    | outside => simp [hp, destinationAround?] at h
    | destination d | destinationField d field =>
      rw [hp] at h hat
      cases h
      exact ⟨_, hat.symm⟩
    | destinationNested d =>
      rw [hp] at h hat
      cases h
      exact hat
    | namespaceOf d ns =>
      rw [hp] at h hat
      cases h
      exact ⟨_, (List.append_assoc ..).symm.trans hat.symm⟩
    | namespaceField d ns =>
      rw [hp] at h hat
      cases h
      exact (List.prefix_append _ _).trans hat
  · rintro ⟨rest, rfl⟩
    rw [of_destinationPath]
    unfold below
    split
    · split_ifs <;> rfl
    · split_ifs <;> rfl
    · rfl

theorem namespaceAround?_of {p : Path} {dc ns : String} :
    (of p).namespaceAround? = some (dc, ns) ↔ namespacePath dc ns <+: p := by
  constructor
  · intro h
    have hat := of_isAt p
    cases hp : of p with
    | namespaceOf d n =>
      rw [hp] at h hat
      cases h
      exact ⟨_, hat.symm⟩
    | namespaceField d n =>
      rw [hp] at h hat
      cases h
      exact hat
    | root | outside | destination d | destinationField d field | destinationNested d =>
      simp [hp, namespaceAround?] at h
  · rintro ⟨rest, rfl⟩
    rw [namespacePath, List.append_assoc, of_destinationPath]
    simp only [below, List.cons_append, List.nil_append, if_true]
    split_ifs <;> rfl

end ReplicationPlace

open ReplicationPlace (of_eq_destination of_eq_namespaceOf of_eq_destinationField
  destinationAround?_of namespaceAround?_of)

/-! ## The phase of a change -/

/-- The phase of a change at a place. -/
def phaseAt : ReplicationPlace → Change → Phase
  | .destination _, change =>
    if change.has .add || change.has .remove then .destinations else .remaining
  | .destinationField _ _, _ => .destinationFields
  | .namespaceOf _ _, change =>
    if change.has .remove then .detach else if change.has .add then .attach else .remaining
  | _, _ => .remaining

/-- The place belongs to an object that is removed, and is not its name. -/
def isDropped (gone : Departures) : ReplicationPlace → Bool
  | .destinationField dc _ => gone.destinations.contains dc
  | .destinationNested dc => gone.destinations.contains dc
  | .namespaceField dc ns => gone.destinations.contains dc || gone.namespaces.contains (dc, ns)
  | _ => false

theorem phase?_eq (gone : Departures) (key : String) (change : Change) :
    phase? gone key change =
      if isDropped gone (placeOf key) then none else some (phaseAt (placeOf key) change) := by
  unfold phase? isDropped phaseAt
  cases placeOf key <;> simp only [Bool.false_eq_true, if_false] <;> split_ifs <;> rfl

theorem namesDestination_iff {p : Path} :
    p.NamesDestination ↔ ∃ dc, ReplicationPlace.of p = .destination dc := by
  simp only [Path.NamesDestination, of_eq_destination]

theorem namesNamespace_iff {p : Path} :
    p.NamesNamespace ↔ ∃ dc ns, ReplicationPlace.of p = .namespaceOf dc ns := by
  simp only [Path.NamesNamespace, of_eq_namespaceOf]

theorem isDestinationField_iff {p : Path} :
    p.IsDestinationField ↔ ∃ dc field, ReplicationPlace.of p = .destinationField dc field := by
  simp only [Path.IsDestinationField, of_eq_destinationField]

theorem admits_iff {p : Path} {change : Change} {phase : Phase} :
    phase.Admits p change ↔ phase = phaseAt (.of p) change := by
  cases phase <;> simp only [Phase.Admits, namesDestination_iff, namesNamespace_iff,
    isDestinationField_iff, phaseAt] <;>
    cases ReplicationPlace.of p <;>
      rcases Bool.eq_false_or_eq_true (change.has .add) with ha | ha <;>
        rcases Bool.eq_false_or_eq_true (change.has .remove) with hr | hr <;> simp [ha, hr]

/-! ## The changes that are left out -/

section Dropped

variable {changes : ChangeSet}

theorem removes_destination {dc : String} :
    changes.Removes (destinationPath dc) ↔ dc ∈ (departures changes).destinations := by
  rw [mem_departures_destinations]
  simp only [ChangeSet.Removes, Carries, Prod.exists, Dict.mem_entries, placeOf, of_eq_destination]

theorem removes_namespace {dc ns : String} :
    changes.Removes (namespacePath dc ns) ↔ (dc, ns) ∈ (departures changes).namespaces := by
  rw [mem_departures_namespaces]
  simp only [ChangeSet.Removes, Carries, Prod.exists, Dict.mem_entries, placeOf, of_eq_namespaceOf]

/-- **What is dropped is what is to be left out.** -/
theorem leavesOut_iff {p : Path} :
    changes.LeavesOut p ↔ isDropped (departures changes) (.of p) = true := by
  simp only [ChangeSet.LeavesOut, removes_destination, removes_namespace, namesDestination_iff,
    namesNamespace_iff, ← destinationAround?_of, ← namespaceAround?_of, ne_eq, ← of_eq_namespaceOf]
  cases ReplicationPlace.of p <;>
    simp [ReplicationPlace.destinationAround?, ReplicationPlace.namespaceAround?, isDropped]

theorem mem_rearrange_iff {key : String} {change : Change} :
    (key, change) ∈ rearrange changes ↔
      changes.find? key = some change ∧ ¬ changes.LeavesOut (parse key) := by
  rw [mem_rearrange, Dict.mem_entries, leavesOut_iff, phase?_eq, placeOf]
  split_ifs with h <;> simp [h]

theorem phase?_of_kept {kept : ChangeSet} (h : ∀ key change, kept.find? key = some change ↔
      (key, change) ∈ rearrange changes) (key : String) (change : Change) :
    phase? (departures kept) key change = phase? (departures changes) key change := by
  have hcarries : ∀ {place : ReplicationPlace}, place.isIdentity = true →
      (Carries kept.entries place .remove ↔ Carries changes.entries place .remove) := by
    intro place hid
    have hchanges : Carries (rearrange changes) place .remove ↔ _ := carries_rearrange hid
    rw [← hchanges]
    simp only [Carries, Prod.exists, Dict.mem_entries, h]
  have hgone : ∀ place,
      isDropped (departures kept) place = isDropped (departures changes) place := by
    intro place
    have hdestinations : ∀ dc, (departures kept).destinations.contains dc =
        (departures changes).destinations.contains dc := fun dc => by
      rw [Bool.eq_iff_iff, List.contains_iff_mem, List.contains_iff_mem,
        mem_departures_destinations, mem_departures_destinations, hcarries rfl]
    have hnamespaces : ∀ n, (departures kept).namespaces.contains n =
        (departures changes).namespaces.contains n := by
      rintro ⟨dc, ns⟩
      rw [Bool.eq_iff_iff, List.contains_iff_mem, List.contains_iff_mem,
        mem_departures_namespaces, mem_departures_namespaces, hcarries rfl]
    cases place <;> simp only [isDropped, hdestinations, hnamespaces]
  rw [phase?_eq, phase?_eq, hgone]

/-- **To arrange what has been kept changes nothing.** -/
theorem rearrange_kept : rearrange (Dict.ofList (rearrange changes)) = rearrange changes := by
  have hkept : ∀ key change, (Dict.ofList (rearrange changes)).find? key = some change ↔
      (key, change) ∈ rearrange changes := fun key change =>
    ⟨Dict.mem_of_find?_ofList, Dict.find?_ofList_of_mem rearrange_keys_distinct⟩
  have hentries : Dict.ofList (rearrange changes) =
      changes.filter fun key change => (phase? (departures changes) key change).isSome := by
    refine Dict.ext_find? fun key => ?_
    rw [Option.ext_iff]
    intro change
    rw [hkept, mem_rearrange, ← Dict.mem_entries, Dict.filter, List.mem_filter]
  rw [hentries] at hkept ⊢
  rw [rearrange, rearrange]
  refine List.flatMap_congr fun p _ => ?_
  simp only [phase?_of_kept hkept]
  rw [Dict.filter, List.filter_filter]
  refine List.filter_congr fun e _ => ?_
  cases phase? (departures changes) e.1 e.2 <;> simp

end Dropped

/-- **Every change once, in its phase.** The arranged changes have distinct keys, each with its own
change, and the missing ones are those to be left out. Every change has one phase, and the arranged
changes are in the order of the phases and, within a phase, of the keys. To arrange what has been
kept gives the same again. -/
theorem changes_arranged_once (changes : ChangeSet) :
    ((rearrange changes).map (·.1)).Nodup ∧
      (∀ key change, (key, change) ∈ rearrange changes ↔
        changes.find? key = some change ∧ ¬ changes.LeavesOut (parse key)) ∧
      (∀ p change, ∃! phase : Phase, phase.Admits p change) ∧
      (rearrange changes).Pairwise (fun a b => ∃ p q : Phase, p.Admits (parse a.1) a.2 ∧
        q.Admits (parse b.1) b.2 ∧ (p.rank < q.rank ∨ (p = q ∧ a.1 < b.1))) ∧
      rearrange (Dict.ofList (rearrange changes)) = rearrange changes := by
  refine ⟨List.pairwise_map.2 rearrange_keys_distinct, fun _ _ => mem_rearrange_iff,
    fun p change => ⟨_, admits_iff.2 rfl, fun _ => admits_iff.1⟩, ?_, rearrange_kept⟩
  refine rearrange_ordered.imp_of_mem fun {a b} ha hb h => ?_
  have phase_of : ∀ {e : String × Change}, e ∈ rearrange changes →
      ∃ p : Phase, phase? (departures changes) e.1 e.2 = some p ∧ p.Admits (parse e.1) e.2 := by
    intro e he
    obtain ⟨p, hp⟩ := Option.isSome_iff_exists.1 (mem_rearrange.1 he).2
    refine ⟨p, hp, admits_iff.2 ?_⟩
    rw [phase?_eq] at hp
    exact (Option.some.inj (Option.ite_none_left_eq_some.1 hp).2).symm
  obtain ⟨p, hp, hadmits⟩ := phase_of ha
  obtain ⟨q, hq, hadmits'⟩ := phase_of hb
  exact ⟨p, q, hadmits, hadmits', h p q hp hq⟩

end Reconfig
