import Reconfig.Proofs.Identity
import Reconfig.Proofs.Objects

/-!
# The life of replication objects

The changes between two configurations lead from the replication objects of the current one to
those of the desired one. A destination that is gone is deleted, and nothing is said about its
namespaces; a namespace that is gone from a destination that is kept is detached, unless its name
returns to a default.

* `find?_destination_of_new`, `find?_destination_of_removed`, `find?_namespace_of_new`,
  `find?_namespace_of_removed`, **`find?_namespace_below_removed`**: the changes of names;
* **`moves_of_diff`**: the changes lead to the desired objects;
* **`arranged_changes_fit`**: they can be applied in the order in which they are arranged.
-/

namespace Reconfig

open Vocabulary (nameField)
open Reconfig.Path (parse render)
open Replication (IsMove Moves)

/-! ## Paths of objects -/

theorem destinationPath_selects (dc : String) : (destinationPath dc).Selects dc :=
  ⟨[.field xdrContext], "dcs", rfl⟩

theorem namespacePath_selects (dc ns : String) : (namespacePath dc ns).Selects ns :=
  ⟨destinationPath dc, "namespaces", rfl⟩

theorem instancePaths_destination (dc : String) :
    (destinationPath dc).instancePaths = [destinationPath dc] := rfl

theorem instancePaths_namespace (dc ns : String) :
    (namespacePath dc ns).instancePaths = [destinationPath dc, namespacePath dc ns] := rfl

theorem isExcluded_name (options : DiffOptions) {p : Path} (hp : p.context? = some xdrContext) :
    isExcluded options (p.child nameField) = false := by
  have hne : p ≠ [] := by
    rintro rfl
    cases hp
  have hcontext : (some xdrContext == some loggingContext) = false := by decide
  rw [isExcluded_identity options hne (.inl rfl), hp, hcontext, Bool.and_false]

section Places

variable {t : Tree} (ht : t.isSound = true) (hn : t.hasNamedReplication = true)

include ht hn

theorem placeOf_destination {dc : String} (h : dc ∈ t.replication.destinations) :
    placeOf (nameKey (destinationPath dc)) = .destination dc := by
  rw [placeOf, parse_nameKey ht (destination_name_leaf ht hn h), ReplicationPlace.of_destination]

theorem placeOf_namespace {dc ns : String} (h : (dc, ns) ∈ t.replication.namespaces) :
    placeOf (nameKey (namespacePath dc ns)) = .namespaceOf dc ns := by
  rw [placeOf, parse_nameKey ht (namespace_name_leaf ht hn h), ReplicationPlace.of_namespace]

end Places

/-! ## Changes of names -/

section Comparison

variable {desired current : Tree} (hd : desired.isSound = true)
  (hdn : desired.hasNamedReplication = true) (hc : current.isSound = true)
  (hcn : current.hasNamedReplication = true) (defaults : Dict Value) (options : DiffOptions)
  {dc ns : String}

include hd hdn hc hcn

theorem isRemoved_destination (h : dc ∈ current.replication.destinations)
    (hgone : dc ∉ desired.replication.destinations) :
    IsRemoved desired.flatten current.flatten (destinationPath dc) := by
  rw [mem_destinations_iff hc hcn] at h
  rw [mem_destinations_iff hd hdn] at hgone
  refine ⟨h, hgone, fun q hq hne => absurd ?_ hne⟩
  rwa [instancePaths_destination, List.mem_singleton] at hq

theorem isRemoved_namespace (h : (dc, ns) ∈ current.replication.namespaces)
    (hgone : (dc, ns) ∉ desired.replication.namespaces)
    (hdc : dc ∈ desired.replication.destinations) :
    IsRemoved desired.flatten current.flatten (namespacePath dc ns) := by
  rw [mem_namespaces_iff hc hcn] at h
  rw [mem_namespaces_iff hd hdn] at hgone
  rw [mem_destinations_iff hd hdn] at hdc
  refine ⟨h, hgone, fun q hq hne => ?_⟩
  rw [instancePaths_namespace, List.mem_pair] at hq
  rwa [hq.resolve_right hne]

theorem find?_destination_of_new (h : dc ∈ desired.replication.destinations)
    (hnew : dc ∉ current.replication.destinations) :
    (diff desired.flatten current.flatten defaults options).changes.find?
      (nameKey (destinationPath dc)) = some (.add (.text dc)) := by
  rw [mem_destinations_iff hc hcn] at hnew
  exact find?_name_of_new hd defaults options (destinationPath_selects dc)
    (destination_name_leaf hd hdn h) hnew (isExcluded_name options rfl)

theorem find?_destination_of_kept (h : dc ∈ desired.replication.destinations)
    (hkept : dc ∈ current.replication.destinations) :
    (diff desired.flatten current.flatten defaults options).changes.find?
      (nameKey (destinationPath dc)) = none :=
  find?_name_of_kept hd hc defaults options (destination_name_leaf hd hdn h)
    (destination_name_leaf hc hcn hkept)

theorem find?_destination_of_removed (h : dc ∈ current.replication.destinations)
    (hgone : dc ∉ desired.replication.destinations) :
    (diff desired.flatten current.flatten defaults options).changes.find?
      (nameKey (destinationPath dc)) = some (.remove (.text dc)) := by
  have hremoved := isRemoved_destination hd hdn hc hcn h hgone
  have hquiet : (Comparison.of desired.flatten current.flatten defaults options).reopensAround
      (destinationPath dc) = false :=
    reopensAround_eq_false defaults options hremoved.notDesired (instancePaths_destination dc)
  refine (find?_name_of_removed hc defaults options (destinationPath_selects dc) hremoved
    (destination_name_leaf hc hcn h) (isExcluded_name options rfl)).resolve_right fun hreset => ?_
  rw [hquiet] at hreset
  cases hreset.1

theorem find?_namespace_of_new (h : (dc, ns) ∈ desired.replication.namespaces)
    (hnew : (dc, ns) ∉ current.replication.namespaces) :
    (diff desired.flatten current.flatten defaults options).changes.find?
      (nameKey (namespacePath dc ns)) = some (.add (.text ns)) := by
  rw [mem_namespaces_iff hc hcn] at hnew
  exact find?_name_of_new hd defaults options (namespacePath_selects dc ns)
    (namespace_name_leaf hd hdn h) hnew (isExcluded_name options rfl)

theorem find?_namespace_of_kept (h : (dc, ns) ∈ desired.replication.namespaces)
    (hkept : (dc, ns) ∈ current.replication.namespaces) :
    (diff desired.flatten current.flatten defaults options).changes.find?
      (nameKey (namespacePath dc ns)) = none :=
  find?_name_of_kept hd hc defaults options (namespace_name_leaf hd hdn h)
    (namespace_name_leaf hc hcn hkept)

theorem find?_namespace_of_removed (h : (dc, ns) ∈ current.replication.namespaces)
    (hgone : (dc, ns) ∉ desired.replication.namespaces)
    (hdc : dc ∈ desired.replication.destinations) :
    ∃ v, (diff desired.flatten current.flatten defaults options).changes.find?
          (nameKey (namespacePath dc ns)) = some (.remove v) ∨
        (diff desired.flatten current.flatten defaults options).changes.find?
          (nameKey (namespacePath dc ns)) = some (.update v) := by
  have hremoved := isRemoved_namespace hd hdn hc hcn h hgone hdc
  rcases find?_name_of_removed hc defaults options (namespacePath_selects dc ns) hremoved
    (namespace_name_leaf hc hcn h) (isExcluded_name options rfl) with hremove | ⟨-, v, hupdate⟩
  · exact ⟨_, .inl hremove⟩
  · exact ⟨v, .inr hupdate⟩

/-- **No namespace is detached from a destination that is removed.** -/
theorem find?_namespace_below_removed (h : (dc, ns) ∈ current.replication.namespaces)
    (hgone : dc ∉ desired.replication.destinations) :
    (diff desired.flatten current.flatten defaults options).changes.find?
      (nameKey (namespacePath dc ns)) = none := by
  have hkey := parse_nameKey hc (namespace_name_leaf hc hcn h)
  have hremoved := isRemoved_destination hd hdn hc hcn (current.replication.isAttached _ h) hgone
  refine find?_below_removed defaults options hremoved (instancePaths_destination dc) ?_ ?_
  · rw [hkey]
    exact ⟨_, rfl⟩
  · rw [hkey, Path.parent?_child]
    simp [namespacePath]

/-! ## The changes of a comparison -/

theorem destination_of_change {key : String} {change : Change}
    (h : (diff desired.flatten current.flatten defaults options).changes.find? key = some change)
    (hbelow : destinationPath dc <+: parse key) :
    dc ∈ current.replication.destinations ∨ dc ∈ desired.replication.destinations := by
  rw [mem_destinations_iff hc hcn, mem_destinations_iff hd hdn, or_comm]
  exact mem_instancePaths_of_change defaults options h
    (Path.mem_instancePaths.2 ⟨hbelow, (destinationPath_selects dc).exists_select⟩)

theorem namespace_of_change {key : String} {change : Change}
    (h : (diff desired.flatten current.flatten defaults options).changes.find? key = some change)
    (hbelow : namespacePath dc ns <+: parse key) :
    (dc, ns) ∈ current.replication.namespaces ∨ (dc, ns) ∈ desired.replication.namespaces := by
  rw [mem_namespaces_iff hc hcn, mem_namespaces_iff hd hdn, or_comm]
  exact mem_instancePaths_of_change defaults options h
    (Path.mem_instancePaths.2 ⟨hbelow, (namespacePath_selects dc ns).exists_select⟩)

theorem isMove_destination {change : Change}
    (h : (diff desired.flatten current.flatten defaults options).changes.find?
      (nameKey (destinationPath dc)) = some change)
    (hany : dc ∈ current.replication.destinations ∨ dc ∈ desired.replication.destinations) :
    IsMove current.replication desired.replication change (.destination dc) := by
  by_cases hs : dc ∈ current.replication.destinations
  · by_cases ht : dc ∈ desired.replication.destinations
    · rw [find?_destination_of_kept hd hdn hc hcn defaults options ht hs] at h
      cases h
    · rw [find?_destination_of_removed hd hdn hc hcn defaults options hs ht] at h
      exact .inr ⟨hs, ht, _, (Option.some.inj h).symm⟩
  · have ht := hany.resolve_left hs
    rw [find?_destination_of_new hd hdn hc hcn defaults options ht hs] at h
    exact .inl ⟨hs, ht, _, (Option.some.inj h).symm⟩

theorem isMove_namespace {change : Change}
    (h : (diff desired.flatten current.flatten defaults options).changes.find?
      (nameKey (namespacePath dc ns)) = some change)
    (hany : (dc, ns) ∈ current.replication.namespaces ∨
      (dc, ns) ∈ desired.replication.namespaces) :
    IsMove current.replication desired.replication change (.namespaceOf dc ns) := by
  by_cases hs : (dc, ns) ∈ current.replication.namespaces
  · by_cases ht : (dc, ns) ∈ desired.replication.namespaces
    · rw [find?_namespace_of_kept hd hdn hc hcn defaults options ht hs] at h
      cases h
    · by_cases hdc : dc ∈ desired.replication.destinations
      · obtain ⟨v, hremove | hupdate⟩ :=
          find?_namespace_of_removed hd hdn hc hcn defaults options hs ht hdc
        · rw [hremove] at h
          exact .inr ⟨hs, ht, hdc, v, .inl (Option.some.inj h).symm⟩
        · rw [hupdate] at h
          exact .inr ⟨hs, ht, hdc, v, .inr (Option.some.inj h).symm⟩
      · rw [find?_namespace_below_removed hd hdn hc hcn defaults options hs hdc] at h
        cases h
  · have ht := hany.resolve_left hs
    rw [find?_namespace_of_new hd hdn hc hcn defaults options ht hs] at h
    exact .inl ⟨hs, ht, _, (Option.some.inj h).symm⟩

/-- **The changes of a comparison lead from the current replication objects to the desired
ones.** -/
theorem moves_of_diff : current.replication.Moves desired.replication
    (diff desired.flatten current.flatten defaults options).changes where
  isMove e he := by
    obtain ⟨key, change⟩ := e
    have hfind := Dict.mem_entries.1 he
    have hat := placeOf_isAt key
    cases hplace : placeOf key with
    | destination dc =>
      rw [hplace] at hat
      have hany := destination_of_change hd hdn hc hcn defaults options hfind
        (Path.prefix_of_eq_child hat)
      rw [placeOf_eq_destination hplace] at hfind
      exact isMove_destination hd hdn hc hcn defaults options hfind hany
    | namespaceOf dc ns =>
      rw [hplace] at hat
      have hany := namespace_of_change hd hdn hc hcn defaults options hfind
        (Path.prefix_of_eq_child hat)
      rw [placeOf_eq_namespace hplace] at hfind
      exact isMove_namespace hd hdn hc hcn defaults options hfind hany
    | destinationField dc field =>
      rw [hplace] at hat
      exact destination_of_change hd hdn hc hcn defaults options hfind
        (Path.prefix_of_eq_child hat)
    | destinationNested dc =>
      rw [hplace] at hat
      exact destination_of_change hd hdn hc hcn defaults options hfind hat
    | namespaceField dc ns =>
      rw [hplace] at hat
      exact namespace_of_change hd hdn hc hcn defaults options hfind hat
    | root => trivial
    | outside => trivial
  creates dc ht hs := ⟨_,
    Dict.mem_entries.2 (find?_destination_of_new hd hdn hc hcn defaults options ht hs),
    placeOf_destination hd hdn ht, rfl⟩
  deletes dc hs ht := ⟨_,
    Dict.mem_entries.2 (find?_destination_of_removed hd hdn hc hcn defaults options hs ht),
    placeOf_destination hc hcn hs, rfl⟩
  attaches dc ns ht hs := ⟨_,
    Dict.mem_entries.2 (find?_namespace_of_new hd hdn hc hcn defaults options ht hs),
    placeOf_namespace hd hdn ht, rfl⟩

/-- **Arranged changes fit the replication objects.** No object is created or attached that is
there, none is deleted, detached or changed that is not, and no namespace is attached to a
destination that is not there. In the end the destinations are the desired ones, and all desired
namespaces are attached to them. -/
theorem arranged_changes_fit :
    ∃ final, current.replication.run
        (rearrange (diff desired.flatten current.flatten defaults options).changes) = some final ∧
      final.destinations = desired.replication.destinations ∧
        desired.replication.namespaces ⊆ final.namespaces :=
  (moves_of_diff hd hdn hc hcn defaults options).run

end Comparison

/-- A destination is created and another one deleted; of the namespaces of a third one, one is
attached and one detached. -/
theorem arranged_changes_fit_of_three :
    let desired : Tree := [("xdr", .nested [("dcs", .repeated [
      [("name", .text "kept"), ("namespaces", .repeated [[("name", .text "old")],
        [("name", .text "new"), ("bin-policy", .text "all")]])],
      [("name", .text "added"), ("namespaces", .repeated [[("name", .text "old")]])]])])]
    let current : Tree := [("xdr", .nested [("dcs", .repeated [
      [("name", .text "kept"), ("namespaces", .repeated [[("name", .text "old")],
        [("name", .text "left")]])],
      [("name", .text "gone"), ("namespaces", .repeated [[("name", .text "old")]])]])])]
    ∃ final, current.replication.run
        (rearrange (diff desired.flatten current.flatten .empty {}).changes) = some final ∧
      final.destinations = desired.replication.destinations ∧
        desired.replication.namespaces ⊆ final.namespaces :=
  arranged_changes_fit (by decide) (by decide) (by decide) (by decide) .empty {}

end Reconfig
