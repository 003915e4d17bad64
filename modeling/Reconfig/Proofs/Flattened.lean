import Mathlib.Data.List.Pairwise
import Reconfig.Proofs.TreePaths

/-!
# The flat configuration of a tree is well-formed

A comparison relies on the shape of flat configurations without looking at it: that no key is below
another one, that the instances of a list are not mixed with fields, that every instance shows its
identity, and that the markers count the sections of a list. All of this is true of what a tree
becomes, whatever its depth.

* `valueAt?_flatten`, `reaches_flatten`: the flat configuration by its paths;
* **`isWellFormed_flatten`**: a tree can hold it, as one did;
* `FlatConfig.Lists`, **`lists_flatten`**: the instances below a path are the sections of a list;
* **`flatten_well_formed_and_marked`**.
-/

namespace Reconfig

open Vocabulary (nameField typeField indexField)
open Reconfig.Path (render parse)

/-! ## Flat configurations -/

section Flatten

variable {t : Tree} (ht : t.isSound = true) {p : Path}

include ht

theorem valueAt?_flatten {v : Value} :
    t.flatten.valueAt? p = some v ↔ (p, v) ∈ fieldLeaves t := by
  rw [FlatConfig.valueAt?_eq_some]
  constructor
  · rintro ⟨key, rfl, hv⟩
    exact (find?_flatten ht).1 hv
  · intro h
    exact ⟨render p, parse_render_leaf (e := (p, v)) ht h, find?_flatten_render ht h⟩

theorem mem_paths_flatten : p ∈ t.flatten.paths ↔ ∃ v, (p, v) ∈ fieldLeaves t := by
  rw [FlatConfig.mem_paths]
  exact exists_congr fun v => valueAt?_flatten ht

theorem reaches_flatten : t.flatten.Reaches p ↔ ∃ q v, (p ++ q, v) ∈ fieldLeaves t := by
  rw [FlatConfig.reaches_iff]
  exact exists_congr fun q => exists_congr fun v => valueAt?_flatten ht

theorem exists_list_of_reaches {id : String} (h : t.flatten.Reaches (p.select id)) :
    ∃ sections : List Tree, t.HasAt p (.repeated sections) ∧
      (identities? sections).isSome = true ∧ ∃ s ∈ sections, s.identity? = some id := by
  obtain ⟨q, v, hv⟩ := (reaches_flatten ht).1 h
  rw [Path.select, List.append_assoc] at hv
  exact exists_list_of_leaf p ht hv

theorem not_reaches_child_of_select {id name : String} (h : t.flatten.Reaches (p.select id)) :
    ¬ t.flatten.Reaches (p.child name) := by
  intro hname
  obtain ⟨sections, hlist, -, -⟩ := exists_list_of_reaches ht h
  obtain ⟨q, v, hv⟩ := (reaches_flatten ht).1 hname
  obtain ⟨field, hfield⟩ := hlist.exists_baseField
  rw [Path.child, List.append_assoc, hlist.mem_leaves_iff ht hfield] at hv
  rcases field_mem_leaves.1 hv with ⟨fields, heq, -⟩ | ⟨s, heq, -⟩ <;> cases heq

section Instance

variable {sections : List Tree} {i : Nat} {s : Tree} {id : String}
  (h : t.HasAt p (.repeated sections)) (hids : (identities? sections).isSome = true)
  (hi : sections[i]? = some s) (hid : s.identity? = some id)

include h hids hi hid

theorem valueAt?_marker :
    t.flatten.valueAt? ((p.select id).child indexField) = some (indexValue i) := by
  rw [valueAt?_flatten ht, Path.child, h.mem_leaves_select_iff ht hids hi hid]
  exact .inr ⟨rfl, rfl⟩

theorem valueAt?_section {name : String} (hname : s.find? name = some (.text id))
    (hplain : Vocabulary.isTypedSection name = false) :
    t.flatten.textAt? ((p.select id).child name) = some id := by
  have hsound := sound_of_isSome (h.isSound ht).2 hids (List.mem_of_getElem? hi)
  rw [FlatConfig.textAt?_eq_some, valueAt?_flatten ht, Path.child,
    h.mem_leaves_select_iff ht hids hi hid]
  exact .inl ((text_mem_fieldLeaves hsound hplain).2 hname)

theorem not_reaches_section {name : String} (hname : s.find? name = none)
    (hne : name ≠ indexField) : ¬ t.flatten.Reaches ((p.select id).child name) := by
  intro hreaches
  have hsound := sound_of_isSome (h.isSound ht).2 hids (List.mem_of_getElem? hi)
  obtain ⟨q, v, hv⟩ := (reaches_flatten ht).1 hreaches
  rw [Path.child, List.append_assoc, h.mem_leaves_select_iff ht hids hi hid] at hv
  rcases hv with hv | ⟨heq, -⟩
  · obtain ⟨w, hw, -⟩ := (field_mem_fieldLeaves hsound).1 hv
    exact nomatch hname.symm.trans hw
  · exact hne (by simpa using (List.cons.inj heq).1)

theorem identifies_flatten : t.flatten.Identifies (p.select id) id := by
  rcases identity?_eq_some hid with hname | ⟨hnone, htype⟩
  · exact .inl (valueAt?_section ht h hids hi hid hname (by decide))
  · exact .inr ⟨not_reaches_section ht h hids hi hid hnone (by decide),
      valueAt?_section ht h hids hi hid htype (by decide)⟩

end Instance

/-- **The flat configuration of a tree is well-formed.** -/
theorem isWellFormed_flatten : t.flatten.IsWellFormed where
  rooted p hp := by
    obtain ⟨v, hv⟩ := (mem_paths_flatten ht).1 hp
    obtain ⟨name, w, q, hmem, rfl, -⟩ := mem_fieldLeaves.1 hv
    have hne := isFieldName_ne_empty (sound_of_mem ht hmem).1
    simpa [Path.context?, Segment.field?] using hne
  apart p hp q hq hpq := by
    obtain ⟨v, hv⟩ := (mem_paths_flatten ht).1 hp
    obtain ⟨w, hw⟩ := (mem_paths_flatten ht).1 hq
    have : Std.Symm Leaf.Apart := ⟨fun _ _ happart => happart.symm⟩
    by_contra hne
    exact ((fieldLeaves_apart t ht).forall hv hw fun heq => hne (congrArg Prod.fst heq)).1 hpq
  alike p hp q hq := by
    refine Path.partsAlike_iff.2 fun r s u hs hu => ?_
    have hrs : t.flatten.Reaches (r ++ [s]) := ⟨p, hp, hs⟩
    have hru : t.flatten.Reaches (r ++ [u]) := ⟨q, hq, hu⟩
    cases s <;> cases u
    · rfl
    · exact absurd hrs (not_reaches_child_of_select ht hru)
    · exact absurd hru (not_reaches_child_of_select ht hrs)
    · rfl
  marked p hp := by
    obtain ⟨v, hv⟩ := (mem_paths_flatten ht).1 hp
    exact (leafAt_of_mem ht hv).marked ht
  braceFree p hp s hs id hid := by
    obtain ⟨v, hv⟩ := (mem_paths_flatten ht).1 hp
    cases s <;> cases hid
    exact (leafAt_of_mem ht hv).isBraceFree ht hs
  identified p hp s hs id hid := by
    obtain ⟨hsp, list, id', rfl⟩ := Path.mem_instancePaths.1 hs
    obtain rfl : id' = id := by simpa [Path.selected?_select] using hid
    obtain ⟨sections, hlist, hids, u, hu, huid⟩ := exists_list_of_reaches ht ⟨p, hp, hsp⟩
    obtain ⟨i, hi⟩ := List.mem_iff_getElem?.1 hu
    exact identifies_flatten ht hlist hids hi huid
  flat e he := (leafAt_of_mem ht ((find?_flatten ht).1 (Dict.mem_entries.1 he))).isFlat.1
  typed e he := (leafAt_of_mem ht ((find?_flatten ht).1 (Dict.mem_entries.1 he))).isFlat.2

end Flatten

/-! ## Lists -/

/-- The field that identifies a section, if one does. -/
def Tree.identityField (t : Tree) : String := if t.contains nameField then nameField else typeField

/-- The instances at a path are those of a list of sections with the given identities. -/
structure FlatConfig.Lists (f : FlatConfig) (p : Path) (sections : List Tree) (ids : List String) :
    Prop where
  /-- Each section has its instance, and there are no other ones. -/
  reaches_iff : ∀ id, f.Reaches (p.select id) ↔ id ∈ ids
  /-- The name of a section, or its type if it has no name, is its identity. -/
  identified : ∀ (i : Nat) (s : Tree) (id : String), sections[i]? = some s → ids[i]? = some id →
    f.textAt? ((p.select id).child s.identityField) = some id
  /-- The markers count the sections. -/
  marked : ids.map (fun id => f.valueAt? ((p.select id).child indexField)) =
    (List.range ids.length).map fun i => some (indexValue i)
  /-- A marker denotes its position, if a word can hold it. -/
  numbered : ids.length ≤ Nat.pow 2 64 →
    ids.map (fun id => f.position? (p.select id)) = (List.range ids.length).map some

theorem exists_section_of_identity {sections : List Tree} {ids : List String}
    (hids : identities? sections = some ids) {i : Nat} {id : String} (hi : ids[i]? = some id) :
    ∃ s, sections[i]? = some s ∧ s.identity? = some id := by
  have hget : (sections.map Tree.identity?)[i]? = some (some id) := by
    rw [(identities?_eq_some.1 hids).1, List.getElem?_map, hi]
    rfl
  rw [List.getElem?_map] at hget
  exact Option.map_eq_some_iff.1 hget

section Lists

variable {t : Tree} (ht : t.isSound = true) {p : Path}

include ht

/-- **The instances below a list are its sections**, with their identities and positions. -/
theorem lists_flatten {sections : List Tree} {ids : List String}
    (h : t.HasAt p (.repeated sections)) (hids : identities? sections = some ids) :
    t.flatten.Lists p sections ids := by
  have hsome : (identities? sections).isSome = true := by rw [hids]; rfl
  have hmarker : ∀ i id, ids[i]? = some id →
      t.flatten.valueAt? ((p.select id).child indexField) = some (indexValue i) := by
    intro i id hi
    obtain ⟨s, hs, hid⟩ := exists_section_of_identity hids hi
    exact valueAt?_marker ht h hsome hs hid
  constructor
  case reaches_iff =>
    intro id
    constructor
    · intro hreaches
      obtain ⟨q, v, hv⟩ := (reaches_flatten ht).1 hreaches
      obtain ⟨name, hname⟩ := h.exists_baseField
      rw [Path.select, List.append_assoc, h.mem_leaves_iff ht hname] at hv
      obtain ⟨sections', heq, -, i, s, hs, hid, -⟩ := selector_mem_leaves.1 hv
      cases heq
      exact mem_identities hids (List.mem_of_getElem? hs) hid
    · intro hmem
      obtain ⟨i, hi⟩ := List.mem_iff_getElem?.1 hmem
      have hreaches := FlatConfig.reaches_of_value (hmarker i id hi)
      exact hreaches.of_prefix (List.prefix_append _ _)
  case identified =>
    intro i s id hs hi
    obtain ⟨s', hs', hid⟩ := exists_section_of_identity hids hi
    obtain rfl := Option.some.inj (hs.symm.trans hs')
    rcases identity?_eq_some hid with hname | ⟨hnone, htype⟩
    · have hfield : s.identityField = nameField := if_pos (by rw [Tree.contains, hname]; rfl)
      rw [hfield]
      exact valueAt?_section ht h hsome hs hid hname (by decide)
    · have hfield : s.identityField = typeField := if_neg (by rw [Tree.contains, hnone]; simp)
      rw [hfield]
      exact valueAt?_section ht h hsome hs hid htype (by decide)
  case marked =>
    refine List.ext_getElem (by simp) fun i hi _ => ?_
    rw [List.length_map] at hi
    rw [List.getElem_map, List.getElem_map, List.getElem_range]
    exact hmarker i _ (List.getElem?_eq_getElem hi)
  case numbered =>
    intro hlength
    refine List.ext_getElem (by simp) fun i hi _ => ?_
    rw [List.length_map] at hi
    rw [List.getElem_map, List.getElem_map, List.getElem_range, FlatConfig.position?,
      hmarker i _ (List.getElem?_eq_getElem hi), Option.bind_some,
      indexOf?_indexValue (Nat.lt_of_lt_of_le hi hlength)]

/-- **The flat configuration of a tree is well-formed, and its markers count the sections.** No key
is below another one, instances are not mixed with fields, and every instance shows its identity;
the instances below a list are its sections, in their order, and there are no other instances. -/
theorem flatten_well_formed_and_marked : t.flatten.IsWellFormed ∧
    (∀ p sections ids, t.HasAt p (.repeated sections) → identities? sections = some ids →
      t.flatten.Lists p sections ids) ∧
    ∀ p id, t.flatten.Reaches (p.select id) → ∃ sections ids,
      t.HasAt p (.repeated sections) ∧ identities? sections = some ids ∧ id ∈ ids := by
  refine ⟨isWellFormed_flatten ht, fun p sections ids h hids => lists_flatten ht h hids, ?_⟩
  intro p id hreaches
  obtain ⟨sections, hlist, hsome, s, hs, hid⟩ := exists_list_of_reaches ht hreaches
  obtain ⟨ids, hids⟩ := Option.isSome_iff_exists.1 hsome
  exact ⟨sections, ids, hlist, hids, mem_identities hids hs hid⟩

end Lists

/-- Lists within a list, a list that is identified by its types, and points in an identity. -/
def layeredTree : Tree :=
  [("logging", .repeated [[("any", .text "info"), ("type", .text "console")]]),
    ("namespaces", .repeated [
      [("sets", .repeated [[("name", .text "t")], [("name", .text "s")]]),
        ("name", .text "a.b"), ("storage-engine", .text "memory")],
      [("name", .text "c"), ("roles", .repeated [[("<index>", .list [])], []])]]),
    ("security", .nested [])]

theorem flatten_well_formed_and_marked_of_layeredTree : layeredTree.isSound = true ∧
    layeredTree.flatten.IsWellFormed ∧
    layeredTree.flatten.Lists [.field "namespaces", .selector "a.b", .field "sets"]
      [[("name", .text "t")], [("name", .text "s")]] ["t", "s"] := by
  have hsound : layeredTree.isSound = true := by decide +kernel
  have hlist : layeredTree.HasAt [.field "namespaces", .selector "a.b", .field "sets"]
      (.repeated [[("name", .text "t")], [("name", .text "s")]]) :=
    .repeated rfl (by decide +kernel) List.mem_cons_self rfl (.field rfl)
  obtain ⟨hwell, hlists, -⟩ := flatten_well_formed_and_marked hsound
  exact ⟨hsound, hwell, hlists _ _ _ hlist (by decide +kernel)⟩

end Reconfig
