import Reconfig.Proofs.Instances
import Reconfig.Proofs.Replication

/-!
# The replication objects of a tree

The destinations of a configuration are the sections of its list `xdr.dcs`, and the namespaces
attached to a destination are the sections of its list `namespaces`. They are the instances of the
flat configuration at the paths of replication objects.

* `Tree.name?`, `areNamed`: the name of a section, and lists whose sections are told apart by it;
* `Tree.replication`, `Tree.hasNamedReplication`: the replication objects of a tree;
* `mem_section_leaves`, `mem_sections_leaves`: the leaves of a section and of a list of sections;
* **`mem_destinations_iff`**, **`mem_namespaces_iff`**: the objects as instances of the flat
  configuration;
* `destination_name_leaf`, `namespace_name_leaf`: the leaves of their names.
-/

namespace Reconfig

open Vocabulary (nameField indexField)
open Reconfig.Path (parse render)

/-- The name of a section, if it is a text. -/
def Tree.name? (t : Tree) : Option String := (t.find? nameField).bind Value.text?

/-- All sections have names, without braces, and no two are equal. -/
def areNamed (sections : List Tree) : Bool :=
  (sections.all fun s => s.name?.isSome) && (identities? sections).isSome

/-- The destinations of a tree. -/
def Tree.destinationSections (t : Tree) : List Tree := (t.section xdrContext).sections "dcs"

/-- The names of the namespaces attached to a destination. -/
def Tree.namespaceNames (d : Tree) : List String := (d.sections "namespaces").filterMap Tree.name?

/-- The destinations of a tree and the namespaces attached to them have names that tell them
apart. -/
def Tree.hasNamedReplication (t : Tree) : Bool :=
  areNamed t.destinationSections &&
    t.destinationSections.all fun d => areNamed (d.sections "namespaces")

/-- The namespaces attached in a tree, each with its destination. -/
def Tree.attachments (t : Tree) : List (String × String) :=
  t.destinationSections.flatMap fun d =>
    d.name?.toList.flatMap fun dc => d.namespaceNames.map fun ns => (dc, ns)

theorem Tree.mem_attachments {t : Tree} {dc ns : String} : (dc, ns) ∈ t.attachments ↔
    ∃ d ∈ t.destinationSections, d.name? = some dc ∧
      ∃ n ∈ d.sections "namespaces", n.name? = some ns := by
  simp only [Tree.attachments, List.mem_flatMap, Option.mem_toList, List.mem_map, Prod.mk.injEq,
    Tree.namespaceNames, List.mem_filterMap]
  constructor
  · rintro ⟨d, hd, dc', hdc, ns', hn, rfl, rfl⟩
    exact ⟨d, hd, hdc, hn⟩
  · rintro ⟨d, hd, hdc, hn⟩
    exact ⟨d, hd, dc, hdc, ns, hn, rfl, rfl⟩

/-- **The replication objects of a tree.** -/
def Tree.replication (t : Tree) : Replication where
  destinations := (t.destinationSections.filterMap Tree.name?).toFinset
  namespaces := t.attachments.toFinset
  isAttached a ha := by
    obtain ⟨dc, ns⟩ := a
    rw [List.mem_toFinset, Tree.mem_attachments] at ha
    obtain ⟨d, hd, hdc, -⟩ := ha
    rw [List.mem_toFinset, List.mem_filterMap]
    exact ⟨d, hd, hdc⟩

theorem Tree.mem_destinations {t : Tree} {dc : String} :
    dc ∈ t.replication.destinations ↔ ∃ d ∈ t.destinationSections, d.name? = some dc := by
  rw [Tree.replication, List.mem_toFinset, List.mem_filterMap]

theorem Tree.mem_namespaces {t : Tree} {dc ns : String} : (dc, ns) ∈ t.replication.namespaces ↔
    ∃ d ∈ t.destinationSections, d.name? = some dc ∧
      ∃ n ∈ d.sections "namespaces", n.name? = some ns := by
  rw [Tree.replication, List.mem_toFinset, Tree.mem_attachments]

/-! ## Sections and their leaves -/

theorem name?_eq_some {s : Tree} {id : String} (h : s.name? = some id) :
    s.find? nameField = some (.text id) ∧ s.identity? = some id := by
  obtain ⟨v, hv, htext⟩ := Option.bind_eq_some_iff.1 h
  have hid : s.identity? = some id := by
    rw [Tree.identity?, hv, Option.some_or, Option.bind_some, htext]
  refine ⟨(identity?_eq_some hid).resolve_right fun hnone => ?_, hid⟩
  rw [hnone.1] at hv
  cases hv

section Leaves

variable {t : Tree} (ht : t.isSound = true)

include ht

theorem section_isSound (name : String) : (t.section name).isSound = true := by
  unfold Tree.section
  split
  · rename_i fields h
    exact (sound_of_mem ht (Dict.mem_of_lookup h)).2
  · rfl

theorem sections_isSound {name : String} (hids : (identities? (t.sections name)).isSome = true)
    {s : Tree} (hs : s ∈ t.sections name) : s.isSound = true := by
  unfold Tree.sections at hids hs
  split at hs
  · rename_i sections h
    rw [h] at hids
    exact sound_of_isSome (sound_of_mem ht (Dict.mem_of_lookup h)).2 hids hs
  · cases hs

theorem mem_section_leaves {name field : String} (hname : Vocabulary.isTypedSection name = false)
    {q : Path} {v : Value} : (.field name :: .field field :: q, v) ∈ fieldLeaves t ↔
      (.field field :: q, v) ∈ fieldLeaves (t.section name) := by
  rw [field_mem_fieldLeaves ht]
  constructor
  · rintro ⟨w, hw, hmem⟩
    rcases field_mem_leaves.1 hmem with ⟨fields, rfl, hfields⟩ | ⟨s, -, htyped, -⟩
    · rwa [Tree.section, hw]
    · rw [hname] at htyped
      cases htyped
  · intro hmem
    unfold Tree.section at hmem
    split at hmem
    · rename_i fields h
      exact ⟨.nested fields, h, field_mem_leaves.2 (.inl ⟨fields, rfl, hmem⟩)⟩
    · cases hmem

theorem mem_sections_leaves {name id : String} {q : Path} {v : Value}
    (h : (.field name :: .selector id :: q, v) ∈ fieldLeaves t) :
    ∃ s ∈ t.sections name, s.identity? = some id ∧
      ((q, v) ∈ fieldLeaves s ∨ q = [.field indexField]) := by
  obtain ⟨w, hw, hmem⟩ := (field_mem_fieldLeaves ht).1 h
  obtain ⟨sections, rfl, -, i, s, hs, hid, hq⟩ := selector_mem_leaves.1 hmem
  refine ⟨s, ?_, hid, Or.imp_right And.left hq⟩
  rw [Tree.sections, hw]
  exact List.mem_of_getElem? hs

theorem sections_leaf {name id : String} (hids : (identities? (t.sections name)).isSome = true)
    {s : Tree} (hs : s ∈ t.sections name) (hid : s.identity? = some id) {q : Path} {v : Value}
    (h : (q, v) ∈ fieldLeaves s) : (.field name :: .selector id :: q, v) ∈ fieldLeaves t := by
  rw [field_mem_fieldLeaves ht]
  unfold Tree.sections at hids hs
  split at hs
  · rename_i sections hfind
    rw [hfind] at hids
    obtain ⟨i, hi⟩ := List.mem_iff_getElem?.1 hs
    exact ⟨.repeated sections, hfind, selector_mem_leaves.2
      ⟨sections, rfl, hids, i, s, hi, hid, .inl h⟩⟩
  · cases hs

theorem mem_named_leaves {name id : String} (hn : areNamed (t.sections name) = true) {q : Path}
    {v : Value} (h : (.field name :: .selector id :: q, v) ∈ fieldLeaves t) :
    ∃ s ∈ t.sections name, s.name? = some id ∧
      ((q, v) ∈ fieldLeaves s ∨ q = [.field indexField]) := by
  obtain ⟨s, hs, hid, hq⟩ := mem_sections_leaves ht h
  rw [areNamed, Bool.and_eq_true, List.all_eq_true] at hn
  obtain ⟨id', hname⟩ := Option.isSome_iff_exists.1 (hn.1 s hs)
  rw [(name?_eq_some hname).2, Option.some.injEq] at hid
  exact ⟨s, hs, hid ▸ hname, hq⟩

end Leaves

/-! ## Objects as instances -/

section Objects

variable {t : Tree} (ht : t.isSound = true) (hn : t.hasNamedReplication = true)

include ht hn

theorem destinations_named : areNamed t.destinationSections = true ∧
    ∀ d ∈ t.destinationSections, d.isSound = true ∧ areNamed (d.sections "namespaces") = true := by
  rw [Tree.hasNamedReplication, Bool.and_eq_true, List.all_eq_true] at hn
  refine ⟨hn.1, fun d hd => ⟨?_, hn.2 d hd⟩⟩
  have hids := hn.1
  rw [areNamed, Bool.and_eq_true] at hids
  exact sections_isSound (section_isSound ht xdrContext) hids.2 hd

theorem destination_leaf {d : Tree} (hd : d ∈ t.destinationSections) {dc : String}
    (hdc : d.name? = some dc) {q : Path} {v : Value} (h : (q, v) ∈ fieldLeaves d) :
    (destinationPath dc ++ q, v) ∈ fieldLeaves t := by
  have hids := (destinations_named ht hn).1
  rw [areNamed, Bool.and_eq_true] at hids
  refine (mem_section_leaves ht (by decide)).2 ?_
  exact sections_leaf (section_isSound ht xdrContext) hids.2 hd (name?_eq_some hdc).2 h

theorem namespace_leaf {d n : Tree} (hd : d ∈ t.destinationSections) {dc ns : String}
    (hdc : d.name? = some dc) (hmem : n ∈ d.sections "namespaces") (hns : n.name? = some ns)
    {q : Path} {v : Value} (h : (q, v) ∈ fieldLeaves n) :
    (namespacePath dc ns ++ q, v) ∈ fieldLeaves t := by
  obtain ⟨hsound, hids⟩ := (destinations_named ht hn).2 d hd
  rw [areNamed, Bool.and_eq_true] at hids
  have hleaf := sections_leaf hsound hids.2 hmem (name?_eq_some hns).2 h
  rw [namespacePath, List.append_assoc]
  exact destination_leaf ht hn hd hdc hleaf

theorem exists_destination {dc : String} {q : Path} {v : Value}
    (h : (destinationPath dc ++ q, v) ∈ fieldLeaves t) :
    ∃ d ∈ t.destinationSections, d.name? = some dc ∧
      ((q, v) ∈ fieldLeaves d ∨ q = [.field indexField]) :=
  mem_named_leaves (section_isSound ht xdrContext) (destinations_named ht hn).1
    ((mem_section_leaves ht (by decide)).1 h)

theorem exists_namespace {dc ns : String} {q : Path} {v : Value}
    (h : (namespacePath dc ns ++ q, v) ∈ fieldLeaves t) :
    ∃ d ∈ t.destinationSections, d.name? = some dc ∧
      ∃ n ∈ d.sections "namespaces", n.name? = some ns := by
  rw [namespacePath, List.append_assoc] at h
  obtain ⟨d, hd, hdc, hleaf | hmarker⟩ := exists_destination ht hn h
  · obtain ⟨hsound, hids⟩ := (destinations_named ht hn).2 d hd
    obtain ⟨n, hmem, hns, -⟩ := mem_named_leaves hsound hids hleaf
    exact ⟨d, hd, hdc, n, hmem, hns⟩
  · simp at hmarker

theorem destination_name_leaf {dc : String} (h : dc ∈ t.replication.destinations) :
    ((destinationPath dc).child nameField, .text dc) ∈ fieldLeaves t := by
  obtain ⟨d, hd, hdc⟩ := Tree.mem_destinations.1 h
  have hsound := ((destinations_named ht hn).2 d hd).1
  exact destination_leaf ht hn hd hdc
    ((text_mem_fieldLeaves hsound (by decide)).2 (name?_eq_some hdc).1)

theorem namespace_name_leaf {dc ns : String} (h : (dc, ns) ∈ t.replication.namespaces) :
    ((namespacePath dc ns).child nameField, .text ns) ∈ fieldLeaves t := by
  obtain ⟨d, hd, hdc, n, hmem, hns⟩ := Tree.mem_namespaces.1 h
  obtain ⟨hsound, hids⟩ := (destinations_named ht hn).2 d hd
  rw [areNamed, Bool.and_eq_true] at hids
  have hsound' := sections_isSound hsound hids.2 hmem
  exact namespace_leaf ht hn hd hdc hmem hns
    ((text_mem_fieldLeaves hsound' (by decide)).2 (name?_eq_some hns).1)

/-- **The destinations are instances of the flat configuration.** -/
theorem mem_destinations_iff {dc : String} :
    dc ∈ t.replication.destinations ↔ destinationPath dc ∈ t.flatten.instancePaths := by
  rw [mem_instancePaths_flatten ht]
  constructor
  · intro h
    refine ⟨_, destination_name_leaf ht hn h, Path.mem_instancePaths.2 ⟨List.prefix_append _ _, ?_⟩⟩
    exact ⟨[.field xdrContext, .field "dcs"], dc, rfl⟩
  · rintro ⟨⟨p, v⟩, hleaf, hp⟩
    obtain ⟨⟨q, rfl⟩, -⟩ := Path.mem_instancePaths.1 hp
    obtain ⟨d, hd, hdc, -⟩ := exists_destination ht hn hleaf
    exact Tree.mem_destinations.2 ⟨d, hd, hdc⟩

/-- **The attached namespaces are instances of the flat configuration.** -/
theorem mem_namespaces_iff {dc ns : String} :
    (dc, ns) ∈ t.replication.namespaces ↔ namespacePath dc ns ∈ t.flatten.instancePaths := by
  rw [mem_instancePaths_flatten ht]
  constructor
  · intro h
    refine ⟨_, namespace_name_leaf ht hn h, Path.mem_instancePaths.2 ⟨List.prefix_append _ _, ?_⟩⟩
    exact ⟨destinationPath dc ++ [.field "namespaces"], ns, rfl⟩
  · rintro ⟨⟨p, v⟩, hleaf, hp⟩
    obtain ⟨⟨q, rfl⟩, -⟩ := Path.mem_instancePaths.1 hp
    exact Tree.mem_namespaces.2 (exists_namespace ht hn hleaf)

end Objects

end Reconfig
