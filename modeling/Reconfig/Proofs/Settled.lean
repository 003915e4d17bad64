import Reconfig.Proofs.Regrouping

/-!
# Regrouping a flat configuration once is enough

What a well-formed flat configuration becomes when it is expanded and flattened is well-formed
again, and its markers put the instances in the order in which they are already. Doing it a second
time changes nothing.

* `mem_paths_regrouped`, `reaches_regrouped`: the paths of the regrouped configuration;
* **`isWellFormed_regrouped`**: it is well-formed;
* **`order_regrouped`**: its instances are in the same order;
* **`flatten_expand`**: flattening restores a well-formed flat configuration apart from its
  markers, and restores the markers as well when they are already in place.
-/

namespace Reconfig

open Vocabulary (nameField typeField indexField)
open Reconfig.Path (parse)

namespace FlatConfig

/-! ## Positions fit into words -/

theorem length_order_le (f : FlatConfig) (p : Path) : (f.order p).length ≤ f.size := by
  have hsubset : f.order p ⊆ f.paths.filterMap fun q => q[p.length]?.bind Segment.selector? := by
    intro id hid
    obtain ⟨q, hq, r, rfl⟩ := mem_order.1 hid
    refine List.mem_filterMap.2 ⟨_, hq, ?_⟩
    simp [Path.select, Segment.selector?]
  calc (f.order p).length
    _ ≤ (f.paths.filterMap fun q => q[p.length]?.bind Segment.selector?).length :=
      (List.subperm_of_subset order_nodup hsubset).length_le
    _ ≤ f.paths.length := List.length_filterMap_le _ _
    _ = f.size := by rw [paths, List.length_map, Dict.keys, List.length_map, Dict.size]

/-! ## The regrouped configuration -/

section Regrouped

variable {f g : FlatConfig}
  (hg : ∀ {p : Path} {v : Value}, g.valueAt? p = some v ↔ f.Regroups p v) {p : Path}

include hg

/-- **A key of the regrouped configuration** was there before, or is the marker of an instance. -/
theorem mem_paths_regrouped : p ∈ g.paths ↔ (p.isIndexMarker = false ∧ p ∈ f.paths) ∨
    ∃ list id, p = (Path.select list id).child indexField ∧ f.Reaches (list.select id) := by
  simp only [mem_paths, hg]
  constructor
  · rintro ⟨v, hv⟩
    cases hv with
    | kept hp hv => exact .inl ⟨hp, v, hv⟩
    | marked hi => exact .inr ⟨_, _, rfl, mem_order.1 (List.mem_of_getElem? hi)⟩
  · rintro (⟨hp, v, hv⟩ | ⟨list, id, rfl, hid⟩)
    · exact ⟨v, .kept hp hv⟩
    · obtain ⟨i, hi⟩ := List.mem_iff_getElem?.1 (mem_order.2 hid)
      exact ⟨_, .marked hi⟩

theorem valueAt?_regrouped_child {name : String} (hname : name ≠ indexField) :
    g.valueAt? (p.child name) = f.valueAt? (p.child name) := by
  have hmarker : (p.child name).isIndexMarker = false :=
    Bool.eq_false_iff.2 fun hm => hname ((Path.isIndexMarker_child _ _).1 hm)
  rw [Option.ext_iff]
  exact fun v => hg.trans (regroups_iff_of_not_marker hmarker)

variable (h : f.IsWellFormed)

include h

theorem reaches_regrouped : g.Reaches p ↔ f.Reaches p ∨
    ∃ list id, p = (Path.select list id).child indexField ∧ f.Reaches (list.select id) := by
  constructor
  · rintro ⟨q, hq, hpq⟩
    rcases (mem_paths_regrouped hg).1 hq with ⟨-, hq⟩ | ⟨list, id, rfl, hid⟩
    · exact .inl ⟨q, hq, hpq⟩
    · rcases List.prefix_concat_iff.1 hpq with rfl | hpq
      · exact .inr ⟨list, id, rfl, hid⟩
      · exact .inl (hid.of_prefix hpq)
  · rintro (⟨q, hq, hpq⟩ | hmarker)
    · refine ⟨q, (mem_paths_regrouped hg).2 ?_, hpq⟩
      cases hm : q.isIndexMarker with
      | false => exact .inl ⟨rfl, hq⟩
      | true =>
        obtain ⟨r, rfl⟩ := Path.exists_child_of_isIndexMarker hm
        have hr : f.Reaches (r.child indexField) := ⟨_, hq, List.prefix_rfl⟩
        obtain ⟨list, id, rfl⟩ := h.exists_select hr
        exact .inr ⟨list, id, rfl, hr.of_prefix (List.prefix_append _ _)⟩
    · exact ⟨p, (mem_paths_regrouped hg).2 (.inr hmarker), List.prefix_rfl⟩

theorem exists_reaches_of_regrouped {s : Segment} (hs : g.Reaches (p ++ [s])) :
    ∃ t, f.Reaches (p ++ [t]) ∧ t.isSelector = s.isSelector := by
  rcases (reaches_regrouped hg h).1 hs with hs | ⟨list, id, heq, hid⟩
  · exact ⟨s, hs, rfl⟩
  · obtain ⟨rfl, rfl⟩ := Path.append_singleton_inj.1 heq
    obtain ⟨name, -, hv⟩ := h.exists_identity hid
    exact ⟨.field name, reaches_of_value hv, rfl⟩

theorem identifies_regrouped {id : String} (hid : f.Identifies p id) : g.Identifies p id := by
  have hreaches : g.Reaches (p.child nameField) → f.Reaches (p.child nameField) := fun hp => by
    refine ((reaches_regrouped hg h).1 hp).resolve_right ?_
    rintro ⟨list, id, heq, -⟩
    exact nomatch (Path.append_singleton_inj.1 heq).2
  rw [Identifies, textAt?, textAt?, valueAt?_regrouped_child hg (by decide),
    valueAt?_regrouped_child hg (by decide)]
  exact hid.imp_right (And.imp_left (mt hreaches))

/-- **The regrouped configuration is well-formed.** -/
theorem isWellFormed_regrouped : g.IsWellFormed where
  rooted p hp := by
    rcases (mem_paths_regrouped hg).1 hp with ⟨-, hp⟩ | ⟨list, id, rfl, hid⟩
    · exact h.rooted p hp
    · cases list with
      | nil => exact absurd hid (h.not_reaches_root_select id)
      | cons s list =>
        obtain ⟨q, hq, r, rfl⟩ := hid
        have hroot : s.field?.any (· != "") = true := h.rooted _ hq
        exact hroot
  apart p hp q hq hpq := by
    obtain ⟨v, hv⟩ := mem_paths.1 hp
    obtain ⟨r, rfl⟩ := hpq
    cases r with
    | nil => rw [List.append_nil]
    | cons s r =>
      -- a path that goes on below a key would have gone on below a value or a marker before
      have hbelow : g.Reaches (p ++ [s]) := ⟨_, hq, r, by simp⟩
      obtain ⟨t, ht, -⟩ := exists_reaches_of_regrouped hg h hbelow
      exact absurd (hg.1 hv) (h.not_regroups ht)
  alike p hp q hq := by
    refine Path.partsAlike_iff.2 fun r s t hs ht => ?_
    obtain ⟨s', hs', hss⟩ := exists_reaches_of_regrouped hg h ⟨p, hp, hs⟩
    obtain ⟨t', ht', htt⟩ := exists_reaches_of_regrouped hg h ⟨q, hq, ht⟩
    rw [← hss, ← htt, h.isSelector_eq hs' ht']
  marked p hp := by
    rcases (mem_paths_regrouped hg).1 hp with ⟨-, hp⟩ | ⟨list, id, rfl, hid⟩
    · exact h.marked p hp
    · obtain ⟨name, -, hv⟩ := h.exists_identity hid
      rw [Path.parent?_child, Option.bind_some, Path.selected?_select, Path.child,
        List.dropLast_concat]
      exact ⟨h.index_not_mem (reaches_of_value hv), fun _ => rfl⟩
  braceFree p hp s hs id hid := by
    rcases (mem_paths_regrouped hg).1 hp with ⟨-, hp⟩ | ⟨list, id', rfl, q, hq, hlist⟩
    · exact h.braceFree p hp s hs id hid
    · rcases List.mem_append.1 hs with hs | hs
      · exact h.braceFree q hq s (hlist.subset hs) id hid
      · cases List.mem_singleton.1 hs
        cases hid
  identified p hp s hs id hid := by
    obtain ⟨hsp, list, id', rfl⟩ := Path.mem_instancePaths.1 hs
    obtain rfl : id' = id := by simpa [Path.selected?_select] using hid
    refine identifies_regrouped hg h (h.identifies ?_)
    refine ((reaches_regrouped hg h).1 ⟨p, hp, hsp⟩).resolve_right ?_
    rintro ⟨list', id'', heq, -⟩
    exact Path.child_ne_select _ _ _ _ heq.symm
  flat := by
    rintro ⟨key, v⟩ he
    have hv := hg.1 ((valueAt?_parse key).trans (Dict.mem_entries.1 he))
    generalize parse key = q at hv
    cases hv with
    | kept _ hv => exact h.isFlat_of_value hv
    | marked _ => rfl
  typed := by
    rintro ⟨key, v⟩ he field hfield htyped
    have hv := hg.1 ((valueAt?_parse key).trans (Dict.mem_entries.1 he))
    dsimp only at hfield
    generalize parse key = q at hv hfield
    cases hv with
    | kept _ hv => exact h.text?_of_value hv hfield htyped
    | marked _ => rfl

section Order

variable (hfit : f.size ≤ Nat.pow 2 64)

include hfit

omit h in
theorem index?_regrouped {id : String} {i : Nat} (hi : (f.order p)[i]? = some id) :
    (g.place (p.select id)).index? = some i := by
  obtain ⟨hlt, -⟩ := List.getElem?_eq_some_iff.1 hi
  have hmarker := ((place_holds (f := g) (p.select id)).find?_iff [.field indexField] _).2
    (hg.2 (.marked hi))
  rw [Trie.index?_eq, hmarker, Option.bind_some, indexOf?_indexValue]
  exact hlt.trans_le ((length_order_le f p).trans hfit)

omit h in
theorem inOrder_regrouped_iff {a b : String} {i j : Nat} (hi : (f.order p)[i]? = some a)
    (hj : (f.order p)[j]? = some b) : g.InOrder p a b ↔ i ≤ j := by
  rw [InOrder, Trie.before, inPlace, index?_regrouped hg hfit hi, index?_regrouped hg hfit hj]
  exact decide_eq_true_iff

/-- **The instances of the regrouped configuration are in the same order.** -/
theorem order_regrouped : g.order p = f.order p := by
  -- both lists hold the same instances, and both are sorted by the new markers
  have hperm : (g.order p).Perm (f.order p) := by
    refine (List.perm_ext_iff_of_nodup order_nodup order_nodup).2 fun id => ?_
    rw [mem_order, mem_order, reaches_regrouped hg h, or_iff_left]
    rintro ⟨list, id', heq, -⟩
    exact Path.child_ne_select _ _ _ _ heq.symm
  have hsorted : (f.order p).Pairwise (g.InOrder p) := by
    rw [List.pairwise_iff_getElem]
    intro i j hi hj hij
    rw [inOrder_regrouped_iff hg hfit (List.getElem?_eq_getElem hi) (List.getElem?_eq_getElem hj)]
    omega
  refine hperm.eq_of_pairwise (fun a b ha hb hab hba => ?_) order_pairwise hsorted
  obtain ⟨i, hi⟩ := List.mem_iff_getElem?.1 (hperm.mem_iff.1 ha)
  obtain ⟨j, hj⟩ := List.mem_iff_getElem?.1 hb
  rw [inOrder_regrouped_iff hg hfit hi hj] at hab
  rw [inOrder_regrouped_iff hg hfit hj hi] at hba
  obtain rfl : i = j := by omega
  exact Option.some.inj (hi.symm.trans hj)

/-- **A second time changes nothing.** -/
theorem regroups_regrouped {v : Value} : g.Regroups p v ↔ f.Regroups p v := by
  have horder : ∀ list, g.order list = f.order list := fun _ => order_regrouped hg h hfit
  constructor
  · intro hr
    cases hr with
    | kept _ hv => exact hg.1 hv
    | @marked list _ _ hi => exact .marked (horder list ▸ hi)
  · intro hr
    cases hr with
    | kept hp hv => exact .kept hp (hg.2 (.kept hp hv))
    | @marked list _ _ hi => exact .marked ((horder list).symm ▸ hi)

end Order

end Regrouped

end FlatConfig

/-! ## Flattening after expanding -/

/-- **Flattening restores a well-formed flat configuration** apart from its markers: they are those
of the order in which the instances stand. Once they are, they are restored as well. An instance
needs a position that fits into a word, as it does if the keys can be counted by one. -/
theorem flatten_expand {f : FlatConfig} (h : f.IsWellFormed) :
    (∀ key, (parse key).isIndexMarker = false → f.expand.flatten.find? key = f.find? key) ∧
      (f.size ≤ Nat.pow 2 64 → f.expand.flatten.expand.flatten = f.expand.flatten) := by
  constructor
  · intro key hkey
    rw [Option.ext_iff]
    intro v
    rw [h.find?_regrouped, FlatConfig.regroups_iff_of_not_marker hkey, FlatConfig.valueAt?_parse]
  · intro hfit
    have hagain := FlatConfig.isWellFormed_regrouped h.valueAt?_regrouped h
    refine Dict.ext_find? fun key => ?_
    rw [Option.ext_iff]
    intro v
    rw [hagain.find?_regrouped, FlatConfig.regroups_regrouped h.valueAt?_regrouped h hfit,
      h.find?_regrouped]

/-- A configuration that no tree was flattened to: markers clash and are missing, an instance is
identified by its type, and the name of a field holds a point within braces. -/
def scattered : FlatConfig where
  entries :=
    [("logging.\x7bconsole\x7d.any", .text "info"),
      ("logging.\x7bconsole\x7d.type", .text "console"),
      ("namespaces.\x7ba.b\x7d.<index>", .text "3"),
      ("namespaces.\x7ba.b\x7d.name", .text "a.b"),
      ("namespaces.\x7bc\x7d.<index>", .scalar (.int 3)),
      ("namespaces.\x7bc\x7d.name", .text "c"),
      ("namespaces.\x7bd\x7d.name", .text "d"),
      ("namespaces.\x7bd\x7d.storage-engine.type", .text "memory"),
      ("security.roles", .repeated [[("role", .text "reader")], []]),
      ("x.\x7by.z\x7dw.v", .nested [])]
  ordered := by decide +kernel

theorem flatten_expand_of_scattered : scattered.IsWellFormed ∧ scattered.size ≤ Nat.pow 2 64 ∧
    (∀ key, (parse key).isIndexMarker = false →
      scattered.expand.flatten.find? key = scattered.find? key) ∧
    scattered.expand.flatten.expand.flatten = scattered.expand.flatten := by
  have hpaths : scattered.paths =
      [[.field "logging", .selector "console", .field "any"],
        [.field "logging", .selector "console", .field "type"],
        [.field "namespaces", .selector "a.b", .field "<index>"],
        [.field "namespaces", .selector "a.b", .field "name"],
        [.field "namespaces", .selector "c", .field "<index>"],
        [.field "namespaces", .selector "c", .field "name"],
        [.field "namespaces", .selector "d", .field "name"],
        [.field "namespaces", .selector "d", .field "storage-engine", .field "type"],
        [.field "security", .field "roles"],
        [.field "x", .field "\x7by.z\x7dw", .field "v"]] := by decide +kernel
  have hwell : scattered.IsWellFormed := by
    constructor
    case flat => decide +kernel
    case typed => decide +kernel
    all_goals (rw [hpaths]; decide +kernel)
  have hfit : scattered.size ≤ Nat.pow 2 64 := by decide +kernel
  exact ⟨hwell, hfit, (flatten_expand hwell).1, (flatten_expand hwell).2 hfit⟩

end Reconfig
