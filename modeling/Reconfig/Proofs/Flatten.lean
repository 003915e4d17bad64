import Reconfig.Diff.Report
import Reconfig.Proofs.Leaves

/-!
# Flat configurations of sound trees

The keys of the flat configuration of a sound tree are the texts of the paths of its leaves. No
such path begins another one, so that no entry overwrites another, and a look-up is the same as
membership among the leaves.

* `Leaf.Apart`, **`fieldLeaves_apart`**: no path of a leaf begins another;
* `fieldLeaves_readable`: every such path is the path of its text;
* **`find?_flatten`**: the look-ups of the flat configuration;
* `mem_instancePaths_flatten`: its instances.
-/

namespace Reconfig

open Vocabulary (nameField typeField indexField)
open Reconfig.Path (render parse)

/-! ## Readable paths -/

theorem isReadable_of_isBraceFree {id : String} (h : isBraceFree id = true) :
    (Segment.selector id).isReadable = true := by
  have hne : '}' ∉ id.toList := fun hmem => by
    have := List.all_eq_true.1 h '}' hmem
    simp at this
  simpa [Segment.isReadable] using hne

mutual

theorem leaves_readable (field : String) : ∀ v : Value, v.isSound = true →
    ∀ e ∈ v.leaves field, Path.isReadable e.1 = true
  | .scalar (.text s), _, e, he => by
    rw [Value.leaves] at he
    split at he
    · rw [List.mem_singleton.1 he]
      show Path.isReadable [.field typeField] = true
      decide
    · rw [List.mem_singleton.1 he]
      rfl
  | .scalar (.bool _), _, e, he | .scalar (.int _), _, e, he | .scalar (.uint _), _, e, he
  | .scalar (.float _), _, e, he | .list _, _, e, he => by
    rw [List.mem_singleton.1 he]
    rfl
  | .nested fields, h, e, he => by
    rw [Value.leaves] at he
    split at he
    · rw [List.mem_singleton.1 he]
      rfl
    · exact fieldLeaves_readable fields h e he
  | .repeated sections, h, e, he => by
    rw [Value.leaves] at he
    split_ifs at he with h1 h2
    · cases he
    · rw [Value.isSound, Bool.or_eq_true, Option.isNone_iff_eq_none] at h
      obtain ⟨ids, hids⟩ := Option.isSome_iff_exists.1 h2
      obtain ⟨hmap, hfree, -⟩ := identities?_eq_some.1 hids
      refine sectionLeaves_readable 0 sections (h.resolve_left (by simp [hids])) ?_ e he
      intro t ht
      have hmem : t.identity? ∈ ids.map some := hmap ▸ List.mem_map_of_mem ht
      obtain ⟨id, hid, heq⟩ := List.mem_map.1 hmem
      rw [← heq]
      exact hfree id hid
    · rw [List.mem_singleton.1 he]
      rfl

theorem fieldLeaves_readable : ∀ fields : List (String × Value), fieldsSound fields = true →
    ∀ e ∈ fieldLeaves fields, Path.isReadable e.1 = true
  | [], _, _, he => nomatch he
  | (name, v) :: rest, h, e, he => by
    simp only [fieldsSound, Bool.and_eq_true] at h
    rw [fieldLeaves, List.mem_append] at he
    rcases he with he | he
    · obtain ⟨e', he', rfl⟩ := List.mem_map.1 he
      rw [Leaf.under, Path.isReadable, List.all_cons, Bool.and_eq_true]
      exact ⟨isFieldName_readable h.1.1.1, leaves_readable name v h.1.2 e' he'⟩
    · exact fieldLeaves_readable rest h.2 e he

theorem sectionLeaves_readable (position : Nat) : ∀ sections : List (List (String × Value)),
    sectionsSound sections = true →
      (∀ t : Tree, t ∈ sections → isBraceFree (t.identity?.getD "") = true) →
        ∀ e ∈ sectionLeaves position sections, Path.isReadable e.1 = true
  | [], _, _, _, he => nomatch he
  | fields :: rest, h, hids, e, he => by
    simp only [sectionsSound, Bool.and_eq_true] at h
    rw [sectionLeaves, List.mem_append] at he
    rcases he with he | he
    · obtain ⟨e', he', rfl⟩ := List.mem_map.1 he
      rw [Leaf.under, Path.isReadable, List.all_cons, Bool.and_eq_true]
      refine ⟨isReadable_of_isBraceFree (hids fields List.mem_cons_self), ?_⟩
      rcases List.mem_append.1 he' with he' | he'
      · exact fieldLeaves_readable fields h.1 e' he'
      · rw [List.mem_singleton.1 he']
        show Path.isReadable [.field indexField] = true
        decide
    · exact sectionLeaves_readable (position + 1) rest h.2
        (fun t ht => hids t (List.mem_cons_of_mem _ ht)) e he

end

/-! ## Paths that do not begin each other -/

/-- Neither path begins the other. -/
def Leaf.Apart (a b : Leaf) : Prop := ¬ a.1 <+: b.1 ∧ ¬ b.1 <+: a.1

theorem Leaf.apart_under {s : Segment} {a b : Leaf} (h : a.Apart b) :
    (a.under s).Apart (b.under s) :=
  ⟨fun hp => h.1 ((List.prefix_cons_inj s).1 hp), fun hp => h.2 ((List.prefix_cons_inj s).1 hp)⟩

theorem Leaf.apart_of_ne {s t : Segment} (hst : s ≠ t) {a b : Leaf} {p q : Path}
    (ha : a.1 = s :: p) (hb : b.1 = t :: q) : a.Apart b := by
  rw [Apart, ha, hb, List.cons_prefix_cons, List.cons_prefix_cons]
  exact ⟨fun h => hst h.1, fun h => hst h.1.symm⟩

theorem pairwise_apart_under (s : Segment) {leaves : List Leaf} (h : leaves.Pairwise Leaf.Apart) :
    (leaves.map (Leaf.under s)).Pairwise Leaf.Apart :=
  List.pairwise_map.2 (h.imp Leaf.apart_under)

mutual

theorem leaves_apart (field : String) : ∀ v : Value, v.isSound = true →
    (v.leaves field).Pairwise Leaf.Apart
  | .scalar (.text s), _ => by
    rw [Value.leaves]
    split <;> exact List.pairwise_singleton _ _
  | .scalar (.bool _), _ | .scalar (.int _), _ | .scalar (.uint _), _ | .scalar (.float _), _
  | .list _, _ => by
    exact List.pairwise_singleton _ _
  | .nested fields, h => by
    rw [Value.leaves]
    split
    · exact List.pairwise_singleton _ _
    · exact fieldLeaves_apart fields h
  | .repeated sections, h => by
    rw [Value.leaves]
    split_ifs with h1 h2
    · exact .nil
    · rw [Value.isSound, Bool.or_eq_true, Option.isNone_iff_eq_none] at h
      obtain ⟨ids, hids⟩ := Option.isSome_iff_exists.1 h2
      obtain ⟨hmap, -, hnodup⟩ := identities?_eq_some.1 hids
      refine sectionLeaves_apart 0 sections (h.resolve_left (by simp [hids])) ?_
      have hd : sections.map (fun t => (Tree.identity? t).getD "") = ids := by
        have := congrArg (List.map (Option.getD · "")) hmap
        simpa [List.map_map, Function.comp_def] using this
      rw [hd]
      exact hnodup
    · exact List.pairwise_singleton _ _

/-- **No path of a leaf begins the path of another.** -/
theorem fieldLeaves_apart : ∀ fields : List (String × Value), fieldsSound fields = true →
    (fieldLeaves fields).Pairwise Leaf.Apart
  | [], _ => .nil
  | (name, v) :: rest, h => by
    have hnames := names_distinct h
    simp only [fieldsSound, Bool.and_eq_true] at h
    rw [fieldLeaves, List.pairwise_append]
    refine ⟨pairwise_apart_under _ (leaves_apart name v h.1.2), fieldLeaves_apart rest h.2, ?_⟩
    intro a ha b hb
    obtain ⟨a', -, rfl⟩ := List.mem_map.1 ha
    obtain ⟨name', w, q, hmem, hb', -⟩ := mem_fieldLeaves.1 hb
    have hne : name ≠ name' := (List.pairwise_cons.1 hnames).1 (name', w) hmem
    exact Leaf.apart_of_ne (by simpa using hne) rfl hb'

theorem sectionLeaves_apart (position : Nat) : ∀ sections : List (List (String × Value)),
    sectionsSound sections = true →
      (sections.map fun t => (Tree.identity? t).getD "").Nodup →
        (sectionLeaves position sections).Pairwise Leaf.Apart
  | [], _, _ => .nil
  | fields :: rest, h, hids => by
    simp only [sectionsSound, Bool.and_eq_true] at h
    rw [List.map_cons, List.nodup_cons] at hids
    rw [sectionLeaves, List.pairwise_append]
    refine ⟨pairwise_apart_under _ ?_, sectionLeaves_apart (position + 1) rest h.2 hids.2, ?_⟩
    · rw [List.pairwise_append]
      refine ⟨fieldLeaves_apart fields h.1, List.pairwise_singleton _ _, ?_⟩
      intro a ha b hb
      obtain ⟨name, w, q, hmem, ha', -⟩ := mem_fieldLeaves.1 ha
      have hne : Segment.field name ≠ .field indexField := by
        simpa using isFieldName_ne_index (sound_of_mem h.1 hmem).1
      exact Leaf.apart_of_ne hne ha' (by rw [List.mem_singleton.1 hb])
    · intro a ha b hb
      obtain ⟨a', -, rfl⟩ := List.mem_map.1 ha
      obtain ⟨i, t, q, ht, hb', -⟩ := mem_sectionLeaves.1 hb
      refine Leaf.apart_of_ne ?_ rfl hb'
      intro heq
      refine hids.1 (List.mem_map.2 ⟨t, List.mem_of_getElem? ht, ?_⟩)
      simpa using heq.symm

end

/-! ## Look-ups -/

theorem ne_singleton_empty {fields : List (String × Value)} (h : fieldsSound fields = true)
    {e : Leaf} (he : e ∈ fieldLeaves fields) : e.1 ≠ [.field ""] := by
  obtain ⟨name, w, q, hmem, hp, -⟩ := mem_fieldLeaves.1 he
  rw [hp]
  intro heq
  have hname : name = "" := by simpa using (List.cons.inj heq).1
  exact isFieldName_ne_empty (sound_of_mem h hmem).1 hname

section Lookups

variable {t : Tree} (ht : t.isSound = true)

include ht

theorem parse_render_leaf {e : Leaf} (he : e ∈ fieldLeaves t) : parse (render e.1) = e.1 :=
  Path.parse_render (fieldLeaves_readable t ht e he) (ne_singleton_empty ht he)

theorem entries_keys_distinct : t.entries.Pairwise (fun a b => a.1 ≠ b.1) := by
  rw [entries_eq_leaves (names_ne_empty ht), List.pairwise_map]
  refine (fieldLeaves_apart t ht).imp_of_mem ?_
  intro a b ha hb hapart heq
  have hab : a.1 = b.1 := by
    rw [← parse_render_leaf ht ha, ← parse_render_leaf ht hb]
    exact congrArg parse heq
  exact hapart.1 (hab ▸ List.prefix_refl _)

/-- **A look-up in the flat configuration finds the leaf at the path of the key.** -/
theorem find?_flatten {key : String} {v : Value} :
    t.flatten.find? key = some v ↔ (parse key, v) ∈ fieldLeaves t := by
  constructor
  · intro h
    have hmem := Dict.mem_of_find?_ofList h
    rw [entries_eq_leaves (names_ne_empty ht)] at hmem
    obtain ⟨e, he, heq⟩ := List.mem_map.1 hmem
    cases heq
    rw [parse_render_leaf ht he]
    exact he
  · intro h
    refine Dict.find?_ofList_of_mem (entries_keys_distinct ht) ?_
    rw [entries_eq_leaves (names_ne_empty ht)]
    exact List.mem_map.2 ⟨(parse key, v), h, by rw [Path.render_parse]⟩

theorem find?_flatten_render {p : Path} {v : Value} (h : (p, v) ∈ fieldLeaves t) :
    t.flatten.find? (render p) = some v := by
  rw [find?_flatten ht, parse_render_leaf ht h]
  exact h

theorem contains_flatten {key : String} :
    t.flatten.contains key = true ↔ ∃ v, (parse key, v) ∈ fieldLeaves t := by
  rw [Dict.contains_eq_true]
  exact exists_congr fun v => find?_flatten ht

/-- **The instances of the flat configuration** are the instances around its leaves. -/
theorem mem_instancePaths_flatten {q : Path} :
    q ∈ t.flatten.instancePaths ↔ ∃ e ∈ fieldLeaves t, q ∈ Path.instancePaths e.1 := by
  rw [FlatConfig.instancePaths, List.mem_eraseDups, List.mem_flatMap]
  constructor
  · rintro ⟨key, hkey, hq⟩
    obtain ⟨v, hv⟩ := (contains_flatten ht).1 (Dict.mem_keys.1 hkey)
    exact ⟨_, hv, hq⟩
  · rintro ⟨e, he, hq⟩
    have hp := parse_render_leaf ht he
    refine ⟨render e.1, Dict.mem_keys.2 ((contains_flatten ht).2 ⟨e.2, by rwa [hp]⟩), ?_⟩
    rwa [hp]

end Lookups

end Reconfig
