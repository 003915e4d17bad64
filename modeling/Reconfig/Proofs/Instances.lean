import Reconfig.Proofs.Flatten

/-!
# The instances of a sound tree

A selector on the path of a leaf stands for a section of a list, and the leaves below it are those
of this section. So every instance of a flat configuration has the field that identifies it.

* `Tree.sections`: the sections of a list field;
* `sections_unique`: a list whose sections can be told apart has one section of an identity;
* **`exists_section`**: the section of an instance;
* **`identity_leaf`**: an instance has a name or, without one, a type, and it is the identity.
-/

namespace Reconfig

open Vocabulary (nameField typeField indexField)
open Reconfig.Path (render parse)

/-! ## Lists of sections -/

/-- The sections of a list field; another field has none. -/
def Tree.sections (t : Tree) (name : String) : List Tree :=
  match t.find? name with
  | some (.repeated sections) => sections
  | _ => []

/-- The fields of a section; another field has none. -/
def Tree.section (t : Tree) (name : String) : Tree :=
  match t.find? name with
  | some (.nested fields) => fields
  | _ => []

/-- **In a list whose sections can be told apart an identity belongs to one section.** -/
theorem sections_unique {sections : List Tree} (h : (identities? sections).isSome = true)
    {i j : Nat} {s t : Tree} (hs : sections[i]? = some s) (ht : sections[j]? = some t)
    {id : String} (hsid : s.identity? = some id) (htid : t.identity? = some id) : i = j := by
  obtain ⟨ids, hids⟩ := Option.isSome_iff_exists.1 h
  obtain ⟨hmap, -, hnodup⟩ := identities?_eq_some.1 hids
  have at_index : ∀ {k : Nat} {u : Tree}, sections[k]? = some u → u.identity? = some id →
      ids[k]? = some id := by
    intro k u hu huid
    have hget : (sections.map Tree.identity?)[k]? = some (some id) := by
      rw [List.getElem?_map, hu, Option.map_some, huid]
    rw [hmap, List.getElem?_map] at hget
    obtain ⟨id', hid', heq⟩ := Option.map_eq_some_iff.1 hget
    rw [hid', heq]
  have hi := at_index hs hsid
  have hj := at_index ht htid
  obtain ⟨hlt, -⟩ := List.getElem?_eq_some_iff.1 hi
  exact (List.getElem?_inj hlt hnodup).1 (hi.trans hj.symm)

theorem sound_of_isSome {sections : List Tree} (h : (Value.repeated sections).isSound = true)
    (hids : (identities? sections).isSome = true) {s : Tree} (hs : s ∈ sections) :
    s.isSound = true := by
  rw [Value.isSound, Bool.or_eq_true, Option.isNone_iff_eq_none] at h
  refine sectionsSound_iff.1 (h.resolve_left fun hn => ?_) s hs
  rw [hn] at hids
  cases hids

/-! ## The section of an instance -/

theorem exists_section_of_leaves {field id : String} {w : Value} (hw : w.isSound = true)
    {q : Path} {v : Value} (h : (.selector id :: q, v) ∈ w.leaves field) :
    ∃ s : Tree, s.isSound = true ∧ s.identity? = some id ∧ ∃ i, ∀ q' v',
      (.selector id :: q', v') ∈ w.leaves field ↔
        (q', v') ∈ fieldLeaves s ∨ (q' = [.field indexField] ∧ v' = indexValue i) := by
  obtain ⟨sections, rfl, hids, i, s, hs, hid, -⟩ := selector_mem_leaves.1 h
  refine ⟨s, sound_of_isSome hw hids (List.mem_of_getElem? hs), hid, i, fun q' v' => ?_⟩
  rw [selector_mem_leaves]
  constructor
  · rintro ⟨sections', heq, -, j, t, ht, htid, hq⟩
    cases heq
    obtain rfl := sections_unique hids hs ht hid htid
    rw [hs] at ht
    cases ht
    exact hq
  · intro hq
    exact ⟨sections, rfl, hids, i, s, hs, hid, hq⟩

/-- **The leaves below an instance are those of one section**, and the marker of its position. The
section stands in a list that is the value of a field. -/
theorem exists_section {t : Tree} (ht : t.isSound = true) (list : Path) {id : String} {q : Path}
    {v : Value} (h : (list ++ .selector id :: q, v) ∈ fieldLeaves t) :
    (∃ base name, list = Path.child base name) ∧
      ∃ s : Tree, s.isSound = true ∧ s.identity? = some id ∧ ∃ i, ∀ q' v',
        (list ++ .selector id :: q', v') ∈ fieldLeaves t ↔
          (q', v') ∈ fieldLeaves s ∨ (q' = [.field indexField] ∧ v' = indexValue i) := by
  -- the induction is on the length of the path, as a field and the section below it share it
  induction hn : list.length using Nat.strongRecOn generalizing list t with
  | _ n ih =>
    cases list with
    | nil =>
      obtain ⟨name, w, q', -, heq, -⟩ := mem_fieldLeaves.1 h
      cases heq
    | cons a rest =>
      obtain ⟨name, w, q', hmem, heq, hq⟩ := mem_fieldLeaves.1 h
      cases heq
      have hw : w.isSound = true := (sound_of_mem ht hmem).2
      have hfind := find?_of_mem ht hmem
      have at_field : ∀ q' v', (.field name :: rest ++ .selector id :: q', v') ∈ fieldLeaves t ↔
          (rest ++ .selector id :: q', v') ∈ w.leaves name := by
        intro q' v'
        rw [List.cons_append, field_mem_fieldLeaves ht]
        constructor
        · rintro ⟨w', hw', hmem'⟩
          rw [hfind] at hw'
          cases hw'
          exact hmem'
        · exact fun hmem' => ⟨w, hfind, hmem'⟩
      simp only [at_field]
      cases rest with
      | nil => exact ⟨⟨[], name, rfl⟩, exists_section_of_leaves hw hq⟩
      | cons b more =>
        cases b with
        | field name' =>
          rcases field_mem_leaves.1 hq with ⟨fields, rfl, hq'⟩ | ⟨s, -, -, -, hnil, -⟩
          · obtain ⟨⟨base, last, hlist⟩, s, hs, hid, i, hiff⟩ :=
              ih (more.length + 1) (by simp at hn; omega) hw (.field name' :: more) hq' rfl
            refine ⟨⟨.field name :: base, last, by rw [hlist]; rfl⟩, s, hs, hid, i,
              fun q' v' => ?_⟩
            rw [← hiff, List.cons_append, field_mem_leaves]
            constructor
            · rintro (⟨fields', heq, hq'⟩ | ⟨s, -, -, -, hnil, -⟩)
              · cases heq
                exact hq'
              · simp at hnil
            · exact fun hq' => .inl ⟨fields, rfl, hq'⟩
          · simp at hnil
        | selector id' =>
          obtain ⟨u, hu, -, j, hiff'⟩ := exists_section_of_leaves hw hq
          have below : ∀ q' v', (.selector id' :: more ++ .selector id :: q', v') ∈ w.leaves name ↔
              (more ++ .selector id :: q', v') ∈ fieldLeaves u := by
            intro q' v'
            rw [List.cons_append, hiff']
            refine or_iff_left ?_
            rintro ⟨heq, -⟩
            have hlen := congrArg List.length heq
            cases more with
            | nil => simp at heq
            | cons c more =>
              simp at hlen
          simp only [below]
          obtain ⟨⟨base, last, hlist⟩, hsection⟩ :=
            ih more.length (by simp at hn; omega) hu more ((below q v).1 hq) rfl
          exact ⟨⟨.field name :: .selector id' :: base, last, by rw [hlist]; rfl⟩, hsection⟩

/-! ## Identities -/

theorem text_mem_fieldLeaves {t : Tree} (ht : t.isSound = true) {name s : String}
    (hname : Vocabulary.isTypedSection name = false) :
    ([.field name], Value.text s) ∈ fieldLeaves t ↔ t.find? name = some (.text s) := by
  rw [field_mem_fieldLeaves ht]
  constructor
  · rintro ⟨w, hw, hmem⟩
    rw [hw]
    cases w with
    | scalar a =>
      cases a with
      | text a =>
        rw [Value.leaves, hname] at hmem
        simpa [Value.text, eq_comm] using hmem
      | bool b => simp [Value.leaves, Value.text] at hmem
      | int i => simp [Value.leaves, Value.text] at hmem
      | uint n => simp [Value.leaves, Value.text] at hmem
      | float x => simp [Value.leaves, Value.text] at hmem
    | list items => simp [Value.leaves, Value.text] at hmem
    | nested fields =>
      rw [Value.leaves] at hmem
      split_ifs at hmem
      · simp [Value.text] at hmem
      · exact absurd hmem (nil_not_mem_fieldLeaves _ _)
    | repeated sections =>
      rw [Value.leaves] at hmem
      split_ifs at hmem
      · cases hmem
      · obtain ⟨_, _, _, -, heq, -⟩ := mem_sectionLeaves.1 hmem
        cases heq
      · simp [Value.text] at hmem
  · intro h
    refine ⟨.text s, h, ?_⟩
    rw [Value.text, Value.leaves, hname]
    exact List.mem_singleton.2 rfl

theorem Value.eq_of_text? {v : Value} {s : String} (h : v.text? = some s) : v = .text s := by
  cases v with
  | scalar x => cases x <;> cases h; rfl
  | list items => cases h
  | nested fields => cases h
  | repeated sections => cases h

theorem identity?_eq_some {t : Tree} {id : String} (h : t.identity? = some id) :
    t.find? nameField = some (.text id) ∨
      (t.find? nameField = none ∧ t.find? typeField = some (.text id)) := by
  unfold Tree.identity? at h
  cases hn : t.find? nameField with
  | some v =>
    rw [hn, Option.some_or, Option.bind_some] at h
    exact .inl (by rw [Value.eq_of_text? h])
  | none =>
    rw [hn, Option.none_or] at h
    obtain ⟨v, hv, htext⟩ := Option.bind_eq_some_iff.1 h
    exact .inr ⟨rfl, by rw [hv, Value.eq_of_text? htext]⟩

theorem Path.select_child (list : Path) (id name : String) :
    (list.select id).child name = list ++ .selector id :: [.field name] := by
  simp [select, child]

/-- **An instance has its identity as its name or, if it has no name, as its type.** -/
theorem identity_leaf {t : Tree} (ht : t.isSound = true) {list : Path} {id : String} {q : Path}
    {v : Value} (h : (list ++ .selector id :: q, v) ∈ fieldLeaves t) :
    ((list.select id).child nameField, .text id) ∈ fieldLeaves t ∨
      ((∀ u, ((list.select id).child nameField, u) ∉ fieldLeaves t) ∧
        ((list.select id).child typeField, .text id) ∈ fieldLeaves t) := by
  obtain ⟨-, s, hs, hid, i, hiff⟩ := exists_section ht list h
  simp only [Path.select_child, hiff]
  have not_marker : ∀ {f : String}, f ≠ indexField → ∀ u,
      ¬ ([Segment.field f] = [.field indexField] ∧ u = indexValue i) := by
    rintro f hf u ⟨heq, -⟩
    exact hf (by simpa using heq)
  rcases identity?_eq_some hid with hname | ⟨hnone, htype⟩
  · exact .inl (.inl ((text_mem_fieldLeaves hs (by decide)).2 hname))
  · refine .inr ⟨fun u hu => ?_, .inl ((text_mem_fieldLeaves hs (by decide)).2 htype)⟩
    rcases hu with hu | hu
    · obtain ⟨w, hw, -⟩ := (field_mem_fieldLeaves hs).1 hu
      rw [hnone] at hw
      cases hw
    · exact not_marker (by decide) u hu

end Reconfig
