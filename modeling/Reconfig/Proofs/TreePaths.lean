import Reconfig.Proofs.RoundTrip
import Reconfig.Proofs.WellFormed

/-!
# Values and leaves at a path

A leaf of a tree comes from a value that stands somewhere in it: the value itself if it has no parts
to become keys, the type that a bare text stands for, or the marker of a section of a list.

* `Tree.HasAt`: a value stands at a path in a tree;
* **`HasAt.mem_leaves_iff`**, `HasAt.mem_leaves_select_iff`: the leaves at and below the path of a
  value, and below an instance;
* `Tree.LeafAt`, **`leafAt_of_mem`**: every leaf comes from a value in one of three ways;
* `exists_list_of_leaf`: an instance belongs to a list of the tree.
-/

namespace Reconfig

open Vocabulary (nameField typeField indexField)

/-! ## Values at a path -/

/-- The value stands at the path in the tree. A path leads into a list of sections by the identity
of one of them, if they can be told apart. -/
inductive Tree.HasAt : Tree → Path → Value → Prop where
  | field {t : Tree} {name : String} {v : Value} (h : t.find? name = some v) :
    HasAt t [.field name] v
  | nested {t fields : Tree} {name : String} {p : Path} {v : Value}
    (h : t.find? name = some (.nested fields)) (below : HasAt fields p v) :
    HasAt t (.field name :: p) v
  | repeated {t s : Tree} {sections : List Tree} {name id : String} {p : Path} {v : Value}
    (h : t.find? name = some (.repeated sections)) (hids : (identities? sections).isSome = true)
    (hs : s ∈ sections) (hid : s.identity? = some id) (below : HasAt s p v) :
    HasAt t (.field name :: .selector id :: p) v

/-- A key can carry the segment, and it is not the marker of positions. -/
def Segment.isNamed : Segment → Bool
  | .field name => isFieldName name
  | .selector id => isBraceFree id

theorem mem_identities {sections : List Tree} {ids : List String}
    (hids : identities? sections = some ids) {s : Tree} (hs : s ∈ sections) {id : String}
    (hid : s.identity? = some id) : id ∈ ids := by
  have hmem : s.identity? ∈ ids.map some :=
    (identities?_eq_some.1 hids).1 ▸ List.mem_map_of_mem hs
  rw [hid] at hmem
  simpa using hmem

theorem isBraceFree_of_mem {sections : List Tree} (hids : (identities? sections).isSome = true)
    {s : Tree} (hs : s ∈ sections) {id : String} (hid : s.identity? = some id) :
    isBraceFree id = true := by
  obtain ⟨ids, hids⟩ := Option.isSome_iff_exists.1 hids
  exact (identities?_eq_some.1 hids).2.1 id (mem_identities hids hs hid)

theorem section_unique {sections : List Tree} (hids : (identities? sections).isSome = true)
    {s u : Tree} (hs : s ∈ sections) (hu : u ∈ sections) {id : String}
    (hsid : s.identity? = some id) (huid : u.identity? = some id) : s = u := by
  obtain ⟨i, hi⟩ := List.mem_iff_getElem?.1 hs
  obtain ⟨j, hj⟩ := List.mem_iff_getElem?.1 hu
  obtain rfl := sections_unique hids hi hj hsid huid
  exact Option.some.inj (hi.symm.trans hj)

theorem Path.baseField?_cons_cons (a b : Segment) (q : Path) :
    baseField? (a :: b :: q) = baseField? (b :: q) := by
  rw [baseField?, baseField?, List.getLast?_cons_cons]

namespace Tree.HasAt

variable {t : Tree} {p : Path} {v : Value}

theorem exists_field (h : t.HasAt p v) : ∃ name q, p = .field name :: q := by
  cases h <;> exact ⟨_, _, rfl⟩

theorem exists_baseField (h : t.HasAt p v) : ∃ name, p.baseField? = some name := by
  induction h with
  | field h => exact ⟨_, rfl⟩
  | nested h below ih | repeated h hids hs hid below ih =>
    obtain ⟨n, q, rfl⟩ := below.exists_field
    exact ih

theorem trans_nested {fields : Tree} {q : Path} (h : t.HasAt p (.nested fields))
    (hq : HasAt fields q v) : t.HasAt (p ++ q) v := by
  generalize hw : Value.nested fields = w at h
  induction h with
  | field h => exact .nested (hw ▸ h) hq
  | nested h below ih => exact .nested h (ih hw)
  | repeated h hids hs hid below ih => exact .repeated h hids hs hid (ih hw)

theorem trans_repeated {sections : List Tree} {s : Tree} {id : String} {q : Path}
    (h : t.HasAt p (.repeated sections)) (hids : (identities? sections).isSome = true)
    (hs : s ∈ sections) (hid : s.identity? = some id) (hq : s.HasAt q v) :
    t.HasAt (p ++ .selector id :: q) v := by
  generalize hw : Value.repeated sections = w at h
  induction h with
  | field h => exact .repeated (hw ▸ h) hids hs hid hq
  | nested h below ih => exact .nested h (ih hw)
  | repeated h hids' hs' hid' below ih => exact .repeated h hids' hs' hid' (ih hw)

theorem isSound (h : t.HasAt p v) (ht : t.isSound = true) :
    p.all Segment.isNamed = true ∧ v.isSound = true := by
  induction h with
  | field h =>
    obtain ⟨hname, hv⟩ := sound_of_mem ht (Dict.mem_of_lookup h)
    exact ⟨by rw [List.all_cons, Segment.isNamed, hname]; rfl, hv⟩
  | nested h below ih =>
    obtain ⟨hname, hfields⟩ := sound_of_mem ht (Dict.mem_of_lookup h)
    obtain ⟨hp, hv⟩ := ih hfields
    exact ⟨by rw [List.all_cons, Segment.isNamed, hname, hp]; rfl, hv⟩
  | repeated h hids hs hid below ih =>
    obtain ⟨hname, hsections⟩ := sound_of_mem ht (Dict.mem_of_lookup h)
    obtain ⟨hp, hv⟩ := ih (sound_of_isSome hsections hids hs)
    refine ⟨?_, hv⟩
    rw [List.all_cons, List.all_cons, Segment.isNamed, Segment.isNamed, hname,
      isBraceFree_of_mem hids hs hid, hp]
    rfl

theorem isNamed (h : t.HasAt p v) (ht : t.isSound = true) {s : Segment} (hs : s ∈ p) :
    s.isNamed = true := List.all_eq_true.1 (h.isSound ht).1 s hs

theorem index_not_mem (h : t.HasAt p v) (ht : t.isSound = true) : .field indexField ∉ p :=
  fun hmem => isFieldName_ne_index (h.isNamed ht hmem) rfl

/-- **The leaves at and below the path of a value are its own.** -/
theorem mem_leaves_iff {name : String} (h : t.HasAt p v) (ht : t.isSound = true)
    (hname : p.baseField? = some name) {q : Path} {w : Value} :
    (p ++ q, w) ∈ fieldLeaves t ↔ (q, w) ∈ v.leaves name := by
  induction h with
  | field h =>
    cases hname
    rw [List.singleton_append, field_mem_fieldLeaves ht, h]
    simp
  | nested h below ih =>
    have hfields := (sound_of_mem ht (Dict.mem_of_lookup h)).2
    obtain ⟨n, r, rfl⟩ := below.exists_field
    rw [Path.baseField?_cons_cons] at hname
    rw [← ih hfields hname, List.cons_append, field_mem_fieldLeaves ht, h]
    simp [field_mem_leaves, Value.text]
  | repeated h hids hs hid below ih =>
    have hsections := (sound_of_mem ht (Dict.mem_of_lookup h)).2
    have hsound := sound_of_isSome hsections hids hs
    obtain ⟨n, r, rfl⟩ := below.exists_field
    rw [Path.baseField?_cons_cons, Path.baseField?_cons_cons] at hname
    rw [← ih hsound hname, List.cons_append, field_mem_fieldLeaves ht, h]
    simp only [Option.some.injEq, exists_eq_left', List.cons_append, selector_mem_leaves,
      Value.repeated.injEq]
    constructor
    · rintro ⟨-, i, u, hu, huid, hleaf | ⟨heq, -⟩⟩
      · rwa [section_unique hids (List.mem_of_getElem? hu) hs huid hid] at hleaf
      · rw [(List.cons.inj heq).1] at below
        exact absurd List.mem_cons_self (below.index_not_mem hsound)
    · intro hleaf
      obtain ⟨i, hi⟩ := List.mem_iff_getElem?.1 hs
      exact ⟨hids, i, _, hi, hid, .inl hleaf⟩

/-- **The leaves below an instance** are those of its section, and the marker of its position. -/
theorem mem_leaves_select_iff {sections : List Tree} {i : Nat} {s : Tree} {id : String}
    (h : t.HasAt p (.repeated sections)) (ht : t.isSound = true)
    (hids : (identities? sections).isSome = true) (hi : sections[i]? = some s)
    (hid : s.identity? = some id) {q : Path} {w : Value} :
    (p.select id ++ q, w) ∈ fieldLeaves t ↔
      (q, w) ∈ fieldLeaves s ∨ (q = [.field indexField] ∧ w = indexValue i) := by
  obtain ⟨name, hname⟩ := h.exists_baseField
  rw [Path.select, List.append_assoc, h.mem_leaves_iff ht hname, List.singleton_append,
    selector_mem_leaves]
  constructor
  · rintro ⟨sections', heq, -, j, u, hj, huid, hq⟩
    cases heq
    obtain rfl := sections_unique hids hi hj hid huid
    obtain rfl := Option.some.inj (hi.symm.trans hj)
    exact hq
  · exact fun hq => ⟨sections, rfl, hids, i, s, hi, hid, hq⟩

end Tree.HasAt

/-! ## Leaves -/

/-- A leaf of the tree, by the value from which it comes. -/
inductive Tree.LeafAt (t : Tree) : Path → Value → Prop where
  /-- A value stays whole at its path. -/
  | whole {p : Path} {name : String} {v : Value} (h : t.HasAt p v)
    (hname : p.baseField? = some name) (hv : v.leaves name = [([], v)]) : t.LeafAt p v
  /-- A bare text stands for the type of a section. -/
  | bareType {p : Path} {s : String} (h : t.HasAt p (.text s)) :
    t.LeafAt (p.child typeField) (.text s)
  /-- An instance has the marker of its position. -/
  | marker {list : Path} {sections : List Tree} {i : Nat} {s : Tree} {id : String}
    (h : t.HasAt list (.repeated sections)) (hids : (identities? sections).isSome = true)
    (hs : sections[i]? = some s) (hid : s.identity? = some id) :
    t.LeafAt ((list.select id).child indexField) (indexValue i)

theorem leafAt_of_mem_leaves {t : Tree} (v : Value) : v.isSound = true → ∀ {p : Path}
    {name : String}, t.HasAt p v → p.baseField? = some name → ∀ {q : Path} {w : Value},
      (q, w) ∈ v.leaves name → t.LeafAt (p ++ q) w := by
  induction v using Value.induct with
  | scalar s =>
    intro _ p name h hname q w hw
    have hwhole : (Value.scalar s).leaves name = [([], .scalar s)] → t.LeafAt (p ++ q) w := by
      intro hleaves
      rw [hleaves, List.mem_singleton] at hw
      cases hw
      rw [List.append_nil]
      exact .whole h hname hleaves
    cases s with
    | text s =>
      by_cases htyped : Vocabulary.isTypedSection name = true
      · rw [Value.leaves, if_pos htyped, List.mem_singleton] at hw
        cases hw
        exact .bareType h
      · exact hwhole (if_neg htyped)
    | bool _ | int _ | uint _ | float _ => exact hwhole rfl
  | list items =>
    intro _ p name h hname q w hw
    cases List.mem_singleton.1 hw
    rw [List.append_nil]
    exact .whole h hname rfl
  | nested fields ih =>
    intro hsound p name h hname q w hw
    cases fields with
    | nil =>
      cases List.mem_singleton.1 hw
      rw [List.append_nil]
      exact .whole h hname rfl
    | cons f rest =>
      obtain ⟨n, u, r, hmem, rfl, hr⟩ := mem_fieldLeaves.1 (hw : (q, w) ∈ fieldLeaves (f :: rest))
      have hfind : Tree.HasAt (f :: rest) [.field n] u := .field (find?_of_mem hsound hmem)
      have hleaf := ih _ hmem (sound_of_mem hsound hmem).2 (h.trans_nested hfind)
        (Path.baseField?_child p n) hr
      rwa [List.append_assoc] at hleaf
  | repeated sections ih =>
    intro hsound p name h hname q w hw
    cases hids : (identities? sections).isSome with
    | false =>
      have hleaves : (Value.repeated sections).leaves name = [([], .repeated sections)] := by
        cases sections with
        | nil => cases hids
        | cons s rest => simp [Value.leaves, hids]
      rw [hleaves, List.mem_singleton] at hw
      cases hw
      rw [List.append_nil]
      exact .whole h hname hleaves
    | true =>
      rw [leaves_of_isSome hids, mem_sectionLeaves] at hw
      obtain ⟨i, s, r, hi, rfl, hr⟩ := hw
      have hs := List.mem_of_getElem? hi
      have hid := identity_of_mem hids hs
      rcases hr with hr | ⟨rfl, rfl⟩
      · obtain ⟨n, u, r', hmem, rfl, hr'⟩ := mem_fieldLeaves.1 hr
        have hsection := sound_of_isSome hsound hids hs
        have hfind : s.HasAt [.field n] u := .field (find?_of_mem hsection hmem)
        have hlast : Path.baseField? (p ++ .selector (s.identity?.getD "") :: [.field n]) =
            some n := by
          rw [← Path.select_child, Path.baseField?_child]
        have hleaf := ih s hs _ hmem (sound_of_mem hsection hmem).2
          (h.trans_repeated hids hs hid hfind) hlast hr'
        rwa [List.append_assoc] at hleaf
      · rw [Nat.zero_add, ← Path.select_child]
        exact .marker h hids hi hid

/-- **A leaf is a value that stays whole, a bare type or a marker.** -/
theorem leafAt_of_mem {t : Tree} (ht : t.isSound = true) {p : Path} {v : Value}
    (h : (p, v) ∈ fieldLeaves t) : t.LeafAt p v := by
  obtain ⟨name, w, q, hmem, rfl, hq⟩ := mem_fieldLeaves.1 h
  exact leafAt_of_mem_leaves w (sound_of_mem ht hmem).2 (.field (find?_of_mem ht hmem)) rfl hq

theorem isFlat_of_leaves {field : String} {v : Value} (h : v.leaves field = [([], v)]) :
    v.isFlat = true ∧ (Vocabulary.isTypedSection field = true → v.text? = none) := by
  have hmem : ([], v) ∈ v.leaves field := by
    rw [h]
    exact List.mem_cons_self
  cases v with
  | scalar s =>
    refine ⟨rfl, fun htyped => ?_⟩
    cases s with
    | text s => simp [Value.leaves, htyped] at hmem
    | bool _ | int _ | uint _ | float _ => rfl
  | list items => exact ⟨rfl, fun _ => rfl⟩
  | nested fields =>
    refine ⟨?_, fun _ => rfl⟩
    cases fields with
    | nil => rfl
    | cons f rest => exact absurd hmem (nil_not_mem_fieldLeaves (f :: rest) _)
  | repeated sections =>
    refine ⟨?_, fun _ => rfl⟩
    cases hids : (identities? sections).isSome with
    | false =>
      cases sections with
      | nil => cases hids
      | cons s rest => rw [Value.isFlat, ← Option.not_isSome, hids]; rfl
    | true =>
      rw [leaves_of_isSome hids] at hmem
      obtain ⟨_, _, _, -, heq, -⟩ := mem_sectionLeaves.1 hmem
      cases heq

namespace Tree.LeafAt

variable {t : Tree} {p : Path} {v : Value}

theorem marked (h : t.LeafAt p v) (ht : t.isSound = true) : .field indexField ∉ p.dropLast ∧
    (p.isIndexMarker = true → (p.parent?.bind Path.selected?).isSome = true) := by
  cases h with
  | whole h hname hv =>
    have hindex := h.index_not_mem ht
    refine ⟨fun hmem => hindex (List.dropLast_subset _ hmem), fun hmarker => ?_⟩
    obtain ⟨q, rfl⟩ := Path.exists_child_of_isIndexMarker hmarker
    exact absurd (List.mem_append_right _ List.mem_cons_self) hindex
  | bareType h =>
    rw [Path.child, List.dropLast_concat]
    refine ⟨h.index_not_mem ht, fun hmarker => ?_⟩
    exact absurd ((Path.isIndexMarker_child _ _).1 hmarker) (by decide)
  | marker h hids hs hid =>
    rw [Path.parent?_child, Option.bind_some, Path.selected?_select, Path.child,
      List.dropLast_concat, Path.select, List.mem_append, List.mem_singleton]
    exact ⟨fun hmem => hmem.elim (h.index_not_mem ht) (fun heq => nomatch heq), fun _ => rfl⟩

theorem isBraceFree (h : t.LeafAt p v) (ht : t.isSound = true) {id : String}
    (hid : .selector id ∈ p) : isBraceFree id = true := by
  have among : ∀ {q : Path} {w : Value} {name : String}, t.HasAt q w →
      .selector id ∈ q.child name → Reconfig.isBraceFree id = true := fun hq hmem =>
    (List.mem_append.1 hmem).elim (fun hmem => hq.isNamed ht hmem) (fun hmem => by simp at hmem)
  cases h with
  | whole h hname hv => exact h.isNamed ht hid
  | bareType h => exact among h hid
  | marker h hids hs huid =>
    rcases List.mem_append.1 hid with hid | hid
    · rcases List.mem_append.1 hid with hid | hid
      · exact h.isNamed ht hid
      · cases List.mem_singleton.1 hid
        exact isBraceFree_of_mem hids (List.mem_of_getElem? hs) huid
    · simp at hid

theorem isFlat (h : t.LeafAt p v) : v.isFlat = true ∧ ∀ field ∈ p.baseField?,
    Vocabulary.isTypedSection field = true → v.text? = none := by
  cases h with
  | whole h hname hv =>
    rw [hname]
    refine ⟨(isFlat_of_leaves hv).1, fun field hfield => ?_⟩
    cases hfield
    exact (isFlat_of_leaves hv).2
  | bareType h =>
    refine ⟨rfl, fun field hfield htyped => ?_⟩
    rw [Path.baseField?_child] at hfield
    cases hfield
    exact absurd htyped (by decide)
  | marker h hids hs hid => exact ⟨rfl, fun _ _ _ => rfl⟩

end Tree.LeafAt

/-- **An instance belongs to a list of the tree.** -/
theorem exists_list_of_leaf {id : String} {q : Path} {v : Value} : ∀ (r : Path) {t : Tree},
    t.isSound = true → (r ++ .selector id :: q, v) ∈ fieldLeaves t →
      ∃ sections : List Tree, t.HasAt r (.repeated sections) ∧
        (identities? sections).isSome = true ∧ ∃ s ∈ sections, s.identity? = some id
  | [], _, _, h => absurd h (selector_not_mem_fieldLeaves _ _ _ _)
  | .selector _ :: _, _, _, h => absurd h (selector_not_mem_fieldLeaves _ _ _ _)
  | [.field name], t, ht, h => by
    obtain ⟨w, hw, hq⟩ := (field_mem_fieldLeaves ht).1 h
    obtain ⟨sections, rfl, hids, i, s, hs, hid, -⟩ := selector_mem_leaves.1 hq
    exact ⟨sections, .field hw, hids, s, List.mem_of_getElem? hs, hid⟩
  | .field name :: .field n :: r, t, ht, h => by
    obtain ⟨w, hw, hq⟩ := (field_mem_fieldLeaves ht).1 h
    have hsound := (sound_of_mem ht (Dict.mem_of_lookup hw)).2
    rcases field_mem_leaves.1 hq with ⟨fields, rfl, hfields⟩ | ⟨s, -, -, -, hnil, -⟩
    · obtain ⟨sections, hsections, hrest⟩ := exists_list_of_leaf (.field n :: r) hsound hfields
      exact ⟨sections, .nested hw hsections, hrest⟩
    · exact absurd hnil (by simp)
  | .field name :: .selector id' :: r, t, ht, h => by
    obtain ⟨w, hw, hq⟩ := (field_mem_fieldLeaves ht).1 h
    have hsound := (sound_of_mem ht (Dict.mem_of_lookup hw)).2
    obtain ⟨siblings, rfl, hids, i, u, hu, huid, hq⟩ := selector_mem_leaves.1 hq
    have hmem := List.mem_of_getElem? hu
    rcases hq with hq | ⟨heq, -⟩
    · obtain ⟨sections, hsections, hrest⟩ :=
        exists_list_of_leaf r (sound_of_isSome hsound hids hmem) hq
      exact ⟨sections, .repeated hw hids hmem huid hsections, hrest⟩
    · cases r <;> simp at heq

end Reconfig
