import Reconfig.Proofs.Dict
import Reconfig.Proofs.Key

/-!
# The leaves of a tree

Flattening a tree joins names into keys as it descends. Here the same entries are listed by their
paths, relative to the place where the descent begins, so that an entry below a field or an
instance is an entry of what stands there.

* `Leaf`, `Value.leaves`, `fieldLeaves`, `sectionLeaves`;
* `isFieldName`, `Value.isSound`, `Tree.isSound`: names that keys can carry, outside the lists
  that are kept whole, and no name twice in a section;
* **`entries_eq_leaves`**: the entries of a tree are its leaves under the texts of their paths;
* `mem_fieldLeaves`, `field_mem_leaves`, `selector_mem_leaves`: the leaves below a field and below
  an instance.
-/

namespace Reconfig

open Vocabulary (nameField typeField indexField)

/-- A value at a path. -/
abbrev Leaf : Type := Path × Value

/-- The same value one segment further from the root. -/
def Leaf.under (s : Segment) (e : Leaf) : Leaf := (s :: e.1, e.2)

mutual

/-- The leaves of a value, as the value of the named field. -/
def Value.leaves (field : String) : Value → List Leaf
  | .scalar (.text s) =>
    if Vocabulary.isTypedSection field then [([.field typeField], .text s)] else [([], .text s)]
  | .scalar s => [([], .scalar s)]
  | .list items => [([], .list items)]
  | .nested fields => if fields.isEmpty then [([], .nested [])] else fieldLeaves fields
  | .repeated sections =>
    if sections.isEmpty then []
    else if (identities? sections).isSome then sectionLeaves 0 sections
    else [([], .repeated sections)]

/-- The leaves of the fields of a section. -/
def fieldLeaves : List (String × Value) → List Leaf
  | [] => []
  | (name, v) :: rest =>
    (v.leaves name).map (Leaf.under (.field name)) ++ fieldLeaves rest

/-- The leaves of the sections of a list from a position on, each with its marker. -/
def sectionLeaves (position : Nat) : List (List (String × Value)) → List Leaf
  | [] => []
  | fields :: rest =>
    (fieldLeaves fields ++ [([Segment.field indexField], indexValue position)]).map
        (Leaf.under (.selector ((Tree.identity? fields).getD ""))) ++
      sectionLeaves (position + 1) rest

end

/-! ## Sound trees -/

/-- A key can carry the name: it is not empty, has no point and opens no brace, and it is not the
name of the marker of positions. -/
def isFieldName (name : String) : Bool :=
  name != "" && (Segment.field name).isReadable && name != indexField

mutual

/-- The sections of a value, outside the lists that are kept whole, have field names, no name
twice. -/
def Value.isSound : Value → Bool
  | .scalar _ => true
  | .list _ => true
  | .nested fields => fieldsSound fields
  | .repeated sections => (identities? sections).isNone || sectionsSound sections

/-- The fields of a section have distinct field names and sound values. -/
def fieldsSound : List (String × Value) → Bool
  | [] => true
  | (name, v) :: rest =>
    isFieldName name && (rest.lookup name).isNone && v.isSound && fieldsSound rest

/-- All sections of a list are sound. -/
def sectionsSound : List (List (String × Value)) → Bool
  | [] => true
  | fields :: rest => fieldsSound fields && sectionsSound rest

end

/-- The tree has field names that keys can carry, no name twice in a section. -/
abbrev Tree.isSound (t : Tree) : Bool := fieldsSound t

theorem fieldsSound_cons {f : String × Value} {rest : List (String × Value)}
    (h : fieldsSound (f :: rest) = true) :
    isFieldName f.1 = true ∧ rest.lookup f.1 = none ∧ f.2.isSound = true ∧
      fieldsSound rest = true := by
  simpa only [fieldsSound, Bool.and_eq_true, Option.isNone_iff_eq_none, and_assoc] using h

theorem sound_of_mem {fields : List (String × Value)} (h : fieldsSound fields = true)
    {f : String × Value} (hf : f ∈ fields) : isFieldName f.1 = true ∧ f.2.isSound = true := by
  refine forall_of_check (p := fun f => isFieldName f.1 = true ∧ f.2.isSound = true)
    (fun f rest h => ?_) h f hf
  obtain ⟨hname, -, hsound, hrest⟩ := fieldsSound_cons h
  exact ⟨⟨hname, hsound⟩, hrest⟩

theorem names_distinct {fields : List (String × Value)} (h : fieldsSound fields = true) :
    fields.Pairwise (fun a b => a.1 ≠ b.1) := by
  refine distinct_of_check (fun f rest h => ?_) h
  obtain ⟨-, hnew, -, hrest⟩ := fieldsSound_cons h
  exact ⟨hnew, hrest⟩

theorem sectionsSound_iff {sections : List (List (String × Value))} :
    sectionsSound sections = true ↔ ∀ s ∈ sections, fieldsSound s = true :=
  check_iff_forall rfl fun _ _ => Bool.and_eq_true_iff

theorem find?_of_mem {t : Tree} (ht : t.isSound = true) {name : String} {v : Value}
    (h : (name, v) ∈ t) : t.find? name = some v :=
  Dict.lookup_of_mem (names_distinct ht) h

/-! ## Entries and leaves -/

theorem isFieldName_ne_empty {name : String} (h : isFieldName name = true) : name ≠ "" := by
  simp only [isFieldName, Bool.and_eq_true, bne_iff_ne] at h
  exact h.1.1

theorem names_ne_empty {t : Tree} (ht : t.isSound = true) : ∀ f ∈ t, f.1 ≠ "" := fun _ hf =>
  isFieldName_ne_empty (sound_of_mem ht hf).1

theorem isFieldName_ne_index {name : String} (h : isFieldName name = true) :
    name ≠ indexField := by
  simp only [isFieldName, Bool.and_eq_true, bne_iff_ne] at h
  exact h.2

theorem isFieldName_readable {name : String} (h : isFieldName name = true) :
    (Segment.field name).isReadable = true := by
  simp only [isFieldName, Bool.and_eq_true] at h
  exact h.1.2

namespace Path

/-- The text of a path is the key of a place below the root. -/
def IsPlace (p : Path) : Prop := p ≠ [] ∧ p ≠ [.field ""]

theorem IsPlace.child {p : Path} (hp : p.IsPlace) (name : String) : (p.child name).IsPlace := by
  obtain ⟨hne, -⟩ := hp
  refine ⟨by simp [Path.child], fun h => ?_⟩
  have hlen := congrArg List.length h
  have := List.length_pos_of_ne_nil hne
  simp only [Path.child, List.length_append, List.length_singleton] at hlen
  omega

theorem IsPlace.select {p : Path} (id : String) : (p.select id).IsPlace := by
  refine ⟨by simp [Path.select], fun h => ?_⟩
  have := congrArg List.getLast? h
  simp [Path.select] at this

theorem isPlace_child {p : Path} (hp : p ≠ [.field ""]) {name : String} (hn : name ≠ "") :
    (p.child name).IsPlace := by
  cases p with
  | nil =>
    refine ⟨by simp [Path.child], fun h => hn ?_⟩
    simpa [Path.child] using h
  | cons s rest => exact IsPlace.child ⟨List.cons_ne_nil _ _, hp⟩ name

end Path

open Reconfig.Path (render join_render instanceKey_render IsPlace)

mutual

theorem valueEntries_eq_leaves {p : Path} (hp : p.IsPlace) (field : String) : ∀ v : Value,
    valueEntries (render p) field v = (v.leaves field).map fun e => (render (p ++ e.1), e.2)
  | .scalar (.text s) => by
    rw [valueEntries, Value.leaves]
    split
    · rw [join_render hp.2]
      rfl
    · simp
  | .scalar (.bool _) | .scalar (.int _) | .scalar (.uint _) | .scalar (.float _) => by
    simp [valueEntries, Value.leaves]
  | .list items => by simp [valueEntries, Value.leaves]
  | .nested fields => by
    rw [valueEntries, Value.leaves]
    split
    · simp
    · exact fieldEntries_eq_leaves hp fields
  | .repeated sections => by
    rw [valueEntries, Value.leaves]
    split_ifs
    · rfl
    · exact sectionEntries_eq_leaves hp.1 0 sections
    · simp

theorem fieldEntries_eq_leaves {p : Path} (hp : p.IsPlace) :
    ∀ fields : List (String × Value),
      fieldEntries (render p) fields = (fieldLeaves fields).map fun e => (render (p ++ e.1), e.2)
  | [] => rfl
  | (name, v) :: rest => by
    rw [fieldEntries, fieldLeaves, join_render hp.2, valueEntries_eq_leaves (hp.child name) name v,
      fieldEntries_eq_leaves hp rest, List.map_append, List.map_map]
    simp [Function.comp_def, Leaf.under, Path.child]

theorem sectionEntries_eq_leaves {p : Path} (hp : p ≠ []) (position : Nat) :
    ∀ sections : List (List (String × Value)), sectionEntries (render p) position sections =
      (sectionLeaves position sections).map fun e => (render (p ++ e.1), e.2)
  | [] => rfl
  | fields :: rest => by
    have hplace : (p.select ((Tree.identity? fields).getD "")).IsPlace := IsPlace.select _
    rw [sectionEntries, sectionLeaves, instanceKey_render hp,
      fieldEntries_eq_leaves hplace fields, join_render hplace.2,
      sectionEntries_eq_leaves hp (position + 1) rest]
    simp [Function.comp_def, Leaf.under, Path.child, Path.select]

end

/-- **The entries of a tree are its leaves**, under the texts of their paths. An empty name at the
root would leave no trace in the keys below it. -/
theorem entries_eq_leaves {t : Tree} (ht : ∀ f ∈ t, f.1 ≠ "") :
    t.entries = (fieldLeaves t).map fun e => (render e.1, e.2) := by
  unfold Tree.entries
  induction t with
  | nil => rfl
  | cons f rest ih =>
    obtain ⟨name, v⟩ := f
    have hplace : IsPlace [.field name] :=
      Path.isPlace_child (p := []) (by simp) (ht _ List.mem_cons_self)
    have hkey : Key.join "" name = render [.field name] := join_render (p := []) (by simp) name
    rw [fieldEntries, fieldLeaves, hkey, valueEntries_eq_leaves hplace name v,
      ih fun f hf => ht f (List.mem_cons_of_mem _ hf), List.map_append, List.map_map]
    rfl

/-! ## The leaves below a segment -/

theorem mem_under {s : Segment} {leaves : List Leaf} {p : Path} {v : Value} :
    (p, v) ∈ leaves.map (Leaf.under s) ↔ ∃ q, p = s :: q ∧ (q, v) ∈ leaves := by
  rw [List.mem_map]
  constructor
  · rintro ⟨⟨q, w⟩, hq, heq⟩
    cases heq
    exact ⟨q, rfl, hq⟩
  · rintro ⟨q, rfl, hq⟩
    exact ⟨(q, v), hq, rfl⟩

theorem mem_fieldLeaves {fields : List (String × Value)} {p : Path} {v : Value} :
    (p, v) ∈ fieldLeaves fields ↔
      ∃ name w q, (name, w) ∈ fields ∧ p = .field name :: q ∧ (q, v) ∈ w.leaves name := by
  induction fields with
  | nil => simp [fieldLeaves]
  | cons e rest ih =>
    obtain ⟨name, w⟩ := e
    rw [fieldLeaves, List.mem_append, mem_under, ih]
    constructor
    · rintro (⟨q, rfl, hq⟩ | ⟨name', w', q, hmem, rfl, hq⟩)
      · exact ⟨name, w, q, List.mem_cons_self, rfl, hq⟩
      · exact ⟨name', w', q, List.mem_cons_of_mem _ hmem, rfl, hq⟩
    · rintro ⟨name', w', q, hmem, rfl, hq⟩
      rcases List.mem_cons.1 hmem with heq | hmem
      · cases heq
        exact .inl ⟨q, rfl, hq⟩
      · exact .inr ⟨name', w', q, hmem, rfl, hq⟩

@[simp]
theorem nil_not_mem_fieldLeaves (fields : Tree) (v : Value) : ([], v) ∉ fieldLeaves fields := by
  simp [mem_fieldLeaves]

@[simp]
theorem selector_not_mem_fieldLeaves (fields : Tree) (id : String) (q : Path) (v : Value) :
    (.selector id :: q, v) ∉ fieldLeaves fields := by
  simp [mem_fieldLeaves]

theorem field_mem_fieldLeaves {t : Tree} (ht : t.isSound = true) {name : String} {q : Path}
    {v : Value} : (.field name :: q, v) ∈ fieldLeaves t ↔
      ∃ w, t.find? name = some w ∧ (q, v) ∈ w.leaves name := by
  rw [mem_fieldLeaves]
  constructor
  · rintro ⟨name', w, q', hmem, heq, hq⟩
    cases heq
    exact ⟨w, find?_of_mem ht hmem, hq⟩
  · rintro ⟨w, hw, hq⟩
    exact ⟨name, w, q, Dict.mem_of_lookup hw, rfl, hq⟩

theorem mem_sectionLeaves {position : Nat} {sections : List Tree} {p : Path} {v : Value} :
    (p, v) ∈ sectionLeaves position sections ↔
      ∃ i, ∃ t : Tree, ∃ q, sections[i]? = some t ∧ p = .selector (t.identity?.getD "") :: q ∧
        ((q, v) ∈ fieldLeaves t ∨ (q = [.field indexField] ∧ v = indexValue (position + i))) := by
  induction sections generalizing position with
  | nil => simp [sectionLeaves]
  | cons fields rest ih =>
    rw [sectionLeaves, List.mem_append, mem_under, ih]
    constructor
    · rintro (⟨q, rfl, hq⟩ | ⟨i, t, q, ht, rfl, hq⟩)
      · refine ⟨0, fields, q, rfl, rfl, ?_⟩
        simpa using hq
      · refine ⟨i + 1, t, q, ht, rfl, ?_⟩
        rwa [show position + (i + 1) = position + 1 + i by omega]
    · rintro ⟨i, t, q, ht, rfl, hq⟩
      cases i with
      | zero =>
        cases ht
        refine .inl ⟨q, rfl, ?_⟩
        simpa using hq
      | succ i =>
        refine .inr ⟨i, t, q, ht, rfl, ?_⟩
        rwa [show position + 1 + i = position + (i + 1) by omega]

theorem mapM_eq_some_iff {α β : Type} {f : α → Option β} {l : List α} {ys : List β} :
    l.mapM f = some ys ↔ l.map f = ys.map some := by
  induction l generalizing ys with
  | nil => cases ys <;> simp
  | cons x rest ih =>
    rw [List.mapM_cons]
    cases hx : f x with
    | none => cases ys <;> simp [hx]
    | some y =>
      cases hr : rest.mapM f with
      | none =>
        cases ys with
        | nil => simp
        | cons z zs => simpa [hx, hr] using fun _ h => by simp [ih.2 h] at hr
      | some more =>
        cases ys with
        | nil => simp
        | cons z zs => simp [hx, ← ih, hr]

/-- **Sections that can be told apart** have identities without braces, no two equal. -/
theorem identities?_eq_some {sections : List Tree} {ids : List String} :
    identities? sections = some ids ↔
      sections.map Tree.identity? = ids.map some ∧ (∀ id ∈ ids, isBraceFree id = true) ∧
        ids.Nodup := by
  rw [← mapM_eq_some_iff, identities?]
  cases h : sections.mapM Tree.identity? with
  | none => simp
  | some found =>
    simp only [List.all_eq_true, Option.ite_none_right_eq_some, Option.some.injEq]
    constructor
    · rintro ⟨h, rfl⟩
      exact ⟨rfl, h⟩
    · rintro ⟨rfl, h⟩
      exact ⟨h, rfl⟩

/-- The leaves of a value below a field are those of the section that the value is, or the type
that a bare text stands for. -/
theorem field_mem_leaves {field name : String} {w v : Value} {q : Path} :
    (.field name :: q, v) ∈ w.leaves field ↔
      (∃ fields, w = .nested fields ∧ (.field name :: q, v) ∈ fieldLeaves fields) ∨
        (∃ s, w = .text s ∧ Vocabulary.isTypedSection field = true ∧ name = typeField ∧ q = [] ∧
          v = .text s) := by
  cases w with
  | scalar s =>
    cases s with
    | text s =>
      rw [Value.leaves]
      split_ifs with h
      · simp only [List.mem_singleton, Prod.mk.injEq, List.cons.injEq, Segment.field.injEq,
          Value.text, h, true_and, false_and, exists_false, false_or, Value.scalar.injEq,
          Scalar.text.injEq]
        constructor
        · rintro ⟨⟨rfl, rfl⟩, rfl⟩
          exact ⟨s, rfl, rfl, rfl, rfl⟩
        · rintro ⟨s', rfl, rfl, rfl, rfl⟩
          exact ⟨⟨rfl, rfl⟩, rfl⟩
      · simp [h]
    | bool b => simp [Value.leaves, Value.text]
    | int i => simp [Value.leaves, Value.text]
    | uint n => simp [Value.leaves, Value.text]
    | float x => simp [Value.leaves, Value.text]
  | list items => simp [Value.leaves, Value.text]
  | nested fields =>
    rw [Value.leaves]
    split_ifs with h
    · rw [List.isEmpty_iff] at h
      simp [h, fieldLeaves, Value.text]
    · simp [Value.text]
  | repeated sections =>
    rw [Value.leaves]
    split_ifs
    · simp [Value.text]
    · simp [mem_sectionLeaves, Value.text]
    · simp [Value.text]

theorem selector_mem_leaves {field id : String} {w v : Value} {q : Path} :
    (.selector id :: q, v) ∈ w.leaves field ↔
      ∃ sections : List Tree, w = .repeated sections ∧ (identities? sections).isSome = true ∧
        ∃ i, ∃ t : Tree, sections[i]? = some t ∧ t.identity? = some id ∧
          ((q, v) ∈ fieldLeaves t ∨ (q = [.field indexField] ∧ v = indexValue i)) := by
  cases w with
  | scalar s =>
    cases s with
    | text s =>
      rw [Value.leaves]
      split_ifs <;> simp
    | bool b => simp [Value.leaves]
    | int i => simp [Value.leaves]
    | uint n => simp [Value.leaves]
    | float x => simp [Value.leaves]
  | list items => simp [Value.leaves]
  | nested fields =>
    rw [Value.leaves]
    split_ifs with h
    · simp
    · simp [mem_fieldLeaves]
  | repeated sections =>
    rw [Value.leaves]
    split_ifs with h1 h2
    · rw [List.isEmpty_iff] at h1
      simp [h1]
    · rw [mem_sectionLeaves]
      obtain ⟨ids, hids⟩ := Option.isSome_iff_exists.1 h2
      have hmap := (identities?_eq_some.1 hids).1
      have hsome : ∀ {i : Nat} {t : Tree}, sections[i]? = some t → ∃ id, t.identity? = some id := by
        intro i t ht
        have hget : (sections.map Tree.identity?)[i]? = some t.identity? := by
          rw [List.getElem?_map, ht]
          rfl
        rw [hmap, List.getElem?_map] at hget
        obtain ⟨id, -, hid⟩ := Option.map_eq_some_iff.1 hget
        exact ⟨id, hid.symm⟩
      constructor
      · rintro ⟨i, t, q', ht, heq, hq⟩
        cases heq
        obtain ⟨id, hid⟩ := hsome ht
        refine ⟨sections, rfl, h2, i, t, ht, by rw [hid]; rfl, ?_⟩
        rwa [Nat.zero_add] at hq
      · rintro ⟨sections', heq, -, i, t, ht, hid, hq⟩
        cases heq
        refine ⟨i, t, q, ht, by rw [hid]; rfl, ?_⟩
        rwa [Nat.zero_add]
    · simp only [List.mem_singleton, Prod.mk.injEq, reduceCtorEq, false_and, Value.repeated.injEq,
        false_iff, not_exists]
      rintro sections' ⟨rfl, hsome, -⟩
      exact h2 hsome

end Reconfig
