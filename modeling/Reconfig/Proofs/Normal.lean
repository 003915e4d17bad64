import Reconfig.Proofs.Leaves

/-!
# Normal forms of trees

What is left of a tree once it has been flattened. A list of sections without sections vanishes,
and with it a section that holds nothing else; a bare text at a section that is identified by its
type becomes that section. Lists whose sections cannot be told apart stay as they are.

* `Value.sorted`, `Tree.sorted`: the fields of every section in increasing order of their names;
* `Value.normal?`, **`Tree.normal`**: the normal form;
* `sorted_eq_iff`: trees are equal up to the order of fields if they have the same fields;
* `lookup_normalFields`, `identity?_normal`: the fields and the identity of a normal form;
* `Tree.isNormal`, **`normal_eq_self`**: a tree in normal form is its own.
-/

namespace Reconfig

open Vocabulary (nameField typeField indexField)

/-! ## The order of fields -/

mutual

/-- The value with the fields of every section in increasing order of their names. -/
def Value.sorted : Value → Value
  | .scalar s => .scalar s
  | .list items => .list items
  | .nested fields => .nested (Dict.ofList (sortedFields fields)).entries
  | .repeated sections => .repeated (sortedSections sections)

/-- The fields with sorted values, in the order in which they stand. -/
def sortedFields : List (String × Value) → List (String × Value)
  | [] => []
  | (name, v) :: rest => (name, v.sorted) :: sortedFields rest

/-- The sections, each with its fields in increasing order of their names. -/
def sortedSections : List (List (String × Value)) → List (List (String × Value))
  | [] => []
  | fields :: rest => (Dict.ofList (sortedFields fields)).entries :: sortedSections rest

end

/-- The tree with the fields of every section in increasing order of their names. Trees that differ
in the order of fields alone become equal. -/
def Tree.sorted (t : Tree) : Tree := (Dict.ofList (sortedFields t)).entries

/-! ## Normal forms -/

mutual

/-- The normal form of the value of a field, none if nothing is left of it. -/
def Value.normal? (field : String) : Value → Option Value
  | .scalar (.text s) =>
    some (if Vocabulary.isTypedSection field then .nested [(typeField, .text s)] else .text s)
  | .scalar s => some (.scalar s)
  | .list items => some (.list items)
  | .nested fields =>
    if fields.isEmpty then some (.nested [])
    else if (normalFields fields).isEmpty then none
    else some (.nested (normalFields fields))
  | .repeated sections =>
    if sections.isEmpty then none
    else if (identities? sections).isSome then some (.repeated (normalSections sections))
    else some (.repeated sections)

/-- The fields of which something is left. -/
def normalFields : List (String × Value) → List (String × Value)
  | [] => []
  | (name, v) :: rest =>
    match v.normal? name with
    | some w => (name, w) :: normalFields rest
    | none => normalFields rest

/-- The sections of a list in normal form. -/
def normalSections : List (List (String × Value)) → List (List (String × Value))
  | [] => []
  | fields :: rest => normalFields fields :: normalSections rest

end

/-- **The normal form of a tree.** -/
def Tree.normal (t : Tree) : Tree := normalFields t

/-! ## Trees up to the order of fields -/

theorem sortedFields_eq_map (fields : List (String × Value)) :
    sortedFields fields = fields.map fun f => (f.1, f.2.sorted) := by
  induction fields with
  | nil => rfl
  | cons f rest ih => rw [sortedFields, ih, List.map_cons]

theorem sortedSections_eq_map (sections : List Tree) :
    sortedSections sections = sections.map Tree.sorted := by
  induction sections with
  | nil => rfl
  | cons fields rest ih => rw [sortedSections, ih, List.map_cons, Tree.sorted]

theorem find?_sortedFields {t : Tree} (ht : t.Pairwise (fun a b => a.1 ≠ b.1)) (name : String) :
    (Dict.ofList (sortedFields t)).find? name = (t.find? name).map Value.sorted := by
  rw [sortedFields_eq_map]
  cases h : t.find? name with
  | none =>
    refine Dict.find?_ofList_eq_none fun e he heq => ?_
    obtain ⟨f, hf, rfl⟩ := List.mem_map.1 he
    have := List.lookup_eq_none_iff.1 h f hf
    exact absurd heq.symm (by simpa using this)
  | some v =>
    have hdistinct : (t.map fun f => (f.1, f.2.sorted)).Pairwise (fun a b => a.1 ≠ b.1) :=
      List.pairwise_map.2 ht
    exact Dict.find?_ofList_of_mem hdistinct
      (List.mem_map.2 ⟨(name, v), Dict.mem_of_lookup h, rfl⟩)

/-- **Trees are equal up to the order of fields if and only if they have the same fields.** -/
theorem sorted_eq_iff {a b : Tree} (ha : a.Pairwise (fun x y => x.1 ≠ y.1))
    (hb : b.Pairwise (fun x y => x.1 ≠ y.1)) :
    a.sorted = b.sorted ↔
      ∀ name, (a.find? name).map Value.sorted = (b.find? name).map Value.sorted := by
  constructor
  · intro h name
    rw [← find?_sortedFields ha, ← find?_sortedFields hb]
    exact congrArg (List.lookup name) h
  · intro h
    refine congrArg Dict.entries (Dict.ext_find? fun name => ?_)
    rw [find?_sortedFields ha, find?_sortedFields hb, h]

theorem sorted_eq_nil {t : Tree} (ht : t.Pairwise (fun a b => a.1 ≠ b.1)) :
    t.sorted = [] ↔ t = [] := by
  constructor
  · intro h
    cases t with
    | nil => rfl
    | cons f rest =>
      obtain ⟨name, v⟩ := f
      have hfind := find?_sortedFields ht name
      rw [Dict.find?, show (Dict.ofList (sortedFields ((name, v) :: rest))).entries = [] from h]
        at hfind
      simp [Tree.find?] at hfind
  · rintro rfl
    rfl

theorem text?_sorted (v : Value) : v.sorted.text? = v.text? := by
  cases v <;> rfl

theorem identity?_of_sorted_eq {a b : Tree} (ha : a.Pairwise (fun x y => x.1 ≠ y.1))
    (hb : b.Pairwise (fun x y => x.1 ≠ y.1)) (h : a.sorted = b.sorted) :
    a.identity? = b.identity? := by
  have hfields := (sorted_eq_iff ha hb).1 h
  have htext : ∀ t : Tree, t.identity? =
      (((t.find? nameField).map Value.sorted).or ((t.find? typeField).map Value.sorted)).bind
        Value.text? := by
    intro t
    rw [Tree.identity?]
    cases t.find? nameField <;> cases t.find? typeField <;> simp [text?_sorted]
  rw [htext a, htext b, hfields, hfields]

/-! ## The fields of a normal form -/

theorem normalFields_eq_filterMap (fields : List (String × Value)) :
    normalFields fields = fields.filterMap fun f => (f.2.normal? f.1).map fun w => (f.1, w) := by
  induction fields with
  | nil => rfl
  | cons f rest ih =>
    obtain ⟨name, v⟩ := f
    rw [normalFields, List.filterMap_cons]
    cases v.normal? name <;> simp [ih]

theorem normalSections_eq_map (sections : List Tree) :
    normalSections sections = sections.map Tree.normal := by
  induction sections with
  | nil => rfl
  | cons fields rest ih => rw [normalSections, ih, List.map_cons, Tree.normal]

theorem normalFields_distinct {fields : List (String × Value)}
    (h : fields.Pairwise (fun a b => a.1 ≠ b.1)) :
    (normalFields fields).Pairwise (fun a b => a.1 ≠ b.1) := by
  rw [normalFields_eq_filterMap]
  refine h.filterMap _ fun a b hab a' ha' b' hb' => ?_
  obtain ⟨v, -, rfl⟩ := Option.map_eq_some_iff.1 ha'
  obtain ⟨w, -, rfl⟩ := Option.map_eq_some_iff.1 hb'
  exact hab

/-- **The fields of a normal form** are the normal forms of the fields. -/
theorem lookup_normalFields {fields : List (String × Value)}
    (h : fields.Pairwise (fun a b => a.1 ≠ b.1)) (name : String) :
    (normalFields fields).lookup name = (fields.lookup name).bind (Value.normal? name) := by
  have hmem := normalFields_eq_filterMap fields
  cases hf : (fields.lookup name).bind (Value.normal? name) with
  | none =>
    refine Dict.lookup_eq_none_of_not_mem fun e he => ?_
    rintro rfl
    rw [hmem] at he
    obtain ⟨f, hmemf, hv⟩ := List.mem_filterMap.1 he
    obtain ⟨w, hw, rfl⟩ := Option.map_eq_some_iff.1 hv
    rw [Dict.lookup_of_mem h hmemf, Option.bind_some, hw] at hf
    cases hf
  | some w =>
    obtain ⟨v, hv, hw⟩ := Option.bind_eq_some_iff.1 hf
    refine Dict.lookup_of_mem (normalFields_distinct h) ?_
    rw [hmem]
    exact List.mem_filterMap.2 ⟨(name, v), Dict.mem_of_lookup hv, by rw [hw]; rfl⟩

/-- **A section keeps its identity in its normal form.** -/
theorem identity?_normal {t : Tree} (ht : t.Pairwise (fun a b => a.1 ≠ b.1)) {id : String}
    (h : t.identity? = some id) : t.normal.identity? = some id := by
  have hname : ∀ {name v}, t.find? name = some v → v.text? = some id →
      Vocabulary.isTypedSection name = false → t.normal.find? name = some (.text id) := by
    intro name v hv hid hname
    have hvtext : v = .text id := by
      cases v with
      | scalar s =>
        cases s with
        | text s =>
          obtain rfl := Option.some.inj hid
          rfl
        | bool b => cases hid
        | int i => cases hid
        | uint n => cases hid
        | float x => cases hid
      | list items => cases hid
      | nested fields => cases hid
      | repeated sections => cases hid
    rw [Tree.normal, Tree.find?, lookup_normalFields ht, show t.lookup name = some v from hv,
      hvtext]
    simp [Value.text, Value.normal?, hname]
  rw [Tree.identity?] at h ⊢
  cases hn : t.find? nameField with
  | some v =>
    rw [hn] at h
    rw [hname hn h (by decide)]
    rfl
  | none =>
    rw [hn, Option.none_or] at h
    have hn' : t.normal.find? nameField = none := by
      rw [Tree.normal, Tree.find?, lookup_normalFields ht, show t.lookup nameField = none from hn]
      rfl
    obtain ⟨v, hv, hid⟩ := Option.bind_eq_some_iff.1 h
    rw [hn', Option.none_or, hname hv hid (by decide)]
    rfl

/-! ## Trees in normal form -/

mutual

/-- The value of a field is in normal form: outside the lists that are kept whole, no list of
sections is empty and no bare text stands for a section. -/
def Value.isNormal (field : String) : Value → Bool
  | .scalar (.text _) => !Vocabulary.isTypedSection field
  | .scalar _ => true
  | .list _ => true
  | .nested fields => fieldsNormal fields
  | .repeated sections =>
    !sections.isEmpty && ((identities? sections).isNone || sectionsNormal sections)

/-- All fields of a section are in normal form. -/
def fieldsNormal : List (String × Value) → Bool
  | [] => true
  | (name, v) :: rest => v.isNormal name && fieldsNormal rest

/-- All sections of a list are in normal form. -/
def sectionsNormal : List (List (String × Value)) → Bool
  | [] => true
  | fields :: rest => fieldsNormal fields && sectionsNormal rest

end

/-- The tree is in normal form. -/
abbrev Tree.isNormal (t : Tree) : Bool := fieldsNormal t

mutual

theorem normal?_eq_self (field : String) : ∀ v : Value, v.isNormal field = true →
    v.normal? field = some v
  | .scalar (.text s), h => by
    have hfield : Vocabulary.isTypedSection field = false := by simpa [Value.isNormal] using h
    simp [Value.normal?, hfield, Value.text]
  | .scalar (.bool _), _ | .scalar (.int _), _ | .scalar (.uint _), _ | .scalar (.float _), _
  | .list _, _ => by
    rfl
  | .nested [], _ => rfl
  | .nested (f :: rest), h => by
    have hfields := normalFields_eq_self (f :: rest) h
    simp [Value.normal?, hfields]
  | .repeated sections, h => by
    simp only [Value.isNormal, Bool.and_eq_true, Bool.or_eq_true, Bool.not_eq_true'] at h
    rw [Value.normal?, if_neg (by simp [h.1])]
    split_ifs with hids
    · have hnone : (identities? sections).isNone = false := by
        rwa [← Option.not_isSome, Bool.not_eq_false']
      have hsections := normalSections_eq_self sections (h.2.resolve_left (by simp [hnone]))
      rw [hsections]
    · rfl

theorem normalFields_eq_self : ∀ fields : List (String × Value), fieldsNormal fields = true →
    normalFields fields = fields
  | [], _ => rfl
  | (name, v) :: rest, h => by
    rw [fieldsNormal, Bool.and_eq_true] at h
    rw [normalFields, normal?_eq_self name v h.1, normalFields_eq_self rest h.2]

theorem normalSections_eq_self : ∀ sections : List (List (String × Value)),
    sectionsNormal sections = true → normalSections sections = sections
  | [], _ => rfl
  | fields :: rest, h => by
    rw [sectionsNormal, Bool.and_eq_true] at h
    rw [normalSections, normalFields_eq_self fields h.1, normalSections_eq_self rest h.2]

end

/-- **A tree in normal form is its own normal form.** -/
theorem normal_eq_self {t : Tree} (ht : t.isNormal = true) : t.normal = t :=
  normalFields_eq_self t ht

end Reconfig
