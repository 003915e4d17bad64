import Reconfig.Proofs.Dict
import Reconfig.Proofs.Regular

/-!
# Documents that are written back

Reading a configuration and writing it back loses what a configuration does not tell apart: a null
becomes the empty text, and in a list that is not made of objects only truth values and numbers
become their texts. Nothing else is lost, and a document that was written back is read as the same
configuration.

* `Json.hasProperNumbers`: the numbers of a document are of the three forms that a text can have;
* `Json.canonical`: the document as it is written back;
* `Json.sorted`: the value that members in any order denote;
* `toJson_ofJson`: a value that was read is written as the canonical document;
* `ofJson_canonical`: the canonical document is read as the document;
* `sorted_inOrder`: writing members in the order of the fields makes no other difference;
* **`written_back`**: reading, writing and reading again.
-/

namespace Reconfig

/-! ## Canonical documents -/

/-- The number is natural, a negative integer, or finite. -/
def Json.Number.isProper : Json.Number → Bool
  | .natural _ => true
  | .negative i => decide (i.toInt < 0)
  | .real x => x.isFinite

mutual

/-- All numbers of the document are proper. -/
def Json.hasProperNumbers : Json → Bool
  | .number n => n.isProper
  | .array items => itemsProper items
  | .object members => membersProper members
  | _ => true

/-- All numbers of the items are proper. -/
def itemsProper : List Json → Bool
  | [] => true
  | j :: rest => j.hasProperNumbers && itemsProper rest

/-- All numbers of the members are proper. -/
def membersProper : List (String × Json) → Bool
  | [] => true
  | (_, j) :: rest => j.hasProperNumbers && membersProper rest

end

/-- An item as it stands in a list of texts: a truth value or a number as its text. -/
def Json.asText : Json → Json
  | .bool b => .string (Scalar.bool b).render
  | .number n => .string (Scalar.ofNumber n).render
  | j => j

mutual

/-- The document as it is written back: the empty text for every null, and texts for the truth
values and the numbers in every list that is not made of objects only. -/
def Json.canonical : Json → Json
  | .null => .string ""
  | .array items =>
    .array (if items.all Json.isObject then canonicalItems items
      else (canonicalItems items).map Json.asText)
  | .object members => .object (canonicalMembers members)
  | j => j

/-- The items as they are written back as objects. -/
def canonicalItems : List Json → List Json
  | [] => []
  | j :: rest => j.canonical :: canonicalItems rest

/-- The members as they are written back. -/
def canonicalMembers : List (String × Json) → List (String × Json)
  | [] => []
  | (name, j) :: rest => (name, j.canonical) :: canonicalMembers rest

end

mutual

/-- The value that a document denotes whose members come in any order: every object is the
dictionary of its members. -/
def Json.sorted : Json → Json
  | .array items => .array (sortedItems items)
  | .object members => .ofDict (.ofList (sortedMembers members))
  | j => j

/-- The values of items. -/
def sortedItems : List Json → List Json
  | [] => []
  | j :: rest => j.sorted :: sortedItems rest

/-- The members with their values. -/
def sortedMembers : List (String × Json) → List (String × Json)
  | [] => []
  | (name, j) :: rest => (name, j.sorted) :: sortedMembers rest

end

theorem canonicalMembers_eq_map (members : List (String × Json)) :
    canonicalMembers members = members.map fun m => (m.1, m.2.canonical) := by
  induction members with
  | nil => rfl
  | cons m rest ih => rw [canonicalMembers, ih, List.map_cons]

theorem canonicalItems_eq_map (items : List Json) :
    canonicalItems items = items.map Json.canonical := by
  induction items with
  | nil => rfl
  | cons j rest ih => rw [canonicalItems, ih, List.map_cons]

theorem Json.isObject_canonical (j : Json) : j.canonical.isObject = j.isObject := by
  cases j <;> rfl

theorem ofDict_canonicalMembers {members : List (String × Json)}
    (h : members.Pairwise (fun a b => a.1 < b.1)) :
    Json.ofDict (.ofList (canonicalMembers members)) = .object (canonicalMembers members) := by
  have hordered : (canonicalMembers members).Pairwise (fun a b => a.1 < b.1) := by
    rw [canonicalMembers_eq_map]
    exact List.pairwise_map.2 h
  rw [Json.ofDict, Dict.entries_ofList hordered]

/-! ## Writing what was read -/

theorem toJson_ofNumber {n : Json.Number} (h : n.isProper = true) :
    (Scalar.ofNumber n).toJson = .number n := by
  cases n with
  | natural n => rfl
  | negative i => rw [Scalar.ofNumber, Scalar.toJson, if_pos (of_decide_eq_true h)]
  | real x => exact if_pos h

theorem map_string_textsOf {field : String} {items : List Json} {texts : List String}
    (h : textsOf field items = .ok texts) :
    texts.map Json.string = (canonicalItems items).map Json.asText := by
  induction items generalizing texts with
  | nil =>
    cases h
    rfl
  | cons j rest ih =>
    rw [textsOf] at h
    cases hj : itemText? j with
    | none =>
      rw [hj] at h
      cases h
    | some text =>
      rw [hj] at h
      obtain ⟨more, hmore, rfl⟩ := exists_of_map_eq_ok h
      rw [List.map_cons, ih hmore, canonicalItems, List.map_cons]
      congr 1
      cases j with
      | null | bool b | number n | string s =>
        cases hj
        rfl
      | array items | object members => cases hj

mutual

/-- **A value that was read is written as the canonical document.** -/
theorem toJson_ofJson (field : String) : ∀ j : Json, j.Ordered → j.hasProperNumbers = true →
    ∀ v, Value.ofJson field j = .ok v → v.toJson = j.canonical
  | .null, _, _, v, h | .bool _, _, _, v, h | .string _, _, _, v, h => by
    cases h
    rfl
  | .number n, _, hnumbers, v, h => by
    cases h
    exact toJson_ofNumber hnumbers
  | .object members, hordered, hnumbers, v, h => by
    obtain ⟨fields, hfields, rfl⟩ := exists_of_map_eq_ok h
    rw [Value.toJson, membersOf_fieldsOfJson members hordered.2 hnumbers fields hfields,
      ofDict_canonicalMembers hordered.1, Json.canonical]
  | .array items, hordered, hnumbers, v, h => by
    rw [Value.ofJson] at h
    rw [Json.canonical]
    split_ifs at h with hempty hlist hobjects
    · cases h
      rw [List.isEmpty_iff.1 hempty]
      rfl
    · cases h
      rw [List.isEmpty_iff.1 hempty]
      rfl
    · obtain ⟨sections, hsections, rfl⟩ := exists_of_map_eq_ok h
      rw [Value.toJson, if_pos hobjects,
        objectsOf_sectionsOfJson field items hordered hnumbers sections hsections]
    · obtain ⟨texts, htexts, rfl⟩ := exists_of_map_eq_ok h
      rw [Value.toJson, if_neg hobjects, map_string_textsOf htexts]

theorem membersOf_fieldsOfJson : ∀ members : List (String × Json), Json.OrderedMembers members →
    membersProper members = true → ∀ fields, fieldsOfJson members = .ok fields →
      membersOf fields = canonicalMembers members
  | [], _, _, fields, h => by
    cases h
    rfl
  | (name, j) :: rest, hordered, hnumbers, fields, h => by
    rw [membersProper, Bool.and_eq_true] at hnumbers
    obtain ⟨v, more, hv, hmore, rfl⟩ := fieldsOfJson_eq_ok h
    rw [membersOf, canonicalMembers, toJson_ofJson name j hordered.1 hnumbers.1 v hv,
      membersOf_fieldsOfJson rest hordered.2 hnumbers.2 more hmore]

theorem objectsOf_sectionsOfJson (field : String) : ∀ items : List Json, Json.OrderedItems items →
    itemsProper items = true → ∀ sections, sectionsOfJson field items = .ok sections →
      objectsOf sections = canonicalItems items
  | [], _, _, sections, h => by
    cases h
    rfl
  | j :: rest, hordered, hnumbers, sections, h => by
    rw [itemsProper, Bool.and_eq_true] at hnumbers
    obtain ⟨members, fields, more, rfl, hfields, hmore, rfl⟩ := sectionsOfJson_eq_ok h
    rw [objectsOf, canonicalItems, Json.canonical,
      membersOf_fieldsOfJson members hordered.1.2 hnumbers.1 fields hfields,
      ofDict_canonicalMembers hordered.1.1,
      objectsOf_sectionsOfJson field rest hordered.2 hnumbers.2 more hmore]

end

/-! ## Reading what was written -/

theorem all_isObject_canonicalItems (items : List Json) :
    (canonicalItems items).all Json.isObject = items.all Json.isObject := by
  rw [canonicalItems_eq_map, List.all_map]
  exact congrArg items.all (funext Json.isObject_canonical)

theorem all_isObject_asText (items : List Json) :
    (items.map Json.asText).all Json.isObject = items.all Json.isObject := by
  rw [List.all_map]
  exact congrArg items.all (funext fun j => by cases j <;> rfl)

theorem itemText?_asText_canonical (j : Json) : itemText? j.canonical.asText = itemText? j := by
  cases j <;> rfl

theorem textsOf_asText (field : String) (items : List Json) :
    textsOf field ((canonicalItems items).map Json.asText) = textsOf field items := by
  induction items with
  | nil => rfl
  | cons j rest ih =>
    rw [canonicalItems, List.map_cons, textsOf, textsOf, itemText?_asText_canonical, ih]

mutual

/-- **The canonical document is read as the document**, or refused for the same reason. -/
theorem ofJson_canonical (field : String) :
    ∀ j : Json, Value.ofJson field j.canonical = Value.ofJson field j
  | .null | .bool _ | .number _ | .string _ => rfl
  | .object members => by
    rw [Json.canonical, Value.ofJson, Value.ofJson, fieldsOfJson_canonical members]
  | .array items => by
    rw [Json.canonical, Value.ofJson, Value.ofJson]
    by_cases hobjects : items.all Json.isObject = true
    · rw [if_pos hobjects, if_pos hobjects, all_isObject_canonicalItems, if_pos hobjects,
        sectionsOfJson_canonical field items]
      cases items <;> rfl
    · rw [if_neg hobjects, if_neg hobjects, all_isObject_asText, all_isObject_canonicalItems,
        if_neg hobjects, textsOf_asText]
      cases items <;> rfl

theorem fieldsOfJson_canonical :
    ∀ members : List (String × Json), fieldsOfJson (canonicalMembers members) = fieldsOfJson members
  | [] => rfl
  | (name, j) :: rest => by
    rw [canonicalMembers, fieldsOfJson, fieldsOfJson, ofJson_canonical name j,
      fieldsOfJson_canonical rest]

theorem sectionsOfJson_canonical (field : String) :
    ∀ items : List Json, sectionsOfJson field (canonicalItems items) = sectionsOfJson field items
  | [] => rfl
  | .object members :: rest => by
    rw [canonicalItems, Json.canonical, sectionsOfJson, sectionsOfJson,
      fieldsOfJson_canonical members, sectionsOfJson_canonical field rest]
  | .null :: _ | .bool _ :: _ | .number _ :: _ | .string _ :: _ | .array _ :: _ => rfl

end

/-! ## Members in the order of the fields -/

theorem Scalar.sorted_toJson (s : Scalar) : s.toJson.sorted = s.toJson := by
  cases s with
  | text s | bool b | int i | uint n => rfl
  | float x =>
    rw [toJson]
    split <;> rfl

theorem sortedItems_strings (texts : List String) :
    sortedItems (texts.map Json.string) = texts.map Json.string := by
  induction texts with
  | nil => rfl
  | cons text rest ih =>
    rw [List.map_cons, sortedItems, ih]
    rfl

mutual

theorem Value.sorted_inOrder : ∀ v : Value, v.inOrder.sorted = v.toJson
  | .scalar s => s.sorted_toJson
  | .list items => by rw [Value.inOrder, Json.sorted, sortedItems_strings, Value.toJson]
  | .nested fields => by
    rw [Value.inOrder, Json.sorted, sortedMembers_inOrder fields, Value.toJson]
  | .repeated sections => by
    rw [Value.inOrder, Json.sorted, sortedItems_inOrder sections, Value.toJson]

theorem sortedMembers_inOrder :
    ∀ fields : List (String × Value), sortedMembers (membersInOrder fields) = membersOf fields
  | [] => rfl
  | (name, v) :: rest => by
    rw [membersInOrder, sortedMembers, membersOf, Value.sorted_inOrder v,
      sortedMembers_inOrder rest]

theorem sortedItems_inOrder : ∀ sections : List (List (String × Value)),
    sortedItems (objectsInOrder sections) = objectsOf sections
  | [] => rfl
  | fields :: rest => by
    rw [objectsInOrder, sortedItems, objectsOf, Json.sorted, sortedMembers_inOrder fields,
      sortedItems_inOrder rest]

end

/-! ## Reading, writing and reading again -/

/-- **A configuration is written back as the canonical form of the document it was read from**, and
what is written is read as the same configuration. With the members in the order of the fields the
same value is written. -/
theorem written_back {j : Json} (hordered : j.Ordered) (hnumbers : j.hasProperNumbers = true)
    {t : Tree} (h : Tree.ofJson j = .ok t) :
    t.toJson = j.canonical ∧ Tree.ofJson t.toJson = .ok t ∧ t.inOrder.sorted = t.toJson := by
  have hsorted : t.inOrder.sorted = t.toJson := by
    rw [Tree.inOrder, Json.sorted, sortedMembers_inOrder, Tree.toJson]
  cases j with
  | object members =>
    have hwritten : t.toJson = (Json.object members).canonical := by
      rw [Tree.toJson, membersOf_fieldsOfJson members hordered.2 hnumbers t h,
        ofDict_canonicalMembers hordered.1, Json.canonical]
    refine ⟨hwritten, ?_, hsorted⟩
    rw [hwritten, Json.canonical, Tree.ofJson, fieldsOfJson_canonical]
    exact h
  | null | bool b | number n | string s | array items => cases h

/-- A document with all forms of values, whose numbers and nulls stand in several lists. -/
def listedNumbers : Json :=
  .object [("devices", .array []), ("namespaces", .array []),
    ("network", .object [("port", .number (.natural 3000)), ("tls", .null)]),
    ("ports", .array [.number (.natural 3000), .number (.negative (-1)), .bool true, .null]),
    ("sets", .array [.object [("a", .null)], .object [("a", .array [.null, .string "x"])]])]

theorem written_back_listedNumbers :
    listedNumbers.Ordered ∧ listedNumbers.hasProperNumbers = true ∧
      ∃ t, Tree.ofJson listedNumbers = .ok t ∧ t.toJson = listedNumbers.canonical ∧
        Tree.ofJson t.toJson = .ok t ∧ t.inOrder.sorted = t.toJson := by
  have hordered : listedNumbers.Ordered := by
    simp only [listedNumbers, Json.Ordered, Json.OrderedMembers, Json.OrderedItems]
    decide
  have hnumbers : listedNumbers.hasProperNumbers = true := by decide
  obtain ⟨t, h⟩ : ∃ t, Tree.ofJson listedNumbers = .ok t := ⟨_, rfl⟩
  exact ⟨hordered, hnumbers, t, h, written_back hordered hnumbers h⟩

end Reconfig
