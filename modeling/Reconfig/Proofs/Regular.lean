import Reconfig.Proofs.Reach
import Reconfig.Schema.Catalogue

/-!
# Documents whose values can be compared

The numbers of a document are finite and the members of an object have distinct names. This
carries over to every value that is made from the document: to the fields of its tree, to the
values of the flat configuration, and to the defaults of a schema. Every document that is read from
a text is such a document (`Json.regular_read`).

* `Json.isRegular`;
* `fieldsOfJson_eq_ok`, `sectionsOfJson_eq_ok`: how fields and sections are read;
* **`regular_ofJson`**: the tree of a regular document is regular;
* **`regular_flatten`**: so are the values of the flat configuration of a regular tree;
* **`regular_defaults`**: so are the defaults of the catalogue of a regular document.
-/

namespace Reconfig

mutual

/-- All numbers of the document are finite, and no object has a member twice. -/
def Json.isRegular : Json → Bool
  | .number n => (Scalar.ofNumber n).isFinite
  | .array items => itemsRegular items
  | .object members => membersRegular members
  | _ => true

/-- All items of an array are regular. -/
def itemsRegular : List Json → Bool
  | [] => true
  | j :: rest => j.isRegular && itemsRegular rest

/-- The members of an object have distinct names and regular values. -/
def membersRegular : List (String × Json) → Bool
  | [] => true
  | (name, j) :: rest => (rest.lookup name).isNone && j.isRegular && membersRegular rest

end

/-! ## Reading -/

theorem exists_of_map_eq_ok {ε α β : Type} {f : α → β} {x : Except ε α} {y : β}
    (h : x.map f = .ok y) : ∃ a, x = .ok a ∧ f a = y := by
  cases x with
  | error e => cases h
  | ok a => exact ⟨a, rfl, Except.ok.inj h⟩

theorem fieldsOfJson_eq_ok {name : String} {j : Json} {rest : List (String × Json)}
    {fields : List (String × Value)} (h : fieldsOfJson ((name, j) :: rest) = .ok fields) :
    ∃ v more, Value.ofJson name j = .ok v ∧ fieldsOfJson rest = .ok more ∧
      (name, v) :: more = fields := by
  rw [fieldsOfJson] at h
  cases hv : Value.ofJson name j with
  | error e =>
    rw [hv] at h
    cases h
  | ok v =>
    rw [hv] at h
    obtain ⟨more, hmore, rfl⟩ := exists_of_map_eq_ok h
    exact ⟨v, more, rfl, hmore, rfl⟩

theorem sectionsOfJson_eq_ok {field : String} {j : Json} {rest : List Json}
    {sections : List (List (String × Value))}
    (h : sectionsOfJson field (j :: rest) = .ok sections) :
    ∃ members fields more, j = .object members ∧ fieldsOfJson members = .ok fields ∧
      sectionsOfJson field rest = .ok more ∧ fields :: more = sections := by
  cases j with
  | object members =>
    rw [sectionsOfJson] at h
    cases hm : fieldsOfJson members with
    | error e => simp [hm] at h
    | ok fields =>
      simp only [hm] at h
      obtain ⟨more, hmore, rfl⟩ := exists_of_map_eq_ok h
      exact ⟨members, fields, more, rfl, hm, hmore, rfl⟩
  | null => cases h
  | bool b => cases h
  | number n => cases h
  | string s => cases h
  | array items => cases h

theorem lookup_fieldsOfJson {members : List (String × Json)} {fields : List (String × Value)}
    (h : fieldsOfJson members = .ok fields) {name : String} (hname : members.lookup name = none) :
    fields.lookup name = none := by
  induction members generalizing fields with
  | nil =>
    cases h
    rfl
  | cons m rest ih =>
    obtain ⟨key, j⟩ := m
    obtain ⟨v, more, -, hrest, rfl⟩ := fieldsOfJson_eq_ok h
    rw [List.lookup_cons] at hname ⊢
    cases hkey : name == key with
    | true =>
      rw [hkey] at hname
      cases hname
    | false =>
      rw [hkey] at hname
      exact ih hrest hname

/-! ## Trees -/

mutual

theorem regular_valueOfJson (field : String) : ∀ j : Json, j.isRegular = true →
    ∀ v, Value.ofJson field j = .ok v → v.isRegular = true
  | .null, _, v, h | .bool _, _, v, h | .string _, _, v, h => by
    cases h
    rfl
  | .number n, hj, v, h => by
    cases h
    exact hj
  | .object members, hj, v, h => by
    obtain ⟨fields, hfields, rfl⟩ := exists_of_map_eq_ok h
    exact regular_fieldsOfJson members hj fields hfields
  | .array items, hj, v, h => by
    rw [Value.ofJson] at h
    split_ifs at h with hempty hlist hobjects
    · cases h
      rfl
    · cases h
      rfl
    · obtain ⟨sections, hsections, rfl⟩ := exists_of_map_eq_ok h
      exact regular_sectionsOfJson field items hj sections hsections
    · obtain ⟨texts, -, rfl⟩ := exists_of_map_eq_ok h
      rfl

theorem regular_fieldsOfJson : ∀ members : List (String × Json), membersRegular members = true →
    ∀ fields, fieldsOfJson members = .ok fields → fieldsRegular fields = true
  | [], _, fields, h => by
    cases h
    rfl
  | (name, j) :: rest, hm, fields, h => by
    simp only [membersRegular, Bool.and_eq_true, Option.isNone_iff_eq_none] at hm
    obtain ⟨v, more, hv, hmore, rfl⟩ := fieldsOfJson_eq_ok h
    simp only [fieldsRegular, Bool.and_eq_true, Option.isNone_iff_eq_none]
    exact ⟨⟨lookup_fieldsOfJson hmore hm.1.1, regular_valueOfJson name j hm.1.2 v hv⟩,
      regular_fieldsOfJson rest hm.2 more hmore⟩

theorem regular_sectionsOfJson (field : String) : ∀ items : List Json, itemsRegular items = true →
    ∀ sections, sectionsOfJson field items = .ok sections → sectionsRegular sections = true
  | [], _, sections, h => by
    cases h
    rfl
  | j :: rest, hi, sections, h => by
    rw [itemsRegular, Bool.and_eq_true] at hi
    obtain ⟨members, fields, more, rfl, hfields, hmore, rfl⟩ := sectionsOfJson_eq_ok h
    rw [sectionsRegular, Bool.and_eq_true]
    exact ⟨regular_fieldsOfJson members hi.1 fields hfields,
      regular_sectionsOfJson field rest hi.2 more hmore⟩

end

/-- **The tree of a regular document is regular.** -/
theorem regular_ofJson {j : Json} (hj : j.isRegular = true) {t : Tree} (h : Tree.ofJson j = .ok t) :
    fieldsRegular t = true := by
  cases j with
  | object members => exact regular_fieldsOfJson members hj t h
  | null => cases h
  | bool b => cases h
  | number n => cases h
  | string s => cases h
  | array items => cases h

/-! ## Flat configurations -/

mutual

theorem regular_valueEntries (key field : String) : ∀ v : Value, v.isRegular = true →
    ∀ e ∈ valueEntries key field v, e.2.isRegular = true
  | .scalar (.text s), _, e, he => by
    rw [valueEntries] at he
    split at he <;> rw [List.mem_singleton.1 he] <;> rfl
  | .scalar (.bool _), h, e, he | .scalar (.int _), h, e, he | .scalar (.uint _), h, e, he
  | .scalar (.float _), h, e, he | .list _, h, e, he => by
    rw [List.mem_singleton.1 he]
    exact h
  | .nested fields, h, e, he => by
    rw [valueEntries] at he
    split at he
    · rw [List.mem_singleton.1 he]
      rfl
    · exact regular_fieldEntries key fields h e he
  | .repeated sections, h, e, he => by
    rw [valueEntries] at he
    split_ifs at he with hempty hids
    · cases he
    · exact regular_sectionEntries key 0 sections h e he
    · rw [List.mem_singleton.1 he]
      exact h

theorem regular_fieldEntries (base : String) : ∀ fields : List (String × Value),
    fieldsRegular fields = true → ∀ e ∈ fieldEntries base fields, e.2.isRegular = true
  | [], _, _, he => nomatch he
  | (name, v) :: rest, h, e, he => by
    simp only [fieldsRegular, Bool.and_eq_true] at h
    rw [fieldEntries, List.mem_append] at he
    rcases he with he | he
    · exact regular_valueEntries _ name v h.1.2 e he
    · exact regular_fieldEntries base rest h.2 e he

theorem regular_sectionEntries (key : String) (position : Nat) :
    ∀ sections : List (List (String × Value)), sectionsRegular sections = true →
      ∀ e ∈ sectionEntries key position sections, e.2.isRegular = true
  | [], _, _, he => nomatch he
  | fields :: rest, h, e, he => by
    rw [sectionsRegular, Bool.and_eq_true] at h
    rw [sectionEntries, List.mem_append, List.mem_cons] at he
    rcases he with he | rfl | he
    · exact regular_fieldEntries _ fields h.1 e he
    · rfl
    · exact regular_sectionEntries key (position + 1) rest h.2 e he

end

theorem regular_flatten {t : Tree} (ht : fieldsRegular t = true) {key : String} {v : Value}
    (h : t.flatten.find? key = some v) : v.isRegular = true :=
  regular_fieldEntries "" t ht (key, v) (Dict.mem_of_find?_ofList h)

/-! ## Defaults -/

namespace Catalogue

mutual

theorem regular_leavesAt (path : String) (named : Bool) : ∀ j : Json, j.isRegular = true →
    ∀ e ∈ leavesAt path named j, e.2.isRegular = true
  | .null, h, e, he | .bool _, h, e, he | .number _, h, e, he | .string _, h, e, he => by
    rw [List.mem_singleton.1 he]
    exact h
  | .array items, h, e, he => regular_itemLeaves path 0 items h e he
  | .object members, h, e, he => regular_memberLeaves path named members h e he

theorem regular_memberLeaves (path : String) (named : Bool) : ∀ members : List (String × Json),
    membersRegular members = true → ∀ e ∈ memberLeaves path named members, e.2.isRegular = true
  | [], _, _, he => nomatch he
  | (name, j) :: rest, h, e, he => by
    simp only [membersRegular, Bool.and_eq_true] at h
    rw [memberLeaves, List.mem_append] at he
    rcases he with he | he
    · split at he
      · rw [List.mem_singleton.1 he]
        exact h.1.2
      · exact regular_leavesAt _ _ j h.1.2 e he
    · exact regular_memberLeaves path named rest h.2 e he

theorem regular_itemLeaves (path : String) (position : Nat) : ∀ items : List Json,
    itemsRegular items = true → ∀ e ∈ itemLeaves path position items, e.2.isRegular = true
  | [], _, _, he => nomatch he
  | j :: rest, h, e, he => by
    rw [itemsRegular, Bool.and_eq_true] at h
    rw [itemLeaves, List.mem_append] at he
    rcases he with he | he
    · exact regular_leavesAt _ false j h.1 e he
    · exact regular_itemLeaves path (position + 1) rest h.2 e he

end

theorem regular_defaultValue {j : Json} (hj : j.isRegular = true) {v : Value}
    (h : defaultValue? j = some v) : v.isRegular = true := by
  cases j with
  | null => cases h
  | bool b =>
    cases h
    rfl
  | number n =>
    cases h
    exact hj
  | string s =>
    cases h
    rfl
  | array items =>
    obtain ⟨texts, -, rfl⟩ := Option.map_eq_some_iff.1 h
    rfl
  | object members =>
    obtain ⟨t, ht, rfl⟩ := Option.map_eq_some_iff.1 h
    cases hread : Tree.ofJson (.object members) with
    | error e =>
      rw [hread] at ht
      cases ht
    | ok u =>
      rw [hread] at ht
      cases ht
      exact regular_ofJson hj hread

theorem mem_of_agreed? {values : List Value} {v : Value} (h : agreed? values = some v) :
    v ∈ values := by
  cases values with
  | nil => cases h
  | cons w rest =>
    rw [agreed?] at h
    split_ifs at h
    cases h
    exact List.mem_cons_self

theorem regular_defaults {document : Json} (hj : document.isRegular = true) {key : String}
    {v : Value} (h : (ofDocument document).defaults.find? key = some v) : v.isRegular = true := by
  obtain ⟨values, hvalues, hagreed⟩ := Dict.find?_filterMap_eq_some.1 h
  have hmem := Dict.mem_of_mem_gather hvalues (mem_of_agreed? hagreed)
  obtain ⟨l, hl, hdefault⟩ := List.mem_filterMap.1 hmem
  obtain ⟨-, hvalue⟩ := Option.ite_none_right_eq_some.1 hdefault
  obtain ⟨w, hw, heq⟩ := Option.map_eq_some_iff.1 hvalue
  cases heq
  obtain ⟨⟨path, j⟩, he, rfl⟩ := List.mem_map.1 hl
  have hleaf := Dict.mem_of_find?_ofList (Dict.mem_entries.1 he)
  exact regular_defaultValue (regular_leavesAt "" false document hj _ hleaf) hw

end Catalogue

end Reconfig
