import Reconfig.Proofs.Instances
import Reconfig.Proofs.Trie

/-!
# Well-formed flat configurations

A flat configuration need not come from a tree: a server reports one, with markers missing or
clashing. It is well-formed if a tree can hold all of it. Its keys then form a tree of places in
which a value stands at the ends alone, and below every other place there are either fields or
instances that show their identity.

* `FlatConfig.paths`, `FlatConfig.valueAt?`, `FlatConfig.Reaches`: a configuration by its paths;
* **`FlatConfig.IsWellFormed`**: a tree can hold the configuration;
* `not_reaches_below`, `isSelector_eq`, `exists_select`, `exists_identity`: what stands below a
  place;
* `FlatConfig.place`, **`mem_children_place`**: the places of its trie are the paths it reaches.
-/

namespace Reconfig

open Vocabulary (nameField typeField indexField)
open Reconfig.Path (parse)

/-! ## Paths -/

namespace Path

/-- The identity selected at the end. -/
def selected? (p : Path) : Option String := p.getLast?.bind Segment.selector?

/-- Up to the place where two paths part, both go on with a field or both with a selector. -/
def partsAlike : Path → Path → Bool
  | s :: p, t :: q => s.isSelector == t.isSelector && (s != t || partsAlike p q)
  | _, _ => true

theorem partsAlike_iff {p q : Path} : p.partsAlike q = true ↔
    ∀ r s t, r ++ [s] <+: p → r ++ [t] <+: q → s.isSelector = t.isSelector := by
  induction p generalizing q with
  | nil => simp [partsAlike]
  | cons a p ih =>
    cases q with
    | nil => simp [partsAlike]
    | cons b q =>
      rw [partsAlike, Bool.and_eq_true, beq_iff_eq, Bool.or_eq_true, bne_iff_ne, ih]
      constructor
      · rintro ⟨hab, hrest⟩ r s t hs ht
        cases r with
        | nil =>
          rw [List.nil_append, List.cons_prefix_cons] at hs ht
          rw [hs.1, ht.1, hab]
        | cons u r =>
          rw [List.cons_append, List.cons_prefix_cons] at hs ht
          exact hrest.resolve_left (fun hne => hne (hs.1.symm.trans ht.1)) r s t hs.2 ht.2
      · intro h
        refine ⟨h [] a b ⟨p, rfl⟩ ⟨q, rfl⟩, ?_⟩
        by_cases hab : a = b
        · subst hab
          refine .inr fun r s t hs ht => h (a :: r) s t ?_ ?_
          · exact (List.prefix_cons_inj a).2 hs
          · exact (List.prefix_cons_inj a).2 ht
        · exact .inl hab

theorem append_singleton_inj {p q : Path} {s t : Segment} :
    p ++ [s] = q ++ [t] ↔ p = q ∧ s = t := by
  refine ⟨fun h => ⟨List.append_inj_left' h rfl, ?_⟩, fun ⟨hp, hs⟩ => by rw [hp, hs]⟩
  exact List.singleton_inj.1 (List.append_inj_right' h rfl)

theorem child_ne_select (p list : Path) (name id : String) : p.child name ≠ list.select id :=
  fun h => nomatch (append_singleton_inj.1 h).2

theorem selected?_select (p : Path) (id : String) : (p.select id).selected? = some id := by
  simp [selected?, select, Segment.selector?]

theorem exists_select_of_selected? {p : Path} {id : String} (h : p.selected? = some id) :
    ∃ list, p = select list id := by
  obtain ⟨s, hs, hid⟩ := Option.bind_eq_some_iff.1 h
  obtain ⟨list, rfl⟩ := List.getLast?_eq_some_iff.1 hs
  cases s with
  | field name => cases hid
  | selector id' =>
    cases hid
    exact ⟨list, rfl⟩

theorem baseField?_child (p : Path) (name : String) : (p.child name).baseField? = some name := by
  simp [baseField?, child, Segment.field?]

theorem isIndexMarker_child (p : Path) (name : String) :
    (p.child name).isIndexMarker = true ↔ name = indexField := by
  simp [isIndexMarker, baseField?_child]

theorem exists_child_of_baseField? {p : Path} {name : String} (h : p.baseField? = some name) :
    ∃ q, p = child q name := by
  obtain ⟨s, hs, hname⟩ := Option.bind_eq_some_iff.1 h
  obtain ⟨q, rfl⟩ := List.getLast?_eq_some_iff.1 hs
  cases s with
  | selector id => cases hname
  | field name =>
    cases hname
    exact ⟨q, rfl⟩

theorem exists_child_of_isIndexMarker {p : Path} (h : p.isIndexMarker = true) :
    ∃ q, p = child q indexField := exists_child_of_baseField? (beq_iff_eq.1 h)

end Path

/-! ## Configurations by their paths -/

namespace FlatConfig

/-- The paths of the keys. -/
def paths (f : FlatConfig) : List Path := f.keys.map parse

/-- The value at the key of a path. -/
def valueAt? (f : FlatConfig) (p : Path) : Option Value :=
  (f.entries.find? fun e => parse e.1 == p).map (·.2)

/-- The text at the key of a path. -/
def textAt? (f : FlatConfig) (p : Path) : Option String := (f.valueAt? p).bind Value.text?

/-- The position that is marked at an instance. -/
def position? (f : FlatConfig) (p : Path) : Option Nat :=
  (f.valueAt? (p.child indexField)).bind indexOf?

/-- There is a key at the path or below it. -/
def Reaches (f : FlatConfig) (p : Path) : Prop := ∃ q ∈ f.paths, p <+: q

instance (f : FlatConfig) (p : Path) : Decidable (f.Reaches p) :=
  inferInstanceAs (Decidable (∃ q ∈ f.paths, p <+: q))

/-- An instance has the identity as its name or, if nothing is at or below the name, as its
type. -/
def Identifies (f : FlatConfig) (p : Path) (id : String) : Prop :=
  f.textAt? (p.child nameField) = some id ∨
    (¬ f.Reaches (p.child nameField) ∧ f.textAt? (p.child typeField) = some id)

instance (f : FlatConfig) (p : Path) (id : String) : Decidable (f.Identifies p id) :=
  inferInstanceAs (Decidable (_ ∨ _))

variable {f : FlatConfig}

theorem valueAt?_eq_some {p : Path} {v : Value} :
    f.valueAt? p = some v ↔ ∃ key, parse key = p ∧ f.find? key = some v := by
  rw [valueAt?, Option.map_eq_some_iff]
  constructor
  · rintro ⟨⟨key, w⟩, he, rfl⟩
    have hkey := List.find?_some he
    rw [beq_iff_eq] at hkey
    exact ⟨key, hkey, Dict.mem_entries.1 (List.mem_of_find?_eq_some he)⟩
  · rintro ⟨key, rfl, hv⟩
    have hmem := Dict.mem_entries.2 hv
    cases he : f.entries.find? fun e => parse e.1 == parse key with
    | none => exact absurd (beq_self_eq_true _) (List.find?_eq_none.1 he _ hmem)
    | some e =>
      obtain ⟨key', w⟩ := e
      have hkey := List.find?_some he
      rw [beq_iff_eq] at hkey
      obtain rfl := Path.parse_injective hkey
      have hw := Dict.mem_entries.1 (List.mem_of_find?_eq_some he)
      exact ⟨_, rfl, Option.some.inj (hw.symm.trans hv)⟩

theorem valueAt?_parse (key : String) : f.valueAt? (parse key) = f.find? key := by
  rw [Option.ext_iff]
  intro v
  rw [valueAt?_eq_some]
  constructor
  · rintro ⟨key', hkey, hv⟩
    rwa [Path.parse_injective hkey] at hv
  · exact fun hv => ⟨key, rfl, hv⟩

theorem textAt?_eq_some {p : Path} {s : String} :
    f.textAt? p = some s ↔ f.valueAt? p = some (.text s) := by
  rw [textAt?, Option.bind_eq_some_iff]
  constructor
  · rintro ⟨v, hv, hs⟩
    rw [hv, Value.eq_of_text? hs]
  · exact fun h => ⟨_, h, rfl⟩

theorem mem_paths {p : Path} : p ∈ f.paths ↔ ∃ v, f.valueAt? p = some v := by
  rw [paths, List.mem_map]
  constructor
  · rintro ⟨key, hkey, rfl⟩
    obtain ⟨v, hv⟩ := Dict.contains_eq_true.1 (Dict.mem_keys.1 hkey)
    exact ⟨v, by rw [valueAt?_parse, hv]⟩
  · rintro ⟨v, hv⟩
    obtain ⟨key, rfl, hkey⟩ := valueAt?_eq_some.1 hv
    exact ⟨key, Dict.mem_keys.2 (Dict.contains_eq_true.2 ⟨v, hkey⟩), rfl⟩

theorem reaches_iff {p : Path} : f.Reaches p ↔ ∃ q v, f.valueAt? (p ++ q) = some v := by
  constructor
  · rintro ⟨_, hmem, q, rfl⟩
    exact ⟨q, mem_paths.1 hmem⟩
  · rintro ⟨q, v, hv⟩
    exact ⟨p ++ q, mem_paths.2 ⟨v, hv⟩, q, rfl⟩

theorem Reaches.of_prefix {p q : Path} (hq : f.Reaches q) (h : p <+: q) : f.Reaches p := by
  obtain ⟨r, hr, hqr⟩ := hq
  exact ⟨r, hr, h.trans hqr⟩

theorem reaches_of_value {p : Path} {v : Value} (h : f.valueAt? p = some v) : f.Reaches p :=
  ⟨p, mem_paths.2 ⟨v, h⟩, List.prefix_rfl⟩

end FlatConfig

/-! ## Well-formedness -/

/-- The value stays whole at its key: a scalar, a list of texts, an empty section, or a list of
sections that cannot be told apart. -/
def Value.isFlat : Value → Bool
  | .scalar _ => true
  | .list _ => true
  | .nested fields => fields.isEmpty
  | .repeated sections => !sections.isEmpty && (identities? sections).isNone

/-- A tree can hold the configuration. -/
structure FlatConfig.IsWellFormed (f : FlatConfig) : Prop where
  /-- Every key starts with a field whose name is not empty. -/
  rooted : ∀ p ∈ f.paths, p.context?.any (· != "") = true
  /-- No path begins another. -/
  apart : ∀ p ∈ f.paths, ∀ q ∈ f.paths, p <+: q → p = q
  /-- There are no fields where there are selectors. -/
  alike : ∀ p ∈ f.paths, ∀ q ∈ f.paths, p.partsAlike q = true
  /-- The field of positions stands at the end only, right below a selector. -/
  marked : ∀ p ∈ f.paths, .field indexField ∉ p.dropLast ∧
    (p.isIndexMarker = true → (p.parent?.bind Path.selected?).isSome = true)
  /-- No selector has a brace in its identity. -/
  braceFree : ∀ p ∈ f.paths, ∀ s ∈ p, ∀ id ∈ s.selector?, isBraceFree id = true
  /-- Every instance shows the identity that selects it. -/
  identified : ∀ p ∈ f.paths, ∀ s ∈ p.instancePaths, ∀ id ∈ s.selected?, f.Identifies s id
  /-- Every value stays whole at its key. -/
  flat : ∀ e ∈ f.entries, e.2.isFlat = true
  /-- No bare text stands at a section that is identified by its type. -/
  typed : ∀ e ∈ f.entries, ∀ field ∈ (parse e.1).baseField?,
    Vocabulary.isTypedSection field = true → e.2.text? = none

namespace FlatConfig.IsWellFormed

variable {f : FlatConfig} (h : f.IsWellFormed) {p : Path}

include h

theorem not_reaches_below {v : Value} (hv : f.valueAt? p = some v) (s : Segment) :
    ¬ f.Reaches (p ++ [s]) := by
  rintro ⟨q, hq, hpq⟩
  have heq := h.apart p (mem_paths.2 ⟨v, hv⟩) q hq ((List.prefix_append p [s]).trans hpq)
  have hlen := hpq.length_le
  rw [← heq, List.length_append, List.length_singleton] at hlen
  omega

theorem isSelector_eq {s t : Segment} (hs : f.Reaches (p ++ [s])) (ht : f.Reaches (p ++ [t])) :
    s.isSelector = t.isSelector := by
  obtain ⟨q, hq, hqs⟩ := hs
  obtain ⟨r, hr, hrt⟩ := ht
  exact Path.partsAlike_iff.1 (h.alike q hq r hr) p s t hqs hrt

theorem index_not_mem {s : Segment} (hs : f.Reaches (p ++ [s])) : .field indexField ∉ p := by
  obtain ⟨q, hq, t, rfl⟩ := hs
  intro hmem
  refine (h.marked _ hq).1 ?_
  rw [List.append_assoc, List.dropLast_append_of_ne_nil (by simp)]
  exact List.mem_append_left _ hmem

theorem exists_select (hp : f.Reaches (p.child indexField)) :
    ∃ list id, p = Path.select list id := by
  obtain ⟨q, hq, r, rfl⟩ := hp
  cases r with
  | nil =>
    rw [List.append_nil] at hq
    have hsome := (h.marked _ hq).2 ((Path.isIndexMarker_child _ _).2 rfl)
    rw [Path.parent?_child, Option.bind_some] at hsome
    obtain ⟨id, hid⟩ := Option.isSome_iff_exists.1 hsome
    obtain ⟨list, hlist⟩ := Path.exists_select_of_selected? hid
    exact ⟨list, id, hlist⟩
  | cons s r =>
    have hbelow : f.Reaches (p.child indexField ++ [s]) := ⟨_, hq, ⟨r, by simp⟩⟩
    exact absurd (List.mem_append_right _ List.mem_cons_self) (h.index_not_mem hbelow)

theorem isBraceFree_of_reaches {id : String} (hp : f.Reaches (p.select id)) :
    isBraceFree id = true := by
  obtain ⟨q, hq, hpq⟩ := hp
  refine h.braceFree q hq (.selector id) ?_ id rfl
  exact hpq.subset (List.mem_append_right _ List.mem_cons_self)

theorem identifies {id : String} (hp : f.Reaches (p.select id)) :
    f.Identifies (p.select id) id := by
  obtain ⟨q, hq, hpq⟩ := hp
  exact h.identified q hq _ (Path.mem_instancePaths.2 ⟨hpq, p, id, rfl⟩) id
    (Path.selected?_select p id)

theorem exists_identity {id : String} (hp : f.Reaches (p.select id)) :
    ∃ name, (name = nameField ∨ name = typeField) ∧
      f.valueAt? ((p.select id).child name) = some (.text id) := by
  rcases h.identifies hp with hname | ⟨-, htype⟩
  · exact ⟨nameField, .inl rfl, textAt?_eq_some.1 hname⟩
  · exact ⟨typeField, .inr rfl, textAt?_eq_some.1 htype⟩

theorem isFlat_of_value {v : Value} (hv : f.valueAt? p = some v) : v.isFlat = true := by
  obtain ⟨key, -, hv⟩ := valueAt?_eq_some.1 hv
  exact h.flat _ (Dict.mem_entries.2 hv)

theorem text?_of_value {field : String} {v : Value} (hv : f.valueAt? p = some v)
    (hfield : p.baseField? = some field) (htyped : Vocabulary.isTypedSection field = true) :
    v.text? = none := by
  obtain ⟨key, rfl, hkey⟩ := valueAt?_eq_some.1 hv
  exact h.typed _ (Dict.mem_entries.2 hkey) field hfield htyped

end FlatConfig.IsWellFormed

/-! ## Places -/

namespace FlatConfig

/-- The place of a path in the trie of the configuration. -/
def place (f : FlatConfig) (p : Path) : Trie := p.foldl Trie.place (Trie.ofEntries f.entries)

variable {f : FlatConfig}

theorem place_append (p : Path) (s : Segment) : f.place (p ++ [s]) = (f.place p).place s := by
  rw [place, List.foldl_append]
  rfl

/-- **A place holds the values at and below its path.** -/
theorem place_holds (p : Path) : (f.place p).Holds fun q v => f.valueAt? (p ++ q) = some v := by
  induction p using List.reverseRecOn with
  | nil =>
    refine ⟨Trie.tidy_ofEntries _, fun q v => ?_⟩
    rw [place, List.foldl_nil, Trie.find?_ofEntries f.entries_distinct, List.nil_append,
      valueAt?_eq_some]
    exact exists_congr fun key => and_congr_right fun _ => Dict.mem_entries
  | append_singleton p s ih =>
    rw [place_append]
    refine ⟨ih.tidy.place s, fun q v => ?_⟩
    rw [(ih.place s).find?_iff, List.append_assoc]
    rfl

theorem mem_children_place {p : Path} {s : Segment} {c : Trie} :
    (s, c) ∈ (f.place p).children ↔ c = f.place (p ++ [s]) ∧ f.Reaches (p ++ [s]) := by
  rw [(place_holds p).tidy.mem_children, place_append, reaches_iff]
  refine and_congr_right fun _ => exists_congr fun q => exists_congr fun v => ?_
  rw [(place_holds p).find?_iff, List.append_assoc]
  rfl

end FlatConfig

end Reconfig
