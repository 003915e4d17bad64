import Reconfig.Proofs.Alike
import Reconfig.Proofs.Leaves
import Reconfig.Proofs.MixedLists
import Reconfig.Proofs.Reset
import Reconfig.Proofs.SchemaFrame

/-!
# Defaults and configured values

The default of a field and its configured value are read from JSON by rules of their own. Where a
default denotes a value, a configuration denotes the same one, so a node that is at its defaults
is left as it is.

* `defaultValue?_eq_none_iff`: the defaults that denote no value;
* `textsOf_of_defaultItem?`, **`ofJson_of_defaultValue?`**: what a configuration reads in place of a
  default;
* `Outcome.Rests`, `Comparison.rests_on_report`: what is reported on a key that is at its default;
* `Catalogue.changeTo?_of_stated`: the default on which branches agree, against any of theirs;
* **`default_is_read_alike`**.
-/

namespace Reconfig

open Reconfig.Path (parse)
open Catalogue (defaultItem? defaultValue? stated)

/-! ## Defaults that denote no value -/

theorem mapM_eq_none_iff {α β : Type} {f : α → Option β} {l : List α} :
    l.mapM f = none ↔ ∃ x ∈ l, f x = none := by
  induction l with
  | nil => simp
  | cons x rest ih =>
    rw [List.mapM_cons, List.exists_mem_cons_iff, ← ih]
    cases f x <;> cases rest.mapM f <;> simp

theorem defaultItem?_eq_none_iff {j : Json} :
    defaultItem? j = none ↔ j = .null ∨ j.isArray = true ∨ j.isObject = true := by
  cases j <;> simp [defaultItem?, itemText?, Json.isArray, Json.isObject]

theorem toOption_eq_none_iff {ε α : Type} {x : Except ε α} :
    x.toOption = none ↔ ∃ e, x = .error e := by
  cases x <;> simp [Except.toOption]

theorem toOption_eq_some_iff {ε α : Type} {x : Except ε α} {a : α} :
    x.toOption = some a ↔ x = .ok a := by
  cases x <;> simp [Except.toOption]

/-- **A default denotes no value** if it is a null, a list with an item that has no text or is a
null, or an object that is no tree. -/
theorem defaultValue?_eq_none_iff {v : Json} : defaultValue? v = none ↔
    v = .null ∨
      (∃ items, v = .array items ∧
        ∃ j ∈ items, j = .null ∨ j.isArray = true ∨ j.isObject = true) ∨
      ∃ members e, v = .object members ∧ Tree.ofJson v = .error e := by
  cases v with
  | null => simp [defaultValue?]
  | bool b | number n | string s => simp [defaultValue?]
  | array items => simp [defaultValue?, mapM_eq_none_iff, defaultItem?_eq_none_iff]
  | object members => simp [defaultValue?, toOption_eq_none_iff]

/-! ## Reading in place of a default -/

theorem itemText?_of_defaultItem? {j : Json} {text : String} (h : defaultItem? j = some text) :
    itemText? j = some text := by
  cases j with
  | null => cases h
  | bool b | number n | string s | array items | object members => exact h

theorem textsOf_of_defaultItem? (field : String) {items : List Json} {texts : List String}
    (h : items.mapM defaultItem? = some texts) : textsOf field items = .ok texts := by
  rw [mapM_eq_some_iff] at h
  induction items generalizing texts with
  | nil =>
    obtain rfl := List.map_eq_nil_iff.1 h.symm
    rfl
  | cons j rest ih =>
    obtain ⟨text, more, rfl, htext, hmore⟩ := List.map_eq_cons_iff.1 h.symm
    rw [textsOf, itemText?_of_defaultItem? htext.symm, ih hmore.symm]
    rfl

/-- **A configuration reads the value of a default**, an empty list of sections apart. -/
theorem ofJson_of_defaultValue? {field : String} {v : Json} {x : Value}
    (h : defaultValue? v = some x)
    (hsections : v = .array [] → Vocabulary.isListSection field = false) :
    Value.ofJson field v = .ok x := by
  cases v with
  | null => cases h
  | bool b | number n | string s =>
    cases h
    rfl
  | object members =>
    obtain ⟨t, ht, rfl⟩ := Option.map_eq_some_iff.1 h
    have hread : fieldsOfJson members = .ok t := toOption_eq_some_iff.1 ht
    rw [Value.ofJson, hread]
    rfl
  | array items =>
    obtain ⟨texts, htexts, rfl⟩ := Option.map_eq_some_iff.1 h
    cases items with
    | nil =>
      cases htexts
      rw [Value.ofJson, hsections rfl]
      rfl
    | cons j rest =>
      -- the first item has a text, so the list is none of sections
      have hobjects : (j :: rest).all Json.isObject = false := by
        have hj : defaultItem? j ≠ none := fun hnone => by
          rw [mapM_eq_none_iff.2 ⟨j, List.mem_cons_self, hnone⟩] at htexts
          cases htexts
        rw [List.all_cons, Bool.and_eq_false_iff]
        refine .inl (Bool.eq_false_iff.2 fun hobject => hj ?_)
        exact defaultItem?_eq_none_iff.2 (.inr (.inr hobject))
      rw [Value.ofJson, List.isEmpty_cons, hobjects, textsOf_of_defaultItem? field htexts]
      rfl

theorem ofJson_object_singleton {field : String} {v : Json} {x : Value}
    (h : Value.ofJson field v = .ok x) :
    Tree.ofJson (.object [(field, v)]) = .ok [(field, x)] := by
  rw [Tree.ofJson, fieldsOfJson, h]
  rfl

/-! ## Keys at their defaults -/

/-- **What becomes of a key that is not desired and is at its default**, given the desired
instances: it stays as it is; or it carries the identity of an instance around it that is not
desired, and the identity is removed. No default is set, and none is missed. -/
inductive Outcome.Rests (instances : List Path) (path : Path) (w : Value) : Outcome → Prop
  | stays : Rests instances path w ⟨none, false⟩
  | removed {s : Path} {id : String} (hs : s ∈ path.instancePaths ∧ s ∉ instances)
      (hparent : path.parent? = some s) (hid : identityAt? path w = some id) :
      Rests instances path w ⟨some (.remove (.text id)), false⟩

namespace Comparison

variable {c : Comparison} {path : Path} {d w : Value}

theorem resetOutcome_of_unchanged (hd : c.defaults.find? path.logicalKey = some d)
    (hw : w.isWhole = true) (h : d.changeTo? w = none) :
    c.resetOutcome path w = .unchanged := by
  rw [resetOutcome_of_isWhole c path hw, hd, Option.elim_some, h]
  rfl

theorem rests_on_report {key : String} (hw : c.current.find? key = some w)
    (hkey : c.desired.find? key = none) (hd : c.defaults.find? (parse key).logicalKey = some d)
    (hwhole : w.isWhole = true) (h : d.changeTo? w = none) :
    (c.report.on key).Rests c.desiredInstances (parse key) w := by
  have hreset := resetOutcome_of_unchanged hd hwhole h
  rw [on_report, hkey, hw]
  dsimp only
  cases hx : isExcluded c.options (parse key) with
  | true =>
    rw [currentOutcome_of_excluded w hx]
    exact .stays
  | false =>
    rw [currentOutcome_eq hkey hx]
    cases haround : c.removedAround? (parse key) with
    | none =>
      dsimp only
      rw [hreset]
      exact .stays
    | some s =>
      obtain ⟨hs, hdesired⟩ := mem_of_removedAround? haround
      have hbefore : c.outcomeAround (parse key) w = .unchanged := by
        rw [outcomeAround, hreset, ite_self]
      dsimp only
      rw [removedOutcome_eq, hbefore, Outcome.unchanged, Option.none_or, removalAt]
      split_ifs with hparent
      · cases hid : identityAt? (parse key) w with
        | none => exact .stays
        | some id =>
          rw [Option.map_some]
          refine .removed ⟨hs, fun hmem => ?_⟩ hparent hid
          rw [List.contains_iff_mem.2 hmem] at hdesired
          cases hdesired
      · exact .stays

end Comparison

/-- The value is a boolean, a number or a string. -/
def Json.isSingle : Json → Bool
  | .bool _ => true
  | .number _ => true
  | .string _ => true
  | _ => false

theorem exists_scalar_of_isSingle {v : Json} (h : v.isSingle = true) (field : String) :
    ∃ s, defaultValue? v = some (.scalar s) ∧ Value.ofJson field v = .ok (.scalar s) := by
  cases v with
  | bool b | number n | string s => exact ⟨_, rfl, rfl⟩
  | null | array items | object members => cases h

/-- **The default of a field against the one that a branch gives**: they need no change. -/
theorem Catalogue.changeTo?_of_stated {document : Json} (hregular : document.isRegular = true)
    {key : String} {v : Json} (hv : v ∈ stated document key "default") {d x : Value}
    (hd : (ofDocument document).defaults.find? key = some d) (hx : defaultValue? v = some x) :
    d.changeTo? x = none := by
  have hvalues : ∀ w ∈ (stated document key "default").filterMap defaultValue?,
      w.isRegular = true := regular_stated hregular
  rw [find?_defaults] at hd
  obtain ⟨hmem, hsame⟩ := agreed?_eq_some hvalues hd
  exact changeTo?_of_same (hvalues d hmem) (hsame x (List.mem_filterMap.2 ⟨v, hv, hx⟩))

/-- **A default is read like a configured value.** Where a value denotes a default, a document that
gives the value to a field denotes the tree with that default at the field, except that an empty
list in place of sections is an empty list of sections. The defaults that denote no value are the
nulls, the lists with a null, a list or an object among their items, and the objects that are no
trees.

Hence no comparison resets a boolean, a number or a string that was read from the same value as the
default of its key, be this the default of the key as it stands, or one of those on which the
branches of a schema agree. Every document that is read is regular: its numbers are finite, and no
object has a member twice. -/
theorem default_is_read_alike (v : Json) (field : String) :
    (∀ x, defaultValue? v = some x →
      (v = .array [] → Vocabulary.isListSection field = false) →
        Tree.ofJson (.object [(field, v)]) = .ok [(field, x)]) ∧
    (Vocabulary.isListSection field = true →
      Tree.ofJson (.object [(field, .array [])]) = .ok [(field, .repeated [])]) ∧
    (defaultValue? v = none ↔
      v = .null ∨
        (∃ items, v = .array items ∧
          ∃ j ∈ items, j = .null ∨ j.isArray = true ∨ j.isObject = true) ∨
        ∃ members e, v = .object members ∧ Tree.ofJson v = .error e) ∧
    (v.isSingle = true → v.isRegular = true →
      ∀ (t : Tree) (w : Value), Tree.ofJson (.object [(field, v)]) = .ok t →
        t.find? field = some w →
        ∀ (desired current : FlatConfig) (options : DiffOptions) (key : String),
          current.find? key = some w → desired.find? key = none →
          (∀ defaults : Dict Value, defaults.find? (parse key).logicalKey = defaultValue? v →
            ((diff desired current defaults options).on key).Rests desired.instancePaths
              (parse key) w) ∧
          ∀ document : Json, document.isRegular = true →
            v ∈ stated document (parse key).logicalKey "default" →
            (Catalogue.ofDocument document).defaults.contains (parse key).logicalKey = true →
            ((diff desired current (Catalogue.ofDocument document).defaults options).on key).Rests
              desired.instancePaths (parse key) w) := by
  refine ⟨fun x hx hsections => ofJson_object_singleton (ofJson_of_defaultValue? hx hsections),
    fun hsections => ofJson_object_singleton ?_, defaultValue?_eq_none_iff,
    fun hsingle hregular t w ht hw desired current options key hcurrent hkey => ?_⟩
  · rw [Value.ofJson, hsections]
    rfl
  · obtain ⟨s, hdefault, hread⟩ := exists_scalar_of_isSingle hsingle field
    obtain rfl : t = [(field, .scalar s)] :=
      Except.ok.inj (ht.symm.trans (ofJson_object_singleton hread))
    obtain rfl : w = .scalar s := by simpa [Tree.find?] using hw.symm
    refine ⟨fun defaults hd => ?_, fun document hdocument hstated hcontains => ?_⟩
    · rw [hdefault] at hd
      have hfinite : s.isFinite = true := Catalogue.regular_defaultValue hregular hdefault
      exact Comparison.rests_on_report (c := .of desired current defaults options) hcurrent hkey hd
        rfl (if_pos (Scalar.agrees_self hfinite))
    · obtain ⟨d, hd⟩ := Dict.contains_eq_true.1 hcontains
      exact Comparison.rests_on_report (c := .of desired current _ options) hcurrent hkey hd rfl
        (Catalogue.changeTo?_of_stated hdocument hstated hd hdefault)

/-- A schema of two branches that give one field the same default. -/
def branchedDefault : Json :=
  .object [("properties", .object [("namespaces", .object [("oneOf", .array [
    .object [("properties", .object [("rack-id", .object [("default", .number (.natural 2))])])],
    .object [("properties", .object [("rack-id", .object [
      ("default", .number (.natural 2))])])]])])])]

/-- A field of an instance, at the default on which both branches agree, while a field that is
desired reopens the instance. -/
theorem default_is_read_alike_of_branches :
    let desired : FlatConfig := ⟨[("namespaces.\x7ba\x7d.new", .text "x")], by decide⟩
    let current : FlatConfig := ⟨[("namespaces.\x7ba\x7d.rack-id", .scalar (.uint 2))], by decide⟩
    Tree.ofJson (.object [("rack-id", .number (.natural 2))]) =
        .ok [("rack-id", .scalar (.uint 2))] ∧
      ((diff desired current (Catalogue.ofDocument branchedDefault).defaults {}).on
        "namespaces.\x7ba\x7d.rack-id").Rests desired.instancePaths
          (parse "namespaces.\x7ba\x7d.rack-id") (.scalar (.uint 2)) := by
  intro desired current
  obtain ⟨hread, -, -, hrests⟩ := default_is_read_alike (.number (.natural 2)) "rack-id"
  have ht := hread (.scalar (.uint 2)) rfl nofun
  have hlogical : (parse "namespaces.\x7ba\x7d.rack-id").logicalKey = "namespaces.rack-id" := by
    decide +kernel
  have hstated : stated branchedDefault "namespaces.rack-id" "default" =
      [.number (.natural 2), .number (.natural 2)] := by rfl
  refine ⟨ht, (hrests rfl rfl _ _ ht rfl desired current {} _ rfl rfl).2 branchedDefault
    (by decide) ?_ ?_⟩
  · rw [hlogical, hstated]
    exact List.mem_cons_self
  · rw [hlogical, Dict.contains, Catalogue.find?_defaults, hstated]
    rfl

end Reconfig
