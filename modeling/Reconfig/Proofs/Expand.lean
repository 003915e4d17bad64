import Reconfig.Proofs.Places

/-!
# The tree of a well-formed flat configuration

What is read off the trie of a well-formed flat configuration at the place of a field: the value
at its key, the section of the fields below it, or the list of the instances below it.

* `FlatConfig.mem_fieldsAt`: the section that the fields below a path become;
* **`identity?_fieldsAt`**: an instance is identified by its selector;
* `toValue_of_value`, `toValue_of_selector`: what the place of a field becomes.
-/

namespace Reconfig

open Vocabulary (nameField typeField indexField)

/-- Without instances below a path, **the fields of its section** are those of the keys. -/
theorem FlatConfig.mem_fieldsAt {f : FlatConfig} {p : Path} (hp : ∀ id, ¬ f.Reaches (p.select id))
    {name : String} {w : Value} : (name, w) ∈ f.fieldsAt p ↔ name ≠ indexField ∧
      f.Reaches (p.child name) ∧ (f.place (p.child name)).toValue name = some w := by
  rw [mem_fieldsAt_iff]
  constructor
  · rintro ⟨s, hs, hreaches, rfl, hw⟩
    cases s with
    | selector id => exact absurd hreaches (hp id)
    | field name => exact ⟨fun hn => hs (congrArg Segment.field hn), hreaches, hw⟩
  · rintro ⟨hname, hreaches, hw⟩
    exact ⟨.field name, by simpa using hname, hreaches, rfl, hw⟩

/-! ## What the place of a field becomes -/

theorem leaves_of_isFlat {field : String} {v : Value} (hflat : v.isFlat = true)
    (h : Vocabulary.isTypedSection field = true → v.text? = none) :
    v.leaves field = [([], v)] := by
  cases v with
  | scalar s =>
    cases s with
    | text s =>
      rw [Value.leaves, if_neg fun hfield => nomatch h hfield]
      rfl
    | bool b | int i | uint n | float x => rfl
  | list items => rfl
  | nested fields =>
    rw [Value.isFlat, List.isEmpty_iff] at hflat
    rw [hflat]
    rfl
  | repeated sections =>
    rw [Value.isFlat, Bool.and_eq_true, Bool.not_eq_true', Option.isNone_iff_eq_none] at hflat
    rw [Value.leaves, hflat.1, hflat.2]
    rfl

namespace FlatConfig.IsWellFormed

variable {f : FlatConfig} (h : f.IsWellFormed) {p : Path}

include h

theorem not_reaches_select {name : String} (hname : f.Reaches (p.child name)) (id : String) :
    ¬ f.Reaches (p.select id) := fun hid => nomatch h.isSelector_eq hname hid

theorem not_reaches_select_select {id : String} (hid : f.Reaches (p.select id)) (id' : String) :
    ¬ f.Reaches ((p.select id).select id') := by
  obtain ⟨name, -, hv⟩ := h.exists_identity hid
  exact h.not_reaches_select (reaches_of_value hv) id'

theorem toValue_of_value {name : String} {v : Value} (hv : f.valueAt? (p.child name) = some v) :
    (f.place (p.child name)).toValue name = some v := by
  have hnone : f.steps (p.child name) = [] := steps_eq_nil.2 (h.not_reaches_below hv)
  rw [toValue_place, hnone, hv]
  exact congrArg some
    (leafValue_eq_self (h.text?_of_value hv (Path.baseField?_child _ _)))

theorem leafText?_of_value {name id : String} (hv : f.textAt? (p.child name) = some id) :
    f.leafText? (p.child name) = some id := by
  have hnone : f.steps (p.child name) = [] :=
    steps_eq_nil.2 (h.not_reaches_below (textAt?_eq_some.1 hv))
  rw [leafText?, hnone]
  exact hv

/-- **An instance is identified by its selector.** -/
theorem identity?_fieldsAt {id : String} (hid : f.Reaches (p.select id)) :
    (f.fieldsAt (p.select id)).identity? = some id := by
  rw [identity?_fieldsAt_eq, identity?]
  rcases h.identifies hid with hname | ⟨hname, htype⟩
  · rw [if_pos (reaches_of_value (textAt?_eq_some.1 hname)), h.leafText?_of_value hname]
  · rw [if_neg hname, h.leafText?_of_value htype]

theorem toValue_of_selector {id : String} (hid : f.Reaches (p.select id)) (field : String) :
    (f.place p).toValue field =
      some (.repeated ((f.order p).map fun id => f.fieldsAt (p.select id))) := by
  have hempty : (f.steps p).isEmpty = false :=
    List.isEmpty_eq_false_iff.2 (List.ne_nil_of_mem (mem_steps.2 hid))
  have hall : (f.steps p).all Segment.isSelector = true := by
    refine List.all_eq_true.2 fun s hs => ?_
    cases s with
    | field name => exact absurd hid (h.not_reaches_select (mem_steps.1 hs) id)
    | selector id' => rfl
  have hinstances : (f.order p).map (f.instanceAt p) =
      (f.order p).map fun id => f.fieldsAt (p.select id) :=
    List.map_congr_left fun id hid => named_eq_self _ (h.identity?_fieldsAt (mem_order.1 hid))
  rw [toValue_place, hempty, hall, hinstances]
  rfl

theorem not_reaches_root_select (id : String) : ¬ f.Reaches (Path.select [] id) := by
  rintro ⟨q, hq, r, rfl⟩
  exact nomatch h.rooted _ hq

theorem ne_empty_of_mem_root {name : String} {w : Value} (hw : (name, w) ∈ f.fieldsAt []) :
    name ≠ "" := by
  rintro rfl
  obtain ⟨-, ⟨q, hq, r, rfl⟩, -⟩ := (mem_fieldsAt h.not_reaches_root_select).1 hw
  exact nomatch h.rooted _ hq

end FlatConfig.IsWellFormed

end Reconfig
