import Reconfig.Proofs.Expand

/-!
# Flattening the tree of a flat configuration

The tree of a well-formed flat configuration, flattened again, has the values where they were. Of
the markers only the order of the instances is left: each instance has the marker of its place in
the order, whatever markers there were.

* `FlatConfig.Regroups`: the values that are kept and the markers that are made;
* `FlatConfig.ReadsAt`, **`readsAt`**: the leaves of what a field becomes, by induction on the path
  below the field;
* **`find?_regrouped`**: the look-ups after expanding and flattening.
-/

namespace Reconfig

open Vocabulary (nameField typeField indexField)
open Reconfig.Path (render parse)

namespace FlatConfig

/-! ## Values that are kept and markers that are made -/

/-- A value of the configuration once it has been expanded and flattened. -/
inductive Regroups (f : FlatConfig) : Path → Value → Prop where
  /-- Every value stays, unless it is a marker. -/
  | kept {p : Path} {v : Value} (hp : p.isIndexMarker = false) (hv : f.valueAt? p = some v) :
    f.Regroups p v
  /-- Every instance has the marker of its place in the order. -/
  | marked {list : Path} {id : String} {i : Nat} (hi : (f.order list)[i]? = some id) :
    f.Regroups ((list.select id).child indexField) (indexValue i)

variable {f : FlatConfig} {p q : Path} {v : Value}

theorem regroups_iff_of_not_marker (hp : p.isIndexMarker = false) :
    f.Regroups p v ↔ f.valueAt? p = some v := by
  refine ⟨fun hr => ?_, .kept hp⟩
  cases hr with
  | kept _ hv => exact hv
  | marked _ => exact absurd ((Path.isIndexMarker_child _ _).2 rfl) (Bool.eq_false_iff.1 hp)

theorem regroups_marker_iff {list : Path} {id : String} :
    f.Regroups ((list.select id).child indexField) v ↔
      ∃ i, (f.order list)[i]? = some id ∧ v = indexValue i := by
  constructor
  · generalize hq : (list.select id).child indexField = q
    intro hr
    cases hr with
    | kept hp _ =>
      rw [← hq] at hp
      exact absurd ((Path.isIndexMarker_child _ _).2 rfl) (Bool.eq_false_iff.1 hp)
    | marked hi =>
      obtain ⟨rfl, hid⟩ := Path.append_singleton_inj.1 (Path.append_singleton_inj.1 hq).1
      cases hid
      exact ⟨_, hi, rfl⟩
  · rintro ⟨i, hi, rfl⟩
    exact .marked hi

theorem Regroups.unique {w : Value} (hv : f.Regroups p v) (hw : f.Regroups p w) : v = w := by
  cases hv with
  | kept hp hv =>
    rw [regroups_iff_of_not_marker hp, hv] at hw
    exact Option.some.inj hw
  | marked hi =>
    obtain ⟨j, hj, rfl⟩ := regroups_marker_iff.1 hw
    rw [order_unique hi hj]

theorem Regroups.reaches_or (hr : f.Regroups p v) : f.Reaches p ∨
    ∃ list id, p = (Path.select list id).child indexField ∧ f.Reaches (list.select id) := by
  cases hr with
  | kept _ hv => exact .inl (reaches_of_value hv)
  | marked hi => exact .inr ⟨_, _, rfl, mem_order.1 (List.mem_of_getElem? hi)⟩

theorem Regroups.reaches {s : Segment} (hr : f.Regroups (p ++ s :: q) v)
    (hp : ∀ list id, p = Path.select list id → s ≠ .field indexField) :
    f.Reaches (p ++ [s]) := by
  rcases hr.reaches_or with hreaches | ⟨list, id, heq, hreaches⟩
  · exact hreaches.of_prefix ⟨q, by simp⟩
  · rcases List.eq_nil_or_concat q with rfl | ⟨q, t, rfl⟩
    · obtain ⟨hlist, hs⟩ := Path.append_singleton_inj.1 heq
      exact absurd hs (hp list id hlist)
    · rw [List.concat_eq_append, ← List.cons_append, ← List.append_assoc] at heq
      rw [← (Path.append_singleton_inj.1 heq).1] at hreaches
      exact hreaches.of_prefix ⟨q, by simp⟩

end FlatConfig

/-! ## Leaves below a field -/

/-- At a path below any field, the leaves of what the field becomes are the values that are kept
and made there. -/
def FlatConfig.ReadsAt (f : FlatConfig) (q : Path) : Prop :=
  ∀ (p : Path) (name : String) (w v : Value), name ≠ indexField → f.Reaches (p.child name) →
    (f.place (p.child name)).toValue name = some w →
      ((q, v) ∈ w.leaves name ↔ f.Regroups (p.child name ++ q) v)

namespace FlatConfig

variable {f : FlatConfig} {p q : Path} {v : Value}

theorem index_not_mem_fieldLeaves (hp : ∀ id, ¬ f.Reaches (p.select id)) :
    (.field indexField :: q, v) ∉ fieldLeaves (f.fieldsAt p) := fun hmem => by
  obtain ⟨name, w, _, hw, heq, -⟩ := mem_fieldLeaves.1 hmem
  cases heq
  exact ((mem_fieldsAt hp).1 hw).1 rfl

theorem exists_toValue (hp : f.Reaches p) (field : String) :
    ∃ w, (f.place p).toValue field = some w := by
  obtain ⟨q, v, hv⟩ := reaches_iff.1 hp
  exact Trie.exists_toValue (((place_holds p).find?_iff q v).2 hv) field

theorem mem_fieldLeaves_fieldsAt (hq : f.ReadsAt q) (hp : ∀ id, ¬ f.Reaches (p.select id))
    {name : String} (hname : name ≠ indexField) :
    (.field name :: q, v) ∈ fieldLeaves (f.fieldsAt p) ↔ f.Regroups (p ++ .field name :: q) v := by
  rw [mem_fieldLeaves]
  constructor
  · rintro ⟨_, w, _, hw, heq, hleaf⟩
    cases heq
    obtain ⟨-, hreaches, hw⟩ := (mem_fieldsAt hp).1 hw
    rw [List.append_cons]
    exact (hq p name w v hname hreaches hw).1 hleaf
  · intro hr
    have hreaches : f.Reaches (p.child name) := hr.reaches fun _ _ _ => by simpa using hname
    obtain ⟨w, hw⟩ := exists_toValue hreaches name
    refine ⟨name, w, q, (mem_fieldsAt hp).2 ⟨hname, hreaches, hw⟩, rfl, ?_⟩
    rw [List.append_cons] at hr
    exact (hq p name w v hname hreaches hw).2 hr

theorem Reaches.cases (hp : f.Reaches p) : (∃ v, f.valueAt? p = some v) ∨
    (∃ name, f.Reaches (p.child name)) ∨ ∃ id, f.Reaches (p.select id) := by
  obtain ⟨q, v, hv⟩ := reaches_iff.1 hp
  cases q with
  | nil => exact .inl ⟨v, by rwa [List.append_nil] at hv⟩
  | cons s q =>
    have hs : f.Reaches (p ++ [s]) := reaches_iff.2 ⟨q, v, by rwa [List.append_assoc]⟩
    cases s with
    | field name => exact .inr (.inl ⟨name, hs⟩)
    | selector id => exact .inr (.inr ⟨id, hs⟩)

namespace IsWellFormed

variable (h : f.IsWellFormed)

include h

theorem identities?_sections : identities? ((f.order p).map fun id => f.fieldsAt (p.select id)) =
    some (f.order p) := by
  refine identities?_eq_some.2 ⟨?_, fun id hid => ?_, order_nodup⟩
  · rw [List.map_map]
    exact List.map_congr_left fun id hid => h.identity?_fieldsAt (mem_order.1 hid)
  · exact h.isBraceFree_of_reaches (mem_order.1 hid)

theorem not_regroups {s : Segment} (hs : f.Reaches (p ++ [s])) : ¬ f.Regroups p v := fun hr => by
  cases hr with
  | kept _ hv => exact h.not_reaches_below hv s hs
  | marked _ => exact h.index_not_mem hs (List.mem_append_right _ List.mem_cons_self)

theorem mem_leaves_of_value {name : String} (hname : name ≠ indexField) {u : Value}
    (hu : f.valueAt? (p.child name) = some u) :
    (q, v) ∈ u.leaves name ↔ f.Regroups (p.child name ++ q) v := by
  have htext := h.text?_of_value hu (Path.baseField?_child _ _)
  rw [leaves_of_isFlat (h.isFlat_of_value hu) htext, List.mem_singleton, Prod.mk.injEq]
  cases q with
  | nil =>
    have hmarker : (p.child name).isIndexMarker = false :=
      Bool.eq_false_iff.2 fun hm => hname ((Path.isIndexMarker_child _ _).1 hm)
    rw [List.append_nil, regroups_iff_of_not_marker hmarker, hu, Option.some.injEq,
      eq_comm (a := v)]
    exact and_iff_right rfl
  | cons s q =>
    refine iff_of_false (fun heq => nomatch heq.1) fun hr => h.not_reaches_below hu s ?_
    exact hr.reaches fun list id heq => absurd heq (Path.child_ne_select _ _ _ _)

section Section

variable (ih : ∀ r : Path, r.length < q.length → f.ReadsAt r)

include ih

theorem mem_leaves_of_field {name n : String} (hn : f.Reaches ((p.child name).child n)) :
    (q, v) ∈ (Value.nested (f.fieldsAt (p.child name))).leaves name ↔
      f.Regroups (p.child name ++ q) v := by
  have hp := h.not_reaches_select hn
  have hindex : ∀ m, f.Reaches ((p.child name).child m) → m ≠ indexField := by
    rintro m hm rfl
    obtain ⟨list, id, heq⟩ := h.exists_select hm
    exact Path.child_ne_select _ _ _ _ heq
  have hempty : (f.fieldsAt (p.child name)).isEmpty = false := by
    obtain ⟨w, hw⟩ := exists_toValue hn n
    exact List.isEmpty_eq_false_iff.2
      (List.ne_nil_of_mem ((mem_fieldsAt hp).2 ⟨hindex n hn, hn, hw⟩))
  rw [Value.leaves, hempty, if_neg Bool.false_ne_true]
  have hbelow : ∀ {s r}, f.Regroups (p.child name ++ s :: r) v →
      f.Reaches (p.child name ++ [s]) := fun hr =>
    hr.reaches fun _ _ heq => absurd heq (Path.child_ne_select _ _ _ _)
  match q with
  | [] =>
    rw [List.append_nil]
    exact iff_of_false (by simp) (h.not_regroups hn)
  | .selector id :: r => exact iff_of_false (by simp) fun hr => hp id (hbelow hr)
  | .field m :: r =>
    by_cases hm : m = indexField
    · subst hm
      exact iff_of_false (index_not_mem_fieldLeaves hp) fun hr => hindex _ (hbelow hr) rfl
    · exact mem_fieldLeaves_fieldsAt (ih r (by simp)) hp hm

theorem mem_leaves_of_instance {id : String} {i : Nat} (hi : (f.order p)[i]? = some id) :
    (q, v) ∈ fieldLeaves (f.fieldsAt (p.select id)) ∨ (q = [.field indexField] ∧ v = indexValue i) ↔
      f.Regroups (p.select id ++ q) v := by
  have hid := mem_order.1 (List.mem_of_getElem? hi)
  have hp := h.not_reaches_select_select hid
  match q with
  | [] =>
    obtain ⟨n, -, hn⟩ := h.exists_identity hid
    rw [List.append_nil]
    exact iff_of_false (by simp) (h.not_regroups (reaches_of_value hn))
  | .selector id' :: r =>
    exact iff_of_false (by simp) fun hr => hp id' (hr.reaches fun _ _ _ heq => nomatch heq)
  | .field m :: r =>
    by_cases hm : m = indexField
    · subst hm
      rw [or_iff_right (index_not_mem_fieldLeaves hp)]
      cases r with
      | nil =>
        rw [and_iff_right rfl, ← Path.child, regroups_marker_iff]
        constructor
        · exact fun hv => ⟨i, hi, hv⟩
        · rintro ⟨j, hj, rfl⟩
          rw [order_unique hi hj]
      | cons s r =>
        refine iff_of_false (by simp) fun hr => ?_
        rw [List.append_cons] at hr
        have hbelow := hr.reaches fun _ _ heq => absurd heq (Path.child_ne_select _ _ _ _)
        exact h.index_not_mem hbelow (List.mem_append_right _ List.mem_cons_self)
    · rw [or_iff_left fun heq => hm (by simpa using (List.cons.inj heq.1).1)]
      exact mem_fieldLeaves_fieldsAt (ih r (by simp)) hp hm

theorem mem_leaves_of_selector {name id : String} (hid : f.Reaches ((p.child name).select id)) :
    (q, v) ∈ (Value.repeated ((f.order (p.child name)).map fun id =>
        f.fieldsAt ((p.child name).select id))).leaves name ↔
      f.Regroups (p.child name ++ q) v := by
  have hids := h.identities?_sections (p := p.child name)
  have hidentity : ∀ {i id}, (f.order (p.child name))[i]? = some id →
      (f.fieldsAt ((p.child name).select id)).identity? = some id := fun hi =>
    h.identity?_fieldsAt (mem_order.1 (List.mem_of_getElem? hi))
  rw [leaves_of_isSome (by rw [hids]; rfl), mem_sectionLeaves]
  simp only [Nat.zero_add, List.getElem?_map, Option.map_eq_some_iff]
  constructor
  · rintro ⟨i, _, r, ⟨id', hi, rfl⟩, rfl, hmem⟩
    rw [hidentity hi, Option.getD_some, List.append_cons]
    exact (h.mem_leaves_of_instance (fun r' hlt => ih r' (by simp; omega)) hi).1 hmem
  · intro hr
    cases q with
    | nil =>
      rw [List.append_nil] at hr
      exact absurd hr (h.not_regroups hid)
    | cons s r =>
      have hs := hr.reaches fun _ _ heq => absurd heq (Path.child_ne_select _ _ _ _)
      cases s with
      | field n => exact absurd hid (h.not_reaches_select hs id)
      | selector id' =>
        obtain ⟨i, hi⟩ := List.mem_iff_getElem?.1 (mem_order.2 hs)
        refine ⟨i, _, r, ⟨id', hi, rfl⟩, by rw [hidentity hi]; rfl, ?_⟩
        rw [List.append_cons] at hr
        exact (h.mem_leaves_of_instance (fun r' hlt => ih r' (by simp; omega)) hi).2 hr

end Section

/-- **The leaves of what a field becomes** are the values that are kept and made below it. -/
theorem readsAt (q : Path) : f.ReadsAt q := by
  -- a selector and the field after it are read in one step, so the induction is on the length
  induction hlen : q.length using Nat.strong_induction_on generalizing q with
  | _ n ih =>
    subst hlen
    intro p name w v hname hreaches hw
    have shorter : ∀ r : Path, r.length < q.length → f.ReadsAt r := fun r hr => ih _ hr r rfl
    rcases hreaches.cases with ⟨u, hu⟩ | ⟨m, hm⟩ | ⟨id, hid⟩
    · obtain rfl := Option.some.inj ((h.toValue_of_value hu).symm.trans hw)
      exact h.mem_leaves_of_value hname hu
    · obtain rfl := Option.some.inj ((toValue_of_field hm name).symm.trans hw)
      exact h.mem_leaves_of_field shorter hm
    · obtain rfl := Option.some.inj ((h.toValue_of_selector hid name).symm.trans hw)
      exact h.mem_leaves_of_selector shorter hid

/-! ## The flat configuration of the tree -/

theorem mem_leaves_expand : (q, v) ∈ fieldLeaves f.expand ↔ f.Regroups q v := by
  have hroot := h.not_reaches_root_select
  have hbelow : ∀ {s r}, f.Regroups (s :: r) v → f.Reaches [s] := fun hr =>
    Regroups.reaches (p := []) hr fun list id heq => absurd heq (by simp [Path.select])
  rw [expand_eq_fieldsAt]
  match q with
  | [] =>
    refine iff_of_false (by simp) fun hr => ?_
    exact nomatch h.rooted _ (mem_paths.2 ⟨v, (regroups_iff_of_not_marker rfl).1 hr⟩)
  | .selector id :: r => exact iff_of_false (by simp) fun hr => hroot id (hbelow hr)
  | .field n :: r =>
    by_cases hn : n = indexField
    · subst hn
      refine iff_of_false (index_not_mem_fieldLeaves hroot) fun hr => ?_
      obtain ⟨list, id, heq⟩ := h.exists_select (p := []) (hbelow hr)
      simp [Path.select] at heq
    · exact mem_fieldLeaves_fieldsAt (h.readsAt r) hroot hn

theorem parse_render_of_regroups (hr : f.Regroups p v) : parse (render p) = p := by
  cases hr with
  | kept _ hv =>
    obtain ⟨key, rfl, -⟩ := valueAt?_eq_some.1 hv
    rw [Path.render_parse]
  | @marked list id i hi =>
    -- the key that shows the identity ends where the marker is put in its place
    obtain ⟨name, hname, hv⟩ := h.exists_identity (mem_order.1 (List.mem_of_getElem? hi))
    obtain ⟨key, hkey, -⟩ := valueAt?_eq_some.1 hv
    refine Path.parse_render_child (by simp [Path.select]) hkey ?_ ?_ (by decide) <;>
      rcases hname with rfl | rfl <;> decide

/-- **The look-ups after expanding and flattening** find what is kept and what is made. -/
theorem find?_regrouped {key : String} :
    f.expand.flatten.find? key = some v ↔ f.Regroups (parse key) v := by
  have hentries : f.expand.entries = (fieldLeaves f.expand).map fun e => (render e.1, e.2) := by
    rw [expand_eq_fieldsAt]
    exact entries_eq_leaves fun e he => h.ne_empty_of_mem_root he
  have hmem : ∀ {w}, (key, w) ∈ f.expand.entries ↔ f.Regroups (parse key) w := fun {w} => by
    rw [hentries, List.mem_map]
    constructor
    · rintro ⟨⟨p, u⟩, hleaf, heq⟩
      cases heq
      have hr := h.mem_leaves_expand.1 hleaf
      rwa [h.parse_render_of_regroups hr]
    · exact fun hr => ⟨_, h.mem_leaves_expand.2 hr, by rw [Path.render_parse]⟩
  constructor
  · exact fun hv => hmem.1 (Dict.mem_of_find?_ofList hv)
  · exact fun hr => Dict.find?_ofList_of_unique (hmem.2 hr) fun w hw => (hmem.1 hw).unique hr

theorem valueAt?_regrouped : f.expand.flatten.valueAt? p = some v ↔ f.Regroups p v := by
  rw [valueAt?_eq_some]
  constructor
  · rintro ⟨key, rfl, hv⟩
    exact h.find?_regrouped.1 hv
  · intro hr
    have hp := h.parse_render_of_regroups hr
    exact ⟨render p, hp, h.find?_regrouped.2 (by rwa [hp])⟩

end IsWellFormed

end FlatConfig

end Reconfig
