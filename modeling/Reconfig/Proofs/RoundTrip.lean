import Mathlib.Data.List.Sort
import Reconfig.Proofs.Instances
import Reconfig.Proofs.Normal
import Reconfig.Proofs.Trie
import Reconfig.Proofs.Flatten

/-!
# The tree of a flat configuration is the tree that was flattened

The trie of a flat configuration holds the leaves of the tree that was flattened. What is read off
it at the place of a value is the normal form of that value, shown by induction on the value: a
section from its fields, and a list of sections from the marked positions, which put the sections
back in order.

* `Value.positionsFit`: the positions in lists of sections are words;
* `arranged_of_perm`: sections whose positions are marked, in any order, are arranged by position;
* `Value.ReadsBack`: a value is read off as its normal form;
* `fields_readBack`, `nested_readBack`, `repeated_readBack`, **`readsBack`**;
* **`expand_flatten`**: the tree of the flat configuration of a tree is the tree's normal form.
-/

namespace Reconfig

open Vocabulary (nameField typeField indexField)
open Reconfig.Path (render parse)

/-! ## Positions -/

mutual

/-- The positions in the lists of sections, outside those kept whole, are 64-bit words. -/
def Value.positionsFit : Value → Bool
  | .scalar _ => true
  | .list _ => true
  | .nested fields => fieldsFit fields
  | .repeated sections =>
    (identities? sections).isNone || (sections.length ≤ Nat.pow 2 64 && sectionsFit sections)

/-- The positions in the values of fields are words. -/
def fieldsFit : List (String × Value) → Bool
  | [] => true
  | (_, v) :: rest => v.positionsFit && fieldsFit rest

/-- The positions in sections are words. -/
def sectionsFit : List (List (String × Value)) → Bool
  | [] => true
  | fields :: rest => fieldsFit fields && sectionsFit rest

end

/-- The positions in the lists of sections of a tree are words. -/
abbrev Tree.positionsFit (t : Tree) : Bool := fieldsFit t

theorem positionsFit_of_mem {fields : List (String × Value)} (h : fieldsFit fields = true)
    {f : String × Value} (hf : f ∈ fields) : f.2.positionsFit = true :=
  forall_of_check (fun _ _ => (Bool.and_eq_true _ _).mp) h f hf

theorem fieldsFit_of_mem {sections : List Tree} (h : sectionsFit sections = true) {t : Tree}
    (ht : t ∈ sections) : t.positionsFit = true :=
  forall_of_check (fun _ _ => (Bool.and_eq_true _ _).mp) h t ht

theorem indexOf?_indexValue {n : Nat} (h : n < Nat.pow 2 64) :
    indexOf? (indexValue n) = some n := by
  have hn : (UInt64.ofNat n).toNat = n := UInt64.toNat_ofNat_of_lt h
  exact congrArg some hn

theorem inPlace_trans (a b c : Option Nat × Tree) (hab : inPlace a b = true)
    (hbc : inPlace b c = true) : inPlace a c = true := by
  obtain ⟨i, _⟩ := a
  obtain ⟨j, _⟩ := b
  obtain ⟨k, _⟩ := c
  cases i <;> cases j <;> cases k <;> simp_all [inPlace]
  omega

theorem inPlace_total (a b : Option Nat × Tree) : (inPlace a b || inPlace b a) = true := by
  obtain ⟨i, _⟩ := a
  obtain ⟨j, _⟩ := b
  cases i <;> cases j <;> simp [inPlace]
  omega

/-- **Sections whose positions are marked are arranged by position**, in whatever order they
come. -/
theorem arranged_of_perm {l r : List (Option Nat × Tree)} (hperm : l.Perm r)
    (hr : ∀ i (h : i < r.length), r[i].1 = some i) : arranged l = r.map (·.2) := by
  have hsorted : r.Pairwise fun a b => inPlace a b = true := by
    rw [List.pairwise_iff_getElem]
    intro i j hi hj hij
    simp only [inPlace, hr i hi, hr j hj, decide_eq_true_eq]
    omega
  have hall : (l.mergeSort inPlace).Perm r := (List.mergeSort_perm l inPlace).trans hperm
  have heq : l.mergeSort inPlace = r := by
    refine List.Perm.eq_of_pairwise ?_ (List.pairwise_mergeSort inPlace_trans inPlace_total l)
      hsorted hall
    intro a b ha hb hab hba
    obtain ⟨i, hi, rfl⟩ := List.getElem_of_mem (hall.mem_iff.1 ha)
    obtain ⟨j, hj, rfl⟩ := List.getElem_of_mem hb
    simp only [inPlace, hr i hi, hr j hj, decide_eq_true_eq] at hab hba
    obtain rfl : i = j := by omega
    rfl
  rw [arranged, heq]

/-! ## Values -/

/-- The value of a field is read off as its normal form wherever a trie holds its leaves. -/
def Value.ReadsBack (field : String) (v : Value) : Prop :=
  v.isSound = true → v.positionsFit = true → ∀ t : Trie,
    t.Holds (fun q w => (q, w) ∈ v.leaves field) →
      (t.toValue field).map Value.sorted = (v.normal? field).map Value.sorted

theorem toValue_leaf {t : Trie} {w : Value} (h : t.Holds fun q v => q = [] ∧ v = w)
    (field : String) : t.toValue field = some (leafValue field w) := by
  obtain ⟨value, children⟩ := t
  have hvalue : value = some w := (h.find?_iff [] w).2 ⟨rfl, rfl⟩
  have hchildren : children = [] := by
    rw [List.eq_nil_iff_forall_not_mem]
    rintro ⟨s, c⟩ hc
    obtain ⟨-, q, v, hv⟩ := h.tidy.mem_children.1 hc
    exact nomatch ((h.find?_iff _ _).1 hv).1
  rw [hvalue, hchildren, Trie.toValue]
  rfl

theorem readsBack_of_leaf {field : String} {v : Value} (hleaves : v.leaves field = [([], v)])
    (hleaf : leafValue field v = v) (hnormal : v.normal? field = some v) : v.ReadsBack field := by
  intro _ _ t ht
  have hv : t.Holds fun q w => q = [] ∧ w = v :=
    ⟨ht.tidy, fun q w => by rw [ht.find?_iff, hleaves]; simp⟩
  rw [toValue_leaf hv, hleaf, hnormal]

/-! ## Sections -/

theorem Trie.index?_eq (t : Trie) :
    t.index? = (t.find? [.field indexField]).bind indexOf? := rfl

/-- The values of a section, with the marker of its position if it has one. -/
def sectionValues (fields : Tree) (marker : Option Value) (q : Path) (v : Value) : Prop :=
  (q, v) ∈ fieldLeaves fields ∨ (q = [.field indexField] ∧ marker = some v)

section Fields

variable {fields : Tree} (hsound : fields.isSound = true) (hfit : fields.positionsFit = true)
  (ih : ∀ f ∈ fields, f.2.ReadsBack f.1) {t : Trie} {marker : Option Value}
  (h : t.Holds (sectionValues fields marker))

include h

theorem children_are_fields : ∀ c ∈ t.children, c.1.isSelector = false := by
  rintro ⟨s, c⟩ hc
  obtain ⟨-, q, v, hv⟩ := h.tidy.mem_children.1 hc
  rcases (h.find?_iff _ _).1 hv with hleaf | ⟨heq, -⟩
  · obtain ⟨name, w, q', -, heq, -⟩ := mem_fieldLeaves.1 hleaf
    cases heq
    rfl
  · cases heq
    rfl

include hsound hfit ih

/-- **The fields that are read off are those of the normal form.** -/
theorem fields_readBack : (Trie.fields t.children).Pairwise (fun a b => a.1 ≠ b.1) ∧
    Tree.sorted (Trie.fields t.children) = fields.normal.sorted := by
  have hchildren := children_are_fields h
  have hdistinct := Trie.fields_distinct (Trie.labels_distinct h.tidy.distinct hchildren)
  have hnames := names_distinct hsound
  refine ⟨hdistinct, (sorted_eq_iff hdistinct (normalFields_distinct hnames)).2 fun name => ?_⟩
  change ((Trie.fields t.children).lookup name).map Value.sorted =
    ((normalFields fields).lookup name).map Value.sorted
  rw [lookup_normalFields hnames]
  by_cases hindex : name = indexField
  · subst hindex
    rw [Trie.lookup_fields_index hchildren]
    cases hw : fields.lookup indexField with
    | none => rfl
    | some w =>
      have hname := (sound_of_mem hsound (Dict.mem_of_lookup hw)).1
      exact absurd rfl (isFieldName_ne_index hname)
  · rw [Trie.lookup_fields h.tidy.distinct hchildren hindex]
    cases hw : fields.lookup name with
    | none =>
      cases hc : t.children.lookup (.field name) with
      | none => rfl
      | some c =>
        obtain ⟨-, q, v, hv⟩ := h.tidy.mem_children.1 (Dict.mem_of_lookup hc)
        rcases (h.find?_iff _ _).1 hv with hleaf | ⟨heq, -⟩
        · obtain ⟨w, hw', -⟩ := (field_mem_fieldLeaves hsound).1 hleaf
          exact nomatch hw.symm.trans hw'
        · cases heq
          exact absurd rfl hindex
    | some w =>
      have hmem := Dict.mem_of_lookup hw
      have hplace : (t.place (.field name)).Holds fun q v => (q, v) ∈ w.leaves name := by
        refine ⟨h.tidy.place _, fun q v => ?_⟩
        rw [(h.place _).find?_iff, sectionValues, field_mem_fieldLeaves hsound]
        constructor
        · rintro (⟨w', hw', hq⟩ | ⟨heq, -⟩)
          · obtain rfl := Option.some.inj (hw.symm.trans hw')
            exact hq
          · cases heq
            exact absurd rfl hindex
        · exact fun hq => .inl ⟨w, hw, hq⟩
      have hread := ih _ hmem (sound_of_mem hsound hmem).2 (positionsFit_of_mem hfit hmem) _ hplace
      rw [Option.bind_some, ← hread, Trie.place]
      cases t.children.lookup (.field name) with
      | none => rfl
      | some c => rfl

/-- **A section is read off as its normal form**, and nothing is read off where nothing is left. -/
theorem nested_readBack (hmarker : marker = none) (field : String) :
    (t.toValue field).map Value.sorted =
      (if (normalFields fields).isEmpty then none
        else some (.nested (normalFields fields))).map Value.sorted := by
  subst hmarker
  have hnormal := normalFields_distinct (names_distinct hsound)
  obtain ⟨hdistinct, hsorted⟩ := fields_readBack hsound hfit ih h
  have hchildren := children_are_fields h
  have hvalue : t.value? = none := by
    refine h.value?_eq_none fun v hv => ?_
    rcases hv with hleaf | ⟨heq, -⟩
    · exact nil_not_mem_fieldLeaves _ _ hleaf
    · cases heq
  have hread : ∀ c ∈ t.children, Trie.fields t.children ≠ [] := by
    rintro ⟨s, c⟩ hc hnil
    obtain ⟨rfl, q, v, hv⟩ := h.tidy.mem_children.1 hc
    rcases (h.find?_iff _ _).1 hv with hleaf | ⟨-, heq⟩
    · obtain ⟨name, _, q', hmem, heq, -⟩ := mem_fieldLeaves.1 hleaf
      cases heq
      rw [← Trie.find?_place] at hv
      obtain ⟨w, hw⟩ := Trie.exists_toValue hv name
      have hindex := isFieldName_ne_index (sound_of_mem hsound hmem).1
      have hlookup := Trie.lookup_fields h.tidy.distinct hchildren hindex
      rw [Dict.lookup_of_mem h.tidy.distinct hc, Option.bind_some, hw, hnil] at hlookup
      cases hlookup
    · cases heq
  obtain ⟨value, children⟩ := t
  obtain rfl : value = none := hvalue
  change (Trie.fields children).Pairwise _ at hdistinct
  change Tree.sorted (Trie.fields children) = _ at hsorted
  cases children with
  | nil =>
    have hempty : normalFields fields = [] := (sorted_eq_nil hnormal).1 hsorted.symm
    rw [hempty]
    rfl
  | cons c rest =>
    obtain ⟨s, c⟩ := c
    have hs : s.isSelector = false := hchildren (s, c) List.mem_cons_self
    have hleft : (normalFields fields).isEmpty = false := by
      rw [List.isEmpty_eq_false_iff]
      intro hempty
      rw [Tree.normal, hempty] at hsorted
      exact hread (s, c) List.mem_cons_self ((sorted_eq_nil hdistinct).1 hsorted)
    rw [Trie.toValue, if_neg (by simp), if_neg (by simp [hs]), Tree.ofList_eq_self hdistinct, hleft]
    exact congrArg (fun l => some (Value.nested l)) hsorted

end Fields

/-! ## Lists of sections -/

section Sections

variable {sections : List Tree} (hids : (identities? sections).isSome = true)

include hids

theorem identity_of_mem {s : Tree} (hs : s ∈ sections) :
    s.identity? = some (s.identity?.getD "") := by
  obtain ⟨ids, hids⟩ := Option.isSome_iff_exists.1 hids
  have hmem : s.identity? ∈ ids.map some :=
    (identities?_eq_some.1 hids).1 ▸ List.mem_map_of_mem hs
  obtain ⟨id, -, heq⟩ := List.mem_map.1 hmem
  rw [← heq, Option.getD_some]

theorem identities_nodup : (sections.map fun s => s.identity?.getD "").Nodup := by
  obtain ⟨ids, hids⟩ := Option.isSome_iff_exists.1 hids
  obtain ⟨hmap, -, hnodup⟩ := identities?_eq_some.1 hids
  have hmap' := congrArg (List.map (Option.getD · "")) hmap
  simp only [List.map_map, Function.comp_def, Option.getD_some, List.map_id'] at hmap'
  rwa [hmap']

theorem leaves_of_isSome (field : String) :
    (Value.repeated sections).leaves field = sectionLeaves 0 sections := by
  rw [Value.leaves, if_pos hids]
  split
  case isTrue hempty =>
    rw [List.isEmpty_iff.1 hempty]
    rfl
  case isFalse => rfl

variable {field : String} {t : Trie}
  (h : t.Holds fun q w => (q, w) ∈ (Value.repeated sections).leaves field)

include h

theorem section_holds {i : Nat} (hi : i < sections.length) :
    (t.place (.selector (sections[i].identity?.getD ""))).Holds
      (sectionValues sections[i] (some (indexValue i))) := by
  have hid := identity_of_mem hids (List.getElem_mem hi)
  have hget := List.getElem?_eq_getElem hi
  refine ⟨h.tidy.place _, fun q v => ?_⟩
  rw [(h.place _).find?_iff, selector_mem_leaves, sectionValues]
  constructor
  · rintro ⟨sections', heq, -, j, s, hs, hsid, hq⟩
    cases heq
    obtain rfl := sections_unique hids hget hs hid hsid
    obtain rfl := Option.some.inj (hget.symm.trans hs)
    exact hq.imp_right (And.imp_right fun heq => congrArg some heq.symm)
  · intro hq
    exact ⟨sections, rfl, hids, i, sections[i], hget, hid,
      hq.imp_right (And.imp_right fun heq => (Option.some.inj heq).symm)⟩

theorem children_are_sections : t.children.Perm (sections.map fun s =>
    (.selector (s.identity?.getD ""), t.place (.selector (s.identity?.getD "")))) := by
  have hnodup := identities_nodup hids
  have hleft : t.children.Nodup := h.tidy.distinct.imp fun hne heq => hne (congrArg _ heq)
  have hright : (sections.map fun s =>
      (Segment.selector (s.identity?.getD ""), t.place (.selector (s.identity?.getD "")))).Nodup :=
    List.pairwise_map.2 ((List.pairwise_map.1 hnodup).imp fun hne heq =>
      hne (Segment.selector.inj (congrArg Prod.fst heq)))
  refine (List.perm_ext_iff_of_nodup hleft hright).2 ?_
  rintro ⟨s, c⟩
  rw [h.tidy.mem_children, List.mem_map]
  constructor
  · rintro ⟨rfl, q, v, hv⟩
    have hleaf := (h.find?_iff _ _).1 hv
    rw [leaves_of_isSome hids] at hleaf
    obtain ⟨i, u, q', hu, heq, -⟩ := mem_sectionLeaves.1 hleaf
    cases heq
    exact ⟨u, List.mem_of_getElem? hu, rfl⟩
  · rintro ⟨u, hu, heq⟩
    cases heq
    obtain ⟨i, hi, rfl⟩ := List.getElem_of_mem hu
    -- the marker of its position is below every section
    refine ⟨rfl, [.field indexField], indexValue i, ?_⟩
    rw [← Trie.find?_place, (section_holds hids h hi).find?_iff]
    exact .inr ⟨rfl, rfl⟩

variable (hsound : ∀ s ∈ sections, s.isSound = true) (hlength : sections.length ≤ Nat.pow 2 64)
  (hfit : ∀ s ∈ sections, s.positionsFit = true)
  (ih : ∀ s ∈ sections, ∀ f ∈ s, f.2.ReadsBack f.1)

include hsound hlength hfit ih

/-- **A list of sections is read off with its sections in order**, each in its normal form. -/
theorem sections_readBack : (arranged (Trie.instances t.children)).map Tree.sorted =
    sections.map fun s => s.normal.sorted := by
  have hperm := (children_are_sections hids h).map fun c =>
    (c.2.index?, named c.1 (Tree.ofList (Trie.fields c.2.children)))
  rw [Trie.instances_eq_map, arranged_of_perm hperm ?_]
  · refine List.ext_getElem (by simp) fun i hi _ => ?_
    simp only [List.length_map] at hi
    simp only [List.getElem_map]
    have hmem := List.getElem_mem hi
    have hnames := names_distinct (hsound _ hmem)
    obtain ⟨hdistinct, hsorted⟩ := fields_readBack (hsound _ hmem) (hfit _ hmem) (ih _ hmem)
      (section_holds hids h hi)
    have hnormal : sections[i].normal.Pairwise (fun a b => a.1 ≠ b.1) :=
      normalFields_distinct hnames
    have hid := identity?_normal hnames (identity_of_mem hids hmem)
    rw [← identity?_of_sorted_eq hdistinct hnormal hsorted] at hid
    rw [Tree.ofList_eq_self hdistinct, named_eq_self _ hid, hsorted]
  · intro i hi
    simp only [List.length_map] at hi
    simp only [List.getElem_map]
    have hmarker := ((section_holds hids h hi).find?_iff [.field indexField] _).2 (.inr ⟨rfl, rfl⟩)
    rw [Trie.index?_eq, hmarker, Option.bind_some,
      indexOf?_indexValue (Nat.lt_of_lt_of_le hi hlength)]

theorem repeated_readBack : (t.toValue field).map Value.sorted =
    ((Value.repeated sections).normal? field).map Value.sorted := by
  have hchildren := children_are_sections hids h
  have hsections := sections_readBack hids h hsound hlength hfit ih
  have hvalue : t.value? = none := by
    refine h.value?_eq_none fun v hleaf => ?_
    rw [leaves_of_isSome hids] at hleaf
    obtain ⟨_, _, _, -, heq, -⟩ := mem_sectionLeaves.1 hleaf
    cases heq
  have hselectors : t.children.all (fun c => c.1.isSelector) = true := by
    refine List.all_eq_true.2 fun c hc => ?_
    obtain ⟨s, -, rfl⟩ := List.mem_map.1 (hchildren.mem_iff.1 hc)
    rfl
  have hempty : t.children.isEmpty = sections.isEmpty := by
    have hlen := hchildren.length_eq
    rw [List.length_map] at hlen
    rw [Bool.eq_iff_iff, List.isEmpty_iff_length_eq_zero, List.isEmpty_iff_length_eq_zero, hlen]
  rw [Trie.toValue_eq, hempty, hselectors, hvalue, Value.normal?]
  cases sections.isEmpty with
  | true => rfl
  | false =>
    rw [if_neg Bool.false_ne_true, if_pos rfl, if_neg Bool.false_ne_true, if_pos hids]
    simp only [Option.map_some, Value.sorted, sortedSections_eq_map, normalSections_eq_map,
      List.map_map, Function.comp_def, hsections]

end Sections

/-! ## Trees -/

theorem text_readsBack {field : String} (hfield : Vocabulary.isTypedSection field = false)
    (s : String) : (Value.text s).ReadsBack field := by
  refine readsBack_of_leaf ?_ ?_ ?_
  · simp [Value.text, Value.leaves, hfield]
  · simp [Value.text, leafValue, hfield]
  · simp [Value.text, Value.normal?, hfield]

theorem type_readsBack {field : String} (hfield : Vocabulary.isTypedSection field = true)
    (s : String) : (Value.text s).ReadsBack field := by
  intro _ _ t ht
  have htype : Vocabulary.isTypedSection typeField = false := by decide
  have hleaves : fieldLeaves [(typeField, .text s)] = (Value.text s).leaves field := by
    simp [Value.text, fieldLeaves, Value.leaves, htype, hfield, Leaf.under]
  have hsection : t.Holds (sectionValues [(typeField, .text s)] none) :=
    ⟨ht.tidy, fun q v => by rw [ht.find?_iff, sectionValues, hleaves]; simp⟩
  have hfields : ∀ f ∈ [(typeField, Value.text s)], f.2.ReadsBack f.1 := fun f hf => by
    rw [List.mem_singleton.1 hf]
    exact text_readsBack htype s
  have hread := nested_readBack rfl rfl hfields hsection rfl field
  rw [hread]
  simp [Value.text, normalFields, Value.normal?, htype, hfield]

/-- **Every value is read off as its normal form.** -/
theorem readsBack (v : Value) : ∀ field, v.ReadsBack field := by
  induction v using Value.induct with
  | scalar s =>
    intro field
    cases s with
    | text s =>
      cases hfield : Vocabulary.isTypedSection field with
      | true => exact type_readsBack hfield s
      | false => exact text_readsBack hfield s
    | bool b => exact readsBack_of_leaf rfl rfl rfl
    | int i => exact readsBack_of_leaf rfl rfl rfl
    | uint n => exact readsBack_of_leaf rfl rfl rfl
    | float x => exact readsBack_of_leaf rfl rfl rfl
  | list items => exact fun field => readsBack_of_leaf rfl rfl rfl
  | nested fields ih =>
    intro field
    cases fields with
    | nil => exact readsBack_of_leaf rfl rfl rfl
    | cons f rest =>
      intro hsound hfit t ht
      have hsection : t.Holds (sectionValues (f :: rest) none) :=
        ⟨ht.tidy, fun q v => by
          rw [ht.find?_iff, sectionValues, Value.leaves, if_neg (by simp)]
          simp⟩
      exact nested_readBack hsound hfit (fun g hg => ih g hg g.1) hsection rfl field
  | repeated sections ih =>
    intro field
    cases hids : (identities? sections).isSome with
    | false =>
      have hempty : sections.isEmpty = false := by
        cases sections with
        | nil => cases hids
        | cons s rest => rfl
      refine readsBack_of_leaf ?_ rfl ?_
      · simp [Value.leaves, hempty, hids]
      · simp [Value.normal?, hempty, hids]
    | true =>
      intro hsound hfit t ht
      rw [Value.positionsFit, Bool.or_eq_true, Option.isNone_iff_eq_none, Bool.and_eq_true,
        decide_eq_true_eq] at hfit
      obtain ⟨hlength, hfit⟩ := hfit.resolve_left fun hnone => by simp [hnone] at hids
      exact repeated_readBack hids ht (fun s hs => sound_of_isSome hsound hids hs) hlength
        (fun s hs => fieldsFit_of_mem hfit hs) fun s hs f hf => ih s hs f hf f.1

/-! ## Flat configurations -/

section Expand

variable {t : Tree} (ht : t.isSound = true)

include ht

theorem ofEntries_holds : (Trie.ofEntries t.flatten.entries).Holds (sectionValues t none) := by
  refine ⟨Trie.tidy_ofEntries _, fun q v => ?_⟩
  rw [Trie.find?_ofEntries t.flatten.entries_distinct, sectionValues]
  constructor
  · rintro ⟨key, rfl, hmem⟩
    exact .inl ((find?_flatten ht).1 (Dict.mem_entries.1 hmem))
  · rintro (hleaf | ⟨-, heq⟩)
    · have hparse : parse (render q) = q := parse_render_leaf (e := (q, v)) ht hleaf
      exact ⟨render q, hparse, Dict.mem_entries.2 (find?_flatten_render ht hleaf)⟩
    · cases heq

/-- **The tree of the flat configuration of a tree is the normal form of the tree**, up to the
order of fields. A tree in normal form is found again as it was. -/
theorem expand_flatten (hfit : t.positionsFit = true) :
    t.flatten.expand.sorted = t.normal.sorted ∧
      (t.isNormal = true → t.flatten.expand.sorted = t.sorted) := by
  have hholds := ofEntries_holds ht
  obtain ⟨hdistinct, hsorted⟩ := fields_readBack ht hfit (fun f _ => readsBack f.2 f.1) hholds
  have hexpand : t.flatten.expand.sorted = t.normal.sorted := by
    rw [FlatConfig.expand, Trie.toTree, Tree.ofList_eq_self hdistinct, hsorted]
  refine ⟨hexpand, fun hnormal => ?_⟩
  rw [hexpand, normal_eq_self hnormal]

end Expand

/-- A list of sections without sections, a section with nothing else, and a bare type. -/
def looseTree : Tree :=
  [("namespaces", .repeated [
      [("storage-engine", .text "memory"), ("name", .text "a.b")],
      [("name", .text "c"), ("sets", .repeated [])]]),
    ("xdr", .nested [("dcs", .repeated [])])]

/-- What is left of it. -/
def tightTree : Tree :=
  [("namespaces", .repeated [
      [("name", .text "a.b"), ("storage-engine", .nested [("type", .text "memory")])],
      [("name", .text "c")]])]

theorem expand_flatten_of_looseTree :
    looseTree.isSound = true ∧ looseTree.positionsFit = true ∧
      looseTree.flatten.expand.sorted = tightTree.sorted ∧
      tightTree.isSound = true ∧ tightTree.positionsFit = true ∧ tightTree.isNormal = true ∧
      tightTree.flatten.expand.sorted = tightTree.sorted := by
  have hloose : looseTree.isSound = true := by decide +kernel
  have hlooseFit : looseTree.positionsFit = true := by decide +kernel
  have htight : tightTree.isSound = true := by decide +kernel
  have htightFit : tightTree.positionsFit = true := by decide +kernel
  have hnormal : tightTree.isNormal = true := by decide +kernel
  have hsame : looseTree.normal.sorted = tightTree.sorted := by rfl
  refine ⟨hloose, hlooseFit, ?_, htight, htightFit, hnormal, ?_⟩
  · rw [(expand_flatten hloose hlooseFit).1, hsame]
  · exact (expand_flatten htight htightFit).2 hnormal

end Reconfig
