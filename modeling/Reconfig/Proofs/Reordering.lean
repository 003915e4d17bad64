import Mathlib.Data.List.Nodup
import Mathlib.Data.Option.Basic
import Reconfig.Proofs.Leaves

/-!
# Reordered sections

A list of sections that can be told apart has no order that its flat configuration keeps, but for
the markers of positions. Nothing is asked of the names of fields here: the entries of different
instances have different keys however the names are chosen, because no identity holds a brace.

* `Value.Reordered`, `FieldsReordered`, `SectionsReordered`: sections told apart by their
  identities in another order, at any depth outside the lists that are kept whole;
* `FlatConfig.SameButMarkers`: equal configurations but for the values of markers;
* `parse_marker`: the key of a marker is read back as one;
* `instanceKey_unique`: a key begins with the key of one instance of a list at most;
* `instances_perm`: the order of instances is not seen in a look-up;
* **`sameButMarkers_of_reordered`**: trees in another order have the same flat configuration but for
  the markers.
-/

namespace Reconfig

open Vocabulary (nameField typeField indexField)
open Reconfig.Path (parse)

/-! ## The relation -/

mutual

/-- The second value is the first one with sections in another order. -/
inductive Value.Reordered : Value → Value → Prop
  /-- Nothing is moved. -/
  | refl (v : Value) : Value.Reordered v v
  /-- Sections are moved below the fields. -/
  | nested {a b : List (String × Value)} (fields : FieldsReordered a b) :
    Value.Reordered (.nested a) (.nested b)
  /-- Sections that can be told apart are moved, after those below each of them. -/
  | repeated {a b c : List (List (String × Value))} (apart : (identities? a).isSome = true)
    (inner : SectionsReordered a b) (outer : b.Perm c) : Value.Reordered (.repeated a) (.repeated c)

/-- Sections are moved below the fields, which stay in their order. -/
inductive FieldsReordered : List (String × Value) → List (String × Value) → Prop
  | nil : FieldsReordered [] []
  | cons {v w : Value} {a b : List (String × Value)} (name : String) (head : Value.Reordered v w)
    (tail : FieldsReordered a b) : FieldsReordered ((name, v) :: a) ((name, w) :: b)

/-- Sections are moved below the sections of a list, which stay in their order. -/
inductive SectionsReordered :
    List (List (String × Value)) → List (List (String × Value)) → Prop
  | nil : SectionsReordered [] []
  | cons {s t : List (String × Value)} {a b : List (List (String × Value))}
    (head : FieldsReordered s t) (tail : SectionsReordered a b) :
    SectionsReordered (s :: a) (t :: b)

end

/-- The second tree is the first one with sections in another order. -/
abbrev Tree.Reordered (t u : Tree) : Prop := FieldsReordered t u

theorem FieldsReordered.refl (t : List (String × Value)) : FieldsReordered t t := by
  induction t with
  | nil => exact .nil
  | cons f rest ih => exact .cons f.1 (.refl f.2) ih

/-! ## Identities -/

theorem Value.Reordered.text?_eq {v w : Value} (h : v.Reordered w) : v.text? = w.text? := by
  cases h <;> rfl

theorem FieldsReordered.find?_text {t u : Tree} (h : t.Reordered u) (name : String) :
    (t.find? name).map Value.text? = (u.find? name).map Value.text? := by
  rw [Tree.find?, Tree.find?]
  induction t generalizing u with
  | nil =>
    cases h
    rfl
  | cons f rest ih =>
    cases h with
    | cons field head tail =>
      rw [List.lookup_cons, List.lookup_cons]
      cases name == field with
      | true => exact congrArg some head.text?_eq
      | false => exact ih tail

theorem FieldsReordered.identity?_eq {t u : Tree} (h : t.Reordered u) :
    t.identity? = u.identity? := by
  have hjoin : ∀ s : Tree, s.identity? = (((s.find? nameField).map Value.text?).or
      ((s.find? typeField).map Value.text?)).join := by
    intro s
    rw [Tree.identity?]
    cases s.find? nameField with
    | some v => rfl
    | none => cases s.find? typeField <;> rfl
  rw [hjoin, hjoin, h.find?_text, h.find?_text]

theorem SectionsReordered.identities_eq {a b : List Tree} (h : SectionsReordered a b) :
    a.map Tree.identity? = b.map Tree.identity? := by
  induction a generalizing b with
  | nil =>
    cases h
    rfl
  | cons s rest ih =>
    cases h with
    | cons head tail => rw [List.map_cons, List.map_cons, head.identity?_eq, ih tail]

theorem identities?_isSome {sections : List Tree} :
    (identities? sections).isSome = true ↔
      (∀ t : Tree, t ∈ sections → ∃ id, t.identity? = some id ∧ isBraceFree id = true) ∧
        (sections.map Tree.identity?).Nodup := by
  constructor
  · intro h
    obtain ⟨ids, hids⟩ := Option.isSome_iff_exists.1 h
    obtain ⟨hmap, hfree, hnodup⟩ := identities?_eq_some.1 hids
    refine ⟨fun t ht => ?_, hmap ▸ hnodup.map (Option.some_injective String)⟩
    have hmem : t.identity? ∈ ids.map some := hmap ▸ List.mem_map_of_mem ht
    obtain ⟨id, hid, heq⟩ := List.mem_map.1 hmem
    exact ⟨id, heq.symm, hfree id hid⟩
  · rintro ⟨hids, hnodup⟩
    have hmap : sections.map Tree.identity? =
        (sections.map fun t => (Tree.identity? t).getD "").map some := by
      rw [List.map_map]
      refine List.map_congr_left fun t ht => ?_
      obtain ⟨id, hid, -⟩ := hids t ht
      rw [Function.comp_apply, hid, Option.getD_some]
    refine Option.isSome_iff_exists.2 ⟨_, identities?_eq_some.2 ⟨hmap, fun id hid => ?_, ?_⟩⟩
    · obtain ⟨t, ht, rfl⟩ := List.mem_map.1 hid
      obtain ⟨id, hid, hfree⟩ := hids t ht
      rwa [hid]
    · exact List.Nodup.of_map some (hmap ▸ hnodup)

theorem identities?_isSome_of_perm {a b : List Tree} (h : (identities? a).isSome = true)
    (hperm : a.Perm b) : (identities? b).isSome = true := by
  rw [identities?_isSome] at h ⊢
  exact ⟨fun t ht => h.1 t (hperm.mem_iff.2 ht), (hperm.map _).nodup_iff.1 h.2⟩

theorem SectionsReordered.identities?_isSome {a b : List Tree} (h : SectionsReordered a b)
    (hids : (identities? a).isSome = true) : (identities? b).isSome = true := by
  obtain ⟨ids, hsome⟩ := Option.isSome_iff_exists.1 hids
  rw [identities?_eq_some, h.identities_eq] at hsome
  exact Option.isSome_iff_exists.2 ⟨ids, identities?_eq_some.2 hsome⟩

/-! ## Equal but for the markers -/

/-- The configurations have the same keys, and the same value at each key that is not the marker of
a position. -/
structure FlatConfig.SameButMarkers (a b : FlatConfig) : Prop where
  contains_eq : ∀ key, a.contains key = b.contains key
  find?_eq : ∀ key, (parse key).isIndexMarker = false → a.find? key = b.find? key

namespace FlatConfig.SameButMarkers

theorem refl (a : FlatConfig) : a.SameButMarkers a := ⟨fun _ => rfl, fun _ _ => rfl⟩

theorem trans {a b c : FlatConfig} (hab : a.SameButMarkers b) (hbc : b.SameButMarkers c) :
    a.SameButMarkers c where
  contains_eq key := (hab.contains_eq key).trans (hbc.contains_eq key)
  find?_eq key hx := (hab.find?_eq key hx).trans (hbc.find?_eq key hx)

theorem symm {a b : FlatConfig} (h : a.SameButMarkers b) : b.SameButMarkers a where
  contains_eq key := (h.contains_eq key).symm
  find?_eq key hx := (h.find?_eq key hx).symm

theorem append {l l' m m' : List (String × Value)}
    (hl : SameButMarkers (.ofList l) (.ofList l')) (hm : SameButMarkers (.ofList m) (.ofList m')) :
    SameButMarkers (.ofList (l ++ m)) (.ofList (l' ++ m')) where
  contains_eq key := by
    have hleft := hl.contains_eq key
    have hright := hm.contains_eq key
    rw [Dict.contains, Dict.contains] at hleft hright ⊢
    rw [Dict.find?_ofList_append, Dict.find?_ofList_append, Option.isSome_or, Option.isSome_or,
      hleft, hright]
  find?_eq key hx := by
    rw [Dict.find?_ofList_append, Dict.find?_ofList_append, hl.find?_eq key hx, hm.find?_eq key hx]

theorem marker {key : String} (h : (parse key).isIndexMarker = true) (v w : Value) :
    SameButMarkers (.ofList [(key, v)]) (.ofList [(key, w)]) := by
  have hfind : ∀ (u : Value) (other : String), Dict.find? (.ofList [(key, u)]) other =
      if other = key then some u else none := fun u other => Dict.find?_insert .empty key other u
  constructor
  · intro other
    rw [Dict.contains, Dict.contains, hfind, hfind]
    split_ifs <;> rfl
  · intro other hx
    have hne : other ≠ key := by
      rintro rfl
      rw [h] at hx
      cases hx
    rw [hfind, hfind, if_neg hne, if_neg hne]

end FlatConfig.SameButMarkers

/-! ## Lists in parts -/

theorem Dict.ofList_flatMap_of_perm {α β : Type} {f : β → List (String × α)} {a b : List β}
    (hperm : a.Perm b)
    (hapart : a.Pairwise fun x y => ∀ e ∈ f x, ∀ e' ∈ f y, e.1 ≠ e'.1) :
    Dict.ofList (a.flatMap f) = Dict.ofList (b.flatMap f) := by
  refine Dict.ext_find? fun key => ?_
  induction hperm with
  | nil => rfl
  | cons x _ ih =>
    rw [List.flatMap_cons, List.flatMap_cons, find?_ofList_append, find?_ofList_append,
      ih (List.pairwise_cons.1 hapart).2]
  | swap x y rest =>
    have hxy := (List.pairwise_cons.1 hapart).1 x List.mem_cons_self
    have hnone : (ofList (f y)).find? key = none ∨ (ofList (f x)).find? key = none := by
      by_cases hkey : ∃ e ∈ f y, e.1 = key
      · obtain ⟨e, he, rfl⟩ := hkey
        exact .inr (find?_ofList_eq_none fun e' he' heq => hxy e he e' he' heq.symm)
      · exact .inl (find?_ofList_eq_none fun e he heq => hkey ⟨e, he, heq⟩)
    simp only [List.flatMap_cons, find?_ofList_append, Option.or_assoc]
    congr 1
    rcases hnone with hnone | hnone <;> rw [hnone] <;> simp
  | trans hab _ ihab ihbc =>
    have hsymm : ∀ {x y : β}, (∀ e ∈ f x, ∀ e' ∈ f y, e.1 ≠ e'.1) →
        ∀ e ∈ f y, ∀ e' ∈ f x, e.1 ≠ e'.1 := fun h e he e' he' heq => h e' he' e he heq.symm
    exact (ihab hapart).trans (ihbc ((hab.pairwise_iff hsymm).1 hapart))

/-! ## Keys of instances -/

namespace Key

theorem prefix_join (base field : String) : base.toList <+: (join base field).toList := by
  rw [join]
  split_ifs with h
  · rw [String.isEmpty_iff] at h
    rw [h]
    exact List.nil_prefix
  · rw [String.toList_append, String.toList_append, List.append_assoc]
    exact List.prefix_append _ _

theorem toList_instanceKey (list id : String) :
    (instanceKey list id).toList = list.toList ++ '.' :: '{' :: (id.toList ++ ['}']) := by
  simp [instanceKey]

theorem prefix_instanceKey (list id : String) : list.toList <+: (instanceKey list id).toList := by
  rw [toList_instanceKey]
  exact List.prefix_append _ _

/-- **A key begins with the key of one instance of a list at most.** -/
theorem instanceKey_unique {list i j : String} (hi : isBraceFree i = true)
    (hj : isBraceFree j = true) {key : List Char} (hik : (instanceKey list i).toList <+: key)
    (hjk : (instanceKey list j).toList <+: key) : i = j := by
  -- the identity ends at the first closing brace
  have htake : ∀ (id : String) (rest : List Char), isBraceFree id = true →
      (id.toList ++ '}' :: rest).takeWhile (· != '}') = id.toList := by
    intro id rest hid
    have hfree : ∀ c ∈ id.toList, (c != '}') = true := fun c hc =>
      (Bool.and_eq_true_iff.1 (List.all_eq_true.1 hid c hc)).2
    rw [List.takeWhile_append_of_pos hfree]
    simp
  obtain ⟨r, rfl⟩ := hik
  obtain ⟨s, hs⟩ := hjk
  rw [toList_instanceKey, toList_instanceKey] at hs
  simp only [List.append_assoc, List.cons_append, List.append_cancel_left_eq, List.cons.injEq,
    true_and, List.nil_append] at hs
  rw [← String.toList_inj, ← htake i r hi, ← hs, htake j s hj]

theorem tokensFrom_marker (inBraces : Bool) (before s : List Char) :
    (tokensFrom inBraces before (s ++ '}' :: '.' :: indexField.toList)).getLast? =
      some indexField.toList := by
  induction s generalizing inBraces before with
  | nil =>
    have hfield : tokensFrom false [] indexField.toList = [indexField.toList] := by decide
    cases inBraces <;> simp [tokensFrom, hfield]
  | cons c rest ih =>
    rw [List.cons_append, tokensFrom]
    split_ifs
    · exact ih _ _
    · exact ih _ _
    · rw [List.getLast?_cons, ih, Option.getD_some]
    · exact ih _ _

theorem parse_marker (list id : String) :
    (parse (join (instanceKey list id) indexField)).isIndexMarker = true := by
  have hkey : (join (instanceKey list id) indexField).toList =
      (list.toList ++ '.' :: '{' :: id.toList) ++ '}' :: '.' :: indexField.toList := by
    have hne : (instanceKey list id).isEmpty = false := by
      rw [← Bool.not_eq_true, String.isEmpty_iff, ← String.toList_inj, toList_instanceKey]
      simp
    rw [join, if_neg (by simp [hne])]
    simp [toList_instanceKey]
  have hlast : (tokens (join (instanceKey list id) indexField)).getLast? =
      some indexField.toList := by
    unfold tokens
    split
    · rename_i h
      rw [hkey] at h
      simp at h
    · rw [hkey]
      exact tokensFrom_marker _ _ _
  rw [Path.isIndexMarker, Path.baseField?, parse, List.getLast?_map, hlast]
  decide

end Key

mutual

theorem prefix_of_mem_valueEntries (key field : String) : ∀ v : Value,
    ∀ e ∈ valueEntries key field v, key.toList <+: e.1.toList
  | .scalar (.text s), e, he => by
    rw [valueEntries] at he
    split at he <;> obtain rfl := List.mem_singleton.1 he
    · exact Key.prefix_join _ _
    · exact List.prefix_rfl
  | .scalar (.bool _), e, he | .scalar (.int _), e, he | .scalar (.uint _), e, he
  | .scalar (.float _), e, he | .list _, e, he => by
    obtain rfl := List.mem_singleton.1 he
    exact List.prefix_rfl
  | .nested fields, e, he => by
    rw [valueEntries] at he
    split at he
    · obtain rfl := List.mem_singleton.1 he
      exact List.prefix_rfl
    · exact prefix_of_mem_fieldEntries key fields e he
  | .repeated sections, e, he => by
    rw [valueEntries] at he
    split_ifs at he
    · cases he
    · exact prefix_of_mem_sectionEntries key 0 sections e he
    · obtain rfl := List.mem_singleton.1 he
      exact List.prefix_rfl

theorem prefix_of_mem_fieldEntries (base : String) : ∀ fields : List (String × Value),
    ∀ e ∈ fieldEntries base fields, base.toList <+: e.1.toList
  | [], _, he => nomatch he
  | (name, v) :: rest, e, he => by
    rw [fieldEntries, List.mem_append] at he
    rcases he with he | he
    · exact (Key.prefix_join base name).trans (prefix_of_mem_valueEntries _ name v e he)
    · exact prefix_of_mem_fieldEntries base rest e he

theorem prefix_of_mem_sectionEntries (key : String) (position : Nat) :
    ∀ sections : List (List (String × Value)), ∀ e ∈ sectionEntries key position sections,
      key.toList <+: e.1.toList
  | [], _, he => nomatch he
  | fields :: rest, e, he => by
    have hinstance := Key.prefix_instanceKey key ((Tree.identity? fields).getD "")
    rw [sectionEntries, List.mem_append, List.mem_cons] at he
    rcases he with he | rfl | he
    · exact hinstance.trans (prefix_of_mem_fieldEntries _ fields e he)
    · exact hinstance.trans (Key.prefix_join _ _)
    · exact prefix_of_mem_sectionEntries key (position + 1) rest e he

end

/-! ## The parts of a list of sections -/

/-- The key of a section of the list at a key. -/
def Tree.instanceKey (key : String) (t : Tree) : String :=
  Key.instanceKey key (t.identity?.getD "")

/-- The entries of one section of a list, its marker without its position. -/
def instanceEntries (key : String) (t : Tree) : List (String × Value) :=
  fieldEntries (t.instanceKey key) t ++ [(Key.join (t.instanceKey key) indexField, indexValue 0)]

theorem prefix_of_mem_instanceEntries {key : String} {t : Tree} {e : String × Value}
    (he : e ∈ instanceEntries key t) : (t.instanceKey key).toList <+: e.1.toList := by
  rcases List.mem_append.1 he with he | he
  · exact prefix_of_mem_fieldEntries _ t e he
  · rw [List.mem_singleton.1 he]
    exact Key.prefix_join _ _

open FlatConfig (SameButMarkers)

theorem sectionEntries_same (key : String) (position : Nat) (sections : List Tree) :
    SameButMarkers (.ofList (sectionEntries key position sections))
      (.ofList (sections.flatMap (instanceEntries key))) := by
  induction sections generalizing position with
  | nil => exact .refl _
  | cons t rest ih =>
    have hmarker : (parse (Key.join (t.instanceKey key) indexField)).isIndexMarker = true :=
      Key.parse_marker key _
    have hfirst := (SameButMarkers.refl (.ofList (fieldEntries (t.instanceKey key) t))).append
      (.marker hmarker (indexValue position) (indexValue 0))
    have hsplit : sectionEntries key position (t :: rest) =
        (fieldEntries (t.instanceKey key) t ++
          [(Key.join (t.instanceKey key) indexField, indexValue position)]) ++
            sectionEntries key (position + 1) rest := by
      rw [sectionEntries, List.append_assoc]
      rfl
    rw [hsplit, List.flatMap_cons]
    exact hfirst.append (ih (position + 1))

/-- **The order of sections that can be told apart is not seen in a look-up.** -/
theorem ofList_instances_of_perm {key : String} {a b : List Tree}
    (hids : (identities? a).isSome = true) (hperm : a.Perm b) :
    Dict.ofList (a.flatMap (instanceEntries key)) =
      Dict.ofList (b.flatMap (instanceEntries key)) := by
  obtain ⟨hids, hnodup⟩ := identities?_isSome.1 hids
  refine Dict.ofList_flatMap_of_perm hperm ((List.pairwise_map.1 hnodup).imp_of_mem ?_)
  intro x y hx hy hne e he e' he' heq
  obtain ⟨i, hi, hifree⟩ := hids x hx
  obtain ⟨j, hj, hjfree⟩ := hids y hy
  have hxe := prefix_of_mem_instanceEntries he
  have hye := prefix_of_mem_instanceEntries he'
  rw [Tree.instanceKey, hi, Option.getD_some, heq] at hxe
  rw [Tree.instanceKey, hj, Option.getD_some] at hye
  rw [hi, hj, Key.instanceKey_unique hifree hjfree hxe hye] at hne
  exact hne rfl

/-! ## Trees -/

mutual

theorem valueEntries_reordered (key field : String) : ∀ v w : Value, v.Reordered w →
    SameButMarkers (.ofList (valueEntries key field v)) (.ofList (valueEntries key field w))
  | _, _, .refl v => .refl _
  | .nested a, .nested b, .nested fields => by
    have hempty : a.isEmpty = b.isEmpty := by cases fields <;> rfl
    rw [valueEntries, valueEntries, hempty]
    split
    · exact .refl _
    · exact fieldEntries_reordered key a b fields
  | .repeated a, .repeated c, .repeated (b := b) apart inner outer => by
    have hinner := inner.identities?_isSome apart
    have hlength : a.length = c.length := by
      rw [← List.length_map Tree.identity?, inner.identities_eq, List.length_map, outer.length_eq]
    have hempty : a.isEmpty = c.isEmpty := by
      rw [Bool.eq_iff_iff, List.isEmpty_iff_length_eq_zero, List.isEmpty_iff_length_eq_zero,
        hlength]
    rw [valueEntries, valueEntries, hempty, if_pos apart,
      if_pos (identities?_isSome_of_perm hinner outer)]
    split
    · exact .refl _
    · have hparts := sectionEntries_reordered key a b inner
      rw [ofList_instances_of_perm hinner outer] at hparts
      exact (sectionEntries_same key 0 a).trans (hparts.trans (sectionEntries_same key 0 c).symm)

theorem fieldEntries_reordered (base : String) : ∀ a b : List (String × Value),
    FieldsReordered a b →
      SameButMarkers (.ofList (fieldEntries base a)) (.ofList (fieldEntries base b))
  | [], [], .nil => .refl _
  | (_, v) :: a, (_, w) :: b, .cons name head tail => by
    rw [fieldEntries, fieldEntries]
    exact (valueEntries_reordered _ name v w head).append (fieldEntries_reordered base a b tail)

theorem sectionEntries_reordered (key : String) : ∀ a b : List (List (String × Value)),
    SectionsReordered a b → SameButMarkers (.ofList (a.flatMap (instanceEntries key)))
      (.ofList (b.flatMap (instanceEntries key)))
  | [], [], .nil => .refl _
  | s :: a, t :: b, .cons head tail => by
    have hkey : Tree.instanceKey key s = Tree.instanceKey key t := by
      rw [Tree.instanceKey, Tree.instanceKey, head.identity?_eq]
    rw [List.flatMap_cons, List.flatMap_cons, instanceEntries, instanceEntries, hkey]
    exact ((fieldEntries_reordered _ s t head).append (.refl _)).append
      (sectionEntries_reordered key a b tail)

end

/-- **Trees whose sections are in another order** have the same flat configuration, but for the
markers of positions. -/
theorem sameButMarkers_of_reordered {t u : Tree} (h : t.Reordered u) :
    t.flatten.SameButMarkers u.flatten :=
  fieldEntries_reordered "" t u h

end Reconfig
