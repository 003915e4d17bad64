import Reconfig.Proofs.RoundTrip
import Reconfig.Proofs.Steps

/-!
# What the places of a flat configuration become

The keys of a flat configuration may say anything: a value with others below it, fields beside
instances, markers of positions anywhere. What its trie is read as depends on the segments below a
path alone: without any, it is the value at the path; with selectors only, the list of their
instances; else the section of the fields that all of them become, selectors under their text.

* `Segment.ofToken_label`: a segment of a key is told by the name under which it is a field;
* `FlatConfig.fieldsAt`, `mem_fieldsAt_iff`: the section that the places below a path become;
* `FlatConfig.order`, `order_pairwise`: the instances below a path in the order of their list;
* `FlatConfig.instanceAt`: the section that an instance becomes;
* **`toValue_place`**: what a place becomes.
-/

namespace Reconfig

open Vocabulary (nameField typeField indexField)
open Reconfig.Path (parse)

/-! ## Names of fields -/

theorem Segment.toList_label (s : Segment) : s.label.toList = s.render := by
  cases s with
  | field name => rfl
  | selector id => simp [label, render]

theorem Segment.ofToken_label (token : List Char) :
    ofToken (ofToken token).label.toList = ofToken token := by
  rw [toList_label, render_ofToken]

theorem leafValue_eq_self {field : String} {v : Value}
    (h : Vocabulary.isTypedSection field = true → v.text? = none) : leafValue field v = v := by
  unfold leafValue
  split
  · split_ifs with hfield
    · exact nomatch h hfield
    · rfl
  · rfl

/-- The order of places by their marked positions, those without one last. -/
def Trie.before (a b : Segment × Trie) : Bool := inPlace (a.2.index?, []) (b.2.index?, [])

theorem Trie.before_trans (a b c : Segment × Trie) (hab : before a b = true)
    (hbc : before b c = true) : before a c = true := inPlace_trans _ _ _ hab hbc

theorem Trie.before_total (a b : Segment × Trie) : (before a b || before b a) = true :=
  inPlace_total _ _

theorem Trie.arranged_instances (children : List (Segment × Trie)) :
    arranged (instances children) = (children.mergeSort before).map fun c =>
      named c.1 (Tree.ofList (fields c.2.children)) := by
  have hsort := List.map_mergeSort (r := before) (s := inPlace)
    (f := fun c : Segment × Trie => (c.2.index?, named c.1 (Tree.ofList (fields c.2.children))))
    fun a (_ : a ∈ children) b _ => rfl
  rw [instances_eq_map, arranged, ← hsort, List.map_map]
  rfl

namespace FlatConfig

variable {f : FlatConfig} {p : Path}

theorem Reaches.ofToken_label {s : Segment} (h : f.Reaches (p ++ [s])) :
    Segment.ofToken s.label.toList = s := by
  obtain ⟨q, hq, hpq⟩ := h
  obtain ⟨key, -, rfl⟩ := List.mem_map.1 hq
  have hs : s ∈ parse key := hpq.subset (List.mem_append_right _ List.mem_cons_self)
  obtain ⟨token, -, rfl⟩ := List.mem_map.1 hs
  exact Segment.ofToken_label token

theorem Reaches.label_inj {s t : Segment} (hs : f.Reaches (p ++ [s])) (ht : f.Reaches (p ++ [t]))
    (h : s.label = t.label) : s = t := by
  rw [← hs.ofToken_label, h, ht.ofToken_label]

/-! ## Fields below a path -/

/-- The fields that the places below a path become. -/
def fieldsAt (f : FlatConfig) (p : Path) : Tree := Trie.fields (f.place p).children

theorem fieldsAt_distinct : (f.fieldsAt p).Pairwise (fun a b => a.1 ≠ b.1) := by
  have hdistinct := (place_holds (f := f) p).tidy.distinct
  refine Trie.fields_distinct (hdistinct.imp_of_mem fun {a b} ha hb hne heq => ?_)
  exact hne ((mem_children_place.1 ha).2.label_inj (mem_children_place.1 hb).2 heq)

/-- **A field of a section** is what the place below a segment becomes, unless it is a marker. -/
theorem mem_fieldsAt_iff {name : String} {w : Value} :
    (name, w) ∈ f.fieldsAt p ↔ ∃ s, s ≠ .field indexField ∧ f.Reaches (p ++ [s]) ∧
      name = s.label ∧ (f.place (p ++ [s])).toValue s.label = some w := by
  rw [fieldsAt, Trie.fields_eq_filterMap, List.mem_filterMap]
  constructor
  · rintro ⟨⟨s, c⟩, hc, he⟩
    split_ifs at he with hs
    obtain ⟨v, hv, heq⟩ := Option.map_eq_some_iff.1 he
    obtain ⟨rfl, hreaches⟩ := mem_children_place.1 hc
    cases heq
    exact ⟨s, hs, hreaches, rfl, hv⟩
  · rintro ⟨s, hs, hreaches, rfl, hw⟩
    refine ⟨(s, f.place (p ++ [s])), mem_children_place.2 ⟨rfl, hreaches⟩, ?_⟩
    rw [if_neg hs]
    exact congrArg (Option.map fun v => (s.label, v)) hw

theorem exists_toValue_place {q : Path} (h : f.Reaches q) (field : String) :
    ∃ w, (f.place q).toValue field = some w := by
  obtain ⟨r, v, hv⟩ := reaches_iff.1 h
  exact Trie.exists_toValue (((place_holds q).find?_iff r v).2 hv) field

theorem find?_fieldsAt {s : Segment} (hs : s ≠ .field indexField) (h : f.Reaches (p ++ [s])) :
    (f.fieldsAt p).find? s.label = (f.place (p ++ [s])).toValue s.label := by
  obtain ⟨w, hw⟩ := exists_toValue_place h s.label
  rw [hw]
  exact Dict.lookup_of_mem fieldsAt_distinct (mem_fieldsAt_iff.2 ⟨s, hs, h, rfl, hw⟩)

theorem find?_fieldsAt_of_not_reaches {name : String}
    (h : ¬ f.Reaches (p ++ [Segment.ofToken name.toList])) :
    (f.fieldsAt p).find? name = none := by
  refine Dict.lookup_eq_none_of_not_mem ?_
  rintro ⟨_, w⟩ he rfl
  obtain ⟨s, -, hs, heq, -⟩ := mem_fieldsAt_iff.1 he
  have hs' : Segment.ofToken s.label.toList = s := hs.ofToken_label
  rw [← heq] at hs'
  exact h (hs' ▸ hs)

theorem expand_eq_fieldsAt : f.expand = f.fieldsAt [] :=
  Tree.ofList_eq_self (fieldsAt_distinct (f := f) (p := []))

/-! ## Instances below a path -/

/-- The identities of the instances below a path: first those with a position, in the order of
the positions, then the others in the order of their keys. -/
def order (f : FlatConfig) (p : Path) : List String :=
  ((f.place p).children.mergeSort Trie.before).filterMap fun c => c.1.selector?

/-- The section that an instance becomes. -/
def instanceAt (f : FlatConfig) (p : Path) (id : String) : Tree :=
  named (.selector id) (f.fieldsAt (p.select id))

theorem mem_order {id : String} : id ∈ f.order p ↔ f.Reaches (p.select id) := by
  rw [order, List.mem_filterMap]
  constructor
  · rintro ⟨⟨s, c⟩, hc, hid⟩
    rw [List.mem_mergeSort, mem_children_place] at hc
    cases s with
    | field name => cases hid
    | selector id' =>
      cases hid
      exact hc.2
  · intro h
    exact ⟨(.selector id, f.place (p.select id)),
      List.mem_mergeSort.2 (mem_children_place.2 ⟨rfl, h⟩), rfl⟩

theorem pairwise_order {R : Segment × Trie → Segment × Trie → Prop}
    (h : ((f.place p).children.mergeSort Trie.before).Pairwise R) :
    (f.order p).Pairwise fun a b =>
      R (.selector a, f.place (p.select a)) (.selector b, f.place (p.select b)) := by
  rw [order, List.pairwise_filterMap]
  refine h.imp_of_mem fun {a b} ha hb hab id hid id' hid' => ?_
  obtain ⟨s, c⟩ := a
  obtain ⟨t, d⟩ := b
  obtain ⟨rfl, -⟩ := mem_children_place.1 (List.mem_mergeSort.1 ha)
  obtain ⟨rfl, -⟩ := mem_children_place.1 (List.mem_mergeSort.1 hb)
  cases s <;> cases hid
  cases t <;> cases hid'
  exact hab

theorem order_nodup : (f.order p).Nodup := by
  have hdistinct := (List.mergeSort_perm (f.place p).children Trie.before).symm.pairwise
    (place_holds p).tidy.distinct Ne.symm
  exact (pairwise_order hdistinct).imp fun hne heq => hne (congrArg Segment.selector heq)

/-- The first of two instances does not come after the second. -/
def InOrder (f : FlatConfig) (p : Path) (a b : String) : Prop :=
  Trie.before (.selector a, f.place (p.select a)) (.selector b, f.place (p.select b)) = true

theorem order_pairwise : (f.order p).Pairwise (f.InOrder p) :=
  pairwise_order (List.pairwise_mergeSort Trie.before_trans Trie.before_total (f.place p).children)

theorem order_unique {id : String} {i j : Nat} (hi : (f.order p)[i]? = some id)
    (hj : (f.order p)[j]? = some id) : i = j := by
  obtain ⟨hlt, -⟩ := List.getElem?_eq_some_iff.1 hi
  exact (List.getElem?_inj hlt order_nodup).1 (hi.trans hj.symm)

/-! ## Places -/

theorem find?_place (q : Path) : (f.place p).find? q = f.valueAt? (p ++ q) := by
  rw [Option.ext_iff]
  exact fun v => (place_holds p).find?_iff q v

theorem value?_place : (f.place p).value? = f.valueAt? p := by
  rw [← List.append_nil p, ← find?_place, List.append_nil]
  rfl

theorem arranged_instances_place (h : (f.steps p).all Segment.isSelector = true) :
    arranged (Trie.instances (f.place p).children) = (f.order p).map (f.instanceAt p) := by
  rw [Trie.arranged_instances, order, List.map_filterMap, ← List.filterMap_eq_map]
  refine List.filterMap_congr ?_
  rintro ⟨s, c⟩ hc
  obtain ⟨rfl, hs⟩ := mem_children_place.1 (List.mem_mergeSort.1 hc)
  have hselector := List.all_eq_true.1 h s (mem_steps.2 hs)
  cases s with
  | field name => cases hselector
  | selector id =>
    change some (named _ (Tree.ofList (f.fieldsAt (p.select id)))) = some (f.instanceAt p id)
    rw [Tree.ofList_eq_self fieldsAt_distinct, instanceAt]

/-- **What a place becomes**: the value at its path, the list of the instances below it, or the
section of all that is below it. -/
theorem toValue_place (field : String) : (f.place p).toValue field =
    if (f.steps p).isEmpty then (f.valueAt? p).map (leafValue field)
    else if (f.steps p).all Segment.isSelector then
      some (.repeated ((f.order p).map (f.instanceAt p)))
    else some (.nested (f.fieldsAt p)) := by
  have hempty : (f.steps p).isEmpty = (f.place p).children.isEmpty := by
    rw [← map_fst_children_place, List.isEmpty_map]
  have hall : (f.steps p).all Segment.isSelector =
      (f.place p).children.all fun c => c.1.isSelector := by
    rw [← map_fst_children_place, List.all_map]
    rfl
  rw [Trie.toValue_eq, value?_place, ← hempty, ← hall, ← fieldsAt,
    Tree.ofList_eq_self fieldsAt_distinct]
  split_ifs with hnone hselectors
  · rfl
  · rw [arranged_instances_place hselectors]
  · rfl

theorem toValue_of_field {name : String} (hname : f.Reaches (p.child name)) (field : String) :
    (f.place p).toValue field = some (.nested (f.fieldsAt p)) := by
  have hmem : .field name ∈ f.steps p := mem_steps.2 hname
  have hempty : (f.steps p).isEmpty = false :=
    List.isEmpty_eq_false_iff.2 (List.ne_nil_of_mem hmem)
  have hall : (f.steps p).all Segment.isSelector = false :=
    List.all_eq_false.2 ⟨_, hmem, Bool.false_ne_true⟩
  rw [toValue_place, hempty, hall]
  rfl

/-! ## Identities -/

/-- The text at a path, unless it is hidden by what is below it. -/
def leafText? (f : FlatConfig) (p : Path) : Option String :=
  if (f.steps p).isEmpty then f.textAt? p else none

/-- The identity of a section: the text of its name or, if nothing is at or below the name, that
of its type. -/
def identity? (f : FlatConfig) (p : Path) : Option String :=
  f.leafText? (p.child (if f.Reaches (p.child nameField) then nameField else typeField))

theorem text?_toValue_place {field : String} (hfield : Vocabulary.isTypedSection field = false) :
    ((f.place p).toValue field).bind Value.text? = f.leafText? p := by
  have hleaf : leafValue field = id :=
    funext fun v => leafValue_eq_self fun h => nomatch hfield.symm.trans h
  rw [toValue_place, leafText?, textAt?, hleaf, Option.map_id]
  split_ifs <;> rfl

theorem leafText?_of_not_reaches (h : ¬ f.Reaches p) : f.leafText? p = none := by
  have htext : f.textAt? p = none := Option.eq_none_iff_forall_ne_some.2 fun s hs =>
    h (reaches_of_value (textAt?_eq_some.1 hs))
  rw [leafText?, htext, ite_self]

theorem text?_find?_fieldsAt {name : String} (htyped : Vocabulary.isTypedSection name = false)
    (hname : name ≠ indexField) (htoken : Segment.ofToken name.toList = .field name) :
    ((f.fieldsAt p).find? name).bind Value.text? = f.leafText? (p.child name) := by
  by_cases h : f.Reaches (p.child name)
  · rw [← text?_toValue_place htyped]
    exact congrArg (Option.bind · Value.text?)
      (find?_fieldsAt (s := .field name) (by simpa using hname) h)
  · rw [find?_fieldsAt_of_not_reaches (htoken.symm ▸ h), leafText?_of_not_reaches h]
    rfl

/-- **The identity of a section** is read off its name or its type. -/
theorem identity?_fieldsAt_eq : (f.fieldsAt p).identity? = f.identity? p := by
  rw [Tree.identity?, identity?]
  split_ifs with hname
  · -- whatever stands at the name, the type is not looked at
    obtain ⟨w, hw⟩ := exists_toValue_place hname nameField
    have hfind : (f.fieldsAt p).find? nameField = some w :=
      (find?_fieldsAt (s := .field nameField) (by decide) hname).trans hw
    rw [← text?_find?_fieldsAt (by decide) (by decide) (by decide), hfind, Option.some_or]
  · have hfind : (f.fieldsAt p).find? nameField = none := find?_fieldsAt_of_not_reaches hname
    rw [← text?_find?_fieldsAt (by decide) (by decide) (by decide), hfind, Option.none_or]

end FlatConfig

end Reconfig
