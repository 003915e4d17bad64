import Mathlib.Data.List.Induction
import Reconfig.Flat.Expand
import Reconfig.Proofs.Key
import Reconfig.Proofs.Dict

/-!
# Reading tries

A trie made by insertions is tidy: a place has each segment once, and there is a value below every
place. What is read off a tidy trie then depends on its values alone.

* `Trie.Tidy`, **`Tidy.insert`**: insertions keep a trie tidy;
* `Trie.place`: the place below a segment;
* `Trie.Holds`: a tidy trie with the given values;
* `toValue_eq`, `lookup_fields`, `fields_distinct`, `instances_eq_map`: what places become;
* **`find?_ofEntries`**: the trie of entries holds their values at the paths of their keys.
-/

namespace Reconfig

open Vocabulary (indexField)
open Reconfig.Path (parse)

/-! ## Trees of distinct fields -/

theorem Tree.insert_of_new {t : Tree} {name : String} (v : Value) (h : ∀ f ∈ t, f.1 ≠ name) :
    t.insert name v = t ++ [(name, v)] := by
  induction t with
  | nil => rfl
  | cons f rest ih =>
    obtain ⟨k, w⟩ := f
    rw [insert, if_neg (h (k, w) List.mem_cons_self),
      ih fun f hf => h f (List.mem_cons_of_mem _ hf), List.cons_append]

theorem Tree.ofList_eq_self {l : List (String × Value)} (h : l.Pairwise (fun a b => a.1 ≠ b.1)) :
    Tree.ofList l = l := by
  have hfold : ∀ (before after : List (String × Value)),
      (before ++ after).Pairwise (fun a b => a.1 ≠ b.1) →
        after.foldl (fun t f => Tree.insert t f.1 f.2) before = before ++ after := by
    intro before after
    induction after generalizing before with
    | nil => simp
    | cons f rest ih =>
      intro hd
      have hnew : ∀ g ∈ before, g.1 ≠ f.1 := fun g hg =>
        (List.pairwise_append.1 hd).2.2 g hg f List.mem_cons_self
      have hnext : before ++ f :: rest = before ++ [f] ++ rest := by simp
      rw [List.foldl_cons, insert_of_new f.2 hnew, ih _ (hnext ▸ hd), ← hnext]
  exact hfold [] l h

theorem named_eq_self (s : Segment) {t : Tree} {id : String} (h : t.identity? = some id) :
    named s t = t := by
  cases s with
  | field name => rfl
  | selector id' => rw [named, h, Option.isNone_some, if_neg Bool.false_ne_true]

namespace Trie

/-! ## Tidy tries -/

/-- Every place has each segment once, and a value below each. -/
inductive Tidy : Trie → Prop
  /-- The places below are distinct, tidy, and none of them is without values. -/
  | node {value : Option Value} {children : List (Segment × Trie)}
      (distinct : children.Pairwise (fun a b => a.1 ≠ b.1))
      (below : ∀ c ∈ children, Tidy c.2)
      (inhabited : ∀ c ∈ children, ∃ q v, find? q c.2 = some v) : Tidy (.node value children)

theorem tidy_empty : empty.Tidy := .node .nil (fun _ h => nomatch h) (fun _ h => nomatch h)

theorem Tidy.distinct {t : Trie} (h : t.Tidy) :
    t.children.Pairwise (fun a b => a.1 ≠ b.1) := by
  cases h with
  | node distinct below inhabited => exact distinct

theorem mem_alter {s : Segment} {f : Trie → Trie} {l : List (Segment × Trie)} {c : Segment × Trie}
    (h : c ∈ alter s f l) : c ∈ l ∨ ∃ t, (t = empty ∨ (s, t) ∈ l) ∧ c = (s, f t) := by
  induction l with
  | nil => exact .inr ⟨empty, .inl rfl, List.mem_singleton.1 h⟩
  | cons e rest ih =>
    obtain ⟨u, n⟩ := e
    rw [alter] at h
    split_ifs at h with hu
    · subst hu
      rcases List.mem_cons.1 h with rfl | h
      · exact .inr ⟨n, .inr List.mem_cons_self, rfl⟩
      · exact .inl (List.mem_cons_of_mem _ h)
    · rcases List.mem_cons.1 h with rfl | h
      · exact .inl List.mem_cons_self
      · rcases ih h with h | ⟨t, ht, rfl⟩
        · exact .inl (List.mem_cons_of_mem _ h)
        · exact .inr ⟨t, ht.imp_right (List.mem_cons_of_mem _), rfl⟩

theorem alter_distinct {s : Segment} {f : Trie → Trie} {l : List (Segment × Trie)}
    (h : l.Pairwise (fun a b => a.1 ≠ b.1)) :
    (alter s f l).Pairwise (fun a b => a.1 ≠ b.1) := by
  induction l with
  | nil => exact List.pairwise_singleton _ _
  | cons e rest ih =>
    obtain ⟨u, n⟩ := e
    rw [List.pairwise_cons] at h
    rw [alter]
    split_ifs with hu
    · exact List.pairwise_cons.2 h
    · refine List.pairwise_cons.2 ⟨fun c hc => ?_, ih h.2⟩
      rcases mem_alter hc with hc | ⟨t, -, rfl⟩
      · exact h.1 c hc
      · exact hu

theorem Tidy.insert {t : Trie} (h : t.Tidy) (p : Path) (v : Value) : (t.insert p v).Tidy := by
  induction p generalizing t with
  | nil =>
    cases h with
    | node distinct below inhabited => exact .node distinct below inhabited
  | cons s rest ih =>
    cases h with
    | node distinct below inhabited =>
      refine .node (alter_distinct distinct) (fun c hc => ?_) (fun c hc => ?_)
      · rcases mem_alter hc with hc | ⟨t, rfl | ht, rfl⟩
        · exact below c hc
        · exact ih tidy_empty
        · exact ih (below _ ht)
      · rcases mem_alter hc with hc | ⟨t, -, rfl⟩
        · exact inhabited c hc
        · exact ⟨rest, v, by rw [find?_insert, if_pos rfl]⟩

/-! ## The place below a segment -/

/-- The place below a segment, the empty trie if there is none. -/
def place (t : Trie) (s : Segment) : Trie := (t.children.lookup s).getD empty

theorem find?_place (t : Trie) (s : Segment) (q : Path) :
    (t.place s).find? q = t.find? (s :: q) := by
  rw [place, find?]
  cases t.children.lookup s with
  | none => exact find?_empty q
  | some c => rfl

theorem Tidy.place {t : Trie} (h : t.Tidy) (s : Segment) : (t.place s).Tidy := by
  rw [Trie.place]
  cases hs : t.children.lookup s with
  | none => exact tidy_empty
  | some c =>
    cases h with
    | node distinct below inhabited => exact below (s, c) (Dict.mem_of_lookup hs)

/-- **The places of a tidy trie** are those with a value at or below them. -/
theorem Tidy.mem_children {t : Trie} (h : t.Tidy) {s : Segment} {c : Trie} :
    (s, c) ∈ t.children ↔ c = t.place s ∧ ∃ q v, t.find? (s :: q) = some v := by
  constructor
  · intro hc
    have hplace : c = t.place s := by rw [Trie.place, Dict.lookup_of_mem h.distinct hc]; rfl
    cases h with
    | node distinct below inhabited =>
      obtain ⟨q, v, hv⟩ := inhabited (s, c) hc
      refine ⟨hplace, q, v, ?_⟩
      rw [← find?_place, ← hplace]
      exact hv
  · rintro ⟨rfl, q, v, hv⟩
    rw [find?] at hv
    obtain ⟨c, hc, -⟩ := Option.bind_eq_some_iff.1 hv
    rw [Trie.place, hc]
    exact Dict.mem_of_lookup hc

/-- The trie is tidy and holds the given values at their paths, and no other ones. -/
structure Holds (t : Trie) (values : Path → Value → Prop) : Prop where
  tidy : t.Tidy
  find?_iff : ∀ q v, t.find? q = some v ↔ values q v

theorem Holds.place {t : Trie} {values : Path → Value → Prop} (h : t.Holds values) (s : Segment) :
    (t.place s).Holds fun q v => values (s :: q) v :=
  ⟨h.tidy.place s, fun q v => by rw [find?_place, h.find?_iff]⟩

theorem Holds.value?_eq_none {t : Trie} {values : Path → Value → Prop} (h : t.Holds values)
    (hroot : ∀ v, ¬ values [] v) : t.value? = none := by
  refine Option.eq_none_iff_forall_ne_some.2 fun v hv => hroot v ?_
  exact (h.find?_iff [] v).1 hv

/-! ## What places become -/

theorem toValue_eq (t : Trie) (field : String) :
    t.toValue field = if t.children.isEmpty then t.value?.map (leafValue field)
      else if t.children.all (fun c => c.1.isSelector) then
        some (.repeated (arranged (instances t.children)))
      else some (.nested (Tree.ofList (fields t.children))) := by
  obtain ⟨value, children⟩ := t
  rw [toValue]
  rfl

theorem exists_toValue {t : Trie} {q : Path} {v : Value} (h : t.find? q = some v)
    (field : String) : ∃ w, toValue field t = some w := by
  rw [toValue_eq]
  split_ifs with hnone hall
  · rw [List.isEmpty_iff] at hnone
    cases q with
    | nil => exact ⟨_, congrArg (Option.map (leafValue field)) h⟩
    | cons s rest =>
      rw [find?, hnone] at h
      cases h
  · exact ⟨_, rfl⟩
  · exact ⟨_, rfl⟩

theorem fields_eq_filterMap (children : List (Segment × Trie)) :
    fields children = children.filterMap fun c =>
      if c.1 = .field indexField then none
      else (toValue c.1.label c.2).map fun v => (c.1.label, v) := by
  induction children with
  | nil => rfl
  | cons c rest ih =>
    obtain ⟨s, t⟩ := c
    rw [fields, List.filterMap_cons]
    split_ifs with hs
    · exact ih
    · cases toValue s.label t <;> simp [ih]

theorem instances_eq_map (children : List (Segment × Trie)) :
    instances children =
      children.map fun c => (index? c.2, named c.1 (Tree.ofList (fields c.2.children))) := by
  induction children with
  | nil => rfl
  | cons c rest ih =>
    obtain ⟨s, value, children⟩ := c
    rw [instances, ih]
    rfl

theorem fields_distinct {children : List (Segment × Trie)}
    (h : children.Pairwise fun a b => a.1.label ≠ b.1.label) :
    (fields children).Pairwise (fun a b => a.1 ≠ b.1) := by
  rw [fields_eq_filterMap]
  refine h.filterMap _ fun a b hne a' ha' b' hb' => ?_
  split_ifs at ha' hb'
  obtain ⟨v, -, rfl⟩ := Option.map_eq_some_iff.1 ha'
  obtain ⟨w, -, rfl⟩ := Option.map_eq_some_iff.1 hb'
  exact hne

section Fields

variable {children : List (Segment × Trie)} (hd : children.Pairwise (fun a b => a.1 ≠ b.1))
  (hf : ∀ c ∈ children, c.1.isSelector = false)

include hd hf

theorem labels_distinct : children.Pairwise (fun a b => a.1.label ≠ b.1.label) := by
  refine hd.imp_of_mem fun {a b} ha hb hne heq => ?_
  have hfield := hf a ha
  have hfield' := hf b hb
  obtain ⟨s, _⟩ := a
  obtain ⟨t, _⟩ := b
  cases s with
  | selector id => cases hfield
  | field name =>
    cases t with
    | selector id => cases hfield'
    | field name' => exact hne (congrArg Segment.field heq)

omit hd in
theorem lookup_fields_index : (fields children).lookup indexField = none := by
  refine Dict.lookup_eq_none_of_not_mem fun e he heq => ?_
  rw [fields_eq_filterMap, List.mem_filterMap] at he
  obtain ⟨⟨s, c⟩, hc, he⟩ := he
  split_ifs at he with hindex
  obtain ⟨v, -, rfl⟩ := Option.map_eq_some_iff.1 he
  cases s with
  | selector id => exact nomatch hf _ hc
  | field name => exact hindex (congrArg Segment.field heq)

theorem lookup_fields {name : String} (hn : name ≠ indexField) :
    (fields children).lookup name = (children.lookup (.field name)).bind (toValue name) := by
  have hindex : Segment.field name ≠ .field indexField := by simpa using hn
  cases h : (children.lookup (.field name)).bind (toValue name) with
  | some v =>
    obtain ⟨c, hc, hv⟩ := Option.bind_eq_some_iff.1 h
    refine Dict.lookup_of_mem (fields_distinct (labels_distinct hd hf)) ?_
    rw [fields_eq_filterMap, List.mem_filterMap]
    refine ⟨(.field name, c), Dict.mem_of_lookup hc, ?_⟩
    rw [if_neg hindex]
    exact congrArg (Option.map fun v => (name, v)) hv
  | none =>
    refine Dict.lookup_eq_none_of_not_mem fun e he heq => ?_
    rw [fields_eq_filterMap, List.mem_filterMap] at he
    obtain ⟨⟨s, c⟩, hc, he⟩ := he
    split_ifs at he
    obtain ⟨v, hv, rfl⟩ := Option.map_eq_some_iff.1 he
    cases s with
    | selector id => exact nomatch hf _ hc
    | field name' =>
      obtain rfl : name' = name := heq
      rw [Dict.lookup_of_mem hd hc, Option.bind_some] at h
      exact nomatch h.symm.trans hv

end Fields

/-! ## The trie of entries -/

theorem tidy_ofEntries (entries : List (String × Value)) : (ofEntries entries).Tidy := by
  have hfold : ∀ t : Trie, t.Tidy →
      (entries.foldl (fun t e => t.insert (parse e.1) e.2) t).Tidy := by
    induction entries with
    | nil => exact fun t ht => ht
    | cons e rest ih => exact fun t ht => ih _ (ht.insert _ _)
  exact hfold empty tidy_empty

/-- **The trie of entries holds their values at the paths of their keys.** -/
theorem find?_ofEntries {entries : List (String × Value)}
    (h : entries.Pairwise (fun a b => a.1 ≠ b.1)) {q : Path} {v : Value} :
    (ofEntries entries).find? q = some v ↔ ∃ key, parse key = q ∧ (key, v) ∈ entries := by
  induction entries using List.reverseRecOn with
  | nil => simp [ofEntries, find?_empty]
  | append_singleton rest e ih =>
    obtain ⟨k, w⟩ := e
    rw [List.pairwise_append] at h
    have hinsert : ofEntries (rest ++ [(k, w)]) = (ofEntries rest).insert (parse k) w := by
      rw [ofEntries, List.foldl_append]
      rfl
    have hrest := ih h.1
    rw [hinsert, find?_insert]
    by_cases hq : q = parse k
    · subst hq
      rw [if_pos rfl]
      constructor
      · intro hw
        cases hw
        exact ⟨k, rfl, List.mem_append_right _ (List.mem_singleton.2 rfl)⟩
      · rintro ⟨key, hkey, hmem⟩
        obtain rfl := Path.parse_injective hkey
        rcases List.mem_append.1 hmem with hmem | hmem
        · exact absurd rfl (h.2.2 (key, v) hmem (key, w) List.mem_cons_self)
        · cases List.mem_singleton.1 hmem
          rfl
    · rw [if_neg hq, hrest]
      refine exists_congr fun key => and_congr_right fun hkey => ?_
      rw [List.mem_append, List.mem_singleton]
      refine (or_iff_left ?_).symm
      rintro heq
      cases heq
      exact hq hkey.symm

end Trie

end Reconfig
