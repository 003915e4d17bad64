import Reconfig.Proofs.Agreement
import Reconfig.Proofs.Key
import Reconfig.Proofs.Statements

/-!
# What a catalogue says about a field

A catalogue lists by logical key what a schema document says about a field, wherever the document
says it. It says exactly what the nodes say that are reached by the fields of the key.

* `contains_dynamic`, `find?_defaults`, `find?_required`: the look-ups of a catalogue by the
  statements of its document;
* `Gathering`, **`ofDocument_eq_foldl`**: the same in one pass over the statements;
* `Json.defaultsOf`, `Json.requirementsOf`: what the occurrences of a field say;
* `Catalogue.Describes`, **`ofDocument_describes`**: the look-ups by the occurrences of the field.
-/

namespace Reconfig

namespace Catalogue

/-! ## Look-ups by statements -/

/-- The required fields that the value of the keyword lists. -/
def requiredNames? : Json → Option (List String)
  | .array items => some (items.filterMap Json.string?)
  | _ => none

theorem required?_eq (l : Leaf) : required? l =
    if l.keyword = "required" then (requiredNames? l.value).map (l.key, ·) else none := by
  obtain ⟨_, keyword, value⟩ := l
  cases value with
  | array items => rfl
  | null | bool b | number n | string s | object members => exact (ite_self _).symm

variable (document : Json) (key : String)

theorem valuesAt_statements {α : Type} {f : Leaf → Option (String × α)} {g : Json → Option α}
    {keyword : String}
    (hf : ∀ l : Leaf, f l = if l.keyword = keyword then (g l.value).map (l.key, ·) else none) :
    Dict.valuesAt ((statements document).filterMap f) key =
      (stated document key keyword).filterMap g := by
  rw [Dict.valuesAt, stated, List.filterMap_filterMap, List.filterMap_map, List.filterMap_filter]
  refine List.filterMap_congr fun l _ => ?_
  rw [hf]
  by_cases hkeyword : l.keyword = keyword
  · by_cases hkey : l.key = key <;> cases hvalue : g l.value <;> simp [hkeyword, hkey, hvalue]
  · simp [hkeyword]

theorem contains_dynamic : (ofDocument document).dynamic.contains key = true ↔
    .bool true ∈ stated document key "dynamic" := by
  have hbool : ∀ j : Json, j.isBool true = true ↔ j = .bool true := by
    intro j
    cases j with
    | bool b => cases b <;> simp [Json.isBool]
    | null | number n | string s | array items | object members => simp [Json.isBool]
  rw [ofDocument, TextSet.contains_ofTexts, stated, List.mem_filterMap, List.mem_map]
  refine exists_congr fun l => ?_
  simp only [dynamic?, List.mem_filter, decide_eq_true_eq, Option.ite_none_right_eq_some, hbool,
    Option.some.injEq]
  tauto

theorem find?_agreed (l : List (String × Value)) (key : String) :
    ((Dict.gather l).filterMap fun _ values => agreed? values).find? key =
      agreed? (Dict.valuesAt l key) := by
  refine Option.ext fun v => ?_
  rw [Dict.find?_filterMap_eq_some, Dict.find?_gather]
  split
  · rename_i hnil
    rw [hnil]
    simp [agreed?]
  · simp

theorem find?_defaults : (ofDocument document).defaults.find? key =
    agreed? ((stated document key "default").filterMap defaultValue?) := by
  rw [← valuesAt_statements document key (f := default?) fun _ => rfl, ofDocument, find?_agreed]

theorem find?_required : (ofDocument document).required.find? key =
    if (stated document key "required").filterMap requiredNames? = [] then none
    else some ((stated document key "required").filterMap requiredNames?) := by
  rw [ofDocument, Dict.find?_gather, valuesAt_statements document key required?_eq]

/-! ## One pass over the statements -/

/-- What the statements say that have been met so far. -/
structure Gathering extends Catalogue where
  /-- The keys that were given two defaults which are not the same. -/
  ambiguous : TextSet

namespace Gathering

/-- Nothing has been met. -/
def start : Gathering := ⟨⟨∅, ∅, ∅⟩, ∅⟩

/-- Note a default. A second one that is not the same leaves the key without a default, whatever is
met later. -/
def noteDefault (g : Gathering) (key : String) (j : Json) : Gathering :=
  if g.ambiguous.contains key then g
  else
    match defaultValue? j with
    | none => g
    | some v =>
      match g.defaults.find? key with
      | none => { g with defaults := g.defaults.insert key v }
      | some first =>
        if first.same v then g
        else { g with defaults := g.defaults.erase key, ambiguous := g.ambiguous.add key }

/-- Note what a statement says. -/
def visit (g : Gathering) (l : Leaf) : Gathering :=
  if l.keyword = "default" then g.noteDefault l.key l.value
  else if l.keyword = "dynamic" ∧ l.value.isBool true then
    { g with dynamic := g.dynamic.add l.key }
  else if l.keyword = "required" then
    match requiredNames? l.value with
    | some names => { g with required := g.required.push l.key names }
    | none => g
  else g

/-- The defaults that statements give a key. -/
def defaultsAt (l : List Leaf) (key : String) : List Value :=
  Dict.valuesAt (l.filterMap default?) key

/-- What has been gathered on the default of a key is what the given ones make of it: the value on
which they agree, if there are some and they do. -/
structure Settles (g : Gathering) (key : String) (values : List Value) : Prop where
  default_eq : g.defaults.find? key = agreed? values
  ambiguous_iff : g.ambiguous.contains key = true ↔ values ≠ [] ∧ agreed? values = none

/-- What has been gathered is what the statements say. -/
structure Tells (g : Gathering) (l : List Leaf) : Prop where
  defaults : ∀ key, g.Settles key (defaultsAt l key)
  dynamic : g.dynamic = .ofTexts (l.filterMap dynamic?)
  required : g.required = .gather (l.filterMap required?)

theorem tells_start : start.Tells [] where
  defaults _ := ⟨rfl, iff_of_false Bool.false_ne_true fun h => h.1 rfl⟩
  dynamic := rfl
  required := rfl

theorem defaultsAt_concat (l : List Leaf) (a : Leaf) (key : String) :
    defaultsAt (l ++ [a]) key = defaultsAt l key ++
      if a.keyword = "default" ∧ a.key = key then (defaultValue? a.value).toList else [] := by
  rw [defaultsAt, List.filterMap_append]
  by_cases hkeyword : a.keyword = "default"
  · cases hv : defaultValue? a.value with
    | none => simp [default?, hkeyword, hv, defaultsAt]
    | some v =>
      have ha : [a].filterMap default? = [(a.key, v)] := by simp [default?, hkeyword, hv]
      rw [ha, Dict.valuesAt_concat]
      simp [hkeyword, defaultsAt]
  · simp [default?, hkeyword, defaultsAt]

variable {g : Gathering} {key : String} {values : List Value}

/-- **One more default**, if it denotes a value. -/
theorem Settles.noteDefault (h : g.Settles key values) (j : Json) :
    (g.noteDefault key j).Settles key (values ++ (defaultValue? j).toList) := by
  obtain ⟨hdefault, hambiguous⟩ := h
  rw [Gathering.noteDefault]
  cases hv : defaultValue? j with
  | none =>
    rw [Option.toList_none, List.append_nil, ite_self]
    exact ⟨hdefault, hambiguous⟩
  | some v =>
    rw [Option.toList_some]
    by_cases hcontains : g.ambiguous.contains key = true
    · obtain ⟨hne, hnone⟩ := hambiguous.1 hcontains
      have hlater : agreed? (values ++ [v]) = none := by
        rw [agreed?_concat, if_neg hne, hnone, Option.filter_none]
      rw [if_pos hcontains]
      exact ⟨by rw [hdefault, hnone, hlater], iff_of_true hcontains ⟨by simp, hlater⟩⟩
    · rw [if_neg hcontains]
      dsimp only
      cases hfirst : g.defaults.find? key with
      | none =>
        have hnil : values = [] := by
          by_contra hne
          exact hcontains (hambiguous.2 ⟨hne, hdefault.symm.trans hfirst⟩)
        subst hnil
        refine ⟨?_, iff_of_false hcontains fun h => nomatch h.2⟩
        exact (Dict.find?_insert _ _ _ _).trans (if_pos rfl)
      | some first =>
        have hagreed : agreed? values = some first := hdefault.symm.trans hfirst
        have hne : values ≠ [] := by
          rintro rfl
          cases hagreed
        have hlater : agreed? (values ++ [v]) = if first.same v then some first else none := by
          rw [agreed?_concat, if_neg hne, hagreed, Option.filter_some]
        dsimp only
        split_ifs at hlater ⊢ with hsame
        · refine ⟨hfirst.trans hlater.symm, iff_of_false hcontains fun h => ?_⟩
          exact nomatch hlater.symm.trans h.2
        · refine ⟨?_, iff_of_true ?_ ⟨by simp, hlater⟩⟩
          · exact (Dict.find?_erase _ _ _).trans ((if_pos rfl).trans hlater.symm)
          · rw [TextSet.add, Dict.contains, Dict.find?_insert, if_pos rfl, Option.isSome_some]

theorem Settles.noteDefault_of_ne (h : g.Settles key values) {other : String} (hne : key ≠ other)
    (j : Json) : (g.noteDefault other j).Settles key values := by
  rw [Gathering.noteDefault]
  split_ifs
  · exact h
  · cases defaultValue? j with
    | none => exact h
    | some v =>
      dsimp only
      split
      · exact ⟨by rw [Dict.find?_insert, if_neg hne, h.default_eq], h.ambiguous_iff⟩
      · split_ifs
        · exact h
        · refine ⟨by rw [Dict.find?_erase, if_neg hne, h.default_eq], ?_⟩
          rw [TextSet.add, Dict.contains, Dict.find?_insert, if_neg hne]
          exact h.ambiguous_iff

theorem noteDefault_rest (g : Gathering) (key : String) (j : Json) :
    (g.noteDefault key j).dynamic = g.dynamic ∧ (g.noteDefault key j).required = g.required := by
  rw [Gathering.noteDefault]
  split_ifs
  · exact ⟨rfl, rfl⟩
  · cases defaultValue? j with
    | none => exact ⟨rfl, rfl⟩
    | some v =>
      dsimp only
      split
      · exact ⟨rfl, rfl⟩
      · split_ifs <;> exact ⟨rfl, rfl⟩

theorem Settles.visit {a : Leaf} (h : g.Settles key values) :
    (g.visit a).Settles key (values ++
      if a.keyword = "default" ∧ a.key = key then (defaultValue? a.value).toList else []) := by
  rw [Gathering.visit]
  by_cases hdefault : a.keyword = "default"
  · rw [if_pos hdefault]
    by_cases hkey : a.key = key
    · subst hkey
      rw [if_pos ⟨hdefault, rfl⟩]
      exact h.noteDefault a.value
    · rw [if_neg fun heq => hkey heq.2, List.append_nil]
      exact h.noteDefault_of_ne (Ne.symm hkey) a.value
  · have hnone : ¬ (a.keyword = "default" ∧ a.key = key) := fun heq => hdefault heq.1
    rw [if_neg hdefault, if_neg hnone, List.append_nil]
    split_ifs
    · exact ⟨h.default_eq, h.ambiguous_iff⟩
    · cases requiredNames? a.value with
      | none => exact h
      | some names => exact ⟨h.default_eq, h.ambiguous_iff⟩
    · exact h

theorem visit_dynamic (g : Gathering) (a : Leaf) :
    (g.visit a).dynamic = (dynamic? a).elim g.dynamic g.dynamic.add := by
  rw [Gathering.visit, dynamic?]
  by_cases hdefault : a.keyword = "default"
  · rw [if_pos hdefault, (noteDefault_rest g a.key a.value).1]
    simp [hdefault]
  · rw [if_neg hdefault]
    split_ifs
    · rfl
    · cases requiredNames? a.value <;> rfl
    · rfl

theorem visit_required (g : Gathering) (a : Leaf) :
    (g.visit a).required = (required? a).elim g.required fun e => g.required.push e.1 e.2 := by
  rw [Gathering.visit, required?_eq]
  by_cases hrequired : a.keyword = "required"
  · rw [if_neg (by simp [hrequired]), if_neg (by simp [hrequired]), if_pos hrequired,
      if_pos hrequired]
    cases requiredNames? a.value <;> rfl
  · rw [if_neg hrequired, if_neg hrequired]
    split_ifs
    · exact (noteDefault_rest g a.key a.value).2
    · rfl
    · rfl

/-- **What a statement says is noted.** -/
theorem Tells.visit {l : List Leaf} (h : g.Tells l) (a : Leaf) : (g.visit a).Tells (l ++ [a]) where
  defaults key := defaultsAt_concat l a key ▸ (h.defaults key).visit
  dynamic := by
    rw [visit_dynamic, h.dynamic, List.filterMap_append]
    cases ha : dynamic? a with
    | none => simp [ha]
    | some key => simp [ha, TextSet.ofTexts, Dict.ofList, TextSet.add]
  required := by
    rw [visit_required, h.required, List.filterMap_append]
    cases ha : required? a with
    | none => simp [ha]
    | some e => simp [ha, Dict.gather]

theorem tells_foldl (l : List Leaf) : (l.foldl Gathering.visit start).Tells l := by
  induction l using List.reverseRecOn with
  | nil => exact tells_start
  | append_singleton rest a ih =>
    rw [List.foldl_append]
    exact ih.visit a

end Gathering

/-- **One pass over the statements** finds what the catalogue of a document says. -/
theorem ofDocument_eq_foldl (document : Json) :
    ofDocument document = ((statements document).foldl Gathering.visit .start).toCatalogue := by
  obtain ⟨hdefaults, hdynamic, hrequired⟩ := Gathering.tells_foldl (statements document)
  rw [ofDocument, ← hdynamic, ← hrequired]
  congr 1
  exact Dict.ext_find? fun key => (find?_agreed _ key).trans (hdefaults key).default_eq.symm

end Catalogue

open Catalogue (requiredNames? defaultValue? isPlainName)

/-! ## What the occurrences say -/

namespace Json

/-- The values of the defaults that the occurrences of a field give; a default that denotes no
value does not count. -/
def defaultsOf (document : Json) (fields : List String) : List Value :=
  (document.occurrences fields).filterMap fun n => (n.member? "default").bind defaultValue?

/-- The sets of required fields that the occurrences of a field give. -/
def requirementsOf (document : Json) (fields : List String) : List (List String) :=
  (document.occurrences fields).filterMap fun n => (n.member? "required").bind requiredNames?

end Json

/-- **What a catalogue says about a field is what the occurrences of the field say.** -/
structure Catalogue.Describes (c : Catalogue) (document : Json) (fields : List String) : Prop where
  /-- The field is dynamic if and only if one of its occurrences is. -/
  dynamic_iff : c.dynamic.contains (".".intercalate fields) = true ↔
    ∃ n ∈ document.occurrences fields, n.member? "dynamic" = some (.bool true)
  /-- The field has a default if and only if there is one and all are equal. -/
  default_iff : c.defaults.contains (".".intercalate fields) = true ↔
    document.defaultsOf fields ≠ [] ∧
      ∀ v ∈ document.defaultsOf fields, ∀ w ∈ document.defaultsOf fields, v.same w = true
  /-- The default is one of theirs, and equal to all of them. -/
  default_eq : ∀ v, c.defaults.find? (".".intercalate fields) = some v →
    v ∈ document.defaultsOf fields ∧ ∀ w ∈ document.defaultsOf fields, v.same w = true
  /-- The field requires others if and only if one of its occurrences does. -/
  required_iff : c.required.contains (".".intercalate fields) = true ↔
    document.requirementsOf fields ≠ []
  /-- There is one set of required fields for each occurrence that requires some. -/
  required_perm : ∀ sets, c.required.find? (".".intercalate fields) = some sets →
    sets.Perm (document.requirementsOf fields)

theorem eq_nil_iff_of_perm {α : Type} {l m : List α} (h : l.Perm m) : l = [] ↔ m = [] := by
  rw [← List.isEmpty_iff, h.isEmpty_eq, List.isEmpty_iff]

section Document

variable {document : Json} (hnode : document.isNode = true) (hregular : document.isRegular = true)
  {fields : List String} (hfields : ∀ name ∈ fields, isPlainName name = true)

include hnode hregular

theorem regular_defaultsOf : ∀ v ∈ document.defaultsOf fields, v.isRegular = true := by
  intro v hv
  obtain ⟨n, hn, hvalue⟩ := List.mem_filterMap.1 hv
  obtain ⟨j, hj, hj'⟩ := Option.bind_eq_some_iff.1 hvalue
  obtain ⟨e, he, rfl⟩ := List.mem_map.1 hn
  have hnregular := regular_of_mem_nodes hnode hregular e (List.mem_filter.1 he).1
  exact Catalogue.regular_defaultValue (regular_member? hnregular hj) hj'

include hfields

theorem filterMap_stated {α : Type} (g : Json → Option α) {keyword : String}
    (hkeyword : keyword ∈ Catalogue.annotations) :
    ((Catalogue.stated document (".".intercalate fields) keyword).filterMap g).Perm
      ((document.occurrences fields).filterMap fun n => (n.member? keyword).bind g) := by
  rw [← List.filterMap_filterMap]
  exact (Catalogue.stated_perm hnode hregular hfields hkeyword).filterMap g

theorem contains_dynamic_iff :
    (Catalogue.ofDocument document).dynamic.contains (".".intercalate fields) = true ↔
      ∃ n ∈ document.occurrences fields, n.member? "dynamic" = some (.bool true) := by
  rw [Catalogue.contains_dynamic,
    (Catalogue.stated_perm hnode hregular hfields (by decide)).mem_iff, List.mem_filterMap]

theorem defaults_describe :
    ((Catalogue.ofDocument document).defaults.contains (".".intercalate fields) = true ↔
      document.defaultsOf fields ≠ [] ∧
        ∀ v ∈ document.defaultsOf fields, ∀ w ∈ document.defaultsOf fields, v.same w = true) ∧
      ∀ v, (Catalogue.ofDocument document).defaults.find? (".".intercalate fields) = some v →
        v ∈ document.defaultsOf fields ∧ ∀ w ∈ document.defaultsOf fields, v.same w = true := by
  have hperm : ((Catalogue.stated document (".".intercalate fields) "default").filterMap
      defaultValue?).Perm (document.defaultsOf fields) :=
    filterMap_stated hnode hregular hfields defaultValue? (by decide)
  have hvalues : ∀ v ∈ (Catalogue.stated document (".".intercalate fields) "default").filterMap
      defaultValue?, v.isRegular = true := fun v hv =>
    regular_defaultsOf hnode hregular v (hperm.mem_iff.1 hv)
  rw [Dict.contains, Catalogue.find?_defaults]
  constructor
  · rw [Catalogue.agreed?_isSome_iff hvalues, Ne, eq_nil_iff_of_perm hperm]
    simp only [hperm.mem_iff, ne_eq]
  · intro v hv
    obtain ⟨hmem, hsame⟩ := Catalogue.agreed?_eq_some hvalues hv
    exact ⟨hperm.mem_iff.1 hmem, fun w hw => hsame w (hperm.mem_iff.2 hw)⟩

theorem required_describe :
    ((Catalogue.ofDocument document).required.contains (".".intercalate fields) = true ↔
      document.requirementsOf fields ≠ []) ∧
      ∀ sets, (Catalogue.ofDocument document).required.find? (".".intercalate fields) = some sets →
        sets.Perm (document.requirementsOf fields) := by
  have hperm : ((Catalogue.stated document (".".intercalate fields) "required").filterMap
      requiredNames?).Perm (document.requirementsOf fields) :=
    filterMap_stated hnode hregular hfields requiredNames? (by decide)
  rw [Dict.contains, Catalogue.find?_required, Ne, ← eq_nil_iff_of_perm hperm]
  constructor
  · rw [Option.isSome_iff_exists]
    simp only [Option.ite_none_left_eq_some, Option.some.injEq, exists_and_left, exists_eq',
      and_true]
  · intro sets hsets
    obtain ⟨-, heq⟩ := Option.ite_none_left_eq_some.1 hsets
    rw [← Option.some.inj heq]
    exact hperm

/-- **A catalogue is the reading of its document by nodes**, and the key of every path with the
given fields, whatever instances it selects, is the one under which the catalogue lists them. -/
theorem ofDocument_describes :
    (Catalogue.ofDocument document).Describes document fields ∧
      (∀ key, (Path.parse key).fields = fields →
        (Path.parse key).logicalKey = ".".intercalate fields) ∧
      ∀ p : Path, p.isReadable = true → p.fields = fields →
        (Path.parse p.render).logicalKey = ".".intercalate fields := by
  obtain ⟨hdefault, hvalue⟩ := defaults_describe hnode hregular hfields
  obtain ⟨hrequired, hsets⟩ := required_describe hnode hregular hfields
  refine ⟨⟨contains_dynamic_iff hnode hregular hfields, hdefault, hvalue, hrequired, hsets⟩,
    fun key hkey => by rw [Path.logicalKey, hkey], fun p hp hpath => ?_⟩
  have hne : p ≠ [.field ""] := by
    rintro rfl
    exact absurd (hfields "" (hpath ▸ List.mem_singleton.2 rfl)) (by decide)
  rw [Path.parse_render hp hne, Path.logicalKey, hpath]

end Document

/-- A document of branches whose fields are named like a keyword and like a position. -/
def keywordNames : Json :=
  .object [("properties", .object [("items", .object [("oneOf", .array [
    .object [("properties", .object [("0", .object [
      ("default", .string "on"), ("dynamic", .bool true)])])],
    .object [("required", .array [.string "0"]), ("properties", .object [("0", .object [
      ("type", .string "string"), ("default", .string "on")])])]])])])]

/-- The fields are told from the keywords and the positions on the way to them. -/
theorem describes_keywordNames :
    keywordNames.isNode = true ∧ keywordNames.isRegular = true ∧
      (∀ name ∈ ["items", "0"], isPlainName name = true) ∧
      (Catalogue.ofDocument keywordNames).Describes keywordNames ["items", "0"] ∧
      (Path.parse "items.\x7ba\x7d.0").logicalKey = "items.0" := by
  have hnode : keywordNames.isNode = true := by decide
  have hregular : keywordNames.isRegular = true := by decide
  have hfields : ∀ name ∈ ["items", "0"], isPlainName name = true := by decide
  obtain ⟨hdescribes, hkeys, -⟩ := ofDocument_describes hnode hregular hfields
  exact ⟨hnode, hregular, hfields, hdescribes, hkeys "items.\x7ba\x7d.0" (by decide)⟩

example : (keywordNames.defaultsOf ["items", "0"]).length = 2 := by decide

end Reconfig
