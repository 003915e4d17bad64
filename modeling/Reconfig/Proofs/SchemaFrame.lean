import Reconfig.Proofs.Catalogue
import Reconfig.Proofs.SchemaFields

/-!
# What a new field changes in a catalogue

A field that is added to a schema document is described by its own schema, so that the catalogue
should change at the key of the field and at the keys below it. The schema of a field is an object
or a boolean. An object says nothing about other keys, whatever the name of the field is. A boolean
is a leaf at the path of the field; where the field is called like an annotation, the leaf is read
as an annotation of the section that the field belongs to.

* `Extends`, `AgreesAt`: keys below a key, and catalogues that say the same about a key;
* `Route.key`: the key that a part of a document describes;
* `find?_of_inserts`: look-ups where leaves are put between others;
* `statedIn`, `statedIn_perm`, `filterMap_statedIn`: the statements about a key;
* `extends_of_mem_leavesAt`, `ofPath_field`: the statements of the new field;
* `Misread`, **`new_field_confined_iff`**: when the catalogue changes at no other key.
-/

namespace Reconfig

/-! ## Keys -/

namespace Catalogue

/-- The other key is the same one or stands below it. -/
def Extends (key other : String) : Prop := other = key ∨ ∃ below, other = key ++ "." ++ below

theorem Extends.length_le {key other : String} (h : Extends key other) :
    key.toList.length ≤ other.toList.length := by
  rcases h with rfl | ⟨below, rfl⟩
  · exact Nat.le_refl _
  · simp [String.toList_append]

/-- Two catalogues say the same about a key. -/
structure AgreesAt (c c' : Catalogue) (key : String) : Prop where
  defaults : c'.defaults.find? key = c.defaults.find? key
  dynamic : c'.dynamic.contains key = c.dynamic.contains key
  required : c'.required.find? key = c.required.find? key

theorem intercalate_append {l m : List (List Char)} (hl : l ≠ []) (hm : m ≠ []) :
    List.intercalate ['.'] (l ++ m) =
      List.intercalate ['.'] l ++ '.' :: List.intercalate ['.'] m := by
  obtain ⟨t, more, rfl⟩ := List.exists_cons_of_ne_nil hm
  induction l with
  | nil => exact absurd rfl hl
  | cons s rest ih =>
    cases rest with
    | nil => simp [List.intercalate_cons_cons]
    | cons r rest =>
      rw [List.cons_append, List.cons_append, List.intercalate_cons_cons,
        List.intercalate_cons_cons, ← List.cons_append, ih (List.cons_ne_nil _ _)]
      simp

theorem extends_of_append {l : List (List Char)} (hl : l ≠ []) (m : List (List Char)) :
    Extends (String.ofList (List.intercalate ['.'] l))
      (String.ofList (List.intercalate ['.'] (l ++ m))) := by
  by_cases hm : m = []
  · left
    rw [hm, List.append_nil]
  · right
    refine ⟨String.ofList (List.intercalate ['.'] m), String.toList_inj.1 ?_⟩
    simp [String.toList_append, intercalate_append hl hm]

theorem not_extends_of_append {l : List (List Char)} {name : List Char} (hname : name ≠ []) :
    ¬ Extends (String.ofList (List.intercalate ['.'] (l ++ [name])))
      (String.ofList (List.intercalate ['.'] l)) := by
  have hlonger : (List.intercalate ['.'] l).length <
      (List.intercalate ['.'] (l ++ [name])).length := by
    have hpos := List.length_pos_iff.2 hname
    by_cases hl : l = []
    · simpa [hl] using hpos
    · rw [intercalate_append hl (List.cons_ne_nil _ _), List.length_append, List.length_cons]
      omega
  intro hextends
  have hlength := hextends.length_le
  rw [String.toList_ofList, String.toList_ofList] at hlength
  omega

end Catalogue

open Catalogue (fieldsKeyword isPlainName isPlainName_iff pathNames leavesAt logicalKey)

/-! ## The key at the end of a route -/

namespace Route

/-- The names on the path of a route. -/
def names (route : Route) : List (List Char) := (route.flatMap Passage.names).map String.toList

/-- **The key that the schema at the end of a route describes.** -/
def key (route : Route) : String := logicalKey (pathNames (route.path ""))

theorem isPlainName_of_mem {route : Route} (h : ∀ p ∈ route, p.isProper = true) :
    ∀ name ∈ route.flatMap Passage.names, isPlainName name = true := by
  intro name hname
  obtain ⟨p, hp, hmem⟩ := List.mem_flatMap.1 hname
  have hproper := h p hp
  cases p with
  | keyword k =>
    rw [Passage.isProper, Bool.and_eq_true] at hproper
    rw [List.mem_singleton.1 hmem]
    exact hproper.1
  | field f =>
    rw [Passage.names, List.mem_cons, List.mem_singleton] at hmem
    rcases hmem with rfl | rfl
    · decide
    · exact hproper
  | item i =>
    rw [List.mem_singleton.1 hmem]
    exact isPlainName_position i

theorem pathNames_path {route : Route} (h : ∀ p ∈ route, p.isProper = true) :
    pathNames (route.path "") = route.names := by
  have hfold : route.path "" = (route.flatMap Passage.names).foldl Key.join "" :=
    List.foldl_flatMap.symm
  rw [hfold, pathNames_foldl (isPlainName_of_mem h)]
  rfl

theorem fieldNames_cons {name : List Char} (h : name ≠ fieldsKeyword.toList)
    (rest : List (List Char)) : Catalogue.fieldNames false (name :: rest) =
      Catalogue.fieldNames false [name] ++ Catalogue.fieldNames false rest := by
  simp only [Catalogue.fieldNames, if_neg h]
  split_ifs <;> rfl

theorem fieldNames_passage {p : Passage} (h : p.isProper = true) (rest : List (List Char)) :
    Catalogue.fieldNames false (p.names.map String.toList ++ rest) =
      Catalogue.fieldNames false (p.names.map String.toList) ++
        Catalogue.fieldNames false rest := by
  cases p with
  | keyword k =>
    rw [Passage.isProper, Bool.and_eq_true, bne_iff_ne] at h
    exact fieldNames_cons (fun heq => h.2 (String.toList_inj.1 heq)) rest
  | field f => simp [Passage.names, Catalogue.fieldNames]
  | item i => exact fieldNames_cons (position_ne_fieldsKeyword i) rest

theorem fieldNames_append {route : Route} (h : ∀ p ∈ route, p.isProper = true)
    (rest : List (List Char)) : Catalogue.fieldNames false (route.names ++ rest) =
      Catalogue.fieldNames false route.names ++ Catalogue.fieldNames false rest := by
  induction route with
  | nil => rfl
  | cons p route ih =>
    obtain ⟨hp, hroute⟩ := List.forall_mem_cons.1 h
    have hnames : names (p :: route) = p.names.map String.toList ++ names route := by
      simp [names]
    rw [hnames, List.append_assoc, fieldNames_passage hp, ih hroute, fieldNames_passage hp,
      List.append_assoc]

section Field

variable {route : Route} (h : ∀ p ∈ route, p.isProper = true) {name : String}
  (hname : isPlainName name = true)

include h hname

theorem isProper_field : ∀ p ∈ route ++ [Passage.field name], p.isProper = true :=
  List.forall_mem_append.2 ⟨h, List.forall_mem_singleton.2 hname⟩

theorem fieldNames_field (rest : List (List Char)) :
    Catalogue.fieldNames false (names (route ++ [.field name]) ++ rest) =
      Catalogue.fieldNames false route.names ++ [name.toList] ++
        Catalogue.fieldNames false rest := by
  have hnames : names (route ++ [.field name]) =
      route.names ++ [fieldsKeyword.toList, name.toList] := by
    simp [names, Passage.names]
  rw [fieldNames_append (isProper_field h hname), hnames, fieldNames_append h]
  rfl

theorem key_field : key (route ++ [.field name]) =
    String.ofList (List.intercalate ['.'] (Catalogue.fieldNames false route.names ++
      [name.toList])) := by
  have hfields := fieldNames_field h hname []
  rw [List.append_nil, Catalogue.fieldNames.eq_1, List.append_nil] at hfields
  rw [key, pathNames_path (isProper_field h hname), logicalKey, hfields]

theorem not_extends_key : ¬ Catalogue.Extends (key (route ++ [.field name])) route.key := by
  have hne : name.toList ≠ [] := fun hnil =>
    (isPlainName_iff.1 hname).1 (String.toList_eq_nil_iff.1 hnil)
  rw [key_field h hname, key, pathNames_path h, logicalKey]
  exact Catalogue.not_extends_of_append hne

/-- **At the path of the field itself** its name stands for a keyword of its section. -/
theorem ofPath_field (s : Json) :
    Catalogue.Leaf.ofPath (path "" (route ++ [.field name])) s = ⟨route.key, name, s⟩ := by
  have hpath : path "" (route ++ [.field name]) =
      Key.join (Key.join (route.path "") fieldsKeyword) name := by
    simp [path, Passage.path, Passage.names]
  have hnone : Catalogue.fieldNames false [fieldsKeyword.toList] = [] := by decide
  rw [hpath, Catalogue.ofPath_join _ (isPlainName_iff.1 hname).2,
    Catalogue.pathNames_join _ (by decide), key, pathNames_path h, logicalKey, logicalKey,
    fieldNames_append h, hnone, List.append_nil]

/-- **Strictly below the path of the field** are statements about the field and its own fields. -/
theorem extends_of_mem_leavesAt {members : List (String × Json)} {e : String × Json}
    (he : e ∈ leavesAt (path "" (route ++ [.field name])) false (.object members)) :
    Catalogue.Extends (key (route ++ [.field name])) (Catalogue.Leaf.ofPath e.1 e.2).key := by
  have hnames := pathNames_path (isProper_field h hname)
  have hne : path "" (route ++ [.field name]) ≠ "" := by
    intro hempty
    rw [hempty] at hnames
    simp [names, Passage.names, pathNames] at hnames
  obtain ⟨rest, hrest, hbelow⟩ := Catalogue.exists_names_of_mem hne he
  rw [hnames] at hbelow
  have hne' : e.1 ≠ "" := by
    intro hempty
    rw [hempty] at hbelow
    exact List.append_ne_nil_of_right_ne_nil _ hrest hbelow.symm
  rw [Catalogue.pathNames_of_ne hne'] at hbelow
  rw [key_field h hname, Catalogue.Leaf.ofPath, hbelow, List.dropLast_append_of_ne_nil hrest,
    logicalKey, fieldNames_field h hname]
  exact Catalogue.extends_of_append (List.append_ne_nil_of_right_ne_nil _ (List.cons_ne_nil _ _)) _

end Field

end Route

/-! ## Statements where leaves are put between others -/

namespace Catalogue

/-- The values of the statements about a key under a keyword that leaves make. -/
def statedIn (l : List (String × Json)) (key keyword : String) : List Json :=
  ((Dict.ofList l).entries.filter fun e =>
    decide ((Leaf.ofPath e.1 e.2).key = key ∧ keywordAt e = keyword)).map Prod.snd

theorem stated_eq_statedIn (document : Json) (key keyword : String) :
    stated document key keyword = statedIn (leavesAt "" false document) key keyword :=
  stated_eq document key keyword

theorem exists_of_mem_statedIn {l : List (String × Json)} {key keyword : String} {j : Json}
    (h : j ∈ statedIn l key keyword) : ∃ e ∈ l, (Leaf.ofPath e.1 e.2).key = key := by
  obtain ⟨e, he, -⟩ := List.mem_map.1 h
  rw [List.mem_filter, decide_eq_true_eq] at he
  exact ⟨e, Dict.mem_of_find?_ofList (Dict.mem_entries.1 he.1), he.2.1⟩

theorem statedIn_singleton (path : String) (j : Json) (key keyword : String) :
    statedIn [(path, j)] key keyword =
      if (Leaf.ofPath path j).key = key ∧ keywordAt (path, j) = keyword then [j] else [] := by
  have hentries : (Dict.ofList [(path, j)]).entries = [(path, j)] := rfl
  rw [statedIn, hentries, List.filter_cons, List.filter_nil]
  simp only [decide_eq_true_eq]
  split_ifs <;> rfl

section Inserts

variable {path : String} {added l l' : List (String × Json)} (h : Inserts path added l l')
  (hadded : ∀ e ∈ added, pathNames path <+: pathNames e.1)

include h hadded

/-- **A look-up below the path finds a new leaf**, and any other look-up an old one. -/
theorem find?_of_inserts (key : String) : (Dict.ofList l').find? key =
    if pathNames path <+: pathNames key then (Dict.ofList added).find? key
    else (Dict.ofList l).find? key := by
  obtain ⟨before, after, rfl, rfl, hbefore, hafter⟩ := h
  rw [Dict.find?_ofList_append, Dict.find?_ofList_append, Dict.find?_ofList_append]
  by_cases hbelow : pathNames path <+: pathNames key
  · have hnone : ∀ m, Avoids path m → (Dict.ofList m).find? key = none := fun m hm =>
      Dict.find?_ofList_eq_none fun e he heq => hm e he (heq ▸ hbelow)
    rw [if_pos hbelow, hnone before hbefore, hnone after hafter, Option.or_none, Option.none_or]
  · have hnone : (Dict.ofList added).find? key = none :=
      Dict.find?_ofList_eq_none fun e he heq => hbelow (heq ▸ hadded e he)
    rw [if_neg hbelow, hnone, Option.none_or]

theorem entries_below : (Dict.ofList l').entries.filter
    (fun e => decide (pathNames path <+: pathNames e.1)) = (Dict.ofList added).entries := by
  have hdict : (Dict.ofList l').filter (fun key _ => decide (pathNames path <+: pathNames key)) =
      Dict.ofList added := Dict.ext_find? fun key => by
    rw [Dict.find?_filter, find?_of_inserts h hadded]
    by_cases hbelow : pathNames path <+: pathNames key
    · cases (Dict.ofList added).find? key <;> simp [hbelow]
    · have hnone : (Dict.ofList added).find? key = none :=
        Dict.find?_ofList_eq_none fun e he heq => hbelow (heq ▸ hadded e he)
      simp [hbelow, hnone]
  exact congrArg Dict.entries hdict

theorem entries_beside : (Dict.ofList l').entries.filter
    (fun e => !decide (pathNames path <+: pathNames e.1)) = (Dict.ofList l).entries := by
  have hdict : (Dict.ofList l').filter (fun key _ => !decide (pathNames path <+: pathNames key)) =
      Dict.ofList l := Dict.ext_find? fun key => by
    rw [Dict.find?_filter, find?_of_inserts h hadded]
    by_cases hbelow : pathNames path <+: pathNames key
    · obtain ⟨before, after, rfl, -, hbefore, hafter⟩ := h
      have hnone : (Dict.ofList (before ++ after)).find? key = none :=
        Dict.find?_ofList_eq_none fun e he heq =>
          avoids_append.2 ⟨hbefore, hafter⟩ e he (heq ▸ hbelow)
      simp [hbelow, hnone]
    · cases (Dict.ofList l).find? key <;> simp [hbelow]
  exact congrArg Dict.entries hdict

theorem statedIn_perm (key keyword : String) : (statedIn l' key keyword).Perm
    (statedIn added key keyword ++ statedIn l key keyword) := by
  have hperm := List.filter_append_perm
    (fun e => decide (pathNames path <+: pathNames e.1)) (Dict.ofList l').entries
  rw [entries_below h hadded, entries_beside h hadded] at hperm
  rw [statedIn, statedIn, statedIn, ← List.map_append, ← List.filter_append]
  exact (hperm.symm.filter _).map _

theorem filterMap_statedIn {α : Type} {g : Json → Option α} {key keyword : String}
    (hnone : ∀ j ∈ statedIn added key keyword, g j = none) :
    (statedIn l' key keyword).filterMap g = (statedIn l key keyword).filterMap g := by
  rw [statedIn, statedIn, ← entries_beside h hadded, List.filterMap_map, List.filterMap_map,
    List.filterMap_filter, List.filterMap_filter, List.filterMap_filter]
  refine List.filterMap_congr fun e he => ?_
  by_cases hbelow : pathNames path <+: pathNames e.1
  · have hnew : e ∈ (Dict.ofList added).entries := by
      rw [← entries_below h hadded]
      exact List.mem_filter.2 ⟨he, decide_eq_true hbelow⟩
    rw [decide_eq_true hbelow, Bool.not_true, if_neg Bool.false_ne_true]
    refine ite_eq_right_iff.2 fun hsays => ?_
    exact hnone e.2 (List.mem_map.2 ⟨e, List.mem_filter.2 ⟨hnew, hsays⟩, rfl⟩)
  · rw [decide_eq_false hbelow, Bool.not_false, if_pos rfl]

end Inserts

/-! ## Agreement with one more value -/

theorem eq_of_same_bool {v : Value} {b : Bool} (h : v.same (.scalar (.bool b)) = true) :
    v = .scalar (.bool b) := by
  cases v with
  | scalar s =>
    cases s with
    | bool a => rw [show a = b by simpa [Value.same, Scalar.same] using h]
    | text t | int i | uint n | float x => cases h
  | list items | nested fields | «repeated» sections => cases h

/-- **A boolean among the values of the branches** makes no difference if there were some before
and it is the one on which they agree, if they do. -/
theorem agreed?_bool_iff {values values' : List Value} {b : Bool}
    (hperm : values'.Perm (.scalar (.bool b) :: values))
    (hregular : ∀ v ∈ values', v.isRegular = true) : agreed? values' = agreed? values ↔
      values ≠ [] ∧ ∀ v, agreed? values = some v → v = .scalar (.bool b) := by
  have hmem : ∀ v ∈ values, v ∈ values' := fun v hv =>
    hperm.mem_iff.2 (List.mem_cons_of_mem _ hv)
  have hbool : Value.scalar (.bool b) ∈ values' := hperm.mem_iff.2 List.mem_cons_self
  have hold : ∀ v ∈ values, v.isRegular = true := fun v hv => hregular v (hmem v hv)
  constructor
  · intro heq
    refine ⟨?_, fun v hv => ?_⟩
    · rintro rfl
      rw [List.perm_singleton.1 hperm] at heq
      cases heq
    · exact eq_of_same_bool ((agreed?_eq_some hregular (heq.trans hv)).2 _ hbool)
  · rintro ⟨hne, hall⟩
    cases hv : agreed? values with
    | some v =>
      have hsame := (agreed?_eq_some hold hv).2
      rw [hall v hv] at hsame ⊢
      have hconst : ∀ w ∈ values', w = .scalar (.bool b) := fun w hw => by
        rcases List.mem_cons.1 (hperm.mem_iff.1 hw) with rfl | hw
        · rfl
        · exact eq_of_same_bool (Value.same_symm _ w rfl (hold w hw) (hsame w hw))
      have hagreed : (agreed? values').isSome = true := by
        refine (agreed?_isSome_iff hregular).2 ⟨List.ne_nil_of_mem hbool, fun w hw u hu => ?_⟩
        rw [hconst w hw, hconst u hu]
        exact Value.same_self _ rfl
      obtain ⟨u, hu⟩ := Option.isSome_iff_exists.1 hagreed
      rw [hu, hconst u (mem_of_agreed? hu)]
    | none =>
      refine Option.eq_none_iff_forall_ne_some.2 fun u hu => ?_
      obtain ⟨-, hsame⟩ := (agreed?_isSome_iff hregular).1 (Option.isSome_of_eq_some hu)
      have hagreed := (agreed?_isSome_iff hold).2
        ⟨hne, fun v hv w hw => hsame v (hmem v hv) w (hmem w hw)⟩
      rw [hv] at hagreed
      cases hagreed

/-! ## Catalogues -/

theorem agreesAt_of_stated {document document' : Json} {key : String}
    (h : ∀ keyword, stated document' key keyword = stated document key keyword) :
    (ofDocument document).AgreesAt (ofDocument document') key where
  defaults := by rw [find?_defaults, find?_defaults, h]
  dynamic := by rw [Bool.eq_iff_iff, contains_dynamic, contains_dynamic, h]
  required := by rw [find?_required, find?_required, h]

/-- **The boolean schema of a field is misread**: it is taken for an annotation of the section of
the field, and says something about the key of the section that the document did not say. -/
inductive Misread (document : Json) (key : String) : (name : String) → Json → Prop where
  /-- The section was not dynamic. -/
  | dynamic (h : (ofDocument document).dynamic.contains key = false) :
    Misread document key "dynamic" (.bool true)
  /-- The document gave the section no default. -/
  | first {b : Bool} (h : (stated document key "default").filterMap defaultValue? = []) :
    Misread document key "default" (.bool b)
  /-- The document gave the section another default. -/
  | other {b : Bool} {v : Value} (h : (ofDocument document).defaults.find? key = some v)
    (hne : v ≠ .scalar (.bool b)) : Misread document key "default" (.bool b)

theorem regular_stated {document : Json} (h : document.isRegular = true) {key keyword : String} :
    ∀ v ∈ (stated document key keyword).filterMap defaultValue?, v.isRegular = true := by
  intro v hv
  obtain ⟨j, hj, hvalue⟩ := List.mem_filterMap.1 hv
  rw [stated_eq] at hj
  obtain ⟨e, he, rfl⟩ := List.mem_map.1 hj
  have hleaf := Dict.mem_of_find?_ofList (Dict.mem_entries.1 (List.mem_filter.1 he).1)
  exact regular_defaultValue (regular_leavesAt "" false document h e hleaf) hvalue

end Catalogue

open Catalogue (Extends Misread stated statedIn ofDocument defaultValue? requiredNames?
  stated_eq_statedIn statedIn_perm filterMap_statedIn statedIn_singleton)

/-- The value is a schema: an object or a boolean. -/
def Json.isSchema : Json → Bool
  | .object _ => true
  | .bool _ => true
  | _ => false

section AddsField

variable {name : String} {s document document' : Json} {route : Route}
  (hplain : document.hasPlainKeys false = true) (hname : isPlainName name = true)
  (hadds : AddsField name s route document document') (hregular : document'.isRegular = true)

include hplain hname hadds hregular

theorem agreesAt_of_forall {key : String}
    (h : ∀ e ∈ leavesAt (Route.path "" (route ++ [.field name])) false s,
      (Catalogue.Leaf.ofPath e.1 e.2).key ≠ key) :
    (ofDocument document).AgreesAt (ofDocument document') key := by
  have hinserts := inserts_of_addsField hname hadds hplain hregular ""
  have hbelow := Catalogue.prefix_of_mem_leavesAt (Route.path "" (route ++ [.field name])) false s
  refine Catalogue.agreesAt_of_stated fun keyword => ?_
  rw [stated_eq_statedIn, stated_eq_statedIn, ← List.filterMap_some (l := statedIn _ key keyword),
    filterMap_statedIn hinserts hbelow, List.filterMap_some]
  intro j hj
  obtain ⟨e, he, hkey⟩ := Catalogue.exists_of_mem_statedIn hj
  exact absurd hkey (h e he)

end AddsField

section Boolean

variable {name : String} {b : Bool} {document document' : Json} {route : Route}
  (hplain : document.hasPlainKeys false = true) (hname : isPlainName name = true)
  (hadds : AddsField name (.bool b) route document document')
  (hregular : document'.isRegular = true)

include hplain hname hadds

theorem statedIn_bool (keyword : String) :
    statedIn (leavesAt (Route.path "" (route ++ [.field name])) false (.bool b)) route.key keyword =
      if name = keyword then [.bool b] else [] := by
  have hleaf : leavesAt (Route.path "" (route ++ [.field name])) false (.bool b) =
      [(Route.path "" (route ++ [.field name]), .bool b)] := rfl
  have hstatement := Route.ofPath_field (isProper_of_addsField hadds hplain) hname (.bool b)
  rw [hleaf, statedIn_singleton, Catalogue.keywordAt, hstatement]
  simp

include hregular

theorem stated_perm_of_bool (keyword : String) : (stated document' route.key keyword).Perm
    ((if name = keyword then [.bool b] else []) ++ stated document route.key keyword) := by
  rw [stated_eq_statedIn, stated_eq_statedIn, ← statedIn_bool hplain hname hadds]
  exact statedIn_perm (inserts_of_addsField hname hadds hplain hregular "")
    (Catalogue.prefix_of_mem_leavesAt _ _ _) _ _

theorem filterMap_stated_of_bool {α : Type} {g : Json → Option α} {keyword : String}
    (hg : name = keyword → g (.bool b) = none) :
    (stated document' route.key keyword).filterMap g =
      (stated document route.key keyword).filterMap g := by
  rw [stated_eq_statedIn, stated_eq_statedIn]
  refine filterMap_statedIn (inserts_of_addsField hname hadds hplain hregular "")
    (Catalogue.prefix_of_mem_leavesAt _ _ _) fun j hj => ?_
  rw [statedIn_bool hplain hname hadds] at hj
  split_ifs at hj with hkeyword
  · rw [List.mem_singleton.1 hj, hg hkeyword]
  · cases hj

theorem required_of_bool : (ofDocument document').required.find? route.key =
    (ofDocument document).required.find? route.key := by
  have hnone : name = "required" → requiredNames? (.bool b) = none := fun _ => rfl
  rw [Catalogue.find?_required, Catalogue.find?_required,
    filterMap_stated_of_bool hplain hname hadds hregular hnone]

theorem dynamic_of_bool_iff : (ofDocument document').dynamic.contains route.key =
    (ofDocument document).dynamic.contains route.key ↔
      (name = "dynamic" → b = true → (ofDocument document).dynamic.contains route.key = true) := by
  rw [Bool.eq_iff_iff, Catalogue.contains_dynamic, Catalogue.contains_dynamic,
    (stated_perm_of_bool hplain hname hadds hregular "dynamic").mem_iff, List.mem_append]
  by_cases hdynamic : name = "dynamic"
  · cases b <;> simp [hdynamic]
  · simp [hdynamic]

theorem defaults_of_bool_iff : (ofDocument document').defaults.find? route.key =
    (ofDocument document).defaults.find? route.key ↔
      (name = "default" → (stated document route.key "default").filterMap defaultValue? ≠ [] ∧
        ∀ v, (ofDocument document).defaults.find? route.key = some v →
          v = .scalar (.bool b)) := by
  rw [Catalogue.find?_defaults, Catalogue.find?_defaults]
  by_cases hdefault : name = "default"
  · have hperm := (stated_perm_of_bool hplain hname hadds hregular "default").filterMap
      defaultValue?
    have hvalue : defaultValue? (.bool b) = some (.scalar (.bool b)) := rfl
    rw [if_pos hdefault, List.singleton_append, List.filterMap_cons_some hvalue] at hperm
    rw [Catalogue.agreed?_bool_iff hperm (Catalogue.regular_stated hregular)]
    simp [hdefault]
  · rw [filterMap_stated_of_bool hplain hname hadds hregular fun h => absurd h hdefault]
    simp [hdefault]

/-- **A boolean schema changes what the catalogue says about the section** if and only if it is
misread. -/
theorem agreesAt_section_iff :
    (ofDocument document).AgreesAt (ofDocument document') route.key ↔
      ¬ Misread document route.key name (.bool b) := by
  have hdynamic := dynamic_of_bool_iff hplain hname hadds hregular
  have hdefaults := defaults_of_bool_iff hplain hname hadds hregular
  constructor
  · intro hagrees hmisread
    cases hmisread with
    | dynamic h => exact absurd (hdynamic.1 hagrees.dynamic rfl rfl) (by simp [h])
    | first h => exact (hdefaults.1 hagrees.defaults rfl).1 h
    | other h hne => exact hne ((hdefaults.1 hagrees.defaults rfl).2 _ h)
  · intro hmisread
    refine ⟨hdefaults.2 ?_, hdynamic.2 ?_, required_of_bool hplain hname hadds hregular⟩
    · rintro rfl
      refine ⟨fun hnil => hmisread (.first hnil), fun v hv => ?_⟩
      by_contra hne
      exact hmisread (.other hv hne)
    · rintro rfl rfl
      by_contra hcontains
      exact hmisread (.dynamic (Bool.eq_false_iff.2 hcontains))

end Boolean

/-! ## The frame of a new field -/

/-- **A new field changes what the catalogue says at its own key and below it only**, unless its
schema is a boolean that is misread. Even then nothing changes elsewhere but what the catalogue says
about the section of the field. -/
theorem new_field_confined_iff {name : String} {s document document' : Json} {route : Route}
    (hplain : document.hasPlainKeys false = true) (hname : isPlainName name = true)
    (hschema : s.isSchema = true) (hadds : AddsField name s route document document')
    (hregular : document'.isRegular = true) :
    ((∀ key, ¬ Extends (Route.key (route ++ [.field name])) key →
        (ofDocument document).AgreesAt (ofDocument document') key) ↔
      ¬ Misread document route.key name s) ∧
    ∀ key, ¬ Extends (Route.key (route ++ [.field name])) key → key ≠ route.key →
      (ofDocument document).AgreesAt (ofDocument document') key := by
  have hproper := isProper_of_addsField hadds hplain
  have hsection := Route.not_extends_key hproper hname
  cases s with
  | object members =>
    have hagrees : ∀ key, ¬ Extends (Route.key (route ++ [.field name])) key →
        (ofDocument document).AgreesAt (ofDocument document') key := fun key hkey =>
      agreesAt_of_forall hplain hname hadds hregular fun e he heq =>
        hkey (heq ▸ Route.extends_of_mem_leavesAt hproper hname he)
    exact ⟨iff_of_true hagrees nofun, fun key hkey _ => hagrees key hkey⟩
  | bool b =>
    have hagrees : ∀ key, key ≠ route.key →
        (ofDocument document).AgreesAt (ofDocument document') key := fun key hkey =>
      agreesAt_of_forall hplain hname hadds hregular fun e he heq => by
        rw [List.mem_singleton.1 he, Route.ofPath_field hproper hname] at heq
        exact hkey heq.symm
    refine ⟨?_, fun key _ hkey => hagrees key hkey⟩
    rw [← agreesAt_section_iff hplain hname hadds hregular]
    refine ⟨fun h => h _ hsection, fun h key _ => ?_⟩
    by_cases hkey : key = route.key
    · exact hkey ▸ h
    · exact hagrees key hkey
  | null | number n | string t | array items => cases hschema

/-- A schema document with one section and the fields of that section. -/
def sectionWith (fields : List (String × Json)) : Json :=
  .object [("properties", .object [("service", .object [("properties", .object fields)])])]

/-- A field that is called default and admits every value becomes the default of its section. -/
theorem new_field_not_confined_of_default :
    (sectionWith []).hasPlainKeys false = true ∧ isPlainName "default" = true ∧
      (Json.bool true).isSchema = true ∧
      AddsField "default" (.bool true) [.field "service"] (sectionWith [])
        (sectionWith [("default", .bool true)]) ∧
      (sectionWith [("default", .bool true)]).isRegular = true ∧
      Route.key ([.field "service"] ++ [.field "default"]) = "service.default" ∧
      ¬ (∀ key, ¬ Extends (Route.key ([.field "service"] ++ [.field "default"])) key →
        (ofDocument (sectionWith [])).AgreesAt
          (ofDocument (sectionWith [("default", .bool true)])) key) := by
  have hplain : (sectionWith []).hasPlainKeys false = true := by decide
  have hname : isPlainName "default" = true := by decide
  have hadds : AddsField "default" (.bool true) [.field "service"] (sectionWith [])
      (sectionWith [("default", .bool true)]) := .field (.here [] [] [] []) [] [] [] []
  have hregular : (sectionWith [("default", .bool true)]).isRegular = true := by decide
  have hmisread : Misread (sectionWith []) (Route.key [.field "service"]) "default" (.bool true) :=
    .first (by decide)
  obtain ⟨hconfined, -⟩ := new_field_confined_iff hplain hname rfl hadds hregular
  exact ⟨hplain, hname, rfl, hadds, hregular, by decide, fun h => hconfined.1 h hmisread⟩

example : (ofDocument (sectionWith [("default", .object [("default", .string "x")])])).defaults.keys
    = ["service.default"] := by decide

end Reconfig
