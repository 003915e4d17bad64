import Reconfig.Proofs.SchemaNodes

/-!
# Paths into a schema document

The address of a node is written as a path: a field is its name after the keyword whose members
are fields, a branch is its position after its keyword. Nothing on the way is lost. The path tells
the address, and although a field can have the name of a keyword or of a number, the logical key of
the path consists of the fields on the address.

* `pathNames`, `ofPath_join`: the names on a path, and the statement of a leaf below it;
* `Step.names`, `Address.path`: the names that a step adds, and the path of an address;
* **`names_injective`**: two addresses do not have the same names;
* **`logicalKey_path`**: the logical key of the path of an address;
* **`intercalate_injective`**: a logical key tells its fields.
-/

namespace Reconfig

namespace Catalogue

/-! ## Names on a path -/

/-- The names on a path; the empty path has none. -/
def pathNames (path : String) : List (List Char) :=
  if path.isEmpty then [] else Text.pieces '.' path.toList

theorem isPlainName_iff {name : String} :
    isPlainName name = true ↔ name ≠ "" ∧ '.' ∉ name.toList := by
  simp [isPlainName]

theorem pieces_join (path : String) {name : String} (h : '.' ∉ name.toList) :
    Text.pieces '.' (Key.join path name).toList = pathNames path ++ [name.toList] := by
  unfold Key.join pathNames
  split
  · exact Text.pieces_of_not_mem h
  · have htext : (path ++ "." ++ name).toList = path.toList ++ '.' :: name.toList := by
      simp [String.toList_append]
    rw [htext, Text.pieces_append, Text.pieces_of_not_mem h]

theorem pathNames_join (path : String) {name : String} (h : isPlainName name = true) :
    pathNames (Key.join path name) = pathNames path ++ [name.toList] := by
  obtain ⟨hne, hpoint⟩ := isPlainName_iff.1 h
  have hpath : (Key.join path name).isEmpty = false := by
    unfold Key.join
    split <;> simp [hne]
  rw [← pieces_join path hpoint, pathNames, hpath]
  rfl

theorem ofPath_join (path : String) {keyword : String} (h : '.' ∉ keyword.toList) (value : Json) :
    Leaf.ofPath (Key.join path keyword) value = ⟨logicalKey (pathNames path), keyword, value⟩ := by
  rw [Leaf.ofPath, pieces_join path h]
  simp

end Catalogue

open Catalogue (fieldsKeyword isPlainName positions pathNames pathNames_join isPlainName_iff
  logicalKey isStructural)

/-! ## Positions -/

theorem toList_position (i : Nat) : (toString i).toList = Nat.toDigits 10 i := Nat.toList_repr

theorem isPlainName_position (i : Nat) : isPlainName (toString i) = true := by
  refine isPlainName_iff.2 ⟨fun h => ?_, fun h => ?_⟩
  · have hdigits := toList_position i
    rw [h] at hdigits
    exact Nat.toDigits_ne_nil hdigits.symm
  · rw [toList_position] at h
    exact absurd (Numeral.isDigit_of_mem_toDigits h) (by decide)

theorem position_injective {i k : Nat} (h : toString i = toString k) : i = k := by
  have hdigits : Nat.toDigits 10 i = Nat.toDigits 10 k := by
    rw [← toList_position, ← toList_position, h]
  have hread := Numeral.natural?_toDigits i
  rw [hdigits, Numeral.natural?_toDigits] at hread
  exact (Option.some.inj hread).symm

theorem isStructural_position {i : Nat} (h : i < positions) :
    isStructural (toString i).toList = true := by
  have hindex : Numeral.isIndex (toString i).toList = true := by
    rw [Numeral.isIndex]
    exact Option.isSome_of_eq_some (Numeral.unsigned?_repr h)
  rw [isStructural, hindex, Bool.or_true]

theorem position_ne_fieldsKeyword (i : Nat) : (toString i).toList ≠ fieldsKeyword.toList := by
  intro h
  have hmem : 'p' ∈ (toString i).toList := by
    rw [h]
    decide
  rw [toList_position] at hmem
  exact absurd (Numeral.isDigit_of_mem_toDigits hmem) (by decide)

/-! ## Steps -/

/-- The names that a step adds to a path. -/
def Step.names : Step → List String
  | .field name => [fieldsKeyword, name]
  | .items => ["items"]
  | .oneOf position => ["oneOf", toString position]
  | .anyOf position => ["anyOf", toString position]

/-- The path of a node that stands a step below a path. -/
def Step.path (base : String) (s : Step) : String := s.names.foldl Key.join base

theorem pathNames_foldl {names : List String} (h : ∀ name ∈ names, isPlainName name = true)
    (base : String) :
    pathNames (names.foldl Key.join base) = pathNames base ++ names.map String.toList := by
  induction names generalizing base with
  | nil => rw [List.foldl_nil, List.map_nil, List.append_nil]
  | cons name rest ih =>
    rw [List.forall_mem_cons] at h
    rw [List.foldl_cons, ih h.2, pathNames_join base h.1, List.append_assoc]
    rfl

theorem isPlainName_of_mem_names {s : Step} (h : s.isProper = true) :
    ∀ name ∈ s.names, isPlainName name = true := by
  cases s with
  | field name =>
    rw [Step.names, List.forall_mem_cons, List.forall_mem_singleton]
    exact ⟨by decide, h⟩
  | items =>
    rw [Step.names, List.forall_mem_singleton]
    decide
  | oneOf i | anyOf i =>
    rw [Step.names, List.forall_mem_cons, List.forall_mem_singleton]
    exact ⟨by decide, isPlainName_position i⟩

theorem fieldNames_step {s : Step} (h : s.isProper = true) (rest : List (List Char)) :
    Catalogue.fieldNames false (s.names.map String.toList ++ rest) =
      s.field?.toList.map String.toList ++ Catalogue.fieldNames false rest := by
  cases s with
  | field name =>
    rw [Step.names, List.map_cons, List.cons_append, Catalogue.fieldNames, if_pos rfl]
    rfl
  | items =>
    rw [Step.names, List.map_singleton, List.singleton_append, Catalogue.fieldNames,
      if_neg (by decide), if_pos (by decide)]
    rfl
  | oneOf i | anyOf i =>
    have hposition := isStructural_position (of_decide_eq_true h)
    rw [Step.names, List.map_cons, List.map_singleton, List.cons_append, List.singleton_append,
      Catalogue.fieldNames, if_neg (by decide), if_pos (by decide), Catalogue.fieldNames,
      if_neg (position_ne_fieldsKeyword i), if_pos hposition]
    rfl

/-! ## Addresses -/

namespace Address

/-- The names on the path of an address. -/
def names (a : Address) : List String := a.flatMap Step.names

/-- The path of a node whose address starts at a path. -/
def path (base : String) (a : Address) : String := a.foldl Step.path base

theorem path_cons (base : String) (s : Step) (a : Address) :
    path base (s :: a) = path (s.path base) a := rfl

theorem names_injective : Function.Injective names := by
  intro a b h
  induction a generalizing b with
  | nil =>
    cases b with
    | nil => rfl
    | cons t b => cases t <;> cases h
  | cons s a ih =>
    cases b with
    | nil => cases s <;> cases h
    | cons t b =>
      rw [names, names, List.flatMap_cons, List.flatMap_cons] at h
      -- The first name tells the kind of the step, the second one its field or its position.
      cases s with
      | field name =>
        cases t with
        | field other =>
          simp only [Step.names, List.cons_append, List.nil_append, List.cons.injEq, true_and] at h
          rw [h.1, ih h.2]
        | items | oneOf k | anyOf k => simp [Step.names, fieldsKeyword] at h
      | items =>
        cases t with
        | items =>
          simp only [Step.names, List.cons_append, List.nil_append, List.cons.injEq, true_and] at h
          rw [ih h]
        | field other | oneOf k | anyOf k => simp [Step.names, fieldsKeyword] at h
      | oneOf i =>
        cases t with
        | oneOf k =>
          simp only [Step.names, List.cons_append, List.nil_append, List.cons.injEq, true_and] at h
          rw [position_injective h.1, ih h.2]
        | field other | items | anyOf k => simp [Step.names, fieldsKeyword] at h
      | anyOf i =>
        cases t with
        | anyOf k =>
          simp only [Step.names, List.cons_append, List.nil_append, List.cons.injEq, true_and] at h
          rw [position_injective h.1, ih h.2]
        | field other | items | oneOf k => simp [Step.names, fieldsKeyword] at h

theorem pathNames_path {a : Address} (h : a.isProper = true) (base : String) :
    pathNames (path base a) = pathNames base ++ a.names.map String.toList := by
  induction a generalizing base with
  | nil => exact (List.append_nil _).symm
  | cons s a ih =>
    rw [isProper, List.all_cons, Bool.and_eq_true] at h
    rw [path_cons, ih h.2, Step.path, pathNames_foldl (isPlainName_of_mem_names h.1),
      List.append_assoc, names, names, List.flatMap_cons, List.map_append]

/-- **The names on a path tell the address.** -/
theorem eq_of_pathNames {a b : Address} (ha : a.isProper = true) (hb : b.isProper = true)
    (h : pathNames (path "" a) = pathNames (path "" b)) : a = b := by
  rw [pathNames_path ha, pathNames_path hb] at h
  exact names_injective (List.map_injective_iff.2 (fun _ _ => String.toList_inj.1) h)

theorem isPlainName_of_mem_fields {a : Address} (h : a.isProper = true) :
    ∀ name ∈ a.fields, isPlainName name = true := by
  intro name hname
  obtain ⟨s, hs, hfield⟩ := List.mem_filterMap.1 hname
  have hproper := List.all_eq_true.1 h s hs
  cases s with
  | field other =>
    cases hfield
    exact hproper
  | items | oneOf i | anyOf i => cases hfield

theorem fieldNames_names {a : Address} (h : a.isProper = true) :
    Catalogue.fieldNames false (a.names.map String.toList) = a.fields.map String.toList := by
  induction a with
  | nil => rfl
  | cons s a ih =>
    rw [isProper, List.all_cons, Bool.and_eq_true] at h
    rw [names, List.flatMap_cons, List.map_append, fieldNames_step h.1, ← names, ih h.2,
      ← List.map_append]
    congr 1
    rw [fields, fields, List.filterMap_cons]
    cases s.field? <;> rfl

/-- **The logical key of the path of an address** consists of the fields on the address. -/
theorem logicalKey_path {a : Address} (h : a.isProper = true) :
    logicalKey (pathNames (path "" a)) = ".".intercalate a.fields := by
  rw [pathNames_path h, logicalKey, show pathNames "" = [] from rfl, List.nil_append,
    fieldNames_names h, ← String.toList_inj, String.toList_intercalate, String.toList_ofList]
  rfl

end Address

/-! ## Logical keys -/

theorem pathNames_intercalate {names : List String}
    (h : ∀ name ∈ names, isPlainName name = true) :
    pathNames (".".intercalate names) = names.map String.toList := by
  cases names with
  | nil => rfl
  | cons name rest =>
    have hpieces : Text.pieces '.' (".".intercalate (name :: rest)).toList =
        (name :: rest).map String.toList := by
      rw [String.toList_intercalate]
      refine Text.pieces_intercalate (by simp) fun s hs => ?_
      obtain ⟨n, hn, rfl⟩ := List.mem_map.1 hs
      exact (isPlainName_iff.1 (h n hn)).2
    rw [pathNames, if_neg, hpieces]
    intro hempty
    rw [String.isEmpty_iff.1 hempty, List.map_cons] at hpieces
    have hname : name.toList = [] := (List.cons.inj hpieces).1.symm
    exact (isPlainName_iff.1 (h name List.mem_cons_self)).1 (String.toList_eq_nil_iff.1 hname)

/-- **A logical key tells its fields.** -/
theorem intercalate_injective {names others : List String}
    (hnames : ∀ name ∈ names, isPlainName name = true)
    (hothers : ∀ name ∈ others, isPlainName name = true)
    (h : ".".intercalate names = ".".intercalate others) : names = others := by
  have hpath := congrArg pathNames h
  rw [pathNames_intercalate hnames, pathNames_intercalate hothers] at hpath
  exact List.map_injective_iff.2 (fun _ _ => String.toList_inj.1) hpath

end Reconfig
