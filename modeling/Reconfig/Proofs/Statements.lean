import Mathlib.Data.List.Nodup
import Reconfig.Proofs.Dict
import Reconfig.Proofs.SchemaPaths

/-!
# The statements of a schema document

The statements of a document about a key are the annotations of the nodes that are reached by the
fields of the key, whatever items and branches stand between them.

* `keywordAt`: the keyword of the statement that a leaf makes;
* `mem_leavesAt_object`: the annotations below a node are its own and those of its children;
* **`mem_leavesAt`**: they are the annotations of the nodes, each below the path of its node;
* **`mem_leaves`**: none is lost to another one with the same path;
* `stated`, **`stated_perm`**: the statements about a key are the annotations of its occurrences.
-/

namespace Reconfig

namespace Catalogue

/-! ## Leaves below members and items -/

theorem mem_memberLeaves {base : String} {members : List (String × Json)} {e : String × Json} :
    e ∈ memberLeaves base false members ↔ ∃ m ∈ members,
      e ∈ if annotations.contains m.1 then [(Key.join base m.1, m.2)]
        else leavesAt (Key.join base m.1) (m.1 == fieldsKeyword) m.2 := by
  induction members with
  | nil => simp [memberLeaves]
  | cons m rest ih =>
    obtain ⟨keyword, j⟩ := m
    rw [memberLeaves, List.mem_append, ih, List.exists_mem_cons_iff]
    simp only [Bool.not_false, Bool.true_and]

theorem mem_fieldLeaves {base : String} {fields : List (String × Json)} {e : String × Json} :
    e ∈ memberLeaves base true fields ↔
      ∃ f ∈ fields, e ∈ leavesAt (Key.join base f.1) false f.2 := by
  induction fields with
  | nil => simp [memberLeaves]
  | cons f rest ih =>
    obtain ⟨name, j⟩ := f
    rw [memberLeaves, List.mem_append, ih, List.exists_mem_cons_iff]
    simp only [Bool.not_true, Bool.false_and, Bool.false_eq_true, if_false]

theorem mem_itemLeaves {base : String} {position : Nat} {items : List Json} {e : String × Json} :
    e ∈ itemLeaves base position items ↔ ∃ i n, items[i]? = some n ∧
      e ∈ leavesAt (Key.join base (toString (position + i))) false n := by
  induction items generalizing position with
  | nil => simp [itemLeaves]
  | cons j rest ih =>
    rw [itemLeaves, List.mem_append, ih]
    constructor
    · rintro (h | ⟨i, n, hn, h⟩)
      · exact ⟨0, j, rfl, h⟩
      · rw [Nat.add_assoc, Nat.add_comm 1 i] at h
        exact ⟨i + 1, n, hn, h⟩
    · rintro ⟨i, n, hn, h⟩
      cases i with
      | zero =>
        cases hn
        exact .inl h
      | succ i =>
        rw [← Nat.add_assoc, Nat.add_right_comm] at h
        exact .inr ⟨i, n, hn, h⟩

/-! ## Annotations below a node -/

/-- The keyword of the statement that a leaf makes. -/
def keywordAt (e : String × Json) : String := (Leaf.ofPath e.1 e.2).keyword

theorem keywordAt_join (base : String) {keyword : String} (h : '.' ∉ keyword.toList) (j : Json) :
    keywordAt (Key.join base keyword, j) = keyword := by
  rw [keywordAt, ofPath_join base h]

theorem pointFree_of_mem {keyword : String} (h : keyword ∈ annotations) :
    '.' ∉ keyword.toList := by
  revert keyword
  decide

theorem position_not_mem (i : Nat) : toString i ∉ annotations := by
  intro h
  have hletters : ∀ keyword ∈ annotations, keyword.toList.all Char.isDigit = false := by decide
  have hdigits : (toString i).toList.all Char.isDigit = true := by
    rw [toList_position]
    exact List.all_eq_true.2 fun c hc => Numeral.isDigit_of_mem_toDigits hc
  exact nomatch (hletters _ h).symm.trans hdigits

theorem keywordAt_of_simple {base keyword : String} (hkeyword : keyword ∉ annotations)
    (hpoint : '.' ∉ keyword.toList) {j : Json} (hj : isSimple j = true) {named : Bool}
    {e : String × Json} (he : e ∈ leavesAt (Key.join base keyword) named j) :
    keywordAt e ∉ annotations := by
  have hscalar : ∀ path k named, isScalar k = true → e ∈ leavesAt path named k → e = (path, k) := by
    intro path k named hk hmem
    cases k with
    | null | bool b | number n | string s => exact List.mem_singleton.1 hmem
    | array items | object members => cases hk
  cases j with
  | null | bool b | number n | string s =>
    rw [hscalar _ _ _ rfl he, keywordAt_join base hpoint]
    exact hkeyword
  | object members => cases hj
  | array items =>
    obtain ⟨i, n, hn, he⟩ := mem_itemLeaves.1 he
    have hn' := List.all_eq_true.1 hj n (List.mem_of_getElem? hn)
    rw [hscalar _ _ _ hn' he, keywordAt_join _ (isPlainName_iff.1 (isPlainName_position _)).2]
    exact position_not_mem _

theorem childrenOf_eq_nil {keyword : String} (h : keyword ∈ annotations) (j : Json) :
    childrenOf keyword j = [] := by
  have hne : keyword ≠ fieldsKeyword ∧ keyword ≠ "items" ∧ keyword ≠ "oneOf" ∧
      keyword ≠ "anyOf" := by
    revert keyword
    decide
  unfold childrenOf
  rw [if_neg hne.1, if_neg hne.2.1, if_neg hne.2.2.1, if_neg hne.2.2.2]

theorem mem_branchLeaves {base keyword : String} {branch : Nat → Step}
    (hbranch : ∀ i, (branch i).path base = Key.join (Key.join base keyword) (toString i))
    {branches : List Json} {e : String × Json} :
    e ∈ itemLeaves (Key.join base keyword) 0 branches ↔
      ∃ c ∈ branchChildren branch 0 branches, e ∈ leavesAt (c.1.path base) false c.2 := by
  rw [mem_itemLeaves]
  constructor
  · rintro ⟨i, n, hn, he⟩
    exact ⟨(branch (0 + i), n), mem_branchChildren.2 ⟨i, n, hn, rfl⟩, by rwa [hbranch]⟩
  · rintro ⟨c, hc, he⟩
    obtain ⟨i, n, hn, rfl⟩ := mem_branchChildren.1 hc
    exact ⟨i, n, hn, by rwa [hbranch] at he⟩

section Annotations

variable {e : String × Json} (he : keywordAt e ∈ annotations)

include he

theorem mem_leavesBelow {base keyword : String} (hkeyword : keyword ∉ annotations) {j : Json}
    (hfit : membersFit [(keyword, j)] = true) :
    e ∈ leavesAt (Key.join base keyword) (keyword == fieldsKeyword) j ↔
      ∃ c ∈ childrenOf keyword j, e ∈ leavesAt (c.1.path base) false c.2 := by
  rw [membersFit.eq_def, Bool.and_eq_true] at hfit
  replace hfit := hfit.1
  rw [if_neg fun h => hkeyword (List.contains_iff_mem.1 h)] at hfit
  unfold childrenOf
  -- The keywords in the order in which both definitions test them.
  by_cases hfields : keyword = fieldsKeyword
  · subst hfields
    rw [if_pos rfl] at hfit ⊢
    cases j with
    | object fields =>
      rw [beq_self_eq_true, leavesAt, mem_fieldLeaves]
      simp only [List.mem_map, exists_exists_and_eq_and]
      rfl
    | null | bool b | number n | string s | array items => cases hfit
  rw [if_neg hfields] at hfit ⊢
  by_cases hitems : keyword = "items"
  · subst hitems
    rw [if_pos rfl]
    constructor
    · exact fun h => ⟨_, List.mem_singleton.2 rfl, h⟩
    · rintro ⟨c, hc, h⟩
      rwa [List.mem_singleton.1 hc] at h
  rw [if_neg hitems] at hfit ⊢
  by_cases hone : keyword = "oneOf"
  · subst hone
    rw [if_pos (.inl rfl)] at hfit
    rw [if_pos rfl]
    cases j with
    | array branches => exact mem_branchLeaves fun _ => rfl
    | null | bool b | number n | string s | object members => cases hfit
  rw [if_neg hone]
  by_cases hany : keyword = "anyOf"
  · subst hany
    rw [if_pos (.inr rfl)] at hfit
    rw [if_pos rfl]
    cases j with
    | array branches => exact mem_branchLeaves fun _ => rfl
    | null | bool b | number n | string s | object members => cases hfit
  rw [if_neg (not_or.2 ⟨hone, hany⟩), Bool.and_eq_true] at hfit
  rw [if_neg hany]
  have hpoint : '.' ∉ keyword.toList := by simpa using hfit.1
  constructor
  · exact fun h => absurd he (keywordAt_of_simple hkeyword hpoint hfit.2 h)
  · rintro ⟨c, hc, -⟩
    cases hc

/-- **The annotations below a node** are its own and those of its children. -/
theorem mem_leavesAt_object {base : String} {members : List (String × Json)}
    (hfit : membersFit members = true) :
    e ∈ leavesAt base false (.object members) ↔
      ((keywordAt e, e.2) ∈ members ∧ e.1 = Key.join base (keywordAt e)) ∨
        ∃ c ∈ children members, e ∈ leavesAt (c.1.path base) false c.2 := by
  rw [leavesAt, mem_memberLeaves, children]
  constructor
  · rintro ⟨m, hm, hleaf⟩
    split at hleaf
    · rename_i hcontains
      rw [List.mem_singleton] at hleaf
      have hkeyword := keywordAt_join base
        (pointFree_of_mem (List.contains_iff_mem.1 hcontains)) m.2
      rw [← hleaf] at hkeyword
      refine .inl ⟨?_, ?_⟩
      · rw [hkeyword, hleaf]
        exact hm
      · rw [hkeyword, hleaf]
    · rename_i hcontains
      have hnone := fun h => hcontains (List.contains_iff_mem.2 h)
      obtain ⟨c, hc, hbelow⟩ := (mem_leavesBelow he hnone (membersFit_of_mem hfit hm)).1 hleaf
      exact .inr ⟨c, List.mem_flatMap.2 ⟨m, hm, hc⟩, hbelow⟩
  · rintro (⟨hm, hpath⟩ | ⟨c, hc, hbelow⟩)
    · refine ⟨_, hm, ?_⟩
      rw [if_pos (List.contains_iff_mem.2 he), List.mem_singleton, ← hpath]
    · obtain ⟨m, hm, hc⟩ := List.mem_flatMap.1 hc
      have hnone : m.1 ∉ annotations := fun h => by
        rw [childrenOf_eq_nil h] at hc
        cases hc
      refine ⟨m, hm, ?_⟩
      rw [if_neg fun h => hnone (List.contains_iff_mem.1 h)]
      exact (mem_leavesBelow he hnone (membersFit_of_mem hfit hm)).2 ⟨c, hc, hbelow⟩

/-- **The annotations below a path** are those of the nodes, each below the path of its node. -/
theorem mem_leavesAt {j : Json} (hj : j.isNode = true) (hr : j.isRegular = true) (base : String) :
    e ∈ leavesAt base false j ↔ ∃ n ∈ j.nodes, n.2.member? (keywordAt e) = some e.2 ∧
      e.1 = Key.join (Address.path base n.1) (keywordAt e) := by
  revert hr base
  refine node_induct (P := fun j => j.isRegular = true → ∀ base, e ∈ leavesAt base false j ↔
    ∃ n ∈ j.nodes, n.2.member? (keywordAt e) = some e.2 ∧
      e.1 = Key.join (Address.path base n.1) (keywordAt e)) (fun members hfit ih hr base => ?_) j hj
  have hchild : ∀ c ∈ children members, e ∈ leavesAt (c.1.path base) false c.2 ↔
      ∃ n ∈ c.2.nodes, n.2.member? (keywordAt e) = some e.2 ∧
        e.1 = Key.join (Address.path (c.1.path base) n.1) (keywordAt e) := by
    intro c hc
    obtain ⟨m, hm, hbelow⟩ := mem_children.1 hc
    exact ih m hm c.1 c.2 hbelow (regular_of_isChild hr hm hbelow) (c.1.path base)
  rw [mem_leavesAt_object he hfit]
  constructor
  · rintro (⟨hm, hpath⟩ | ⟨c, hc, hbelow⟩)
    · exact ⟨_, mem_nodes_object.2 (.inl rfl), Dict.lookup_of_mem (members_distinct hr) hm, hpath⟩
    · obtain ⟨n, hn, hmember, hpath⟩ := (hchild c hc).1 hbelow
      exact ⟨_, mem_nodes_object.2 (.inr ⟨c, hc, n, hn, rfl⟩), hmember, hpath⟩
  · rintro ⟨n, hn, hmember, hpath⟩
    rcases mem_nodes_object.1 hn with rfl | ⟨c, hc, n', hbelow, rfl⟩
    · exact .inl ⟨Dict.mem_of_lookup hmember, hpath⟩
    · exact .inr ⟨c, hc, (hchild c hc).2 ⟨_, hbelow, hmember, hpath⟩⟩

end Annotations

/-! ## Statements about a key -/

section Document

variable {document : Json} (hnode : document.isNode = true) (hregular : document.isRegular = true)

include hnode hregular

theorem node_unique {n n' : Address × Json} (hn : n ∈ document.nodes) (hn' : n' ∈ document.nodes)
    {keyword : String} (hkeyword : '.' ∉ keyword.toList)
    (h : Key.join (Address.path "" n.1) keyword = Key.join (Address.path "" n'.1) keyword) :
    n = n' := by
  have hpieces := pieces_join (Address.path "" n.1) hkeyword
  rw [h, pieces_join _ hkeyword] at hpieces
  have haddress := Address.eq_of_pathNames (isProper_of_mem_nodes hnode n hn)
    (isProper_of_mem_nodes hnode n' hn') (List.append_cancel_right hpieces).symm
  have hdistinct : (document.nodes.map Prod.fst).Nodup :=
    List.pairwise_map.2 (nodes_distinct hnode hregular)
  exact List.inj_on_of_nodup_map hdistinct hn hn' haddress

/-- **The leaves under annotation keywords** are the annotations of the nodes; none is lost to
another one with the same path. -/
theorem mem_leaves {e : String × Json} (he : keywordAt e ∈ annotations) :
    e ∈ (leaves document).entries ↔ ∃ n ∈ document.nodes,
      n.2.member? (keywordAt e) = some e.2 ∧
        e.1 = Key.join (Address.path "" n.1) (keywordAt e) := by
  rw [← mem_leavesAt he hnode hregular]
  obtain ⟨path, j⟩ := e
  rw [Dict.mem_entries, leaves]
  refine ⟨Dict.mem_of_find?_ofList, fun h => Dict.find?_ofList_of_unique h fun j' h' => ?_⟩
  -- Two leaves at one path are annotations of one node under one keyword.
  obtain ⟨n, hn, hmember, hpath⟩ := (mem_leavesAt he hnode hregular "").1 h
  obtain ⟨n', hn', hmember', hpath'⟩ :=
    (mem_leavesAt (e := (path, j')) he hnode hregular "").1 h'
  have hsame := node_unique hnode hregular hn' hn (pointFree_of_mem he)
    (hpath'.symm.trans hpath)
  rw [hsame] at hmember'
  exact Option.some.inj (hmember'.symm.trans hmember)

end Document

/-- The values of the statements about a key under a keyword. -/
def stated (document : Json) (key keyword : String) : List Json :=
  ((statements document).filter fun l => decide (l.key = key ∧ l.keyword = keyword)).map Leaf.value

theorem stated_eq (document : Json) (key keyword : String) : stated document key keyword =
    ((leaves document).entries.filter fun e =>
      decide ((Leaf.ofPath e.1 e.2).key = key ∧ keywordAt e = keyword)).map Prod.snd := by
  rw [stated, statements, List.filter_map, List.map_map]
  rfl

/-- The leaf of an annotation of a node. -/
def annotation? (keyword : String) (n : Address × Json) : Option (String × Json) :=
  (n.2.member? keyword).map fun j => (Key.join (Address.path "" n.1) keyword, j)

theorem annotation?_eq_some {keyword : String} {n : Address × Json} {e : String × Json} :
    annotation? keyword n = some e ↔
      n.2.member? keyword = some e.2 ∧ e.1 = Key.join (Address.path "" n.1) keyword := by
  obtain ⟨path, j⟩ := e
  rw [annotation?, Option.map_eq_some_iff]
  constructor
  · rintro ⟨j, hj, heq⟩
    cases heq
    exact ⟨hj, rfl⟩
  · rintro ⟨hj, rfl⟩
    exact ⟨j, hj, rfl⟩

theorem ofPath_annotated {keyword : String} (hkeyword : '.' ∉ keyword.toList)
    {n : Address × Json} (hn : Address.isProper n.1 = true) {e : String × Json}
    (h : annotation? keyword n = some e) :
    Leaf.ofPath e.1 e.2 = ⟨".".intercalate n.1.fields, keyword, e.2⟩ := by
  rw [(annotation?_eq_some.1 h).2, ofPath_join _ hkeyword, Address.logicalKey_path hn]

section Document

variable {document : Json} (hnode : document.isNode = true) (hregular : document.isRegular = true)

include hnode hregular

theorem annotations_nodup {keyword : String} (hkeyword : '.' ∉ keyword.toList) :
    (document.nodes.filterMap (annotation? keyword)).Nodup := by
  refine List.Pairwise.filterMap _ (fun n n' h e he e' he' heq => ?_)
    (List.Pairwise.and_mem.1 (nodes_distinct hnode hregular))
  obtain ⟨-, hpath⟩ := annotation?_eq_some.1 he
  obtain ⟨-, hpath'⟩ := annotation?_eq_some.1 he'
  rw [heq] at hpath
  exact h.2.2 (congrArg Prod.fst
    (node_unique hnode hregular h.1 h.2.1 hkeyword (hpath.symm.trans hpath')))

section Fields

variable {fields : List String} (hfields : ∀ name ∈ fields, isPlainName name = true)
  {keyword : String} (hkeyword : keyword ∈ annotations)

include hfields hkeyword

theorem mem_leaves_of_fields {e : String × Json} :
    (e ∈ (leaves document).entries ∧
      (Leaf.ofPath e.1 e.2).key = ".".intercalate fields ∧ keywordAt e = keyword) ↔
      ∃ n, (n ∈ document.nodes ∧ n.1.fields = fields) ∧ annotation? keyword n = some e := by
  have hstatement : ∀ n ∈ document.nodes, annotation? keyword n = some e →
      Leaf.ofPath e.1 e.2 = ⟨".".intercalate n.1.fields, keyword, e.2⟩ := fun n hn hmade =>
    ofPath_annotated (pointFree_of_mem hkeyword) (isProper_of_mem_nodes hnode n hn) hmade
  constructor
  · rintro ⟨he, hkey, rfl⟩
    obtain ⟨n, hn, hmade⟩ := (mem_leaves hnode hregular hkeyword).1 he
    replace hmade := annotation?_eq_some.2 hmade
    rw [hstatement n hn hmade] at hkey
    have hplain := Address.isPlainName_of_mem_fields (isProper_of_mem_nodes hnode n hn)
    exact ⟨n, ⟨hn, intercalate_injective hplain hfields hkey⟩, hmade⟩
  · rintro ⟨n, ⟨hn, rfl⟩, hmade⟩
    have hat : keywordAt e = keyword := congrArg Leaf.keyword (hstatement n hn hmade)
    have hkey := congrArg Leaf.key (hstatement n hn hmade)
    subst hat
    exact ⟨(mem_leaves hnode hregular hkeyword).2 ⟨n, hn, annotation?_eq_some.1 hmade⟩, hkey, rfl⟩

/-- **The statements about a key are the annotations of its occurrences**, each once. -/
theorem stated_perm : (stated document (".".intercalate fields) keyword).Perm
    ((document.occurrences fields).filterMap fun n => n.member? keyword) := by
  have hannotations : ((document.occurrences fields).filterMap fun n => n.member? keyword) =
      ((document.nodes.filter fun n => decide (n.1.fields = fields)).filterMap
        (annotation? keyword)).map Prod.snd := by
    rw [Json.occurrences, List.filterMap_map, List.map_filterMap]
    refine List.filterMap_congr fun n _ => ?_
    simp [annotation?, Function.comp_def]
  have hmade := annotations_nodup hnode hregular (pointFree_of_mem hkeyword)
  -- Neither list repeats a leaf, so that it is enough that they have the same ones.
  rw [stated_eq, hannotations]
  refine List.Perm.map _ ((List.perm_ext_iff_of_nodup ((leaves document).entries_nodup.filter _)
    (hmade.sublist (List.filter_sublist.filterMap _))).2 fun e => ?_)
  rw [List.mem_filter, List.mem_filterMap]
  simp only [List.mem_filter, decide_eq_true_eq]
  exact mem_leaves_of_fields hnode hregular hfields hkeyword

end Fields

end Document

end Catalogue

end Reconfig
