import Mathlib.Data.List.Basic
import Reconfig.Proofs.Numeral
import Reconfig.Proofs.Regular

/-!
# The nodes of a schema document

A schema document is a tree of nodes. A node describes the fields of a section under `properties`,
the sections of a list under `items`, and alternatives under `oneOf` and `anyOf`; it carries the
annotations, and other keywords that hold nothing but scalars. Where a node stands is told by its
address, and the fields on the address are those that the node describes.

* `Json.isNode`: documents that are made of nodes;
* `Step`, `Address`, `Json.nodes`: the nodes of a document with their addresses;
* `Address.fields`, **`Json.occurrences`**: the nodes that are reached by a sequence of fields;
* `IsChild`, `children`, `mem_nodes_object`: the nodes right below a node;
* `fits_of_isChild`, **`node_induct`**: the children of a node are nodes, and induction over nodes;
* **`nodes_distinct`**: no two nodes have one address.
-/

namespace Reconfig

namespace Catalogue

/-! ## Documents made of nodes -/

/-- A name is not empty and has no point. -/
def isPlainName (name : String) : Bool := name != "" && !name.toList.contains '.'

/-- The value is neither an object nor a list. -/
def isScalar : Json → Bool
  | .object _ => false
  | .array _ => false
  | _ => true

/-- The value is a scalar or a list of scalars. -/
def isSimple : Json → Bool
  | .array items => items.all isScalar
  | j => isScalar j

/-- The most items of a list that can be numbered. -/
def positions : Nat := Nat.pow 2 64

end Catalogue

open Catalogue (annotations fieldsKeyword isPlainName isScalar isSimple positions)

mutual

/-- The document is a node of a schema. -/
def Json.isNode : Json → Bool
  | .object members => membersFit members
  | _ => false

/-- The members of a node: annotations with any value, fields, items and branches that are nodes,
and other keywords with simple values. -/
def membersFit : List (String × Json) → Bool
  | [] => true
  | (keyword, j) :: rest =>
    (if annotations.contains keyword then true
      else if keyword = fieldsKeyword then
        match j with
        | .object fields => fieldsAreNodes fields
        | _ => false
      else if keyword = "items" then j.isNode
      else if keyword = "oneOf" ∨ keyword = "anyOf" then
        match j with
        | .array branches => decide (branches.length ≤ positions) && branchesAreNodes branches
        | _ => false
      else !keyword.toList.contains '.' && isSimple j) && membersFit rest

/-- The fields have plain names, and nodes describe them. -/
def fieldsAreNodes : List (String × Json) → Bool
  | [] => true
  | (name, j) :: rest => isPlainName name && j.isNode && fieldsAreNodes rest

/-- All branches are nodes. -/
def branchesAreNodes : List Json → Bool
  | [] => true
  | j :: rest => j.isNode && branchesAreNodes rest

end

/-! ## Nodes and addresses -/

/-- A step from a node to one below it. -/
inductive Step where
  /-- The node of a field. -/
  | field (name : String)
  /-- The node of the items of a list. -/
  | items
  /-- An alternative, one of which holds. -/
  | oneOf (position : Nat)
  /-- An alternative, some of which hold. -/
  | anyOf (position : Nat)
  deriving DecidableEq, Repr

/-- The steps from the root of a document to a node. -/
abbrev Address : Type := List Step

/-- The field of a step. -/
def Step.field? : Step → Option String
  | .field name => some name
  | _ => none

/-- The fields on an address. -/
def Address.fields (a : Address) : List String := a.filterMap Step.field?

/-- A node one step further from the root. -/
def Step.under (s : Step) (e : Address × Json) : Address × Json := (s :: e.1, e.2)

mutual

/-- The nodes of a document, each with its address. -/
def Json.nodes : Json → List (Address × Json)
  | .object members => ([], .object members) :: memberNodes members
  | _ => []

/-- The nodes below the members of a node. -/
def memberNodes : List (String × Json) → List (Address × Json)
  | [] => []
  | (keyword, j) :: rest =>
    (if keyword = fieldsKeyword then
        match j with
        | .object fields => fieldNodes fields
        | _ => []
      else if keyword = "items" then j.nodes.map (Step.under .items)
      else if keyword = "oneOf" then
        match j with
        | .array branches => branchNodes .oneOf 0 branches
        | _ => []
      else if keyword = "anyOf" then
        match j with
        | .array branches => branchNodes .anyOf 0 branches
        | _ => []
      else []) ++ memberNodes rest

/-- The nodes of fields and below them. -/
def fieldNodes : List (String × Json) → List (Address × Json)
  | [] => []
  | (name, j) :: rest => j.nodes.map (Step.under (.field name)) ++ fieldNodes rest

/-- The nodes of branches from a position on, and below them. -/
def branchNodes (branch : Nat → Step) (position : Nat) : List Json → List (Address × Json)
  | [] => []
  | j :: rest =>
    j.nodes.map (Step.under (branch position)) ++ branchNodes branch (position + 1) rest

end

/-- **The nodes that are reached by a sequence of fields**, through any items and branches. -/
def Json.occurrences (document : Json) (fields : List String) : List Json :=
  (document.nodes.filter fun e => decide (e.1.fields = fields)).map Prod.snd

/-! ## Children -/

/-- The keyword under which a step goes down. -/
def Step.keyword : Step → String
  | .field _ => fieldsKeyword
  | .items => "items"
  | .oneOf _ => "oneOf"
  | .anyOf _ => "anyOf"

/-- The node stands right below the member of that keyword. -/
inductive IsChild : (keyword : String) → Json → Step → Json → Prop where
  /-- A field. -/
  | field {fields : List (String × Json)} {name : String} {n : Json} (h : (name, n) ∈ fields) :
    IsChild fieldsKeyword (.object fields) (.field name) n
  /-- The items. -/
  | items (n : Json) : IsChild "items" n .items n
  /-- An alternative, one of which holds. -/
  | oneOf {branches : List Json} {i : Nat} {n : Json} (h : branches[i]? = some n) :
    IsChild "oneOf" (.array branches) (.oneOf i) n
  /-- An alternative, some of which hold. -/
  | anyOf {branches : List Json} {i : Nat} {n : Json} (h : branches[i]? = some n) :
    IsChild "anyOf" (.array branches) (.anyOf i) n

/-- The branches from a position on. -/
def branchChildren (branch : Nat → Step) (position : Nat) : List Json → List (Step × Json)
  | [] => []
  | j :: rest => (branch position, j) :: branchChildren branch (position + 1) rest

/-- The nodes right below a member of a node. -/
def childrenOf (keyword : String) (j : Json) : List (Step × Json) :=
  if keyword = fieldsKeyword then
    match j with
    | .object fields => fields.map fun f => (.field f.1, f.2)
    | _ => []
  else if keyword = "items" then [(.items, j)]
  else if keyword = "oneOf" then
    match j with
    | .array branches => branchChildren .oneOf 0 branches
    | _ => []
  else if keyword = "anyOf" then
    match j with
    | .array branches => branchChildren .anyOf 0 branches
    | _ => []
  else []

/-- The nodes right below a node. -/
def children (members : List (String × Json)) : List (Step × Json) :=
  members.flatMap fun m => childrenOf m.1 m.2

theorem children_cons (keyword : String) (j : Json) (rest : List (String × Json)) :
    children ((keyword, j) :: rest) = childrenOf keyword j ++ children rest := List.flatMap_cons

theorem fieldNodes_eq (fields : List (String × Json)) :
    fieldNodes fields = (fields.map fun f => (Step.field f.1, f.2)).flatMap fun c =>
      c.2.nodes.map c.1.under := by
  induction fields with
  | nil => rfl
  | cons f rest ih =>
    obtain ⟨name, j⟩ := f
    rw [fieldNodes, ih]
    rfl

theorem branchNodes_eq (branch : Nat → Step) (position : Nat) (branches : List Json) :
    branchNodes branch position branches = (branchChildren branch position branches).flatMap
      fun c => c.2.nodes.map c.1.under := by
  induction branches generalizing position with
  | nil => rfl
  | cons j rest ih =>
    rw [branchNodes, ih]
    rfl

theorem memberNodes_eq (members : List (String × Json)) :
    memberNodes members = (children members).flatMap fun c => c.2.nodes.map c.1.under := by
  induction members with
  | nil => rfl
  | cons m rest ih =>
    obtain ⟨keyword, j⟩ := m
    rw [memberNodes.eq_def]
    dsimp only
    rw [ih, children_cons, List.flatMap_append]
    congr 1
    unfold childrenOf
    split_ifs
    · cases j with
      | object fields => exact fieldNodes_eq fields
      | null | bool b | number n | string s | array items => rfl
    · exact (List.flatMap_singleton _ _).symm
    · cases j with
      | array branches => exact branchNodes_eq _ _ branches
      | null | bool b | number n | string s | object members => rfl
    · cases j with
      | array branches => exact branchNodes_eq _ _ branches
      | null | bool b | number n | string s | object members => rfl
    · rfl

theorem mem_branchChildren {branch : Nat → Step} {position : Nat} {branches : List Json}
    {c : Step × Json} : c ∈ branchChildren branch position branches ↔
      ∃ i n, branches[i]? = some n ∧ c = (branch (position + i), n) := by
  induction branches generalizing position with
  | nil => simp [branchChildren]
  | cons j rest ih =>
    rw [branchChildren, List.mem_cons, ih]
    constructor
    · rintro (rfl | ⟨i, n, hn, rfl⟩)
      · exact ⟨0, j, rfl, rfl⟩
      · exact ⟨i + 1, n, hn, by rw [Nat.add_assoc, Nat.add_comm 1 i]⟩
    · rintro ⟨i, n, hn, rfl⟩
      cases i with
      | zero =>
        cases hn
        exact .inl rfl
      | succ i => exact .inr ⟨i, n, hn, by rw [Nat.add_assoc, Nat.add_comm 1 i]⟩

theorem isChild_of_mem {keyword : String} {j : Json} {c : Step × Json}
    (h : c ∈ childrenOf keyword j) : IsChild keyword j c.1 c.2 := by
  unfold childrenOf at h
  split_ifs at h with hfields hitems hone hany
  · subst hfields
    cases j with
    | object fields =>
      obtain ⟨f, hf, rfl⟩ := List.mem_map.1 h
      exact .field hf
    | null | bool b | number n | string s | array items => cases h
  · subst hitems
    rw [List.mem_singleton.1 h]
    exact .items j
  · subst hone
    cases j with
    | array branches =>
      obtain ⟨i, n, hn, rfl⟩ := mem_branchChildren.1 h
      rw [Nat.zero_add]
      exact .oneOf hn
    | null | bool b | number n | string s | object members => cases h
  · subst hany
    cases j with
    | array branches =>
      obtain ⟨i, n, hn, rfl⟩ := mem_branchChildren.1 h
      rw [Nat.zero_add]
      exact .anyOf hn
    | null | bool b | number n | string s | object members => cases h
  · cases h

theorem IsChild.mem_childrenOf {keyword : String} {j n : Json} {s : Step}
    (h : IsChild keyword j s n) : (s, n) ∈ childrenOf keyword j := by
  cases h with
  | field hf => exact List.mem_map.2 ⟨_, hf, rfl⟩
  | items n => exact List.mem_singleton.2 rfl
  | oneOf hn | anyOf hn => exact mem_branchChildren.2 ⟨_, n, hn, by rw [Nat.zero_add]⟩

/-- **The children of a node** stand right below its members. -/
theorem mem_children {members : List (String × Json)} {c : Step × Json} :
    c ∈ children members ↔ ∃ m ∈ members, IsChild m.1 m.2 c.1 c.2 := by
  rw [children, List.mem_flatMap]
  refine exists_congr fun m => and_congr_right fun _ => ?_
  exact ⟨isChild_of_mem, IsChild.mem_childrenOf⟩

theorem mem_nodes_object {members : List (String × Json)} {e : Address × Json} :
    e ∈ (Json.object members).nodes ↔ e = ([], .object members) ∨
      ∃ c ∈ children members, ∃ e' ∈ c.2.nodes, e = (c.1 :: e'.1, e'.2) := by
  rw [Json.nodes, memberNodes_eq, List.mem_cons, List.mem_flatMap]
  simp only [List.mem_map, Step.under, eq_comm]

theorem IsChild.keyword_eq {keyword : String} {j n : Json} {s : Step}
    (h : IsChild keyword j s n) : s.keyword = keyword := by
  cases h <;> rfl

/-! ## Induction over nodes -/

/-- The step has a plain name, or a position that can be numbered. -/
def Step.isProper : Step → Bool
  | .field name => isPlainName name
  | .items => true
  | .oneOf position => decide (position < positions)
  | .anyOf position => decide (position < positions)

/-- All steps of the address are proper. -/
def Address.isProper (a : Address) : Bool := a.all Step.isProper

theorem fieldsAreNodes_of_mem {fields : List (String × Json)} (h : fieldsAreNodes fields = true)
    {f : String × Json} (hf : f ∈ fields) : isPlainName f.1 = true ∧ f.2.isNode = true := by
  refine forall_of_check (p := fun f => isPlainName f.1 = true ∧ f.2.isNode = true)
    (fun f rest h => ?_) h f hf
  simpa only [fieldsAreNodes, Bool.and_eq_true] using h

theorem branchesAreNodes_of_mem {branches : List Json} (h : branchesAreNodes branches = true)
    {j : Json} (hj : j ∈ branches) : j.isNode = true :=
  forall_of_check (fun _ _ => (Bool.and_eq_true _ _).mp) h j hj

theorem membersFit_of_mem {members : List (String × Json)} (h : membersFit members = true)
    {m : String × Json} (hm : m ∈ members) : membersFit [m] = true := by
  refine forall_of_check (p := fun m => membersFit [m] = true) (fun m rest h => ?_) h m hm
  rw [membersFit.eq_def, Bool.and_eq_true] at h
  refine ⟨?_, h.2⟩
  rw [membersFit.eq_def, Bool.and_eq_true]
  exact ⟨h.1, rfl⟩

/-- **The children of a node are nodes**, below proper steps. -/
theorem fits_of_isChild {members : List (String × Json)} (h : membersFit members = true)
    {m : String × Json} (hm : m ∈ members) {s : Step} {n : Json} (hc : IsChild m.1 m.2 s n) :
    n.isNode = true ∧ s.isProper = true := by
  have hfit := membersFit_of_mem h hm
  obtain ⟨keyword, j⟩ := m
  rw [membersFit.eq_def, Bool.and_eq_true] at hfit
  replace hfit := hfit.1
  dsimp only at hc
  cases hc with
  | field hf =>
    obtain ⟨hname, hnode⟩ := fieldsAreNodes_of_mem hfit hf
    exact ⟨hnode, hname⟩
  | items n => exact ⟨hfit, rfl⟩
  | oneOf hn | anyOf hn =>
    have hbranches := (Bool.and_eq_true _ _).mp hfit
    have hlt := (List.getElem?_eq_some_iff.1 hn).1
    exact ⟨branchesAreNodes_of_mem hbranches.2 (List.mem_of_getElem? hn),
      decide_eq_true (Nat.lt_of_lt_of_le hlt (of_decide_eq_true hbranches.1))⟩

theorem membersRegular_cons {m : String × Json} {rest : List (String × Json)}
    (h : membersRegular (m :: rest) = true) :
    rest.lookup m.1 = none ∧ m.2.isRegular = true ∧ membersRegular rest = true := by
  simpa only [membersRegular, Bool.and_eq_true, Option.isNone_iff_eq_none, and_assoc] using h

theorem regular_member {members : List (String × Json)} (h : membersRegular members = true)
    {m : String × Json} (hm : m ∈ members) : m.2.isRegular = true :=
  forall_of_check (fun _ _ h => (membersRegular_cons h).2) h m hm

theorem regular_member? {j : Json} (h : j.isRegular = true) {name : String} {v : Json}
    (hv : j.member? name = some v) : v.isRegular = true := by
  cases j with
  | object members => exact regular_member h (Dict.mem_of_lookup hv)
  | null | bool b | number n | string s | array items => cases hv

theorem regular_item {items : List Json} (h : itemsRegular items = true) {j : Json}
    (hj : j ∈ items) : j.isRegular = true :=
  forall_of_check (fun _ _ => (Bool.and_eq_true _ _).mp) h j hj

theorem regular_of_isChild {members : List (String × Json)} (h : membersRegular members = true)
    {m : String × Json} (hm : m ∈ members) {s : Step} {n : Json} (hc : IsChild m.1 m.2 s n) :
    n.isRegular = true := by
  have hj := regular_member h hm
  generalize m.1 = keyword at hc
  generalize m.2 = j at hc hj
  cases hc with
  | field hf => exact regular_member hj hf
  | items n => exact hj
  | oneOf hn | anyOf hn => exact regular_item hj (List.mem_of_getElem? hn)

theorem IsChild.sizeOf_le {keyword : String} {j n : Json} {s : Step}
    (h : IsChild keyword j s n) : sizeOf n ≤ sizeOf j := by
  cases h with
  | field hf =>
    have hlt := List.sizeOf_lt_of_mem hf
    simp only [Prod.mk.sizeOf_spec, Json.object.sizeOf_spec] at hlt ⊢
    omega
  | items n => exact Nat.le_refl _
  | oneOf hn | anyOf hn =>
    have hlt := List.sizeOf_lt_of_mem (List.mem_of_getElem? hn)
    simp only [Json.array.sizeOf_spec]
    omega

/-- **Induction over nodes**: a property that passes from the children of a node to the node is
one of all nodes. -/
theorem node_induct {P : Json → Prop}
    (h : ∀ members, membersFit members = true →
      (∀ m ∈ members, ∀ s n, IsChild m.1 m.2 s n → P n) → P (.object members)) :
    ∀ j : Json, j.isNode = true → P j
  | .object members, hj => h members hj fun m hm s n hc =>
    node_induct h n (fits_of_isChild hj hm hc).1
termination_by j => sizeOf j
decreasing_by
  -- A field stands two levels below its node, so the recursion is on the size, not the structure.
  have hmember := List.sizeOf_lt_of_mem hm
  have hchild := hc.sizeOf_le
  obtain ⟨keyword, v⟩ := m
  simp only [Prod.mk.sizeOf_spec, Json.object.sizeOf_spec] at hmember hchild ⊢
  omega

/-! ## Addresses -/

theorem members_distinct {members : List (String × Json)} (h : membersRegular members = true) :
    members.Pairwise (fun a b => a.1 ≠ b.1) := by
  refine distinct_of_check (fun m rest h => ?_) h
  obtain ⟨hnew, -, hrest⟩ := membersRegular_cons h
  exact ⟨hnew, hrest⟩

theorem branchChildren_distinct {branch : Nat → Step} (hbranch : Function.Injective branch)
    (position : Nat) (branches : List Json) :
    (branchChildren branch position branches).Pairwise fun a b => a.1 ≠ b.1 := by
  induction branches generalizing position with
  | nil => exact .nil
  | cons j rest ih =>
    refine List.pairwise_cons.2 ⟨fun c hc heq => ?_, ih (position + 1)⟩
    obtain ⟨i, n, -, rfl⟩ := mem_branchChildren.1 hc
    have hposition := hbranch heq
    omega

theorem childrenOf_distinct {keyword : String} {j : Json} (h : j.isRegular = true) :
    (childrenOf keyword j).Pairwise fun a b => a.1 ≠ b.1 := by
  unfold childrenOf
  split_ifs
  · cases j with
    | object fields =>
      refine List.pairwise_map.2 ((members_distinct h).imp fun hne heq => hne ?_)
      exact Step.field.inj heq
    | null | bool b | number n | string s | array items => exact .nil
  · exact List.pairwise_singleton _ _
  · cases j with
    | array branches => exact branchChildren_distinct (fun _ _ => Step.oneOf.inj) 0 branches
    | null | bool b | number n | string s | object members => exact .nil
  · cases j with
    | array branches => exact branchChildren_distinct (fun _ _ => Step.anyOf.inj) 0 branches
    | null | bool b | number n | string s | object members => exact .nil
  · exact .nil

theorem children_distinct {members : List (String × Json)} (h : membersRegular members = true) :
    (children members).Pairwise fun a b => a.1 ≠ b.1 := by
  rw [children, List.pairwise_flatMap]
  refine ⟨fun m hm => childrenOf_distinct (regular_member h hm), ?_⟩
  refine (members_distinct h).imp fun hne c hc c' hc' heq => hne ?_
  rw [← (isChild_of_mem hc).keyword_eq, ← (isChild_of_mem hc').keyword_eq, heq]

/-- **No two nodes of a document have one address.** -/
theorem nodes_distinct {j : Json} (hj : j.isNode = true) (hr : j.isRegular = true) :
    j.nodes.Pairwise fun a b => a.1 ≠ b.1 := by
  revert hr
  refine node_induct (P := fun j => j.isRegular = true → j.nodes.Pairwise fun a b => a.1 ≠ b.1)
    (fun members _ ih hr => ?_) j hj
  rw [Json.nodes, memberNodes_eq, List.pairwise_cons, List.pairwise_flatMap]
  refine ⟨fun e he heq => ?_, fun c hc => ?_, ?_⟩
  · obtain ⟨c, -, he⟩ := List.mem_flatMap.1 he
    obtain ⟨e', -, rfl⟩ := List.mem_map.1 he
    cases heq
  · obtain ⟨m, hm, hchild⟩ := mem_children.1 hc
    refine List.pairwise_map.2 ((ih m hm c.1 c.2 hchild (regular_of_isChild hr hm hchild)).imp ?_)
    exact fun hne heq => hne (List.cons.inj heq).2
  · refine (children_distinct hr).imp fun hne e he e' he' heq => hne ?_
    obtain ⟨e, -, rfl⟩ := List.mem_map.1 he
    obtain ⟨e', -, rfl⟩ := List.mem_map.1 he'
    exact (List.cons.inj heq).1

theorem isProper_of_mem_nodes {j : Json} (hj : j.isNode = true) :
    ∀ e ∈ j.nodes, Address.isProper e.1 = true := by
  refine node_induct (P := fun j => ∀ e ∈ j.nodes, Address.isProper e.1 = true)
    (fun members hfit ih e he => ?_) j hj
  rcases mem_nodes_object.1 he with rfl | ⟨c, hc, e', he', rfl⟩
  · rfl
  · obtain ⟨m, hm, hchild⟩ := mem_children.1 hc
    rw [Address.isProper, List.all_cons, Bool.and_eq_true]
    exact ⟨(fits_of_isChild hfit hm hchild).2, ih m hm c.1 c.2 hchild e' he'⟩

theorem regular_of_mem_nodes {j : Json} (hj : j.isNode = true) (hr : j.isRegular = true) :
    ∀ e ∈ j.nodes, e.2.isRegular = true := by
  revert hr
  refine node_induct (P := fun j => j.isRegular = true → ∀ e ∈ j.nodes, e.2.isRegular = true)
    (fun members _ ih hr e he => ?_) j hj
  rcases mem_nodes_object.1 he with rfl | ⟨c, hc, e', he', rfl⟩
  · exact hr
  · obtain ⟨m, hm, hchild⟩ := mem_children.1 hc
    exact ih m hm c.1 c.2 hchild (regular_of_isChild hr hm hchild) e' he'

end Reconfig
