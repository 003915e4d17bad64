import Reconfig.Proofs.SchemaPaths

/-!
# A field is added to a schema document

The walk through a schema document tells the names of fields from the keywords of the schema. Where
the names of members are plain, the leaves at and below the path of a new field are those of its
own schema, and all other leaves are as before.

* `Json.hasPlainKeys`: documents whose members have plain names;
* `Passage`, `Route`: the parts of a document that the walk takes for schemas;
* `AddsField`: a field is added to the fields of such a part;
* `prefix_of_mem_leavesAt`: the leaves of a document stand below its path;
* `Avoids`, `Inserts`: leaves away from a path, and leaves that are put between them;
* **`inserts_of_addsField`**: the leaves of the new field are put between the other ones.
-/

namespace Reconfig

open Catalogue (annotations fieldsKeyword isPlainName isPlainName_iff pathNames pathNames_join
  pieces_join leavesAt memberLeaves itemLeaves)

/-! ## Plain names -/

mutual

/-- The members of all objects have plain names, apart from those inside the values of annotations;
`named` holds if the members of the document are fields. -/
def Json.hasPlainKeys (named : Bool) : Json → Bool
  | .object members => membersPlain named members
  | .array items => itemsPlain items
  | _ => true

/-- The members have plain names, and so have those inside their values. -/
def membersPlain (named : Bool) : List (String × Json) → Bool
  | [] => true
  | (name, j) :: rest =>
    isPlainName name &&
      (!named && annotations.contains name || j.hasPlainKeys (!named && name == fieldsKeyword)) &&
      membersPlain named rest

/-- The members inside the items have plain names. -/
def itemsPlain : List Json → Bool
  | [] => true
  | j :: rest => j.hasPlainKeys false && itemsPlain rest

end

theorem plain_of_mem {named : Bool} {members : List (String × Json)}
    (h : membersPlain named members = true) {m : String × Json} (hm : m ∈ members) :
    isPlainName m.1 = true ∧ ((!named && annotations.contains m.1) = true ∨
      m.2.hasPlainKeys (!named && m.1 == fieldsKeyword) = true) := by
  have hcheck : ∀ m rest, membersPlain named (m :: rest) = true → (isPlainName m.1 = true ∧
      ((!named && annotations.contains m.1) = true ∨
        m.2.hasPlainKeys (!named && m.1 == fieldsKeyword) = true)) ∧
      membersPlain named rest = true := by
    intro m rest h
    rwa [membersPlain, Bool.and_eq_true, Bool.and_eq_true, Bool.or_eq_true] at h
  exact forall_of_check hcheck h m hm

theorem plain_of_keyword {members : List (String × Json)} (h : membersPlain false members = true)
    {k : String} {j : Json} (hwalked : k ∉ annotations) (hfields : k ≠ fieldsKeyword)
    (hm : (k, j) ∈ members) : isPlainName k = true ∧ j.hasPlainKeys false = true := by
  obtain ⟨hk, hbelow⟩ := plain_of_mem h hm
  refine ⟨hk, ?_⟩
  simpa [hwalked, beq_eq_false_iff_ne.2 hfields] using hbelow

theorem plain_of_fields {members : List (String × Json)} (h : membersPlain false members = true)
    {fields : List (String × Json)} (hm : (fieldsKeyword, .object fields) ∈ members) :
    membersPlain true fields = true := by
  refine (plain_of_mem h hm).2.resolve_left ?_
  show ¬ annotations.contains fieldsKeyword = true
  decide

theorem plain_of_field {fields : List (String × Json)} (h : membersPlain true fields = true)
    {f : String} {j : Json} (hm : (f, j) ∈ fields) :
    isPlainName f = true ∧ j.hasPlainKeys false = true := by
  obtain ⟨hf, hbelow⟩ := plain_of_mem h hm
  exact ⟨hf, hbelow.resolve_left Bool.false_ne_true⟩

theorem plain_item {items : List Json} (h : itemsPlain items = true) {j : Json} (hj : j ∈ items) :
    j.hasPlainKeys false = true :=
  forall_of_check (fun _ _ => (Bool.and_eq_true _ _).mp) h j hj

/-! ## Routes -/

/-- A step from a schema to one inside it, as the walk through the document takes it. -/
inductive Passage where
  /-- To the value of a keyword. -/
  | keyword (name : String)
  /-- To the schema of a field. -/
  | field (name : String)
  /-- To the item at a position. -/
  | item (position : Nat)

/-- The names that a step adds to a path. -/
def Passage.names : Passage → List String
  | .keyword name => [name]
  | .field name => [fieldsKeyword, name]
  | .item position => [toString position]

/-- The name of the step is plain, and a keyword is not the one whose members are fields. -/
def Passage.isProper : Passage → Bool
  | .keyword name => isPlainName name && name != fieldsKeyword
  | .field name => isPlainName name
  | .item _ => true

/-- The path of a schema one step below a path. -/
def Passage.path (base : String) (p : Passage) : String := p.names.foldl Key.join base

/-- The steps from a schema to one inside it. -/
abbrev Route : Type := List Passage

/-- The path at the end of a route. -/
def Route.path (base : String) (route : Route) : String := route.foldl Passage.path base

/-- **A field with a name and a schema is added** to the fields of the schema at the end of a
route, at any place among them. -/
inductive AddsField (name : String) (s : Json) : Route → Json → Json → Prop where
  /-- The field is one of the schema. -/
  | here (before fields more after : List (String × Json)) :
    AddsField name s [] (.object (before ++ (fieldsKeyword, .object (fields ++ more)) :: after))
      (.object (before ++ (fieldsKeyword, .object (fields ++ (name, s) :: more)) :: after))
  /-- The field is added somewhere in the value of a keyword. -/
  | keyword {k : String} (hwalked : k ∉ annotations) (hfields : k ≠ fieldsKeyword)
    {route : Route} {j j' : Json} (hbelow : AddsField name s route j j')
    (before after : List (String × Json)) :
    AddsField name s (.keyword k :: route) (.object (before ++ (k, j) :: after))
      (.object (before ++ (k, j') :: after))
  /-- The field is added somewhere in the schema of another field. -/
  | field {f : String} {route : Route} {j j' : Json} (hbelow : AddsField name s route j j')
    (before fields more after : List (String × Json)) :
    AddsField name s (.field f :: route)
      (.object (before ++ (fieldsKeyword, .object (fields ++ (f, j) :: more)) :: after))
      (.object (before ++ (fieldsKeyword, .object (fields ++ (f, j') :: more)) :: after))
  /-- The field is added somewhere in an item. -/
  | item {route : Route} {j j' : Json} (hbelow : AddsField name s route j j')
    (before after : List Json) :
    AddsField name s (.item before.length :: route) (.array (before ++ j :: after))
      (.array (before ++ j' :: after))

/-! ## Leaves below a path -/

namespace Catalogue

theorem pathNames_of_ne {path : String} (h : path ≠ "") :
    pathNames path = Text.pieces '.' path.toList := by
  rw [pathNames, if_neg (by rwa [String.isEmpty_iff])]

theorem pathNames_join_of_ne {path : String} (h : path ≠ "") (name : String) :
    pathNames (Key.join path name) = pathNames path ++ Text.pieces '.' name.toList := by
  have hjoin : Key.join path name = path ++ "." ++ name := by
    rw [Key.join, if_neg (by rwa [String.isEmpty_iff])]
  have htext : (Key.join path name).toList = path.toList ++ '.' :: name.toList := by
    simp [hjoin, String.toList_append]
  have hne : Key.join path name ≠ "" := by
    intro hempty
    simp [hempty] at htext
  rw [pathNames_of_ne hne, pathNames_of_ne h, htext, Text.pieces_append]

theorem prefix_join (path name : String) : pathNames path <+: pathNames (Key.join path name) := by
  by_cases h : path = ""
  · rw [h]
    exact List.nil_prefix
  · rw [pathNames_join_of_ne h]
    exact List.prefix_append _ _

mutual

/-- **The leaves of a document stand below its path**, whatever the names of its members are. -/
theorem prefix_of_mem_leavesAt (path : String) (named : Bool) : ∀ j : Json,
    ∀ e ∈ leavesAt path named j, pathNames path <+: pathNames e.1
  | .null, e, he | .bool _, e, he | .number _, e, he | .string _, e, he => by
    obtain rfl := List.mem_singleton.1 he
    exact List.prefix_rfl
  | .object members, e, he => prefix_of_mem_memberLeaves path named members e he
  | .array items, e, he => prefix_of_mem_itemLeaves path 0 items e he

theorem prefix_of_mem_memberLeaves (path : String) (named : Bool) :
    ∀ members : List (String × Json), ∀ e ∈ memberLeaves path named members,
      pathNames path <+: pathNames e.1
  | [], _, he => nomatch he
  | (name, j) :: rest, e, he => by
    rw [memberLeaves, List.mem_append] at he
    rcases he with he | he
    · refine (prefix_join path name).trans ?_
      split at he
      · obtain rfl := List.mem_singleton.1 he
        exact List.prefix_rfl
      · exact prefix_of_mem_leavesAt _ _ j e he
    · exact prefix_of_mem_memberLeaves path named rest e he

theorem prefix_of_mem_itemLeaves (path : String) (position : Nat) :
    ∀ items : List Json, ∀ e ∈ itemLeaves path position items, pathNames path <+: pathNames e.1
  | [], _, he => nomatch he
  | j :: rest, e, he => by
    rw [itemLeaves, List.mem_append] at he
    rcases he with he | he
    · exact (prefix_join path _).trans (prefix_of_mem_leavesAt _ false j e he)
    · exact prefix_of_mem_itemLeaves path (position + 1) rest e he

end

theorem prefix_of_mem_member {base name : String} {named : Bool} {j : Json}
    {rest : List (String × Json)} {e : String × Json}
    (he : e ∈ memberLeaves base named ((name, j) :: rest)) :
    pathNames (Key.join base name) <+: pathNames e.1 ∨ e ∈ memberLeaves base named rest := by
  rw [memberLeaves, List.mem_append] at he
  refine he.imp_left fun he => ?_
  split at he
  · obtain rfl := List.mem_singleton.1 he
    exact List.prefix_rfl
  · exact prefix_of_mem_leavesAt _ _ j e he

theorem exists_names_of_mem {path : String} (h : path ≠ "") {named : Bool}
    {members : List (String × Json)} {e : String × Json}
    (he : e ∈ memberLeaves path named members) :
    ∃ rest, rest ≠ [] ∧ pathNames e.1 = pathNames path ++ rest := by
  induction members with
  | nil => cases he
  | cons m more ih =>
    rcases prefix_of_mem_member he with ⟨rest, hrest⟩ | he
    · rw [pathNames_join_of_ne h, List.append_assoc] at hrest
      exact ⟨_, List.append_ne_nil_of_left_ne_nil (Text.pieces_ne_nil _ _) _, hrest.symm⟩
    · exact ih he

/-! ## Leaves beside a path -/

/-- No leaf stands at the path or below it. -/
def Avoids (path : String) (l : List (String × Json)) : Prop :=
  ∀ e ∈ l, ¬ pathNames path <+: pathNames e.1

theorem avoids_append {path : String} {l m : List (String × Json)} :
    Avoids path (l ++ m) ↔ Avoids path l ∧ Avoids path m := List.forall_mem_append

theorem not_prefix_of_ne {base k other path below : String} (hk : isPlainName k = true)
    (hother : isPlainName other = true) (hne : other ≠ k)
    (hpath : pathNames (Key.join base k) <+: pathNames path)
    (hbelow : pathNames (Key.join base other) <+: pathNames below) :
    ¬ pathNames path <+: pathNames below := by
  intro h
  rw [pathNames_join base hk] at hpath
  rw [pathNames_join base hother] at hbelow
  have heq := List.prefix_of_prefix_length_le (hpath.trans h) hbelow (by simp)
  have hnames := heq.eq_of_length (by simp)
  rw [List.append_cancel_left_eq, List.singleton_inj, String.toList_inj] at hnames
  exact hne hnames.symm

variable {base path : String}

theorem avoids_memberLeaves {k : String} (hk : isPlainName k = true)
    (hpath : pathNames (Key.join base k) <+: pathNames path) {named : Bool}
    {members : List (String × Json)} (hmembers : ∀ m ∈ members, isPlainName m.1 = true ∧ m.1 ≠ k) :
    Avoids path (memberLeaves base named members) := by
  induction members with
  | nil => exact fun _ he => nomatch he
  | cons m rest ih =>
    obtain ⟨⟨hname, hne⟩, hrest⟩ := List.forall_mem_cons.1 hmembers
    intro e he
    rcases prefix_of_mem_member he with hbelow | he
    · exact not_prefix_of_ne hk hname hne hpath hbelow
    · exact ih hrest e he

theorem avoids_itemLeaves {i : Nat} (hpath : pathNames (Key.join base (toString i)) <+:
      pathNames path) {position : Nat} {items : List Json}
    (hposition : i < position ∨ position + items.length ≤ i) :
    Avoids path (itemLeaves base position items) := by
  induction items generalizing position with
  | nil => exact fun _ he => nomatch he
  | cons j rest ih =>
    rw [List.length_cons] at hposition
    rw [itemLeaves, avoids_append]
    refine ⟨fun e he => ?_, ih (by omega)⟩
    refine not_prefix_of_ne (isPlainName_position i) (isPlainName_position position)
      (fun heq => ?_) hpath (prefix_of_mem_leavesAt _ false j e he)
    have := position_injective heq
    omega

/-! ## Leaves that are put between others -/

/-- Leaves are put between others, none of which stands at the path or below it. -/
def Inserts (path : String) (added l l' : List (String × Json)) : Prop :=
  ∃ before after, l = before ++ after ∧ l' = before ++ added ++ after ∧
    Avoids path before ∧ Avoids path after

theorem Inserts.between {added l l' : List (String × Json)} (h : Inserts path added l l')
    {before after : List (String × Json)} (hbefore : Avoids path before)
    (hafter : Avoids path after) :
    Inserts path added (before ++ l ++ after) (before ++ l' ++ after) := by
  obtain ⟨l₁, l₂, rfl, rfl, h₁, h₂⟩ := h
  refine ⟨before ++ l₁, l₂ ++ after, ?_, ?_, avoids_append.2 ⟨hbefore, h₁⟩,
    avoids_append.2 ⟨h₂, hafter⟩⟩
  · simp only [List.append_assoc]
  · simp only [List.append_assoc]

theorem memberLeaves_append (base : String) (named : Bool) (before after : List (String × Json)) :
    memberLeaves base named (before ++ after) =
      memberLeaves base named before ++ memberLeaves base named after := by
  induction before with
  | nil => rfl
  | cons m rest ih =>
    obtain ⟨name, j⟩ := m
    rw [List.cons_append, memberLeaves, memberLeaves, ih, List.append_assoc]

theorem itemLeaves_append (base : String) (position : Nat) (before after : List Json) :
    itemLeaves base position (before ++ after) =
      itemLeaves base position before ++ itemLeaves base (position + before.length) after := by
  induction before generalizing position with
  | nil => rfl
  | cons j rest ih =>
    rw [List.cons_append, itemLeaves, itemLeaves, ih, List.append_assoc, List.length_cons,
      Nat.add_assoc, Nat.add_comm 1]

theorem inserts_new {name : String} {s : Json} {fields more : List (String × Json)}
    (hname : isPlainName name = true) (hplain : membersPlain true (fields ++ more) = true)
    (hregular : membersRegular (fields ++ (name, s) :: more) = true) :
    Inserts (Key.join base name) (leavesAt (Key.join base name) false s)
      (leavesAt base true (.object (fields ++ more)))
      (leavesAt base true (.object (fields ++ (name, s) :: more))) := by
  obtain ⟨-, hlast, hfirst⟩ := List.pairwise_append.1 (members_distinct hregular)
  refine ⟨memberLeaves base true fields, memberLeaves base true more, ?_, ?_,
    avoids_memberLeaves hname List.prefix_rfl fun m hm => ?_,
    avoids_memberLeaves hname List.prefix_rfl fun m hm => ?_⟩
  · rw [leavesAt, memberLeaves_append]
  · rw [leavesAt, memberLeaves_append, memberLeaves, List.append_assoc]
    rfl
  · exact ⟨(plain_of_mem hplain (List.mem_append_left _ hm)).1,
      hfirst m hm (name, s) List.mem_cons_self⟩
  · exact ⟨(plain_of_mem hplain (List.mem_append_right _ hm)).1,
      ((List.pairwise_cons.1 hlast).1 m hm).symm⟩

theorem inserts_member {named : Bool} {k : String} {j j' : Json}
    {before after added : List (String × Json)}
    (hwalked : (!named && annotations.contains k) = false)
    (hplain : membersPlain named (before ++ (k, j) :: after) = true)
    (hregular : membersRegular (before ++ (k, j') :: after) = true)
    (hpath : pathNames (Key.join base k) <+: pathNames path)
    (h : Inserts path added (leavesAt (Key.join base k) (!named && k == fieldsKeyword) j)
      (leavesAt (Key.join base k) (!named && k == fieldsKeyword) j')) :
    Inserts path added (leavesAt base named (.object (before ++ (k, j) :: after)))
      (leavesAt base named (.object (before ++ (k, j') :: after))) := by
  have hsplit : ∀ v, leavesAt base named (.object (before ++ (k, v) :: after)) =
      memberLeaves base named before ++
        leavesAt (Key.join base k) (!named && k == fieldsKeyword) v ++
          memberLeaves base named after := by
    intro v
    rw [leavesAt, memberLeaves_append, memberLeaves, hwalked, List.append_assoc]
    rfl
  have hk := (plain_of_mem hplain (List.mem_append_right _ List.mem_cons_self)).1
  obtain ⟨-, hlast, hfirst⟩ := List.pairwise_append.1 (members_distinct hregular)
  rw [hsplit, hsplit]
  refine h.between (avoids_memberLeaves hk hpath fun m hm => ?_)
    (avoids_memberLeaves hk hpath fun m hm => ?_)
  · exact ⟨(plain_of_mem hplain (List.mem_append_left _ hm)).1,
      hfirst m hm (k, j') List.mem_cons_self⟩
  · exact ⟨(plain_of_mem hplain (List.mem_append_right _ (List.mem_cons_of_mem _ hm))).1,
      ((List.pairwise_cons.1 hlast).1 m hm).symm⟩

theorem inserts_item {named : Bool} {before after : List Json} {j j' : Json}
    {added : List (String × Json)}
    (hpath : pathNames (Key.join base (toString before.length)) <+: pathNames path)
    (h : Inserts path added (leavesAt (Key.join base (toString before.length)) false j)
      (leavesAt (Key.join base (toString before.length)) false j')) :
    Inserts path added (leavesAt base named (.array (before ++ j :: after)))
      (leavesAt base named (.array (before ++ j' :: after))) := by
  have hsplit : ∀ v, leavesAt base named (.array (before ++ v :: after)) =
      itemLeaves base 0 before ++ leavesAt (Key.join base (toString before.length)) false v ++
        itemLeaves base (before.length + 1) after := by
    intro v
    rw [leavesAt, itemLeaves_append, itemLeaves, List.append_assoc, Nat.zero_add]
  rw [hsplit, hsplit]
  exact h.between (avoids_itemLeaves hpath (.inr (by omega)))
    (avoids_itemLeaves hpath (.inl (by omega)))

end Catalogue

/-! ## The leaves of a new field -/

open Catalogue (Inserts prefix_join inserts_new inserts_member inserts_item)

theorem Route.prefix_path (base : String) (route : Route) :
    pathNames base <+: pathNames (route.path base) := by
  have hfold : ∀ (names : List String) (base : String),
      pathNames base <+: pathNames (names.foldl Key.join base) := by
    intro names
    induction names with
    | nil => exact fun _ => List.prefix_rfl
    | cons name rest ih => exact fun base => (prefix_join base name).trans (ih _)
  induction route generalizing base with
  | nil => exact List.prefix_rfl
  | cons p rest ih => exact (hfold p.names base).trans (ih _)

section AddsField

variable {name : String} {s : Json} (hname : isPlainName name = true) {route : Route}
  {document document' : Json} (h : AddsField name s route document document')
  (hplain : document.hasPlainKeys false = true)

include h hplain

theorem isProper_of_addsField : ∀ p ∈ route, p.isProper = true := by
  induction h with
  | here before fields more after => exact fun _ hp => nomatch hp
  | keyword hwalked hfields _ before after ih =>
    obtain ⟨hk, hj⟩ := plain_of_keyword hplain hwalked hfields
      (List.mem_append_right before List.mem_cons_self)
    refine List.forall_mem_cons.2 ⟨?_, ih hj⟩
    rw [Passage.isProper, Bool.and_eq_true, bne_iff_ne]
    exact ⟨hk, hfields⟩
  | field _ before fields more after ih =>
    have hfields := plain_of_fields hplain (List.mem_append_right before List.mem_cons_self)
    obtain ⟨hf, hj⟩ := plain_of_field hfields (List.mem_append_right fields List.mem_cons_self)
    exact List.forall_mem_cons.2 ⟨hf, ih hj⟩
  | item _ before after ih =>
    exact List.forall_mem_cons.2 ⟨rfl, ih (plain_item hplain
      (List.mem_append_right before List.mem_cons_self))⟩

include hname

/-- **The leaves of the new field are put between the other ones**, which stand neither at its path
nor below it. -/
theorem inserts_of_addsField (hregular : document'.isRegular = true) (base : String) :
    Inserts (Route.path base (route ++ [.field name]))
      (leavesAt (Route.path base (route ++ [.field name])) false s)
      (leavesAt base false document) (leavesAt base false document') := by
  -- The induction follows the way of the walk, and the path of the field extends every path on it.
  induction h generalizing base with
  | here before fields more after =>
    have hfields := plain_of_fields hplain (List.mem_append_right before List.mem_cons_self)
    have hfields' := regular_member hregular (List.mem_append_right before List.mem_cons_self)
    exact inserts_member (by decide) hplain hregular (prefix_join _ name)
      (inserts_new hname hfields hfields')
  | @keyword k hwalked hfields route j j' _ before after ih =>
    obtain ⟨-, hj⟩ := plain_of_keyword hplain hwalked hfields
      (List.mem_append_right before List.mem_cons_self)
    have hj' := regular_member hregular (List.mem_append_right before List.mem_cons_self)
    refine inserts_member ?_ hplain hregular (Route.prefix_path _ _) ?_
    · simpa using hwalked
    · rw [beq_eq_false_iff_ne.2 hfields]
      exact ih hj hj' _
  | @field f route j j' _ before fields more after ih =>
    have hfields := plain_of_fields hplain (List.mem_append_right before List.mem_cons_self)
    obtain ⟨-, hj⟩ := plain_of_field hfields (List.mem_append_right fields List.mem_cons_self)
    have hfields' := regular_member hregular (List.mem_append_right before List.mem_cons_self)
    have hj' := regular_member hfields' (List.mem_append_right fields List.mem_cons_self)
    have hpath := Route.prefix_path (Key.join (Key.join base fieldsKeyword) f)
      (route ++ [.field name])
    refine inserts_member (by decide) hplain hregular ((prefix_join _ f).trans hpath) ?_
    exact inserts_member rfl hfields hfields' hpath (ih hj hj' _)
  | item _ before after ih =>
    have hj := plain_item hplain (List.mem_append_right before List.mem_cons_self)
    have hj' := regular_item hregular (List.mem_append_right before List.mem_cons_self)
    exact inserts_item (Route.prefix_path _ _) (ih hj hj' _)

end AddsField

end Reconfig
