import Reconfig.Proofs.Regular

/-!
# The first mixed list

A list that holds objects or lists beside other values is no list of a configuration. A document
that is an object is refused if and only if such a list is met on the way through the members of
objects and the items of lists of objects, and the error names the field that holds the first one.
What stands below a mixed list is not looked at.

* `Json.Way`, `Json.Way.Before`: ways into a document, and the order of a depth-first walk;
* `Json.Reaches`, `Json.MixedAt`: what is met on a way, and the mixed lists among it;
* `Json.FirstMixed`: the mixed list that is met first;
* `ReportsFirst`, `reportsFirst_ofJson`: reading a value reports its first mixed list;
* **`refuses_first_mixed`**: the errors of a document.
-/

namespace Reconfig

namespace Json

/-! ## Ways into a document -/

/-- One step further into a document. -/
inductive Turn where
  /-- To the member of a name. -/
  | member (name : String)
  /-- To the item at a position. -/
  | item (position : Nat)
  deriving DecidableEq

/-- The steps from a value to one inside it. -/
abbrev Way : Type := List Turn

/-- One way ends before another one in a depth-first walk, which comes to a value before it comes
to what is inside, and takes members by their names and items by their positions. -/
inductive Way.Before : Way → Way → Prop
  | above (turn : Turn) (way : Way) : Before [] (turn :: way)
  | members {a b : String} (h : a < b) (v w : Way) : Before (.member a :: v) (.member b :: w)
  | items {i k : Nat} (h : i < k) (v w : Way) : Before (.item i :: v) (.item k :: w)
  | under (turn : Turn) {v w : Way} (h : Before v w) : Before (turn :: v) (turn :: w)

/-- A value stands inside another one at the end of a way that goes through members of objects, and
through items of lists that are made of objects only. -/
inductive Reaches : Json → Way → Json → Prop
  | here (j : Json) : Reaches j [] j
  | member {members : List (String × Json)} {name : String} {j k : Json} {way : Way}
      (hmember : (name, j) ∈ members) (hbelow : Reaches j way k) :
      Reaches (.object members) (.member name :: way) k
  | item {items : List Json} {i : Nat} {j k : Json} {way : Way}
      (hobjects : items.all isObject = true) (hitem : items[i]? = some j)
      (hbelow : Reaches j way k) : Reaches (.array items) (.item i :: way) k

/-! ## Mixed lists -/

/-- The items are not objects only, and one of them is an object or a list. -/
def isMixed (items : List Json) : Bool :=
  !items.all isObject && items.any fun j => j.isObject || j.isArray

/-- A mixed list stands at the end of the way. -/
def MixedAt (j : Json) (way : Way) : Prop :=
  ∃ items, j.Reaches way (.array items) ∧ isMixed items = true

/-- The mixed list that is met first in a depth-first walk stands at the end of the way. -/
structure FirstMixed (j : Json) (way : Way) : Prop where
  mixed : j.MixedAt way
  first : ∀ other, j.MixedAt other → other = way ∨ way.Before other

/-- A mixed list stands at the end of the way, which begins with one of the items; the first of
them has the given position. -/
def MixedIn (position : Nat) (items : List Json) (way : Way) : Prop :=
  ∃ i j below, items[i]? = some j ∧ way = .item (position + i) :: below ∧ j.MixedAt below

theorem mixedAt_object {members : List (String × Json)} {way : Way} :
    (Json.object members).MixedAt way ↔
      ∃ m ∈ members, ∃ below, way = .member m.1 :: below ∧ m.2.MixedAt below := by
  constructor
  · rintro ⟨items, hreach, hmixed⟩
    cases hreach with
    | member hmember hbelow => exact ⟨_, hmember, _, rfl, items, hbelow, hmixed⟩
  · rintro ⟨m, hm, below, rfl, items, hbelow, hmixed⟩
    exact ⟨items, .member hm hbelow, hmixed⟩

theorem mixedAt_array {items : List Json} {way : Way} : (Json.array items).MixedAt way ↔
    (way = [] ∧ isMixed items = true) ∨ (items.all isObject = true ∧ MixedIn 0 items way) := by
  constructor
  · rintro ⟨found, hreach, hmixed⟩
    cases hreach with
    | here => exact .inl ⟨rfl, hmixed⟩
    | item hobjects hitem hbelow =>
      exact .inr ⟨hobjects, _, _, _, hitem, by rw [Nat.zero_add], found, hbelow, hmixed⟩
  · rintro (⟨rfl, hmixed⟩ | ⟨hobjects, i, j, below, hitem, rfl, found, hbelow, hmixed⟩)
    · exact ⟨items, .here _, hmixed⟩
    · rw [Nat.zero_add]
      exact ⟨found, .item hobjects hitem hbelow, hmixed⟩

theorem mixedIn_cons {position : Nat} {j : Json} {rest : List Json} {way : Way} :
    MixedIn position (j :: rest) way ↔
      (∃ below, way = .item position :: below ∧ j.MixedAt below) ∨
        MixedIn (position + 1) rest way := by
  constructor
  · rintro ⟨i, k, below, hk, rfl, hmixed⟩
    cases i with
    | zero =>
      cases hk
      exact .inl ⟨below, rfl, hmixed⟩
    | succ i => exact .inr ⟨i, k, below, hk, by rw [Nat.add_assoc, Nat.add_comm 1 i], hmixed⟩
  · rintro (⟨below, rfl, hmixed⟩ | ⟨i, k, below, hk, rfl, hmixed⟩)
    · exact ⟨0, j, below, rfl, rfl, hmixed⟩
    · exact ⟨i + 1, k, below, hk, by rw [Nat.add_assoc, Nat.add_comm 1 i], hmixed⟩

theorem Reaches.eq_nil_or_member {j : Json} {way : Way} {items : List Json}
    (h : j.Reaches way (.array items)) :
    way = [] ∨ ∃ above field, way = above ++ [.member field] := by
  generalize hk : Json.array items = k at h
  induction h with
  | here => exact .inl rfl
  | @member _ name _ _ _ _ _ ih =>
    rcases ih hk with rfl | ⟨above, field, rfl⟩
    · exact .inr ⟨[], name, rfl⟩
    · exact .inr ⟨.member name :: above, field, rfl⟩
  | @item _ i _ _ _ hobjects hitem hbelow ih =>
    rcases ih hk with rfl | ⟨above, field, rfl⟩
    · -- an item is an object, and no list
      cases hbelow
      have hobject := List.all_eq_true.1 hobjects _ (List.mem_of_getElem? hitem)
      rw [← hk] at hobject
      cases hobject
    · exact .inr ⟨.item i :: above, field, rfl⟩

theorem MixedAt.exists_member {j : Json} {way : Way} (hj : j.isObject = true)
    (h : j.MixedAt way) : ∃ above field, way = above ++ [.member field] := by
  obtain ⟨items, hreach, -⟩ := h
  rcases hreach.eq_nil_or_member with rfl | hend
  · cases hreach
    cases hj
  · exact hend

end Json

open Json (Turn Way MixedIn isMixed)

/-! ## What reading reports -/

/-- The field whose value stands one step further, from the value of a field. -/
def Json.Turn.holder (field : String) : Turn → String
  | .member name => name
  | .item _ => field

/-- The field that holds what stands at the end of a way into the value of a field. -/
def Json.Way.holder (field : String) (way : Way) : String := way.foldl Turn.holder field

/-- The result of reading the value of a field, told from the mixed lists of the value: there are
none, or the error names the field that holds the first one. -/
def ReportsFirst {α : Type} (field : String) (mixed : Way → Prop) : Except TreeError α → Prop
  | .ok _ => ∀ way, ¬ mixed way
  | .error e => ∃ way, mixed way ∧ (∀ other, mixed other → other = way ∨ way.Before other) ∧
      e = .mixedList (way.holder field)

theorem ReportsFirst.map {α β : Type} {field : String} {mixed : Way → Prop}
    {x : Except TreeError α} (h : ReportsFirst field mixed x) (f : α → β) :
    ReportsFirst field mixed (x.map f) := by
  cases x <;> exact h

/-- **What is read one after the other** reports the first mixed list, if what is read later stands
later in the walk. -/
theorem ReportsFirst.cons {α β γ : Type} {field : String} (turn : Turn)
    {below rest mixed : Way → Prop} {x : Except TreeError α} {y : Except TreeError β}
    {z : Except TreeError γ} (hx : ReportsFirst (turn.holder field) below x)
    (hy : ReportsFirst field rest y)
    (hmixed : ∀ way, mixed way ↔ (∃ w, way = turn :: w ∧ below w) ∨ rest way)
    (hlater : ∀ w way, rest way → Way.Before (turn :: w) way)
    (herror : ∀ e, x = .error e → z = .error e)
    (hok : ∀ v, x = .ok v → ∃ f : β → γ, z = y.map f) : ReportsFirst field mixed z := by
  cases x with
  | error e =>
    obtain ⟨w, hw, hfirst, rfl⟩ := hx
    rw [herror _ rfl]
    refine ⟨turn :: w, (hmixed _).2 (.inl ⟨w, rfl, hw⟩), fun other hother => ?_, rfl⟩
    rcases (hmixed other).1 hother with ⟨v, rfl, hv⟩ | hother
    · exact (hfirst v hv).imp (congrArg (turn :: ·)) (.under turn)
    · exact .inr (hlater w other hother)
  | ok v =>
    have hiff : ∀ way, mixed way ↔ rest way := fun way => by
      rw [hmixed, or_iff_right]
      rintro ⟨w, -, hw⟩
      exact hx w hw
    obtain ⟨f, rfl⟩ := hok v rfl
    rw [show mixed = rest from funext fun way => propext (hiff way)]
    exact hy.map f

/-! ## Reading values -/

theorem itemText?_eq_none {j : Json} :
    itemText? j = none ↔ (j.isObject || j.isArray) = true := by
  cases j <;> simp [itemText?, Json.isObject, Json.isArray]

theorem textsOf_cases (field : String) (items : List Json) :
    if items.any (fun j => j.isObject || j.isArray) then
      textsOf field items = .error (.mixedList field)
    else ∃ texts, textsOf field items = .ok texts := by
  induction items with
  | nil => exact ⟨[], rfl⟩
  | cons j rest ih =>
    rw [List.any_cons, textsOf]
    cases hj : itemText? j with
    | none =>
      rw [itemText?_eq_none.1 hj, Bool.true_or]
      rfl
    | some text =>
      have hplain : (j.isObject || j.isArray) = false := by
        rw [Bool.eq_false_iff, Ne, ← itemText?_eq_none, hj]
        exact Option.some_ne_none text
      rw [hplain, Bool.false_or]
      split_ifs at ih ⊢
      · rw [ih]
        rfl
      · obtain ⟨texts, htexts⟩ := ih
        rw [htexts]
        exact ⟨_, rfl⟩

theorem reportsFirst_texts {field : String} {items : List Json}
    (h : items.all Json.isObject ≠ true) :
    ReportsFirst field (Json.array items).MixedAt (textsOf field items) := by
  have hiff : ∀ way, (Json.array items).MixedAt way ↔ way = [] ∧ isMixed items = true :=
    fun way => by rw [Json.mixedAt_array, or_iff_left fun hin => h hin.1]
  have hmixed : isMixed items = items.any fun j => j.isObject || j.isArray := by
    rw [isMixed, Bool.eq_false_iff.2 h, Bool.not_false, Bool.true_and]
  have hcases := textsOf_cases field items
  split_ifs at hcases with hany
  · rw [hcases]
    exact ⟨[], (hiff _).2 ⟨rfl, hmixed.trans hany⟩,
      fun other hother => .inl ((hiff other).1 hother).1, rfl⟩
  · obtain ⟨texts, htexts⟩ := hcases
    rw [htexts]
    exact fun way hway => hany (hmixed.symm.trans ((hiff way).1 hway).2)

theorem not_mixedAt_empty (way : Way) : ¬ (Json.array []).MixedAt way := by
  rw [Json.mixedAt_array]
  rintro (⟨-, hmixed⟩ | ⟨-, i, j, below, hitem, -⟩)
  · cases hmixed
  · cases hitem

mutual

/-- **Reading a value reports its first mixed list.** -/
theorem reportsFirst_ofJson (field : String) : ∀ j : Json, j.Ordered →
    ReportsFirst field j.MixedAt (Value.ofJson field j)
  | .null, _ | .bool _, _ | .number _, _ | .string _, _ => by
    rintro way ⟨items, hreach, -⟩
    cases hreach
  | .object members, h => (reportsFirst_fieldsOfJson field members h.1 h.2).map _
  | .array items, h => by
    rw [Value.ofJson]
    split_ifs with hempty hlist hobjects
    · rw [List.isEmpty_iff.1 hempty]
      exact not_mixedAt_empty
    · rw [List.isEmpty_iff.1 hempty]
      exact not_mixedAt_empty
    · have hiff : (Json.array items).MixedAt = MixedIn 0 items := funext fun way => propext (by
        rw [Json.mixedAt_array, isMixed, hobjects]
        simp)
      rw [hiff]
      exact (reportsFirst_sectionsOfJson field 0 items hobjects h).map _
    · exact (reportsFirst_texts hobjects).map _

theorem reportsFirst_fieldsOfJson (field : String) : ∀ members : List (String × Json),
    members.Pairwise (fun a b => a.1 < b.1) → Json.OrderedMembers members →
      ReportsFirst field (Json.object members).MixedAt (fieldsOfJson members)
  | [], _, _ => fun way hway => by
    obtain ⟨m, hm, -⟩ := Json.mixedAt_object.1 hway
    cases hm
  | (name, j) :: rest, hnames, h => by
    rw [List.pairwise_cons] at hnames
    refine (reportsFirst_ofJson name j h.1).cons (.member name)
      (reportsFirst_fieldsOfJson field rest hnames.2 h.2) (fun way => ?_) (fun w way hway => ?_)
      (fun e he => ?_) (fun v hv => ⟨((name, v) :: ·), ?_⟩)
    · simp only [Json.mixedAt_object, List.exists_mem_cons_iff]
    · obtain ⟨m, hm, below, rfl, -⟩ := Json.mixedAt_object.1 hway
      exact .members (hnames.1 m hm) w below
    · rw [fieldsOfJson, he]
    · rw [fieldsOfJson, hv]

theorem reportsFirst_sectionsOfJson (field : String) (position : Nat) : ∀ items : List Json,
    items.all Json.isObject = true → Json.OrderedItems items →
      ReportsFirst field (MixedIn position items) (sectionsOfJson field items)
  | [], _, _ => fun way hway => by
    obtain ⟨i, j, below, hitem, -⟩ := hway
    cases hitem
  | .object members :: rest, hobjects, h => by
    rw [List.all_cons, Bool.and_eq_true] at hobjects
    refine (reportsFirst_fieldsOfJson field members h.1.1 h.1.2).cons (.item position)
      (reportsFirst_sectionsOfJson field (position + 1) rest hobjects.2 h.2)
      (fun way => Json.mixedIn_cons) (fun w way hway => ?_) (fun e he => ?_)
      (fun t ht => ⟨(t :: ·), ?_⟩)
    · obtain ⟨i, j, below, -, rfl, -⟩ := hway
      exact .items (by omega) w below
    · rw [sectionsOfJson, he]
    · rw [sectionsOfJson, ht]
  | .null :: _, hobjects, _ | .bool _ :: _, hobjects, _ | .number _ :: _, hobjects, _
  | .string _ :: _, hobjects, _ | .array _ :: _, hobjects, _ => by cases hobjects

end

/-! ## The errors of a document -/

theorem ofJson_of_isObject_eq_false {j : Json} (h : j.isObject = false) :
    Tree.ofJson j = .error (.notAnObject j.kind) := by
  cases j with
  | object members => cases h
  | null | bool b | number n | string s | array items => rfl

theorem reportsFirst_tree {j : Json} (hj : j.Ordered) (hobject : j.isObject = true)
    (field : String) : ReportsFirst field j.MixedAt (Tree.ofJson j) := by
  cases j with
  | object members => exact reportsFirst_fieldsOfJson field members hj.1 hj.2
  | null | bool b | number n | string s | array items => cases hobject

/-- **A document is refused for one of two reasons.** It is not an object; or it is one, and has a
mixed list that is reached through objects and lists of objects. The error then names the field
that holds the first such list in a depth-first walk. -/
theorem refuses_first_mixed {j : Json} (hj : j.Ordered) :
    (∀ kind, Tree.ofJson j = .error (.notAnObject kind) ↔ j.isObject = false ∧ kind = j.kind) ∧
    (j.isObject = true →
      ((∃ e, Tree.ofJson j = .error e) ↔ ∃ way, j.MixedAt way) ∧
      ∀ e, Tree.ofJson j = .error e →
        ∃ above field, j.FirstMixed (above ++ [.member field]) ∧ e = .mixedList field) := by
  have hreport := fun h => reportsFirst_tree hj h ""
  have hfirst : j.isObject = true → ∀ e, Tree.ofJson j = .error e →
      ∃ above field, j.FirstMixed (above ++ [.member field]) ∧ e = .mixedList field := by
    intro hobject e he
    have hreport := hreport hobject
    rw [he] at hreport
    obtain ⟨way, hway, hfirst, rfl⟩ := hreport
    obtain ⟨above, field, rfl⟩ := hway.exists_member hobject
    refine ⟨above, field, ⟨hway, hfirst⟩, ?_⟩
    rw [Json.Way.holder, List.foldl_append]
    rfl
  refine ⟨fun kind => ⟨fun h => ?_, ?_⟩, fun hobject => ⟨⟨?_, ?_⟩, hfirst hobject⟩⟩
  · cases hobject : j.isObject with
    | true =>
      obtain ⟨above, field, -, heq⟩ := hfirst hobject _ h
      cases heq
    | false =>
      rw [ofJson_of_isObject_eq_false hobject] at h
      cases h
      exact ⟨rfl, rfl⟩
  · rintro ⟨hobject, rfl⟩
    exact ofJson_of_isObject_eq_false hobject
  · rintro ⟨e, he⟩
    obtain ⟨above, field, hmixed, -⟩ := hfirst hobject e he
    exact ⟨_, hmixed.mixed⟩
  · rintro ⟨way, hway⟩
    have hreport := hreport hobject
    cases hread : Tree.ofJson j with
    | error e => exact ⟨e, rfl⟩
    | ok t =>
      rw [hread] at hreport
      exact absurd hway (hreport way)

/-- A document with three mixed lists, the first of them inside a list of objects. -/
def mixedBelow : Json :=
  .object [("dcs", .array [.object [("nodes", .array [.string "a"])],
      .object [("bins", .array [.number (.natural 1), .array []]),
        ("sets", .array [.object [], .null])]]),
    ("tls", .array [.object [], .string "b"])]

/-- The list of objects is entered, and what comes later in the walk is not reported. -/
theorem refuses_first_mixed_below :
    mixedBelow.Ordered ∧ Tree.ofJson mixedBelow = .error (.mixedList "bins") ∧
      (∃ way, mixedBelow.MixedAt way) ∧
        ∃ above, mixedBelow.FirstMixed (above ++ [.member "bins"]) := by
  have hordered : mixedBelow.Ordered := by
    simp only [mixedBelow, Json.Ordered, Json.OrderedMembers, Json.OrderedItems]
    decide
  have herror : Tree.ofJson mixedBelow = .error (.mixedList "bins") := by rfl
  obtain ⟨hrefused, hnamed⟩ := (refuses_first_mixed hordered).2 rfl
  obtain ⟨above, field, hfirst, heq⟩ := hnamed _ herror
  obtain rfl : "bins" = field := TreeError.mixedList.inj heq
  exact ⟨hordered, herror, hrefused.1 ⟨_, herror⟩, above, hfirst⟩

end Reconfig
