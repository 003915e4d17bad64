import Reconfig.Proofs.Report

/-!
# Changes reach the desired values

A change is applied to the value of its key: an update replaces the value, and an edit of a list
removes elements and adds others. After the changes of a comparison every desired key has the
value that is desired, up to the equality by which values are compared.

* `Value.elements?`, `Change.applyTo`: the value of a key after a change;
* `Value.IsReached`: a value is the desired one;
* `Value.isRegular`: numbers are finite and names are not repeated;
* `Scalar.agrees_self`, `Value.same_self`: the comparison of values is reflexive;
* `changeTo?_reaches`, `newChange?_reaches`: the change of one key;
* **`desired_reached`**: the changes of a comparison reach the desired values.
-/

namespace Reconfig

open Reconfig.Path (parse)

/-! ## Applying a change -/

/-- The elements of a value that is a list or counts as one. -/
def Value.elements? : Value → Option (List String)
  | .list items => some items
  | .scalar s => some s.elements
  | _ => none

/-- The elements of the value of a key; a key without a value has none. -/
def elementsAt (current : Option Value) : List String := (current.bind Value.elements?).getD []

namespace Change

/-- The elements that a change carries for an operation. -/
def elements (c : Change) (op : Operation) : List String :=
  ((c.value? op).bind Value.list?).getD []

/-- The value of a key after a change: an update replaces it, the identity of an instance is
created or destroyed, and elements of a list are removed and added. -/
def applyTo (current : Option Value) : Change → Option Value
  | .update v => some v
  | .add (.scalar id) => some (.scalar id)
  | .remove (.scalar _) => none
  | c => some (.list ((elementsAt current).filter (fun x => !(c.elements .remove).contains x) ++
      c.elements .add))

end Change

/-- The value of a key after the change of it, if there is one. -/
def valueAfter (change? : Option Change) (current : Option Value) : Option Value :=
  match change? with
  | none => current
  | some change => change.applyTo current

/-- The value that a key has is the desired one: single values agree, lists have the same elements,
where a key without a value has none and a single value counts as a list, and lists of sections
are equal. -/
def Value.IsReached (desired : Value) (reached : Option Value) : Prop :=
  match desired, reached with
  | .scalar d, some (.scalar r) => d.agrees r = true
  | .scalar d, some (.list r) => ∀ x, x ∈ d.elements ↔ x ∈ r
  | .list d, none => d = []
  | .list d, some r => ∃ items, r.elements? = some items ∧ ∀ x, x ∈ d ↔ x ∈ items
  | .repeated d, some (.repeated r) => Value.same (.repeated d) (.repeated r) = true
  | _, _ => False

/-! ## Values equal to themselves -/

/-- A number with a fraction is finite. -/
def Scalar.isFinite : Scalar → Bool
  | .float x => x.isFinite
  | _ => true

mutual

/-- All numbers of the value are finite, and no section has a name twice. -/
def Value.isRegular : Value → Bool
  | .scalar s => s.isFinite
  | .list _ => true
  | .nested fields => fieldsRegular fields
  | .repeated sections => sectionsRegular sections

/-- The fields have distinct names and regular values. -/
def fieldsRegular : List (String × Value) → Bool
  | [] => true
  | (name, v) :: rest => (rest.lookup name).isNone && v.isRegular && fieldsRegular rest

/-- The sections of a list are regular. -/
def sectionsRegular : List (List (String × Value)) → Bool
  | [] => true
  | fields :: rest => fieldsRegular fields && sectionsRegular rest

end

theorem Scalar.same_self {s : Scalar} (h : s.isFinite = true) : s.same s = true := by
  cases s with
  | float x =>
    cases x with
    | nan => simp [isFinite, Binary64.isFinite, Binary64.steps?] at h
    | infinite a => simp [Scalar.same, Binary64.same]
    | finite negative m e hc => simp [Scalar.same, Binary64.same, Binary64.steps?]
  | text t => simp [Scalar.same]
  | bool b => simp [Scalar.same]
  | int i => simp [Scalar.same]
  | uint n => simp [Scalar.same]

/-- **A finite single value agrees with itself.** -/
theorem Scalar.agrees_self {s : Scalar} (h : s.isFinite = true) : s.agrees s = true := by
  cases s with
  | text t => simp [agrees]
  | bool b => simp [agrees]
  | int i => simp [agrees, number?, sameNumber, integer?]
  | uint n => simp [agrees, number?, sameNumber, integer?]
  | float x =>
    have hx : x.near x = true := Binary64.near_self h
    simp [agrees, number?, sameNumber, integer?, toBinary64?, hx]

theorem fieldsRegular_cons {f : String × Value} {rest : List (String × Value)}
    (h : fieldsRegular (f :: rest) = true) :
    rest.lookup f.1 = none ∧ f.2.isRegular = true ∧ fieldsRegular rest = true := by
  simpa only [fieldsRegular, Bool.and_eq_true, Option.isNone_iff_eq_none, and_assoc] using h

theorem regular_distinct {fields : List (String × Value)} (h : fieldsRegular fields = true) :
    fields.Pairwise (fun a b => a.1 ≠ b.1) := by
  refine distinct_of_check (fun f rest h => ?_) h
  obtain ⟨hnew, -, hrest⟩ := fieldsRegular_cons h
  exact ⟨hnew, hrest⟩

theorem regular_of_mem {fields : List (String × Value)} (h : fieldsRegular fields = true)
    {f : String × Value} (hf : f ∈ fields) :
    fields.lookup f.1 = some f.2 ∧ f.2.isRegular = true :=
  ⟨Dict.lookup_of_mem (regular_distinct h) hf,
    forall_of_check (fun _ _ h => (fieldsRegular_cons h).2) h f hf⟩

theorem sameFields_of_forall {fields other : List (String × Value)}
    (h : ∀ f ∈ fields, other.lookup f.1 = some f.2 ∧ f.2.same f.2 = true) :
    sameFields fields other = true := by
  induction fields with
  | nil => rfl
  | cons e rest ih =>
    obtain ⟨name, v⟩ := e
    obtain ⟨hlookup, hsame⟩ := h (name, v) List.mem_cons_self
    rw [sameFields, hlookup, Bool.and_eq_true]
    exact ⟨hsame, ih fun f hf => h f (List.mem_cons_of_mem _ hf)⟩

/-- **A regular value equals itself.** -/
theorem Value.same_self (v : Value) (h : v.isRegular = true) : v.same v = true := by
  have section_same : ∀ fields : List (String × Value),
      (∀ f ∈ fields, f.2.isRegular = true → f.2.same f.2 = true) → fieldsRegular fields = true →
        (fields.length == fields.length && sameFields fields fields) = true := by
    intro fields ih h
    rw [Bool.and_eq_true, beq_iff_eq]
    refine ⟨rfl, sameFields_of_forall fun f hf => ?_⟩
    obtain ⟨hlookup, hreg⟩ := regular_of_mem h hf
    exact ⟨hlookup, ih f hf hreg⟩
  revert h
  induction v using Value.induct with
  | scalar s => exact Scalar.same_self
  | list items => simp [Value.same]
  | nested fields ih => exact section_same fields ih
  | repeated sections ih =>
    rw [Value.isRegular, Value.same]
    induction sections with
    | nil => exact fun _ => rfl
    | cons fields rest ihr =>
      intro h
      rw [sectionsRegular, Bool.and_eq_true] at h
      rw [sameSections, Bool.and_eq_true]
      exact ⟨section_same fields (ih fields List.mem_cons_self) h.1,
        ihr (fun t ht => ih t (List.mem_cons_of_mem _ ht)) h.2⟩

/-! ## The change of one key -/

theorem missingFrom_eq_nil {items others : List String} :
    missingFrom items others = [] ↔ ∀ x ∈ items, x ∈ others := by
  constructor
  · intro h x hx
    by_contra hn
    have hmem := mem_missingFrom.2 ⟨hx, hn⟩
    rw [h] at hmem
    cases hmem
  · intro h
    refine List.eq_nil_iff_forall_not_mem.2 fun x hx => ?_
    rw [mem_missingFrom] at hx
    exact hx.2 (h x hx.1)

theorem Change.side?_eq_none {items : List String} : side? items = none ↔ items = [] := by
  cases items <;> simp [side?]

theorem Change.applyTo_ofLists {added removed : List String} {change : Change}
    (h : ofLists? added removed = some change) (current : Option Value) :
    change.applyTo current = some (.list
      ((elementsAt current).filter (fun x => !removed.contains x) ++ added)) := by
  cases added with
  | nil =>
    cases removed with
    | nil => cases h
    | cons r rs =>
      cases h
      simp [applyTo, elements, value?, Value.list?]
  | cons a as =>
    cases removed with
    | nil =>
      cases h
      simp [applyTo, elements, value?, Value.list?]
    | cons r rs =>
      cases h
      simp [applyTo, elements, value?, Value.list?]

theorem mem_exchanged {desired current : List String} (x : String) :
    x ∈ desired ↔ x ∈ current.filter (fun x => !(missingFrom current desired).contains x) ++
      missingFrom desired current := by
  rw [List.mem_append, List.mem_filter, mem_missingFrom, Bool.not_eq_true', ← Bool.not_eq_true,
    List.contains_iff_mem, mem_missingFrom]
  by_cases hd : x ∈ desired <;> by_cases hc : x ∈ current <;> simp [hd, hc]

theorem setChange?_eq_none_iff {desired current : List String} :
    setChange? desired current = none ↔ ∀ x, x ∈ desired ↔ x ∈ current := by
  refine ⟨fun h x => ?_, setChange?_eq_none⟩
  have hboth : missingFrom desired current = [] ∧ missingFrom current desired = [] := by
    unfold setChange? Change.ofLists? at h
    cases ha : Change.side? (missingFrom desired current) <;>
      cases hr : Change.side? (missingFrom current desired) <;> rw [ha, hr] at h
    · exact ⟨Change.side?_eq_none.1 ha, Change.side?_eq_none.1 hr⟩
    all_goals cases h
  exact ⟨missingFrom_eq_nil.1 hboth.1 x, missingFrom_eq_nil.1 hboth.2 x⟩

theorem setChange?_reaches (desired : List String) {items : List String} {current : Value}
    (hcurrent : current.elements? = some items) :
    ∃ r reached, valueAfter (setChange? desired items) (some current) = some r ∧
      (r = current ∨ r = .list reached) ∧ r.elements? = some reached ∧
        ∀ x, x ∈ desired ↔ x ∈ reached := by
  have hitems : elementsAt (some current) = items := by
    rw [elementsAt, Option.bind_some, hcurrent]
    rfl
  cases h : setChange? desired items with
  | none => exact ⟨current, items, rfl, .inl rfl, hcurrent, setChange?_eq_none_iff.1 h⟩
  | some change =>
    rw [valueAfter, Change.applyTo_ofLists h, hitems]
    exact ⟨_, _, rfl, .inr rfl, rfl, mem_exchanged⟩

theorem changeTo?_reaches {desired current : Value} (hreg : desired.isRegular = true)
    (hd : desired.isNested = false) (hc : current.isNested = false) :
    desired.IsReached (valueAfter (desired.changeTo? current) (some current)) := by
  cases desired with
  | nested fields => cases hd
  | scalar d =>
    cases current with
    | nested fields => cases hc
    | scalar c =>
      rw [Value.changeTo?]
      split_ifs with h
      · exact h
      · exact Scalar.agrees_self hreg
    | list items =>
      obtain ⟨r, reached, hr, hlist, helements, hmem⟩ :=
        setChange?_reaches d.elements (rfl : Value.elements? (.list items) = _)
      rw [Value.changeTo?, hr]
      rcases hlist with rfl | rfl <;> cases helements <;> exact hmem
    | repeated sections => exact Scalar.agrees_self hreg
  | list d =>
    cases current with
    | nested fields => cases hc
    | scalar c =>
      obtain ⟨r, reached, hr, -, hreached⟩ :=
        setChange?_reaches d (rfl : Value.elements? (.scalar c) = _)
      rw [Value.changeTo?, hr]
      exact ⟨reached, hreached⟩
    | list items =>
      obtain ⟨r, reached, hr, -, hreached⟩ :=
        setChange?_reaches d (rfl : Value.elements? (.list items) = _)
      rw [Value.changeTo?, hr]
      exact ⟨reached, hreached⟩
    | repeated sections => exact ⟨d, rfl, fun x => Iff.rfl⟩
  | repeated d =>
    have hself := Value.same_self _ hreg
    cases current with
    | nested fields => cases hc
    | scalar c => exact hself
    | list items => exact hself
    | repeated sections =>
      rw [Value.changeTo?]
      · split_ifs with h
        · exact h
        · exact hself
      all_goals simp

theorem newChange?_reaches {desired : Value} (hreg : desired.isRegular = true)
    (hd : desired.isNested = false) :
    desired.IsReached (valueAfter desired.newChange? none) := by
  cases desired with
  | nested fields => cases hd
  | scalar d => exact Scalar.agrees_self hreg
  | list d =>
    rw [Value.newChange?]
    split_ifs with h
    · exact List.isEmpty_iff.1 h
    · exact ⟨d, rfl, fun x => Iff.rfl⟩
  | repeated d => exact Value.same_self _ hreg

theorem desiredChange?_reaches (c : Comparison) {key : String} {v : Value}
    (hkey : isExcluded c.options (parse key) = false) (hreg : v.isRegular = true)
    (hd : v.isNested = false) (hc : ∀ w, c.current.find? key = some w → w.isNested = false) :
    v.IsReached (valueAfter (c.desiredChange? key v) (c.current.find? key)) := by
  rw [Comparison.desiredChange?, hkey]
  cases hw : c.current.find? key with
  | some w => exact changeTo?_reaches hreg hd (hc w hw)
  | none =>
    have hnew := newChange?_reaches hreg hd
    simp only [Bool.false_eq_true, if_false]
    split
    · split_ifs
      · exact hnew
      · split
        · rename_i id hid
          rw [eq_text_of_identityAt? hid] at hreg ⊢
          exact Scalar.agrees_self hreg
        · exact hnew
    · exact hnew

/-- **The changes of a comparison reach the desired values.** A desired key that is not left out
has the value that is desired once its change has been applied, whatever else the comparison
changes. -/
theorem desired_reached (desired current : FlatConfig) (defaults : Dict Value)
    (options : DiffOptions) {key : String} {v : Value} (hv : desired.find? key = some v)
    (hkey : isExcluded options (parse key) = false) (hreg : v.isRegular = true)
    (hd : v.isNested = false) (hc : ∀ w, current.find? key = some w → w.isNested = false) :
    v.IsReached (valueAfter ((diff desired current defaults options).changes.find? key)
      (current.find? key)) := by
  rw [diff, Comparison.find?_report_of_desired hv]
  exact desiredChange?_reaches (.of desired current defaults options) hkey hreg hd hc

/-- A list that is a single text in the current configuration, in an instance of which another
field is new. -/
theorem desired_reached_of_text :
    let desired : FlatConfig := .ofList [("namespaces.\x7ba\x7d.ids", .list ["1", "2"]),
      ("namespaces.\x7ba\x7d.name", .text "a"), ("namespaces.\x7ba\x7d.new", .text "x")]
    let current : FlatConfig := .ofList [("namespaces.\x7ba\x7d.ids", .text "2"),
      ("namespaces.\x7ba\x7d.name", .text "a")]
    (Value.list ["1", "2"]).IsReached
      (valueAfter ((diff desired current .empty {}).changes.find? "namespaces.\x7ba\x7d.ids")
        (current.find? "namespaces.\x7ba\x7d.ids")) :=
  desired_reached _ _ _ _ rfl (by decide) rfl rfl fun w hw => by
    cases hw
    rfl

end Reconfig
