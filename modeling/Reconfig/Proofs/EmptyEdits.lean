import Reconfig.Command.Compile
import Reconfig.Proofs.Outcome
import Reconfig.Schema.Catalogue

/-!
# Edits with an empty list

A change that carries an empty list asks for something, yet there is no element to send. Edits of
lists as sets never carry one: an empty side is dropped. Where a value is replaced as a whole, an
empty list can take its place. This happens at a key whose desired value is an empty list where
the current one is a list of sections, and at a key that returns to a default that is an empty
list, when its current value is not a list of texts.

* `Change.isVacuous`: the change has no operation, or carries an empty list;
* `Value.isReplacedByEmpty`: the values in whose place a default that is an empty list is put;
* `vacuous_changeTo_iff`, `vacuous_resetOutcome_iff`: the comparisons of two values that end so;
* `Comparison.PutsEmptyList`: the keys at which this happens;
* `isSilent_commandsFor`, `isSilent_compile`: nothing is sent for such changes;
* **`vacuous_change_iff`**: the keys of a report with such a change.
-/

namespace Reconfig

open Reconfig.Path (parse)

/-! ## Vacuous changes -/

/-- The value is a list of texts without elements. -/
def Value.isEmptyList : Value → Bool
  | .list items => items.isEmpty
  | _ => false

/-- The change has no operation, or carries an empty list for one. -/
def Change.isVacuous (c : Change) : Bool :=
  c.operations.isEmpty || c.operations.any fun e => e.2.isEmptyList

/-- The value is a list of sections. -/
def Value.isRepeated : Value → Bool
  | .repeated _ => true
  | _ => false

/-- An empty list differs from the value and takes its place as a whole: a list of sections, or a
single value that stands for an element. -/
def Value.isReplacedByEmpty : Value → Bool
  | .scalar s => !isBlankText s.render
  | .repeated _ => true
  | _ => false

theorem Value.eq_of_isEmptyList {v : Value} (h : v.isEmptyList = true) : v = .list [] := by
  cases v with
  | list items => rw [List.isEmpty_iff.1 h]
  | scalar s => cases h
  | nested fields => cases h
  | repeated sections => cases h

namespace Change

@[simp] theorem isVacuous_update (v : Value) : (update v).isVacuous = v.isEmptyList := by
  simp [isVacuous, operations, Operation.all, value?]

@[simp] theorem isVacuous_add (v : Value) : (add v).isVacuous = v.isEmptyList := by
  simp [isVacuous, operations, Operation.all, value?]

@[simp] theorem isVacuous_remove (v : Value) : (remove v).isVacuous = v.isEmptyList := by
  simp [isVacuous, operations, Operation.all, value?]

@[simp] theorem isVacuous_exchange (a r : Value) :
    (exchange a r).isVacuous = (a.isEmptyList || r.isEmptyList) := by
  simp [isVacuous, operations, Operation.all, value?]

theorem isEmptyList_of_side {items : List String} {v : Value} (h : side? items = some v) :
    v.isEmptyList = false := by
  rw [side?] at h
  split_ifs at h with hitems
  cases h
  exact Bool.eq_false_iff.2 hitems

theorem isVacuous_ofLists {added removed : List String} {change : Change}
    (h : ofLists? added removed = some change) : change.isVacuous = false := by
  unfold ofLists? ofSides? at h
  split at h
  · cases h
  · rename_i a ha _
    cases h
    rw [isVacuous_add, isEmptyList_of_side ha]
  · rename_i r _ hr
    cases h
    rw [isVacuous_remove, isEmptyList_of_side hr]
  · rename_i a r ha hr
    cases h
    rw [isVacuous_exchange, isEmptyList_of_side ha, isEmptyList_of_side hr]
    rfl

end Change

theorem isVacuous_newChange {v : Value} {change : Change} (h : v.newChange? = some change) :
    change.isVacuous = false := by
  cases v with
  | scalar s =>
    cases h
    rfl
  | list items =>
    rw [Value.newChange?] at h
    split_ifs at h with hitems
    cases h
    rw [Change.isVacuous_add]
    exact Bool.eq_false_iff.2 hitems
  | nested fields => cases h
  | repeated sections =>
    cases h
    rfl

/-! ## Two values -/

/-- **An empty list replaces a list of sections**, since the two are not compared as sets. -/
theorem vacuous_changeTo_iff {v w : Value} {change : Change} :
    (v.changeTo? w = some change ∧ change.isVacuous = true) ↔
      (v = .list [] ∧ w.isRepeated = true) ∧ change = .update (.list []) := by
  have hsets : ∀ {added removed}, Change.ofLists? added removed = some change →
      change.isVacuous ≠ true := fun h => Bool.eq_false_iff.1 (Change.isVacuous_ofLists h)
  constructor
  · rintro ⟨h, hvacuous⟩
    rcases changeTo?_eq_some h with ⟨added, removed, hlists⟩ | rfl
    · exact absurd hvacuous (hsets hlists)
    · rw [Change.isVacuous_update] at hvacuous
      obtain rfl := Value.eq_of_isEmptyList hvacuous
      cases w with
      | repeated sections => exact ⟨⟨rfl, rfl⟩, rfl⟩
      | scalar s => exact absurd hvacuous (hsets h)
      | list items => exact absurd hvacuous (hsets h)
      | nested fields => cases h
  · rintro ⟨⟨rfl, hw⟩, rfl⟩
    cases w with
    | repeated sections => exact ⟨rfl, rfl⟩
    | scalar s => cases hw
    | list items => cases hw
    | nested fields => cases hw

theorem isSome_changeTo_empty {w : Value} (hw : w.list? = none) :
    ((Value.list []).changeTo? w).isSome = w.isReplacedByEmpty := by
  cases w with
  | scalar s =>
    have helements : (Value.list []).changeTo? (.scalar s) = setChange? [] s.elements := rfl
    rw [helements, Scalar.elements, Value.isReplacedByEmpty]
    cases isBlankText s.render <;> rfl
  | list items => cases hw
  | nested fields => rfl
  | repeated sections => rfl

namespace Comparison

variable {c : Comparison}

/-! ## Keys -/

theorem vacuous_desiredChange_iff {key : String} {v : Value} {change : Change} :
    (c.desiredChange? key v = some change ∧ change.isVacuous = true) ↔
      (isExcluded c.options (parse key) = false ∧
        ∃ w, c.current.find? key = some w ∧ v = .list [] ∧ w.isRepeated = true) ∧
          change = .update (.list []) := by
  constructor
  · rintro ⟨h, hvacuous⟩
    obtain ⟨hx, ⟨w, hw, hchange⟩ | hnew | ⟨id, rfl⟩⟩ := desiredChange?_eq_some h
    · obtain ⟨hvalues, hupdate⟩ := vacuous_changeTo_iff.1 ⟨hchange, hvacuous⟩
      exact ⟨⟨hx, w, hw, hvalues⟩, hupdate⟩
    · rw [isVacuous_newChange hnew] at hvacuous
      cases hvacuous
    · cases hvacuous
  · rintro ⟨⟨hx, w, hw, hvalues⟩, hupdate⟩
    obtain ⟨hchange, hvacuous⟩ := vacuous_changeTo_iff.2 ⟨hvalues, hupdate⟩
    refine ⟨?_, hvacuous⟩
    rw [desiredChange?, hx, hw]
    exact hchange

theorem isVacuous_resetOutcome_list {path : Path} {items : List String} {change : Change}
    (h : (c.resetOutcome path (.list items)).change? = some change) :
    change.isVacuous = false := by
  rw [resetOutcome] at h
  split_ifs at h with hitems
  · cases h
  · cases h
    rw [Change.isVacuous_remove]
    exact Bool.eq_false_iff.2 hitems

/-- **An empty list takes the place of a value** when it is the default. The comparison with the
default asks to remove elements, but the report replaces the value. -/
theorem vacuous_resetOutcome_iff {path : Path} {w : Value} {change : Change} :
    ((c.resetOutcome path w).change? = some change ∧ change.isVacuous = true) ↔
      (c.defaults.find? path.logicalKey = some (.list []) ∧ w.isReplacedByEmpty = true) ∧
        change = .update (.list []) := by
  constructor
  · rintro ⟨h, hvacuous⟩
    have hw : w.list? = none := by
      cases w with
      | list items =>
        rw [isVacuous_resetOutcome_list h] at hvacuous
        cases hvacuous
      | scalar s | nested fields | repeated sections => rfl
    rcases resetOutcome_eq_some h with ⟨items, rfl, -⟩ | ⟨d, hd, rfl⟩
    · cases hw
    · rw [Change.isVacuous_update] at hvacuous
      obtain rfl := Value.eq_of_isEmptyList hvacuous
      rw [change?_resetOutcome hd hw, isSome_changeTo_empty hw] at h
      exact ⟨⟨hd, (Option.ite_none_right_eq_some.1 h).1⟩, rfl⟩
  · rintro ⟨⟨hd, hreplaced⟩, rfl⟩
    have hw : w.list? = none := by
      cases w with
      | list items => cases hreplaced
      | scalar s | nested fields | repeated sections => rfl
    refine ⟨?_, rfl⟩
    rw [change?_resetOutcome hd hw, isSome_changeTo_empty hw, if_pos hreplaced]

/-- A key that is not desired returns to its default: no instance around it is gone, or one is
reopened. -/
def ReturnsToDefault (c : Comparison) (path : Path) : Prop :=
  c.removedAround? path = none ∨ c.reopensAround path = true

theorem isVacuous_removalAt {path p : Path} {w : Value} {change : Change}
    (h : removalAt path p w = some change) : change.isVacuous = false := by
  obtain ⟨-, h⟩ := Option.ite_none_right_eq_some.1 h
  obtain ⟨id, -, rfl⟩ := Option.map_eq_some_iff.1 h
  rfl

theorem vacuous_outcomeAround_iff {path : Path} {w : Value} {change : Change} :
    ((c.outcomeAround path w).change? = some change ∧ change.isVacuous = true) ↔
      c.reopensAround path = true ∧
        (c.resetOutcome path w).change? = some change ∧ change.isVacuous = true := by
  rw [outcomeAround]
  cases c.reopensAround path <;> simp [Outcome.unchanged]

theorem vacuous_currentOutcome_iff {key : String} (hkey : c.desired.find? key = none)
    (hx : isExcluded c.options (parse key) = false) {w : Value} {change : Change} :
    ((c.currentOutcome c.reopened key w).change? = some change ∧ change.isVacuous = true) ↔
      c.ReturnsToDefault (parse key) ∧ (c.resetOutcome (parse key) w).change? = some change ∧
        change.isVacuous = true := by
  rw [currentOutcome_eq hkey hx, ReturnsToDefault]
  cases hp : c.removedAround? (parse key) with
  | none => simp
  | some p =>
    simp only [removedOutcome_eq, reduceCtorEq, false_or]
    rw [← vacuous_outcomeAround_iff]
    refine and_congr_left fun hvacuous => ?_
    rw [Option.or_eq_some_iff]
    refine or_iff_left ?_
    rintro ⟨-, hremoval⟩
    rw [isVacuous_removalAt hremoval] at hvacuous
    cases hvacuous

/-- An empty list takes the place of the value of the key: the desired value is an empty list and
the current one a list of sections, or the key returns to a default that is an empty list. -/
def PutsEmptyList (c : Comparison) (key : String) : Prop :=
  isExcluded c.options (parse key) = false ∧ ∃ w, c.current.find? key = some w ∧
    ((c.desired.find? key = some (.list []) ∧ w.isRepeated = true) ∨
      (c.desired.find? key = none ∧ c.ReturnsToDefault (parse key) ∧
        c.defaults.find? (parse key).logicalKey = some (.list []) ∧ w.isReplacedByEmpty = true))

end Comparison

/-! ## Commands -/

/-- There is no command: there is an error, or nothing is to be sent. -/
def Compiled.IsSilent (r : Compiled) : Prop := ∀ commands, r = .ok commands → commands = []

theorem isSilent_ok : Compiled.IsSilent (.ok []) := by
  rintro commands ⟨⟩
  rfl

theorem isSilent_error (cause : CompileError) : Compiled.IsSilent (.error cause) := by
  rintro commands ⟨⟩

theorem isSilent_ite {p : Prop} [Decidable p] {r r' : Compiled} (h : r.IsSilent)
    (h' : r'.IsSilent) : (if p then r else r').IsSilent := by
  split_ifs
  · exact h
  · exact h'

section Silent

variable (key : String)

theorem isSilent_assignments (base field : String) :
    (assignments base field key (.update (.list []))).IsSilent := isSilent_ok

theorem isSilent_ofFieldNames {segments : List Segment} {f : List String → Compiled}
    (h : ∀ names, (f names).IsSilent) :
    Compiled.IsSilent (match fieldNames key segments with
      | .error e => .error e
      | .ok names => f names) := by
  cases fieldNames key segments with
  | error cause => exact isSilent_error cause
  | ok names => exact h names

theorem isSilent_namespaceCommands (base : String) (rest : List Segment) :
    (namespaceCommands key (.update (.list [])) base rest).IsSilent :=
  isSilent_ofFieldNames key fun _ => isSilent_ite isSilent_ok (isSilent_assignments key _ _)

theorem isSilent_namespacesCommands (segments : List Segment) :
    (namespacesCommands key (.update (.list [])) segments).IsSilent := by
  unfold namespacesCommands
  split
  · simp only
    split
    · exact isSilent_ite (isSilent_namespaceCommands key _ _) (isSilent_namespaceCommands key _ _)
    · exact isSilent_namespaceCommands key _ _
  · exact isSilent_error _

theorem isSilent_replicationCommands (path : Path) :
    (replicationCommands key (.update (.list [])) path).IsSilent := by
  have hfield : ∀ base segments,
      (singularAssignments base key (.update (.list [])) segments).IsSilent := fun _ _ =>
    isSilent_ofFieldNames key fun _ => isSilent_assignments key _ _
  unfold replicationCommands
  simp only
  split
  · exact isSilent_ok
  · exact isSilent_ok
  · exact isSilent_ite isSilent_ok (hfield _ _)
  · exact hfield _ _
  · exact hfield _ _
  · exact hfield _ _
  · exact isSilent_error _

theorem isSilent_loggingCommands (e : Enquiry) (segments : List Segment) :
    (loggingCommands e key (.update (.list [])) segments).1.IsSilent := by
  unfold loggingCommands
  split
  · split_ifs
    · exact isSilent_ok
    · split
      · exact isSilent_error _
      · simp only [sinkCommands]
        split
        · exact isSilent_assignments key _ _
        · exact isSilent_error _
  · exact isSilent_error _

/-- **Nothing is sent for an update by the empty list.** -/
theorem isSilent_commandsFor (e : Enquiry) :
    (commandsFor e key (.update (.list []))).1.IsSilent := by
  unfold commandsFor
  simp only
  split
  · split_ifs
    · exact isSilent_namespacesCommands key _
    · exact isSilent_ofFieldNames key fun _ =>
        isSilent_ite isSilent_ok (isSilent_assignments key _ _)
    · exact isSilent_loggingCommands key e _
    · exact isSilent_replicationCommands key _
    · exact isSilent_ofFieldNames key fun _ => isSilent_assignments key _ _
  · exact isSilent_error _

end Silent

theorem isSilent_compileAll (e : Enquiry) {entries : List (String × Change)}
    (h : ∀ entry ∈ entries, entry.2 = .update (.list [])) : (compileAll e entries).1.IsSilent := by
  induction entries generalizing e with
  | nil => exact isSilent_ok
  | cons entry rest ih =>
    obtain ⟨key, change⟩ := entry
    obtain ⟨rfl, hrest⟩ := List.forall_mem_cons.1 h
    have hfirst := isSilent_commandsFor key e
    rw [compileAll]
    generalize commandsFor e key (.update (.list [])) = first at hfirst
    obtain ⟨result, e'⟩ := first
    cases result with
    | error cause => exact isSilent_error cause
    | ok commands =>
      obtain rfl := hfirst commands rfl
      have hlater := ih e' hrest
      dsimp only
      generalize compileAll e' rest = later at hlater
      obtain ⟨result, e''⟩ := later
      cases result with
      | error cause => exact isSilent_error cause
      | ok more => exact hlater

/-- **Nothing is sent for a set of changes** all of which put an empty list somewhere. -/
theorem isSilent_compile {changes : ChangeSet}
    (h : ∀ entry ∈ changes.entries, entry.2 = .update (.list [])) (source? : Option InfoSource) :
    (changes.compile source?).1.IsSilent :=
  isSilent_compileAll (.start source?) fun entry hentry => h entry (mem_rearrange.1 hentry).1

/-- **Which changes of a report are vacuous.** Every change has an operation, and the only ones that
carry an empty list are those that put the empty list in the place of another value. -/
theorem vacuous_change_iff (desired current : FlatConfig) (defaults : Dict Value)
    (options : DiffOptions) (key : String) (change : Change) :
    ((diff desired current defaults options).changes.find? key = some change ∧
        change.isVacuous = true) ↔
      (Comparison.of desired current defaults options).PutsEmptyList key ∧
        change = .update (.list []) := by
  rw [diff]
  generalize Comparison.of desired current defaults options = c
  cases hx : isExcluded c.options (parse key) with
  | true => simp [(Comparison.report_of_excluded hx).1, Comparison.PutsEmptyList, hx]
  | false =>
    cases hv : c.desired.find? key with
    | some v =>
      rw [Comparison.find?_report_of_desired hv, Comparison.vacuous_desiredChange_iff,
        Comparison.PutsEmptyList, hv]
      simp
    | none =>
      rw [Comparison.find?_report_of_not_desired hv, Comparison.PutsEmptyList, hv]
      cases hw : c.current.find? key with
      | none => simp
      | some w =>
        rw [Option.bind_some, Comparison.vacuous_currentOutcome_iff hv hx,
          Comparison.vacuous_resetOutcome_iff]
        simp [hx, and_assoc]

/-- The node reports the operations on a namespace, which by default it does not: the empty list
takes the place of the namespace. This is the only change, and nothing is sent for it. -/
theorem vacuous_change_of_text :
    let properties (field : String) (j : Json) : Json :=
      .object [("properties", .object [(field, j)])]
    let schema : Json := properties "security" (properties "log"
      (properties "report-data-op" (.object [("default", .array [])])))
    let document : Json :=
      .object [("security", .object [("log", .object [("report-data-op", .string "ns1")])])]
    let desired : Tree := []
    let current : Tree :=
      [("security", .nested [("log", .nested [("report-data-op", .text "ns1")])])]
    let defaults := (Catalogue.ofDocument schema).defaults
    let changes := (diff desired.flatten current.flatten defaults {}).changes
    Tree.ofJson (.object []) = .ok desired ∧ Tree.ofJson document = .ok current ∧
      changes.find? "security.log.report-data-op" = some (.update (.list [])) ∧
      (∀ source?, (changes.compile source?).1.IsSilent) ∧ (changes.compile none).1 = .ok [] := by
  intro properties schema document desired current defaults changes
  have hputs : (Comparison.of desired.flatten current.flatten defaults {}).PutsEmptyList
      "security.log.report-data-op" := by
    refine ⟨by decide, .text "ns1", rfl, .inr ⟨rfl, .inl rfl, rfl, by decide⟩⟩
  have hchange := (vacuous_change_iff desired.flatten current.flatten defaults {}
    "security.log.report-data-op" (.update (.list []))).2 ⟨hputs, rfl⟩
  have honly : changes.keys = ["security.log.report-data-op"] := by decide +kernel
  have hvacuous : ∀ entry ∈ changes.entries, entry.2 = .update (.list []) := by
    rintro ⟨key, change⟩ hentry
    have hkey : key ∈ changes.keys := List.mem_map_of_mem hentry
    rw [honly, List.mem_singleton] at hkey
    subst hkey
    exact Option.some.inj ((Dict.mem_entries.1 hentry).symm.trans hchange.1)
  have hsilent : ∀ source?, (changes.compile source?).1.IsSilent := isSilent_compile hvacuous
  have hcompiled : (changes.compile none).1 = .ok [] := by decide +kernel
  exact ⟨rfl, rfl, hchange.1, hsilent, hcompiled⟩

end Reconfig
