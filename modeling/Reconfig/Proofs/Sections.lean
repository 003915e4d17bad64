import Reconfig.Proofs.Addressing
import Reconfig.Proofs.Objects
import Reconfig.Proofs.Removal

/-!
# Well-sectioned configurations

The known contexts of a configuration are sections of plain fields, with lists of named sections
where the vocabulary has them: the namespaces and their sets, the destinations and their
namespaces, the TLS contexts of the network, and the log sinks. The keys of such configurations
have the form that commands address, but for two kinds: what lies inside a TLS context, and the
type that stands for a bare text of a log sink.

* `Value.isPlain`, `Value.isNamedList`, `Tree.isPlainBut`, **`Tree.isWellSectioned`**: the form of
  configurations;
* `Path.isInTlsContext`, `Path.isSinkType`: the keys that commands do not address;
* `areFields_of_plain`, `plainBut_leaves`, **`isAddressable_leaf`**: the leaves of such
  configurations;
* `exists_value_of_change`: a change has a value on one of its sides;
* **`malformed_key_iff`**: the malformed keys of a difference.
-/

namespace Reconfig

open Vocabulary (nameField typeField indexField)
open Reconfig.Path (parse render)

/-! ## The form of configurations -/

mutual

/-- The value is a scalar, a list of texts, or a section of such values. -/
def Value.isPlain : Value → Bool
  | .scalar _ => true
  | .list _ => true
  | .nested fields => fieldsPlain fields
  | .repeated _ => false

/-- All fields have plain values. -/
def fieldsPlain : List (String × Value) → Bool
  | [] => true
  | (_, v) :: rest => v.isPlain && fieldsPlain rest

end

/-- The value is a list of named sections of a form. -/
def Value.isNamedList (form : Tree → Bool) : Value → Bool
  | .repeated sections => areNamed sections && sections.all form
  | _ => false

/-- The value is a section of a form. -/
def Value.isSectionOf (form : Tree → Bool) : Value → Bool
  | .nested fields => form fields
  | _ => false

namespace Tree

/-- All fields have plain values. -/
def isPlain (t : Tree) : Bool := fieldsPlain t

/-- All fields have plain values, but one may be a list of named sections of a form. -/
def isPlainBut (list : String) (form : Tree → Bool) (t : Tree) : Bool :=
  t.all fun f => f.2.isPlain || (f.1 == list && f.2.isNamedList form)

/-- All fields have scalars as values. -/
def isFlat (t : Tree) : Bool := t.all fun f => f.2.scalar?.isSome

/-- The value of a context has its form. -/
def isContext (context : String) (v : Value) : Bool :=
  if context = "namespaces" then v.isNamedList (isPlainBut "sets" isPlain)
  else if context = "logging" then v.isNamedList isFlat
  else if context = xdrContext then
    v.isSectionOf (isPlainBut "dcs" (isPlainBut "namespaces" isPlain))
  else if context = "network" then v.isSectionOf (isPlainBut "tls" isPlain)
  else v.isSectionOf isPlain

/-- **All contexts of the configuration have their form.** -/
def isWellSectioned (t : Tree) : Bool := t.all fun f => isContext f.1 f.2

end Tree

namespace Path

/-- The path lies inside a TLS context of the network. -/
def isInTlsContext : Path → Bool
  | .field context :: .field list :: .selector _ :: _ => context == "network" && list == "tls"
  | _ => false

/-- The path is that of the type of a section of a log sink. -/
def isSinkType : Path → Bool
  | [.field context, .selector _, .field _, .field name] =>
    context == "logging" && name == typeField
  | _ => false

end Path

/-! ## The leaves of plain sections -/

theorem fieldsPlain_of_mem {fields : List (String × Value)} (h : fieldsPlain fields = true)
    {f : String × Value} (hf : f ∈ fields) : f.2.isPlain = true :=
  forall_of_check (fun _ _ => (Bool.and_eq_true _ _).mp) h f hf

/-- **The leaves of a plain value lie at fields alone.** -/
theorem all_fields_of_plain (v : Value) : v.isPlain = true → ∀ {name : String} {q : Path}
    {w : Value}, (q, w) ∈ v.leaves name → (q.all fun s => s.field?.isSome) = true := by
  induction v using Value.induct with
  | scalar s =>
    intro _ name q w h
    cases s with
    | text s =>
      rw [Value.leaves] at h
      split_ifs at h <;> rw [List.mem_singleton] at h <;> cases h <;> rfl
    | bool b | int i | uint n | float x =>
      cases List.mem_singleton.1 h
      rfl
  | list items =>
    intro _ name q w h
    cases List.mem_singleton.1 h
    rfl
  | nested fields ih =>
    intro hplain name q w h
    rw [Value.leaves] at h
    split_ifs at h
    · cases List.mem_singleton.1 h
      rfl
    · obtain ⟨name', v, q', hmem, rfl, hq⟩ := mem_fieldLeaves.1 h
      rw [List.all_cons, ih _ hmem (fieldsPlain_of_mem hplain hmem) hq]
      rfl
  | «repeated» sections ih =>
    intro hplain
    cases hplain

theorem areFields_cons (name : String) {q : Path}
    (h : (q.all fun s => s.field?.isSome) = true) : areFields (.field name :: q) = true := h

theorem areFields_of_plain {t : Tree} (ht : t.isPlain = true) {q : Path} {w : Value}
    (h : (q, w) ∈ fieldLeaves t) : areFields q = true := by
  obtain ⟨name, v, q', hmem, rfl, hq⟩ := mem_fieldLeaves.1 h
  exact areFields_cons name (all_fields_of_plain v (fieldsPlain_of_mem ht hmem) hq)

/-! ## The leaves of lists and contexts -/

theorem namedList_leaves {form : Tree → Bool} {v : Value} (hv : v.isNamedList form = true)
    {name : String} {q : Path} {w : Value} (h : (q, w) ∈ v.leaves name) :
    ∃ id, ∃ s : Tree, ∃ q', q = .selector id :: q' ∧ form s = true ∧
      ((q', w) ∈ fieldLeaves s ∨ q' = [.field indexField]) := by
  cases v with
  | scalar s | list items | nested fields => cases hv
  | «repeated» sections =>
    rw [Value.isNamedList, areNamed, Bool.and_eq_true, Bool.and_eq_true] at hv
    obtain ⟨⟨-, hids⟩, hforms⟩ := hv
    rw [Value.leaves, if_pos hids] at h
    split_ifs at h
    · cases h
    · obtain ⟨i, s, q', hs, rfl, hq⟩ := mem_sectionLeaves.1 h
      exact ⟨_, s, q', rfl, List.all_eq_true.1 hforms s (List.mem_of_getElem? hs),
        Or.imp_right And.left hq⟩

theorem plainBut_leaves {list : String} {form : Tree → Bool} {t : Tree}
    (ht : t.isPlainBut list form = true) {q : Path} {w : Value} (h : (q, w) ∈ fieldLeaves t) :
    areFields q = true ∨ ∃ id, ∃ s : Tree, ∃ q', q = .field list :: .selector id :: q' ∧
      form s = true ∧ ((q', w) ∈ fieldLeaves s ∨ q' = [.field indexField]) := by
  obtain ⟨name, v, q', hmem, rfl, hq⟩ := mem_fieldLeaves.1 h
  have hf := List.all_eq_true.1 ht _ hmem
  rw [Bool.or_eq_true, Bool.and_eq_true, beq_iff_eq] at hf
  rcases hf with hplain | ⟨rfl, hlist⟩
  · exact .inl (areFields_cons name (all_fields_of_plain v hplain hq))
  · obtain ⟨id, s, q'', rfl, hs, hleaf⟩ := namedList_leaves hlist hq
    exact .inr ⟨id, s, q'', rfl, hs, hleaf⟩

theorem sectionOf_leaves {form : Tree → Bool} {v : Value} (hv : v.isSectionOf form = true)
    {name : String} {q : Path} {w : Value} (h : (q, w) ∈ v.leaves name)
    (hw : w.isNested = false) :
    ∃ fields : Tree, form fields = true ∧ (q, w) ∈ fieldLeaves fields := by
  cases v with
  | scalar s | list items | «repeated» sections => cases hv
  | nested fields =>
    rw [Value.leaves] at h
    split_ifs at h
    · cases List.mem_singleton.1 h
      cases hw
    · exact ⟨fields, hv, h⟩

namespace Path

theorem isFieldBelow_of_areFields {list : String} {q : Path} (h : areFields q = true) :
    isFieldBelow list q = true := by
  unfold isFieldBelow
  split
  · simp [areFields, Segment.field?] at h
  · exact h

theorem isFieldBelow_leaf {list : String} {t : Tree}
    (ht : t.isPlainBut list Tree.isPlain = true) {q : Path} {w : Value}
    (h : (q, w) ∈ fieldLeaves t) : isFieldBelow list q = true := by
  rcases plainBut_leaves ht h with hfields | ⟨id, s, q', rfl, hs, hleaf | rfl⟩
  · exact isFieldBelow_of_areFields hfields
  · rw [isFieldBelow, beq_self_eq_true, Bool.true_and]
    exact areFields_of_plain hs hleaf
  · rw [isFieldBelow, beq_self_eq_true]
    rfl

theorem isNamespaceField_leaf {v : Value}
    (hv : v.isNamedList (Tree.isPlainBut "sets" Tree.isPlain) = true) {name : String} {q : Path}
    {w : Value} (h : (q, w) ∈ v.leaves name) : isNamespaceField q = true := by
  obtain ⟨id, s, q', rfl, hs, hleaf | rfl⟩ := namedList_leaves hv h
  · exact isFieldBelow_leaf hs hleaf
  · rfl

theorem isReplicationField_of_areFields {q : Path} (h : areFields q = true) :
    isReplicationField q = true := by
  unfold isReplicationField
  split
  · simp [areFields, Segment.field?] at h
  · exact h

theorem isReplicationField_leaf {t : Tree}
    (ht : t.isPlainBut "dcs" (Tree.isPlainBut "namespaces" Tree.isPlain) = true) {q : Path}
    {w : Value} (h : (q, w) ∈ fieldLeaves t) : isReplicationField q = true := by
  rcases plainBut_leaves ht h with hfields | ⟨id, s, q', rfl, hs, hleaf | rfl⟩
  · exact isReplicationField_of_areFields hfields
  · exact isFieldBelow_leaf hs hleaf
  · rfl

theorem isInTlsContext_eq_false {context : String} (h : context ≠ "network") (q : Path) :
    isInTlsContext (.field context :: q) = false := by
  unfold isInTlsContext
  split
  · rename_i heq
    cases heq
    rw [beq_eq_false_iff_ne.2 h, Bool.false_and]
  · rfl

theorem isSinkType_eq_false {context : String} (h : context ≠ "logging") (q : Path) :
    isSinkType (.field context :: q) = false := by
  unfold isSinkType
  split
  · rename_i heq
    cases heq
    rw [beq_eq_false_iff_ne.2 h, Bool.false_and]
  · rfl

theorem isSinkField_leaf {v : Value} (hv : v.isNamedList Tree.isFlat = true) {name : String}
    {q : Path} {w : Value} (h : (q, w) ∈ v.leaves name) :
    isSinkField q = !isSinkType (.field "logging" :: q) := by
  obtain ⟨id, s, q', rfl, hs, hleaf | rfl⟩ := namedList_leaves hv h
  · obtain ⟨field, u, q'', hmem, rfl, hq⟩ := mem_fieldLeaves.1 hleaf
    have hscalar := List.all_eq_true.1 hs _ hmem
    cases u with
    | list items | nested fields | «repeated» sections => cases hscalar
    | scalar a =>
      cases a with
      | text a =>
        rw [Value.leaves] at hq
        split_ifs at hq <;> cases List.mem_singleton.1 hq <;> rfl
      | bool b | int i | uint n | float x =>
        cases List.mem_singleton.1 hq
        rfl
  · rfl

theorem areFields_network_leaf {t : Tree} (ht : t.isPlainBut "tls" Tree.isPlain = true)
    {q : Path} {w : Value} (h : (q, w) ∈ fieldLeaves t) :
    areFields q = !isInTlsContext (.field "network" :: q) := by
  rcases plainBut_leaves ht h with hfields | ⟨id, s, q', rfl, -, -⟩
  · rw [hfields]
    unfold isInTlsContext
    split
    · rename_i heq
      cases heq
      simp [areFields, Segment.field?] at hfields
    · rfl
  · rfl

end Path

/-- **The keys of a well-sectioned configuration that commands do not address** lie inside a TLS
context or are types of sections of log sinks. -/
theorem isAddressable_leaf {t : Tree} (ht : t.isWellSectioned = true) {p : Path} {w : Value}
    (h : (p, w) ∈ fieldLeaves t) (hw : w.isNested = false) :
    p.isAddressable = !(p.isInTlsContext || p.isSinkType) := by
  obtain ⟨context, v, q, hmem, rfl, hq⟩ := mem_fieldLeaves.1 h
  have hform := List.all_eq_true.1 ht _ hmem
  rw [Path.isAddressable]
  dsimp only [Tree.isContext] at hform
  by_cases hns : context = "namespaces"
  · rw [if_pos hns] at hform ⊢
    rw [Path.isInTlsContext_eq_false (by rw [hns]; decide),
      Path.isSinkType_eq_false (by rw [hns]; decide)]
    exact Path.isNamespaceField_leaf hform hq
  rw [if_neg hns] at hform ⊢
  by_cases hlogging : context = "logging"
  · rw [if_pos hlogging] at hform ⊢
    rw [Path.isInTlsContext_eq_false (by rw [hlogging]; decide), Bool.false_or, hlogging]
    exact Path.isSinkField_leaf hform hq
  rw [if_neg hlogging] at hform ⊢
  rw [Path.isSinkType_eq_false hlogging, Bool.or_false]
  by_cases hxdr : context = xdrContext
  · rw [if_pos hxdr] at hform ⊢
    rw [Path.isInTlsContext_eq_false (by rw [hxdr]; decide)]
    obtain ⟨fields, hfields, hleaf⟩ := sectionOf_leaves hform hq hw
    exact Path.isReplicationField_leaf hfields hleaf
  rw [if_neg hxdr] at hform ⊢
  by_cases hnetwork : context = "network"
  · rw [if_pos hnetwork] at hform
    obtain ⟨fields, hfields, hleaf⟩ := sectionOf_leaves hform hq hw
    rw [hnetwork]
    exact Path.areFields_network_leaf hfields hleaf
  · rw [if_neg hnetwork] at hform
    obtain ⟨fields, hfields, hleaf⟩ := sectionOf_leaves hform hq hw
    rw [Path.isInTlsContext_eq_false hnetwork]
    exact areFields_of_plain hfields hleaf

/-! ## The values of changes -/

namespace Comparison

variable {c : Comparison} {key : String}

theorem desiredChange?_of_isNested {v : Value} (hv : v.isNested = true) :
    c.desiredChange? key v = none := by
  have hidentity : identityAt? (parse key) v = none := by
    obtain ⟨fields, rfl⟩ := exists_fields hv
    exact identityAt?_eq_none _ rfl
  have hnew : v.newChange? = none := by
    obtain ⟨fields, rfl⟩ := exists_fields hv
    rfl
  rw [desiredChange?]
  simp only [hidentity, hnew]
  split_ifs
  · rfl
  · cases c.current.find? key with
    | some w => exact changeTo?_of_isNested (.inl hv)
    | none =>
      cases (parse key).section? with
      | some p => exact ite_self _
      | none => rfl

theorem change?_currentOutcome_of_isNested {w : Value} (hw : w.isNested = true) :
    (c.currentOutcome c.reopened key w).change? = none := by
  obtain ⟨fields, rfl⟩ := exists_fields hw
  have hreset : ∀ path, c.resetOutcome path (.nested fields) = .unchanged := fun _ => rfl
  unfold currentOutcome
  simp only [hreset, ite_self]
  split_ifs
  · rfl
  · split
    · rfl
    · rw [removedOutcome_eq, removalAt, identityAt?_eq_none _ rfl]
      exact ite_self _

theorem exists_value_of_change {change : Change} (h : c.report.changes.find? key = some change) :
    ∃ v, v.isNested = false ∧ (c.desired.find? key = some v ∨ c.current.find? key = some v) := by
  cases hdesired : c.desired.find? key with
  | some v =>
    rw [find?_report_of_desired hdesired] at h
    refine ⟨v, Bool.eq_false_iff.2 fun hv => ?_, .inl rfl⟩
    rw [desiredChange?_of_isNested hv] at h
    cases h
  | none =>
    rw [find?_report_of_not_desired hdesired] at h
    obtain ⟨w, hw, h⟩ := Option.bind_eq_some_iff.1 h
    refine ⟨w, Bool.eq_false_iff.2 fun hnested => ?_, .inr hw⟩
    rw [change?_currentOutcome_of_isNested hnested] at h
    cases h

end Comparison

/-! ## Malformed keys -/

theorem placeOf_eq_outside {key : String}
    (h : ((parse key).isInTlsContext || (parse key).isSinkType) = true) :
    placeOf key = .outside := by
  rw [Bool.or_eq_true] at h
  rw [placeOf]
  rcases h with h | h
  · unfold Path.isInTlsContext at h
    split at h
    · rename_i context list id rest hpath
      rw [Bool.and_eq_true, beq_iff_eq] at h
      rw [hpath, h.1]
      rfl
    · cases h
  · unfold Path.isSinkType at h
    split at h
    · rename_i context id field name hpath
      rw [Bool.and_eq_true, beq_iff_eq] at h
      rw [hpath, h.1]
      rfl
    · cases h

section Comparison

variable {desired current : Tree} (hd : desired.isSound = true)
  (hdw : desired.isWellSectioned = true) (hc : current.isSound = true)
  (hcw : current.isWellSectioned = true) (defaults : Dict Value) (options : DiffOptions)

include hd hdw hc hcw

theorem isAddressable_of_change {key : String} {change : Change}
    (h : (diff desired.flatten current.flatten defaults options).changes.find? key = some change) :
    (parse key).isAddressable = !((parse key).isInTlsContext || (parse key).isSinkType) := by
  obtain ⟨v, hv, hdesired | hcurrent⟩ := Comparison.exists_value_of_change h
  · exact isAddressable_leaf hdw ((find?_flatten hd).1 hdesired) hv
  · exact isAddressable_leaf hcw ((find?_flatten hc).1 hcurrent) hv

/-- **The malformed keys of a difference.** The changes between two well-sectioned configurations
fail with a malformed key if and only if one of those that are reached has a key inside a TLS
context, or the key of the type that stands for a bare text of a log sink, and then with that key.
With such a change they have no commands, whether it is reached or not. -/
theorem malformed_key_iff (source? : Option InfoSource) :
    (∀ key,
      ((diff desired.flatten current.flatten defaults options).changes.compile source?).1 =
          .error (.malformedKey key) ↔
        ∃ change, (key, change) ∈ reached source?
            (rearrange (diff desired.flatten current.flatten defaults options).changes) ∧
          ((parse key).isInTlsContext || (parse key).isSinkType) = true) ∧
      ∀ key change,
        (diff desired.flatten current.flatten defaults options).changes.find? key = some change →
          ((parse key).isInTlsContext || (parse key).isSinkType) = true →
            ∃ cause, ((diff desired.flatten current.flatten defaults options).changes.compile
              source?).1 = .error cause := by
  constructor
  · intro key
    rw [compile_eq_error_iff]
    simp only [commandsAlone_eq_malformed]
    constructor
    · rintro ⟨⟨key', change⟩, hreached, rfl, haddress⟩
      have hchange := Dict.mem_entries.1 (mem_rearrange.1 (mem_of_mem_reached hreached)).1
      rw [isAddressable_of_change hd hdw hc hcw defaults options hchange,
        Bool.not_eq_false'] at haddress
      exact ⟨change, hreached, haddress⟩
    · rintro ⟨change, hreached, hkey⟩
      have hchange := Dict.mem_entries.1 (mem_rearrange.1 (mem_of_mem_reached hreached)).1
      refine ⟨(key, change), hreached, rfl, ?_⟩
      rw [isAddressable_of_change hd hdw hc hcw defaults options hchange, hkey]
      rfl
  · intro key change hchange hkey
    have haddress := isAddressable_of_change hd hdw hc hcw defaults options hchange
    rw [hkey, Bool.not_true] at haddress
    have hmem : (key, change) ∈
        rearrange (diff desired.flatten current.flatten defaults options).changes := by
      refine mem_rearrange.2 ⟨Dict.mem_entries.2 hchange, ?_⟩
      rw [phase?, placeOf_eq_outside hkey]
      rfl
    exact exists_error_of_refused hmem ⟨_, commandsAlone_eq_malformed.2 ⟨rfl, haddress⟩⟩

end Comparison

/-- A new TLS context has a malformed key. -/
theorem malformed_key_of_tls_context :
    let desired : Tree := [("network", .nested [("tls", .repeated [[("name", .text "t1")]])])]
    let current : Tree := []
    (desired.isSound = true ∧ desired.isWellSectioned = true) ∧
      (current.isSound = true ∧ current.isWellSectioned = true) ∧
        ((diff desired.flatten current.flatten .empty {}).changes.compile none).1 =
          .error (.malformedKey "network.tls.\x7bt1\x7d.name") := by
  decide +kernel

/-- Of all contexts only the TLS context has a malformed key. -/
theorem malformed_key_of_all_contexts :
    let desired : Tree := [
      ("logging", .repeated [[("name", .text "console"), ("any", .text "info")]]),
      ("namespaces", .repeated [[("name", .text "a"), ("default-ttl", .scalar (.uint 60)),
        ("storage-engine", .text "memory"), ("sets", .repeated [[("name", .text "s"),
          ("disable-eviction", .scalar (.bool true))]])]]),
      ("network", .nested [("service", .nested [("port", .scalar (.uint 3000))]),
        ("tls", .repeated [[("name", .text "t1"), ("cert-file", .text "c")]])]),
      ("service", .nested [("proto-fd-max", .scalar (.uint 15000))]),
      ("xdr", .nested [("src-id", .scalar (.uint 1)), ("dcs", .repeated [[("name", .text "d"),
        ("namespaces", .repeated [[("name", .text "a"), ("bin-policy", .text "all")]])]])])]
    ∃ change, ("network.tls.\x7bt1\x7d.cert-file", change) ∈ reached none
      (rearrange (diff desired.flatten (Tree.flatten []) .empty {}).changes) := by
  intro desired
  have hcompile : ((diff desired.flatten (Tree.flatten []) .empty {}).changes.compile none).1 =
      .error (.malformedKey "network.tls.\x7bt1\x7d.cert-file") := by decide +kernel
  obtain ⟨change, hreached, -⟩ := ((malformed_key_iff (by decide) (by decide) (by decide)
    (by decide) .empty {} none).1 _).1 hcompile
  exact ⟨change, hreached⟩

end Reconfig
