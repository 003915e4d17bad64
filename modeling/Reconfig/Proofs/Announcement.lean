import Reconfig.Proofs.Addressing
import Reconfig.Proofs.Removal

/-!
# The announcement of instances

A change that adds or removes a single text stands for an instance that comes or goes. The node is
told of a destination and of an attached namespace by a command of their own; namespaces, sets and
log sinks come and go with their fields, and need no command. The commands recognise an instance by
its name alone, while a comparison recognises it by its type as well.

* `SectionList`: the lists of sections whose instances commands address;
* `Path.isAddressable_identity`: no other list has instances that commands address;
* `eq_child_of_text`: where texts are added and removed;
* `SectionList.announcement`: the commands that tell of an instance that comes or goes;
* `commandsAlone_name`, `commandsAlone_type`: what is sent for it;
* **`announces_instance_iff`**: when the two are the same.
-/

namespace Reconfig

open Vocabulary (nameField typeField)
open Reconfig.Path (parse render)

/-! ## Lists of sections -/

/-- A list of sections whose instances commands address. -/
inductive SectionList where
  /-- The namespaces. -/
  | namespaces
  /-- The sets of a namespace. -/
  | sets (ns : String)
  /-- The log sinks. -/
  | sinks
  /-- The destinations of replication. -/
  | destinations
  /-- The namespaces attached to a destination. -/
  | attachments (dc : String)
  deriving DecidableEq, Repr

/-- The path of a list of sections. -/
def SectionList.path : SectionList → Path
  | .namespaces => [.field "namespaces"]
  | .sets ns => [.field "namespaces", .selector ns, .field "sets"]
  | .sinks => [.field "logging"]
  | .destinations => [.field xdrContext, .field "dcs"]
  | .attachments dc => (destinationPath dc).child "namespaces"

theorem areFields_instance (list : List Segment) (id f : String) :
    areFields (list ++ [.selector id, .field f]) = false := by
  simp [areFields, Segment.field?]

namespace Path

theorem isFieldBelow_instance {name : String} {list : Path} {id f : String}
    (h : isFieldBelow name (list ++ [.selector id, .field f]) = true) :
    list = [.field name] := by
  unfold isFieldBelow at h
  split at h
  · rename_i name' id' rest heq
    rw [Bool.and_eq_true, beq_iff_eq] at h
    obtain ⟨rfl, hfields⟩ := h
    rcases list with _ | ⟨s, _ | ⟨s', more⟩⟩
    · cases heq
    · cases heq
      rfl
    · obtain ⟨-, -, rfl⟩ : s = .field name' ∧ s' = .selector id' ∧ rest = _ := by
        simpa [eq_comm] using heq
      rw [areFields_instance] at hfields
      cases hfields
  · rw [areFields_instance] at h
    cases h

/-- **The identities of other lists are addressed by no command.** -/
theorem isAddressable_identity {list : Path} {id f : String}
    (h : isAddressable (list ++ [.selector id, .field f]) = true) :
    ∃ s : SectionList, list = s.path := by
  rcases list with _ | ⟨s, rest⟩
  · cases h
  cases s with
  | selector id' => cases h
  | field context =>
    rw [List.cons_append, isAddressable] at h
    split_ifs at h with hns hlogging hxdr
    · subst hns
      rcases rest with _ | ⟨s, more⟩
      · exact ⟨.namespaces, rfl⟩
      · cases s with
        | field name => cases h
        | selector ns =>
          rw [isFieldBelow_instance h]
          exact ⟨.sets ns, rfl⟩
    · subst hlogging
      rcases rest with _ | ⟨s, _ | ⟨s', _ | ⟨s'', more⟩⟩⟩
      · exact ⟨.sinks, rfl⟩
      -- A longer list leaves more than a selector and a field below the context.
      · cases s <;> cases h
      · cases s <;> cases s' <;> cases h
      · cases s <;> cases s' <;> cases h
    · subst hxdr
      unfold isReplicationField at h
      split at h
      · rename_i name dc more heq
        rw [Bool.and_eq_true, beq_iff_eq] at h
        obtain ⟨rfl, hbelow⟩ := h
        rcases rest with _ | ⟨s, _ | ⟨s', rest⟩⟩
        · cases heq
        · cases heq
          exact ⟨.destinations, rfl⟩
        · obtain ⟨rfl, rfl, rfl⟩ : s = .field "dcs" ∧ s' = .selector dc ∧ more = _ := by
            simpa [eq_comm] using heq
          rw [isFieldBelow_instance hbelow]
          exact ⟨.attachments dc, rfl⟩
      · rw [areFields_instance] at h
        cases h
    · rw [areFields_instance] at h
      cases h

end Path

/-! ## Texts that are added and removed -/

/-- The change adds or removes a single text. -/
def Change.Announces (change : Change) (t : String) : Prop :=
  change.value? .add = some (.text t) ∨ change.value? .remove = some (.text t)

theorem not_announces_update (v : Value) (t : String) : ¬ (Change.update v).Announces t := by
  rintro (h | h) <;> cases h

theorem not_announces_ofLists {added removed : List String} {change : Change}
    (h : Change.ofLists? added removed = some change) (t : String) : ¬ change.Announces t := by
  cases added <;> cases removed <;> cases h <;> rintro (h | h) <;> cases h

theorem not_announces_changeTo {v w : Value} {change : Change} (h : v.changeTo? w = some change)
    (t : String) : ¬ change.Announces t := by
  rcases changeTo?_eq_some h with ⟨added, removed, hlists⟩ | rfl
  · exact not_announces_ofLists hlists t
  · exact not_announces_update v t

theorem not_announces_newChange {v : Value} {change : Change} (h : v.newChange? = some change)
    (t : String) : ¬ change.Announces t := by
  unfold Value.newChange? at h
  split at h
  · split_ifs at h
    cases h
    rintro (h | h) <;> cases h
  · cases h
  · cases h
    exact not_announces_update _ t

theorem Comparison.not_announces_resetOutcome {c : Comparison} {path : Path} {w : Value}
    {change : Change} (h : (c.resetOutcome path w).change? = some change) (t : String) :
    ¬ change.Announces t := by
  rcases resetOutcome_eq_some h with ⟨items, rfl, rfl⟩ | ⟨d, -, rfl⟩
  · rintro (h | h) <;> cases h
  · exact not_announces_update d t

theorem eq_child_of_identityAt? {path : Path} {v : Value} {t : String}
    (h : identityAt? path v = some t) : path.isIdentity = true ∧
      ∃ list f, (f = nameField ∨ f = typeField) ∧ path = (Path.select list t).child f := by
  have hid : path.isIdentity = true := by
    unfold identityAt? at h
    split_ifs at h with hid
    exact hid
  have hne : path ≠ [] := by
    rintro rfl
    cases hid
  have hparent : path.parent? = some path.dropLast := by
    rw [Path.parent?, List.isEmpty_eq_false_iff.2 hne]
    rfl
  obtain ⟨f, hf, hpath⟩ := exists_field_of_identityAt? hparent h
  refine ⟨hid, path.dropLast.dropLast, f, hf, ?_⟩
  rw [identityAt?, if_pos hid] at h
  split at h
  · rename_i id t' hlast htext
    obtain ⟨rfl, heq⟩ := Option.ite_none_right_eq_some.1 h
    cases heq
    have hselect : path.dropLast = Path.select path.dropLast.dropLast t :=
      (List.dropLast_append_getLast? _ hlast).symm
    rw [← hselect]
    exact hpath
  · cases h

namespace Comparison

variable {c : Comparison} {key : String} {change : Change} {t : String}

theorem eq_of_desiredChange? {v : Value} (h : c.desiredChange? key v = some change)
    (ht : change.Announces t) :
    change = .add (.text t) ∧ identityAt? (parse key) v = some t := by
  unfold desiredChange? at h
  simp only at h
  split_ifs at h
  split at h
  · exact absurd ht (not_announces_changeTo h t)
  · split at h
    · split_ifs at h
      · exact absurd ht (not_announces_newChange h t)
      · split at h
        · rename_i id hid
          cases h
          obtain h | h := ht <;> cases h
          exact ⟨rfl, hid⟩
        · exact absurd ht (not_announces_newChange h t)
    · exact absurd ht (not_announces_newChange h t)

theorem eq_of_removalAt {path p : Path} {w : Value} (h : removalAt path p w = some change)
    (ht : change.Announces t) :
    change = .remove (.text t) ∧ identityAt? path w = some t := by
  obtain ⟨-, h⟩ := Option.ite_none_right_eq_some.1 h
  obtain ⟨id, hid, rfl⟩ := Option.map_eq_some_iff.1 h
  obtain h | h := ht <;> cases h
  exact ⟨rfl, hid⟩

/-- **A single text is added or removed only as the identity of an instance**, at the name or at
the type of it. -/
theorem eq_child_of_text (h : c.report.changes.find? key = some change)
    (ht : change.Announces t) :
    (change = .add (.text t) ∨ change = .remove (.text t)) ∧ (parse key).isIdentity = true ∧
      ∃ list f, (f = nameField ∨ f = typeField) ∧ parse key = (Path.select list t).child f := by
  cases hdesired : c.desired.find? key with
  | some v =>
    rw [find?_report_of_desired hdesired] at h
    obtain ⟨hchange, hid⟩ := eq_of_desiredChange? h ht
    exact ⟨.inl hchange, eq_child_of_identityAt? hid⟩
  | none =>
    rw [find?_report_of_not_desired hdesired] at h
    obtain ⟨w, -, h⟩ := Option.bind_eq_some_iff.1 h
    cases hx : isExcluded c.options (parse key) with
    | true =>
      rw [currentOutcome_of_excluded _ hx] at h
      cases h
    | false =>
      rw [currentOutcome_eq hdesired hx] at h
      split at h
      · exact absurd ht (not_announces_resetOutcome h t)
      · rw [removedOutcome_eq, outcomeAround] at h
        rcases Option.or_eq_some_iff.1 h with h | ⟨-, h⟩
        · split_ifs at h
          · exact absurd ht (not_announces_resetOutcome h t)
          · cases h
        · obtain ⟨hchange, hid⟩ := eq_of_removalAt h ht
          exact ⟨.inr hchange, eq_child_of_identityAt? hid⟩

end Comparison

/-! ## What is sent -/

namespace SectionList

/-- The beginning of the commands that set a field of an instance. Log sinks are addressed by
numbers that the node is asked for. -/
def base (source? : Option InfoSource) (id : String) : SectionList → Except CompileError String
  | .namespaces => .ok (setConfig "namespace" ++ ";id=" ++ id)
  | .sets ns => .ok (setConfig "namespace" ++ ";id=" ++ ns ++ ";set=" ++ id)
  | .sinks =>
    match (Enquiry.start source?).listing.1 with
    | .error cause => .error cause
    | .ok listed =>
      match sinkId? listed (nodeSinkName id) with
      | some number => .ok ("log-set:id=" ++ number)
      | none => .error (.unknownLogSink (nodeSinkName id))
  | .destinations => .ok (setConfig xdrContext ++ ";dc=" ++ id)
  | .attachments dc => .ok (setConfig xdrContext ++ ";dc=" ++ dc ++ ";namespace=" ++ id)

/-- The instances come and go without a command of their own. -/
def isSilent : SectionList → Bool
  | .namespaces | .sets _ | .sinks => true
  | .destinations | .attachments _ => false

/-- **The commands that tell of an instance** that comes or goes. -/
def announcement (id : String) (comes : Bool) : SectionList → List String
  | .namespaces | .sets _ | .sinks => []
  | .destinations => [setConfig xdrContext ++ ";dc=" ++ id ++ ";action=" ++
      (if comes then "create" else "delete")]
  | .attachments dc => [setConfig xdrContext ++ ";dc=" ++ dc ++ ";namespace=" ++ id ++ ";action=" ++
      (if comes then "add" else "remove")]

end SectionList

section Sent

variable (source? : Option InfoSource) {key id t : String} {change : Change}
  (hchange : change = .add (.text t) ∨ change = .remove (.text t)) (s : SectionList)

include hchange

theorem assignments_text (base field : String) : assignments base field key change =
    .ok (if change.has .add then [base ++ ";" ++ field ++ "=" ++ t] else []) := by
  rcases hchange with rfl | rfl <;> rfl

/-- **At the name of an instance its announcement is sent.** -/
theorem commandsAlone_name (hkey : parse key = (s.path.select id).child nameField) :
    commandsAlone source? key change = .ok (s.announcement id (change.has .add)) := by
  rw [commandsAlone, commandsFor, hkey]
  cases s with
  | namespaces | sets ns | sinks => rfl
  | destinations | attachments dc => rcases hchange with rfl | rfl <;> rfl

/-- **At the type of an instance the type is set**, and nothing is sent for a removal. -/
theorem commandsAlone_type (hkey : parse key = (s.path.select id).child typeField) :
    commandsAlone source? key change = (s.base source? id).map fun base =>
      if change.has .add then [base ++ ";" ++ typeField ++ "=" ++ t] else [] := by
  rw [commandsAlone, commandsFor, hkey]
  cases s with
  | namespaces | sets ns | destinations | attachments dc => exact assignments_text hchange _ _
  | sinks =>
    rw [SectionList.base]
    change (loggingCommands (.start source?) key change [.selector id, .field typeField]).1 = _
    rw [loggingCommands, if_neg (by decide)]
    cases hlisting : (Enquiry.start source?).listing with
    | mk answer e =>
      cases answer with
      | error cause => rfl
      | ok sinks =>
        dsimp only [sinkCommands]
        cases sinkId? sinks (nodeSinkName id) with
        | none => rfl
        | some number => exact assignments_text hchange _ _

omit hchange in
theorem action_ne_assignment (base word t : String) :
    base ++ ";action=" ++ word ≠ base ++ ";" ++ typeField ++ "=" ++ t := by
  intro h
  have hl := congrArg String.toList h
  simp [typeField] at hl

theorem type_announces_iff :
    ((s.base source? id).map fun base =>
        if change.has .add then [base ++ ";" ++ typeField ++ "=" ++ t] else []) =
      .ok (s.announcement id (change.has .add)) ↔
    s.isSilent = true ∧ change = .remove (.text t) ∧ ∃ base, s.base source? id = .ok base := by
  cases hbase : s.base source? id with
  | error cause => simp [Except.map]
  | ok base =>
    cases s with
    | namespaces | sets ns | sinks =>
      rcases hchange with rfl | rfl <;>
        simp [Except.map, Change.has, Change.value?, SectionList.announcement, SectionList.isSilent]
    | destinations | attachments dc =>
      cases hbase
      rcases hchange with rfl | rfl
      · simp only [Except.map, SectionList.announcement, SectionList.isSilent, Except.ok.injEq]
        simp [Change.has, Change.value?, (action_ne_assignment _ _ _).symm]
      · simp [Except.map, Change.has, Change.value?, SectionList.announcement,
          SectionList.isSilent]

end Sent

/-- **The commands for an instance that comes or goes tell of it if and only if it has a name**, or
it goes and needs no command. A single text is added or removed as the identity of an instance
alone, and that is one of the instance's selector, at its name or at its type. In a list that
commands do not address the key is malformed. In the others the name sends the announcement of the
instance; the type is set as any field, so that it makes no difference only where an instance that
needs no command goes. -/
theorem announces_instance_iff {desired current : FlatConfig} {defaults : Dict Value}
    {options : DiffOptions} (source? : Option InfoSource) {key t : String} {change : Change}
    (h : (diff desired current defaults options).changes.find? key = some change)
    (ht : change.Announces t) :
    (change = .add (.text t) ∨ change = .remove (.text t)) ∧ (parse key).isIdentity = true ∧
      ∃ list f, (f = nameField ∨ f = typeField) ∧ parse key = (Path.select list t).child f ∧
        ((∀ s : SectionList, list ≠ s.path) →
          commandsAlone source? key change = .error (.malformedKey key)) ∧
        ∀ s : SectionList, list = s.path →
          (commandsAlone source? key change = .ok (s.announcement t (change.has .add)) ↔
            f = nameField ∨ (s.isSilent = true ∧ change = .remove (.text t) ∧
              ∃ base, s.base source? t = .ok base)) ∧
          (f = typeField → commandsAlone source? key change = (s.base source? t).map fun base =>
            if change.has .add then [base ++ ";" ++ typeField ++ "=" ++ t] else []) := by
  obtain ⟨hchange, hid, list, f, hf, hkey⟩ := Comparison.eq_child_of_text h ht
  refine ⟨hchange, hid, list, f, hf, hkey, fun hother => ?_, ?_⟩
  · rw [commandsAlone_eq_malformed]
    refine ⟨rfl, Bool.eq_false_iff.2 fun haddressed => ?_⟩
    rw [hkey, Path.select_child] at haddressed
    obtain ⟨s, hs⟩ := Path.isAddressable_identity haddressed
    exact hother s hs
  · rintro s rfl
    rcases hf with rfl | rfl
    · have hname := commandsAlone_name source? hchange s hkey
      exact ⟨⟨fun _ => .inl rfl, fun _ => hname⟩, fun heq => absurd heq (by decide)⟩
    · have htype := commandsAlone_type source? hchange s hkey
      refine ⟨?_, fun _ => htype⟩
      rw [htype, type_announces_iff source? hchange s]
      exact ⟨.inr, fun hor => hor.resolve_left (by decide)⟩

/-- A destination that is known by its type is not created. -/
theorem not_announced_of_type :
    let desired : Tree := [("xdr", .nested [("dcs", .repeated [[("type", .text "x")]])])]
    let key := "xdr.dcs.\x7bx\x7d.type"
    (diff desired.flatten .empty .empty {}).changes.find? key = some (.add (.text "x")) ∧
      SectionList.destinations.announcement "x" true =
        ["set-config:context=xdr;dc=x;action=create"] ∧
      commandsAlone none key (.add (.text "x")) ≠
        .ok (SectionList.destinations.announcement "x" true) ∧
      commandsAlone none key (.add (.text "x")) = .ok ["set-config:context=xdr;dc=x;type=x"] := by
  intro desired key
  have hchange : (diff desired.flatten .empty .empty {}).changes.find? key =
      some (.add (.text "x")) := rfl
  obtain ⟨-, -, list, f, -, hkey, -, hsent⟩ :=
    announces_instance_iff none (t := "x") hchange (.inl rfl)
  have hparse : parse key = SectionList.destinations.path ++ [.selector "x", .field typeField] := by
    decide +kernel
  rw [hparse, Path.select_child] at hkey
  obtain ⟨rfl, hfields⟩ := List.append_inj' hkey rfl
  obtain rfl : typeField = f := by simpa using hfields
  obtain ⟨hiff, htype⟩ := hsent .destinations rfl
  refine ⟨hchange, by decide, fun h => ?_, htype rfl⟩
  rcases hiff.1 h with heq | ⟨hsilent, -⟩
  · exact absurd heq (by decide)
  · cases hsilent

end Reconfig
