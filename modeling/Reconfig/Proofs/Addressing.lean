import Reconfig.Proofs.Batch
import Reconfig.Proofs.Order

/-!
# The keys that commands can address

Each context has its own form of keys: fields alone, or fields below the instances that its commands
can select. A key of another form is refused as malformed, whatever its change is, and a key of this
form never is. A value without texts is refused at every key but the name of an instance.

* `Path.isAddressable`: the form of the keys of all contexts;
* `Compiled.Judges`, **`commandsAlone_eq_malformed`**: exactly the other keys are malformed;
* `Path.EndsInName`, **`exists_error_of_repeated`**: a list of sections has no commands.
-/

namespace Reconfig

open Vocabulary (nameField)
open Reconfig.Path (parse)

/-! ## The form of keys -/

/-- The segments are fields, at least one. -/
def areFields (segments : List Segment) : Bool :=
  !segments.isEmpty && segments.all fun s => s.field?.isSome

namespace Path

/-- A field, or a field of an instance in the list of that name. -/
def isFieldBelow (list : String) : Path → Bool
  | .field name :: .selector _ :: rest => name == list && areFields rest
  | rest => areFields rest

/-- In the context of namespaces, a field of a namespace or of one of its sets. -/
def isNamespaceField : Path → Bool
  | .selector _ :: rest => isFieldBelow "sets" rest
  | _ => false

/-- In the context of replication, a field of it, of a destination, or of a namespace of one. -/
def isReplicationField : Path → Bool
  | .field list :: .selector _ :: rest => list == "dcs" && isFieldBelow "namespaces" rest
  | rest => areFields rest

/-- In the context of logging, a direct field of a sink. -/
def isSinkField : Path → Bool
  | [.selector _, .field _] => true
  | _ => false

/-- **The path has the form that the commands of its context can address.** -/
def isAddressable : Path → Bool
  | .field context :: rest =>
    if context = "namespaces" then isNamespaceField rest
    else if context = "logging" then isSinkField rest
    else if context = xdrContext then isReplicationField rest
    else areFields rest
  | _ => false

end Path

/-! ## Malformed keys -/

/-- A key that is not accepted is refused as malformed, and one that is accepted never is. -/
def Compiled.Judges (r : Compiled) (key : String) (accepted : Bool) : Prop :=
  if accepted then ∀ k, r ≠ .error (.malformedKey k) else r = .error (.malformedKey key)

theorem isSome_mapM_field? (segments : List Segment) :
    (segments.mapM Segment.field?).isSome = segments.all fun s => s.field?.isSome := by
  induction segments with
  | nil => rfl
  | cons s rest ih =>
    rw [List.mapM_cons, List.all_cons, ← ih]
    cases s.field? <;> cases rest.mapM Segment.field? <;> rfl

theorem commandsOf_ne_malformed (key : String) (command : Operation → String → Option String)
    (operations : List (Operation × Value)) (k : String) :
    commandsOf key command operations ≠ .error (.malformedKey k) := by
  induction operations with
  | nil => nofun
  | cons e rest ih =>
    obtain ⟨op, v⟩ := e
    rw [commandsOf]
    split
    · rename_i cause hv
      intro h
      cases h
      cases v <;> cases hv
    · split
      · rename_i cause hrest
        intro h
        cases h
        exact ih hrest
      · nofun

theorem listing_ne_malformed (e : Enquiry) (k : String) :
    e.listing.1 ≠ .error (.malformedKey k) := by
  unfold Enquiry.listing
  split
  · nofun
  · split
    · nofun
    · dsimp only
      split <;> nofun

section Judged

variable (key : String) (change : Change)

theorem judges_assignments (base field : String) :
    (assignments base field key change).Judges key true := commandsOf_ne_malformed key _ _

theorem judges_ofFieldNames (segments : List Segment) {f : List String → Compiled}
    (h : ∀ names, (f names).Judges key true) :
    Compiled.Judges (match fieldNames key segments with
      | .error e => .error e
      | .ok names => f names) key (areFields segments) := by
  rw [areFields, ← isSome_mapM_field?, fieldNames]
  cases hempty : segments.isEmpty with
  | true => rfl
  | false =>
    cases hnames : segments.mapM Segment.field? with
    | none => rfl
    | some names => exact h names

/-! ### Namespaces -/

theorem judges_namespaceCommands (base : String) (rest : List Segment) :
    (namespaceCommands key change base rest).Judges key (areFields rest) := by
  refine judges_ofFieldNames key rest fun names => ?_
  split_ifs
  · nofun
  · exact judges_assignments key change _ _

theorem judges_namespacesCommands : ∀ segments : List Segment,
    (namespacesCommands key change segments).Judges key (Path.isNamespaceField segments)
  | [] | .field _ :: _ => rfl
  | .selector ns :: .field list :: .selector set :: more => by
    rw [namespacesCommands, Path.isNamespaceField, Path.isFieldBelow]
    split_ifs with hlist
    · rw [hlist]
      exact judges_namespaceCommands key change _ more
    · -- a selector stands among the segments, so they are not fields alone
      have hsets : (list == "sets") = false := beq_eq_false_iff_ne.2 hlist
      rw [hsets]
      exact judges_namespaceCommands key change _ (.field list :: .selector set :: more)
  | [.selector ns] => judges_namespaceCommands key change (setConfig "namespace" ++ ";id=" ++ ns) []
  | .selector ns :: .selector id :: more =>
    judges_namespaceCommands key change (setConfig "namespace" ++ ";id=" ++ ns)
      (.selector id :: more)
  | [.selector ns, .field f] =>
    judges_namespaceCommands key change (setConfig "namespace" ++ ";id=" ++ ns) [.field f]
  | .selector ns :: .field f :: .field g :: more =>
    judges_namespaceCommands key change (setConfig "namespace" ++ ";id=" ++ ns)
      (.field f :: .field g :: more)

/-! ### Replication -/

theorem judges_singularAssignments (base : String) (segments : List Segment) :
    (singularAssignments base key change segments).Judges key (areFields segments) :=
  judges_ofFieldNames key segments fun _ => judges_assignments key change _ _

theorem ReplicationPlace.of_below (dc : String) (rest : Path) :
    of (.field xdrContext :: .field "dcs" :: .selector dc :: rest) = below dc rest := rfl

theorem judges_destination (dc : String) : ∀ rest : List Segment,
    (replicationCommands key change
      (.field xdrContext :: .field "dcs" :: .selector dc :: rest)).Judges key
        (Path.isFieldBelow "namespaces" rest)
  | [.field f] => by
    rw [replicationCommands, ReplicationPlace.of_below, ReplicationPlace.below]
    split_ifs with hname
    · nofun
    · dsimp only
      split_ifs
      · exact commandsOf_ne_malformed key _ _
      · exact judges_singularAssignments key change _ [.field f]
  | .field list :: .selector ns :: more => by
    rw [replicationCommands, ReplicationPlace.of_below, ReplicationPlace.below, Path.isFieldBelow]
    split_ifs with hlist hname
    · rw [hlist, hname]
      nofun
    · rw [hlist]
      exact judges_singularAssignments key change _ more
    · have hnamespaces : (list == "namespaces") = false := beq_eq_false_iff_ne.2 hlist
      rw [hnamespaces]
      exact judges_singularAssignments key change _ (.field list :: .selector ns :: more)
  | [] | .selector _ :: _ | .field _ :: .field _ :: _ =>
    judges_singularAssignments key change (setConfig xdrContext ++ ";dc=" ++ dc) _

theorem judges_replicationCommands : ∀ rest : List Segment,
    (replicationCommands key change (.field xdrContext :: rest)).Judges key
      (Path.isReplicationField rest)
  | .field list :: .selector dc :: more => by
    rw [Path.isReplicationField]
    by_cases hlist : list = "dcs"
    · rw [hlist]
      exact judges_destination key change dc more
    · have hdcs : (list == "dcs") = false := beq_eq_false_iff_ne.2 hlist
      have hplace : ReplicationPlace.of (.field xdrContext :: .field list :: .selector dc :: more) =
          .root := if_neg hlist
      rw [hdcs, replicationCommands, hplace]
      exact judges_singularAssignments key change _ (.field list :: .selector dc :: more)
  | [] | .selector _ :: _ | [.field _] | .field _ :: .field _ :: _ =>
    judges_singularAssignments key change (setConfig xdrContext) _

/-! ### Log sinks -/

theorem judges_loggingCommands (e : Enquiry) : ∀ segments : List Segment,
    (loggingCommands e key change segments).1.Judges key (Path.isSinkField segments)
  | [.selector sink, .field field] => by
    rw [loggingCommands]
    split_ifs
    · intro k h
      cases h
    · split
      · rename_i cause e' hlisting
        intro k h
        cases h
        exact listing_ne_malformed e k (congrArg Prod.fst hlisting)
      · dsimp only [sinkCommands]
        split
        · exact judges_assignments key change _ _
        · intro k h
          cases h
  | [] | .field _ :: _ | [.selector _] | .selector _ :: .selector _ :: _
  | .selector _ :: .field _ :: _ :: _ => rfl

/-! ### All contexts -/

theorem judges_securityCommands (segments : List Segment) :
    (securityCommands key change segments).Judges key (areFields segments) := by
  refine judges_ofFieldNames key segments fun names => ?_
  dsimp only
  split_ifs
  · exact commandsOf_ne_malformed key _ _
  · exact judges_assignments key change _ _

theorem judges_commandsAlone (source? : Option InfoSource) :
    (commandsAlone source? key change).Judges key (parse key).isAddressable := by
  unfold commandsAlone commandsFor
  dsimp only
  generalize parse key = path
  cases path with
  | nil => rfl
  | cons s rest =>
    cases s with
    | selector id => rfl
    | field context =>
      dsimp only [Path.isAddressable]
      by_cases hns : context = "namespaces"
      · rw [if_pos hns, if_pos hns]
        exact judges_namespacesCommands key change rest
      rw [if_neg hns, if_neg hns]
      by_cases hsecurity : context = "security"
      · subst hsecurity
        exact judges_securityCommands key change rest
      rw [if_neg hsecurity]
      by_cases hlogging : context = "logging"
      · rw [if_pos hlogging, if_pos hlogging]
        exact judges_loggingCommands key change _ rest
      rw [if_neg hlogging, if_neg hlogging]
      by_cases hxdr : context = xdrContext
      · rw [if_pos hxdr, if_pos hxdr, hxdr]
        exact judges_replicationCommands key change rest
      rw [if_neg hxdr, if_neg hxdr]
      exact judges_ofFieldNames key _ fun _ => judges_assignments key change _ _

end Judged

/-- **A key is malformed if and only if no command can address it**, whatever its change is. -/
theorem commandsAlone_eq_malformed {source? : Option InfoSource} {key k : String}
    {change : Change} : commandsAlone source? key change = .error (.malformedKey k) ↔
      k = key ∧ (parse key).isAddressable = false := by
  have hjudges := judges_commandsAlone key change source?
  unfold Compiled.Judges at hjudges
  cases haccepted : (parse key).isAddressable with
  | true =>
    rw [haccepted, if_pos rfl] at hjudges
    simp [hjudges k]
  | false =>
    rw [haccepted, if_neg Bool.false_ne_true] at hjudges
    simp [hjudges, eq_comm]

/-! ## Values without texts -/

/-- The path is that of the name of an instance. -/
def Path.EndsInName (p : Path) : Prop := ∃ list id, p = list ++ [.selector id, .field nameField]

theorem Path.EndsInName.cons {p : Path} (h : p.EndsInName) (s : Segment) :
    EndsInName (s :: p) := by
  obtain ⟨list, id, rfl⟩ := h
  exact ⟨s :: list, id, rfl⟩

theorem mapM_field?_eq_some {segments : List Segment} {names : List String}
    (h : segments.mapM Segment.field? = some names) : segments = names.map .field := by
  induction segments generalizing names with
  | nil =>
    cases h
    rfl
  | cons s rest ih =>
    rw [List.mapM_cons] at h
    obtain ⟨name, hs, h⟩ := Option.bind_eq_some_iff.1 h
    obtain ⟨more, hrest, h⟩ := Option.bind_eq_some_iff.1 h
    cases h
    cases s with
    | field f =>
      cases hs
      rw [ih hrest]
      rfl
    | selector id => cases hs

theorem fieldNames_eq_ok {key : String} {segments : List Segment} {names : List String}
    (h : fieldNames key segments = .ok names) : segments = names.map .field := by
  unfold fieldNames at h
  split_ifs at h
  split at h
  · rename_i found hfound
    cases h
    exact mapM_field?_eq_some hfound
  · cases h

section Refused

variable (key : String) (sections : List Tree)

theorem refused_assignments (base field : String) :
    (assignments base field key (.update (.repeated sections))).IsRefused := ⟨_, rfl⟩

theorem refused_ofFieldNames {segments : List Segment} {f : List String → Compiled}
    (h : ∀ names, segments = names.map .field → (f names).IsRefused) :
    Compiled.IsRefused (match fieldNames key segments with
      | .error e => .error e
      | .ok names => f names) := by
  cases hnames : fieldNames key segments with
  | error cause => exact ⟨cause, rfl⟩
  | ok names => exact h names (fieldNames_eq_ok hnames)

theorem refused_namespaceCommands (base : String) (rest : List Segment)
    (h : rest ≠ [.field nameField]) :
    (namespaceCommands key (.update (.repeated sections)) base rest).IsRefused := by
  refine refused_ofFieldNames key fun names hnames => ?_
  rw [if_neg]
  · exact refused_assignments key sections _ _
  · rintro rfl
    exact h hnames

theorem refused_namespacesCommands : ∀ segments : List Segment, ¬ Path.EndsInName segments →
    (namespacesCommands key (.update (.repeated sections)) segments).IsRefused
  | [], _ | .field _ :: _, _ => ⟨_, rfl⟩
  | .selector ns :: .field list :: .selector set :: more, h => by
    rw [namespacesCommands]
    split_ifs
    · refine refused_namespaceCommands key sections _ more ?_
      rintro rfl
      exact h ⟨[.selector ns, .field list], set, rfl⟩
    · exact refused_namespaceCommands key sections _ (.field list :: .selector set :: more)
        (by simp)
  | [.selector ns], _ =>
    refused_namespaceCommands key sections (setConfig "namespace" ++ ";id=" ++ ns) [] (by simp)
  | .selector ns :: .selector id :: more, _ =>
    refused_namespaceCommands key sections (setConfig "namespace" ++ ";id=" ++ ns)
      (.selector id :: more) (by simp)
  | [.selector ns, .field f], h =>
    refused_namespaceCommands key sections (setConfig "namespace" ++ ";id=" ++ ns) [.field f]
      fun hname => h ⟨[], ns, congrArg (Segment.selector ns :: ·) hname⟩
  | .selector ns :: .field f :: .field g :: more, _ =>
    refused_namespaceCommands key sections (setConfig "namespace" ++ ";id=" ++ ns)
      (.field f :: .field g :: more) (by simp)

theorem refused_singularAssignments (base : String) (segments : List Segment) :
    (singularAssignments base key (.update (.repeated sections)) segments).IsRefused :=
  refused_ofFieldNames key fun _ _ => refused_assignments key sections _ _

theorem refused_replicationCommands {path : Path} (h : ¬ path.EndsInName) :
    (replicationCommands key (.update (.repeated sections)) path).IsRefused := by
  have hat := ReplicationPlace.of_isAt path
  rw [replicationCommands]
  cases hplace : ReplicationPlace.of path with
  | destination dc =>
    rw [hplace] at hat
    exact absurd ⟨[.field xdrContext, .field "dcs"], dc, hat⟩ h
  | namespaceOf dc ns =>
    rw [hplace] at hat
    refine absurd ⟨destinationPath dc ++ [.field "namespaces"], ns, ?_⟩ h
    rw [show path = (namespacePath dc ns).child nameField from hat]
    simp [namespacePath, Path.child]
  | destinationField dc field =>
    dsimp only
    split_ifs
    · exact ⟨_, rfl⟩
    · exact refused_singularAssignments key sections _ _
  | destinationNested dc => exact refused_singularAssignments key sections _ _
  | namespaceField dc ns => exact refused_singularAssignments key sections _ _
  | root => exact refused_singularAssignments key sections _ _
  | outside => exact ⟨_, rfl⟩

theorem refused_loggingCommands (e : Enquiry) {segments : List Segment}
    (h : ¬ Path.EndsInName segments) :
    (loggingCommands e key (.update (.repeated sections)) segments).1.IsRefused := by
  unfold loggingCommands
  split
  · rename_i sink field
    split_ifs with hname
    · rw [hname] at h
      exact absurd ⟨[], sink, rfl⟩ h
    · split
      · exact ⟨_, rfl⟩
      · dsimp only [sinkCommands]
        split
        · exact refused_assignments key sections _ _
        · exact ⟨_, rfl⟩
  · exact ⟨_, rfl⟩

/-- **A list of sections has no commands**, unless it stands at the name of an instance. -/
theorem exists_error_of_repeated (source? : Option InfoSource)
    (h : ¬ (parse key).EndsInName) :
    (commandsAlone source? key (.update (.repeated sections))).IsRefused := by
  unfold commandsAlone commandsFor
  dsimp only
  split
  · rename_i context rest hpath
    have hrest : ¬ Path.EndsInName rest := fun hends => h (by rw [hpath]; exact hends.cons _)
    split_ifs
    · exact refused_namespacesCommands key sections rest hrest
    · refine refused_ofFieldNames key fun _ _ => ?_
      dsimp only
      split_ifs
      · exact ⟨_, rfl⟩
      · exact refused_assignments key sections _ _
    · exact refused_loggingCommands key sections _ hrest
    · exact refused_replicationCommands key sections h
    · exact refused_ofFieldNames key fun _ _ => refused_assignments key sections _ _
  · exact ⟨_, rfl⟩

end Refused

end Reconfig
