import Reconfig.Proofs.Batch
import Reconfig.Proofs.Regular

/-!
# The order in which a node lists its sinks

A node lists its log sinks as a map from numbers to names, and the entries of a map come in no
particular order. A command addresses a number under which the node lists the name of its sink.
Where a name stands for two numbers it is the order that chooses between them, it may choose any,
and the commands hang on the order for this reason only.

* `IsRepeated`, `sinkId?_eq_none_of_perm`: the number of a name in any order;
* `IsChoice`, **`exists_perm_of_isChoice`**: every choice of numbers is that of some order;
* `sinkField?`, `commandsAlone_of_sinkField?`: the commands of a change to a log sink;
* `InfoSource.Enumerates`: a node that lists the sinks in some order;
* `commandsAlone_of_enumerates`: what the order can decide about one change;
* `error_iff_of_enumerates`: no order saves a set of changes from an error, or causes one;
* `ChangeSet.HangsOnOrder`: a set of changes whose commands address a name that is repeated;
* **`sink_order_free_iff`**: when the order makes no difference.
-/

namespace Reconfig

/-! ## Sinks in a listing -/

/-- The name is listed under two numbers. -/
def IsRepeated (sinks : List (String × String)) (name : String) : Prop :=
  ∃ id id', (id, name) ∈ sinks ∧ (id', name) ∈ sinks ∧ id ≠ id'

section Listing

variable {sinks sinks' : List (String × String)} {name id : String}

theorem mem_of_sinkId? (h : sinkId? sinks name = some id) : (id, name) ∈ sinks := by
  obtain ⟨⟨number, listed⟩, hmem, heq⟩ := List.mem_map.1 (Dict.mem_of_find?_ofList h)
  cases heq
  exact hmem

theorem sinkId?_eq_none : sinkId? sinks name = none ↔ ∀ id, (id, name) ∉ sinks := by
  constructor
  · intro h id hmem
    rw [sinkId?, sinkIds, Dict.find?_ofList, List.lookup_eq_none_iff] at h
    have hne := h (name, id) (List.mem_reverse.2 (List.mem_map.2 ⟨(id, name), hmem, rfl⟩))
    exact bne_iff_ne.1 hne rfl
  · intro h
    refine Dict.find?_ofList_eq_none fun e he => ?_
    obtain ⟨⟨id, listed⟩, hmem, rfl⟩ := List.mem_map.1 he
    rintro rfl
    exact h id hmem

theorem sinkId?_eq_none_of_perm (name : String) (h : sinks.Perm sinks') :
    sinkId? sinks name = none ↔ sinkId? sinks' name = none := by
  simp only [sinkId?_eq_none, h.mem_iff]

theorem exists_sinkId? (h : (id, name) ∈ sinks) : ∃ number, sinkId? sinks name = some number := by
  rw [← Option.ne_none_iff_exists']
  exact fun hnone => sinkId?_eq_none.1 hnone id h

theorem sinkId?_append (sinks sinks' : List (String × String)) (name : String) :
    sinkId? (sinks ++ sinks') name = (sinkId? sinks' name).or (sinkId? sinks name) := by
  rw [sinkId?, sinkIds, List.map_append, Dict.find?_ofList_append]
  rfl

end Listing

/-- One number for each name, among those under which the node lists it. -/
def IsChoice (sinks : List (String × String)) (pick : String → String) : Prop :=
  ∀ id name, (id, name) ∈ sinks → (pick name, name) ∈ sinks

/-- **Every choice of numbers is that of some order**: the one that leaves what is chosen to the
end. -/
theorem exists_perm_of_isChoice {sinks : List (String × String)} {pick : String → String}
    (h : IsChoice sinks pick) :
    ∃ l, l.Perm sinks ∧ ∀ name id, sinkId? l name = some id → id = pick name := by
  let chosen : String × String → Bool := fun e => e.1 == pick e.2
  let last := sinks.filter chosen
  have hperm : (sinks.filter (fun e => !chosen e) ++ last).Perm sinks :=
    List.perm_append_comm.trans (List.filter_append_perm chosen sinks)
  refine ⟨_, hperm, fun name id hid => ?_⟩
  have hpick : (pick name, name) ∈ last :=
    List.mem_filter.2 ⟨h id name (hperm.mem_iff.1 (mem_of_sinkId? hid)), beq_self_eq_true _⟩
  obtain ⟨number, hnumber⟩ := exists_sinkId? hpick
  rw [sinkId?_append, hnumber, Option.some_or] at hid
  cases hid
  exact beq_iff_eq.1 (List.mem_filter.1 (mem_of_sinkId? hnumber)).2

theorem exists_perm_sinkId? {sinks : List (String × String)} {name id : String}
    (h : (id, name) ∈ sinks) : ∃ l, l.Perm sinks ∧ sinkId? l name = some id := by
  have hchoice : IsChoice sinks
      (Function.update (fun listed => (sinkId? sinks listed).getD "") name id) := by
    intro number listed hmem
    by_cases heq : listed = name
    · subst heq
      rw [Function.update_self]
      exact h
    · obtain ⟨other, hother⟩ := exists_sinkId? hmem
      rw [Function.update_of_ne heq, hother]
      exact mem_of_sinkId? hother
  obtain ⟨l, hperm, hl⟩ := exists_perm_of_isChoice hchoice
  obtain ⟨number, hnumber⟩ := exists_sinkId? (hperm.mem_iff.2 h)
  have hpicked := hl name number hnumber
  rw [Function.update_self] at hpicked
  exact ⟨l, hperm, hpicked ▸ hnumber⟩

/-! ## Changes to a log sink -/

/-- The sink and the field that a key is about, if it is about a field of a log sink other than its
name. -/
def sinkField? (key : String) : Option (String × String) :=
  match Path.parse key with
  | [.field context, .selector sink, .field field] =>
    if context = "logging" ∧ field ≠ Vocabulary.nameField then some (sink, field) else none
  | _ => none

/-- The command that sets a field of the sink of a number. -/
def sinkCommand (id field text : String) : String :=
  "log-set:id=" ++ id ++ ";" ++ field ++ "=" ++ text

theorem sinkCommand_injective {id id' field text : String}
    (h : sinkCommand id field text = sinkCommand id' field text) : id = id' := by
  simpa only [sinkCommand, String.append_assoc, String.append_left_inj, String.append_right_inj]
    using h

/-- The texts that a change sets or adds. -/
def assignedTexts (key : String) (change : Change) : Compiled :=
  commandsOf key (fun op text => if op = .remove then none else some text) change.operations

theorem commandsOf_map (key : String) (command : Operation → String → Option String)
    (f : String → String) (operations : List (Operation × Value)) :
    commandsOf key (fun op text => (command op text).map f) operations =
      (commandsOf key command operations).map (List.map f) := by
  induction operations with
  | nil => rfl
  | cons e rest ih =>
    obtain ⟨op, v⟩ := e
    rw [commandsOf, commandsOf, ih]
    cases renderings key v with
    | error cause => rfl
    | ok texts =>
      cases commandsOf key command rest with
      | error cause => rfl
      | ok more => simp [Except.map, List.map_filterMap]

theorem assignments_sink (id field key : String) (change : Change) :
    assignments ("log-set:id=" ++ id) field key change =
      (assignedTexts key change).map (List.map (sinkCommand id field)) := by
  rw [assignedTexts, ← commandsOf_map, assignments]
  congr 1
  funext op text
  split_ifs <;> rfl

section Alone

variable {source : InfoSource} {sinks : List (String × String)} {key : String} (change : Change)

/-- **A change to a log sink** has commands to the number of its sink. -/
theorem commandsAlone_of_sinkField? (hsinks : source.ask logsCommand = .ok sinks)
    {sink field : String} (h : sinkField? key = some (sink, field)) :
    commandsAlone (some source) key change = match sinkId? sinks (nodeSinkName sink) with
      | some id => (assignedTexts key change).map (List.map (sinkCommand id field))
      | none => .error (.unknownLogSink (nodeSinkName sink)) := by
  rw [sinkField?] at h
  split at h
  · rename_i context sink' field' hpath
    obtain ⟨⟨rfl, hname⟩, heq⟩ := Option.ite_none_right_eq_some.1 h
    cases heq
    have halone : commandsAlone (some source) key change =
        sinkCommands key change sink field sinks := by
      simp [commandsAlone, commandsFor, hpath, loggingCommands, hname, Enquiry.listing,
        Enquiry.start, hsinks]
    rw [halone, sinkCommands]
    cases sinkId? sinks (nodeSinkName sink) with
    | none => rfl
    | some id => exact assignments_sink id field key change
  · cases h

theorem exists_texts_of_sinkField? (hsinks : source.ask logsCommand = .ok sinks)
    {sink field : String} (h : sinkField? key = some (sink, field)) {commands : List String}
    (hcommands : commandsAlone (some source) key change = .ok commands) :
    ∃ id texts, sinkId? sinks (nodeSinkName sink) = some id ∧
      assignedTexts key change = .ok texts ∧ commands = texts.map (sinkCommand id field) := by
  rw [commandsAlone_of_sinkField? change hsinks h] at hcommands
  cases hid : sinkId? sinks (nodeSinkName sink) with
  | none =>
    rw [hid] at hcommands
    cases hcommands
  | some id =>
    rw [hid] at hcommands
    obtain ⟨texts, htexts, rfl⟩ := exists_of_map_eq_ok hcommands
    exact ⟨id, texts, rfl, htexts, rfl⟩

theorem commandsAlone_of_sinkField?_eq_none (h : sinkField? key = none)
    (source? source?' : Option InfoSource) :
    commandsAlone source? key change = commandsAlone source?' key change := by
  rw [commandsAlone, commandsAlone, commandsFor, commandsFor]
  split
  · rename_i context rest hpath
    split_ifs with h1 h2 h3 h4
    · rfl
    · rfl
    · unfold loggingCommands
      split
      · rename_i sink field
        have hname : field = Vocabulary.nameField := by
          simpa [sinkField?, hpath, h3] using h
        rw [if_pos hname, if_pos hname]
      · rfl
    · rfl
    · rfl
  · rfl

end Alone

/-! ## Nodes that list the same sinks -/

/-- The node lists the sinks, in whatever order. -/
def InfoSource.Enumerates (source : InfoSource) (sinks : List (String × String)) : Prop :=
  ∃ l, source.ask logsCommand = .ok l ∧ l.Perm sinks

/-- A node that answers every command with the entries in the given order. -/
def InfoSource.inOrder (entries : List (String × String)) : InfoSource := ⟨fun _ => .ok entries⟩

/-- Fixed answers enumerate the same sinks in every order. -/
theorem InfoSource.Enumerates.ofResponses {responses : List (String × List (String × String))}
    {listed sinks : List (String × String)}
    (hlisted : responses.reverse.lookup logsCommand = some listed)
    (hsinks : InfoSource.distinct listed = sinks) (order : Enumeration) :
    (InfoSource.ofResponses order responses).Enumerates sinks := by
  refine ⟨order.arrange sinks, ?_, order.perm sinks⟩
  simp only [InfoSource.ofResponses, hlisted, hsinks]

/-- Entries come in the order opposite to that in which they are written down. -/
def Enumeration.reversed : Enumeration := ⟨List.reverse, List.reverse_perm⟩

section Enumerations

variable {sinks : List (String × String)} {source source' : InfoSource}
  (h : source.Enumerates sinks) (h' : source'.Enumerates sinks)

include h h'

/-- **What the order can decide about one change** is which number of a repeated name stands in its
commands. -/
theorem commandsAlone_of_enumerates (key : String) (change : Change) :
    commandsAlone (some source) key change = commandsAlone (some source') key change ∨
      ∃ sink field id id', ∃ texts : List String, sinkField? key = some (sink, field) ∧
        (id, nodeSinkName sink) ∈ sinks ∧ (id', nodeSinkName sink) ∈ sinks ∧ id ≠ id' ∧
        commandsAlone (some source) key change = .ok (texts.map (sinkCommand id field)) ∧
        commandsAlone (some source') key change = .ok (texts.map (sinkCommand id' field)) := by
  cases hsink : sinkField? key with
  | none => exact .inl (commandsAlone_of_sinkField?_eq_none change hsink _ _)
  | some place =>
    obtain ⟨sink, field⟩ := place
    obtain ⟨l, hl, hperm⟩ := h
    obtain ⟨l', hl', hperm'⟩ := h'
    have hknown := sinkId?_eq_none_of_perm (nodeSinkName sink) (hperm.trans hperm'.symm)
    rw [commandsAlone_of_sinkField? change hl hsink, commandsAlone_of_sinkField? change hl' hsink]
    cases hid : sinkId? l (nodeSinkName sink) with
    | none =>
      rw [hknown.1 hid]
      exact .inl rfl
    | some id =>
      cases hid' : sinkId? l' (nodeSinkName sink) with
      | none => exact nomatch hid.symm.trans (hknown.2 hid')
      | some id' =>
        by_cases heq : id = id'
        · exact .inl (heq ▸ rfl)
        · cases assignedTexts key change with
          | error cause => exact .inl rfl
          | ok texts =>
            exact .inr ⟨sink, field, id, id', texts, rfl, hperm.mem_iff.1 (mem_of_sinkId? hid),
              hperm'.mem_iff.1 (mem_of_sinkId? hid'), heq, rfl, rfl⟩

/-- **A change is refused in every order or in none**, and for the same reason. -/
theorem error_iff_of_enumerates (key : String) (change : Change) (cause : CompileError) :
    commandsAlone (some source) key change = .error cause ↔
      commandsAlone (some source') key change = .error cause := by
  rcases commandsAlone_of_enumerates h h' key change with
    heq | ⟨_, _, _, _, _, -, -, -, -, hok, hok'⟩
  · rw [heq]
  · rw [hok, hok']
    exact iff_of_false nofun nofun

theorem exists_ok_of_enumerates {key : String} {change : Change} {commands : List String}
    (hok : commandsAlone (some source) key change = .ok commands) :
    ∃ commands', commandsAlone (some source') key change = .ok commands' := by
  cases halone : commandsAlone (some source') key change with
  | ok commands' => exact ⟨commands', rfl⟩
  | error cause =>
    exact nomatch hok.symm.trans ((error_iff_of_enumerates h h' key change cause).2 halone)

/-- **A change has the same commands in every order**, unless there are some and they are to a name
that is repeated. -/
theorem commandsAlone_eq_or (key : String) (change : Change) :
    commandsAlone (some source) key change = commandsAlone (some source') key change ∨
      commandsAlone (some source) key change ≠ .ok [] ∧
        ∃ sink field, sinkField? key = some (sink, field) ∧
          IsRepeated sinks (nodeSinkName sink) := by
  rcases commandsAlone_of_enumerates h h' key change with
    heq | ⟨sink, field, id, id', texts, hsink, hid, hid', hne, hok, hok'⟩
  · exact .inl heq
  · rw [hok, hok']
    cases texts with
    | nil => exact .inl rfl
    | cons text rest => exact .inr ⟨nofun, sink, field, hsink, id, id', hid, hid', hne⟩

theorem length_of_enumerates {key : String} {change : Change} {commands commands' : List String}
    (hcommands : commandsAlone (some source) key change = .ok commands)
    (hcommands' : commandsAlone (some source') key change = .ok commands') :
    commands.length = commands'.length := by
  rcases commandsAlone_of_enumerates h h' key change with
    heq | ⟨_, _, _, _, texts, -, -, -, -, hok, hok'⟩
  · cases hcommands.symm.trans (heq.trans hcommands')
    rfl
  · cases hcommands.symm.trans hok
    cases hcommands'.symm.trans hok'
    rw [List.length_map, List.length_map]

theorem reached_of_enumerates (entries : List (String × Change)) :
    reached (some source) entries = reached (some source') entries := by
  induction entries with
  | nil => rfl
  | cons e rest ih =>
    obtain ⟨key, change⟩ := e
    rw [reached, reached]
    cases halone : commandsAlone (some source) key change with
    | error cause => rw [(error_iff_of_enumerates h h' key change cause).1 halone]
    | ok commands =>
      obtain ⟨commands', halone'⟩ := exists_ok_of_enumerates h h' halone
      rw [halone']
      exact congrArg ((key, change) :: ·) ih

theorem asked_of_enumerates (changes : ChangeSet) :
    (changes.compile (some source)).2 = (changes.compile (some source')).2 := by
  have hasked : ∀ s : InfoSource, (changes.compile (some s)).2 = (Enquiry.start (some s)).asked ++
      (Enquiry.start (some s)).question (anyNeedsSink (reached (some s) (rearrange changes))) :=
    fun s => asked_compileAll (Enquiry.start_isFaithful (some s)) (rearrange changes)
  rw [hasked, hasked, reached_of_enumerates h h']
  rfl

theorem compile_error_of_enumerates {changes : ChangeSet} {cause : CompileError}
    (hrefused : (changes.compile (some source)).1 = .error cause) :
    (changes.compile (some source')).1 = .error cause := by
  obtain ⟨e, he, halone⟩ := compile_eq_error_iff.1 hrefused
  rw [reached_of_enumerates h h'] at he
  exact compile_eq_error_iff.2 ⟨e, he, (error_iff_of_enumerates h h' e.1 e.2 cause).1 halone⟩

end Enumerations

/-! ## Sets of changes -/

theorem scriptOf_congr {source? source?' : Option InfoSource} {entries : List (String × Change)}
    (h : ∀ e ∈ entries, commandsAlone source? e.1 e.2 = commandsAlone source?' e.1 e.2) :
    scriptOf source? entries = scriptOf source?' entries := by
  induction entries with
  | nil => rfl
  | cons e rest ih =>
    rw [List.forall_mem_cons] at h
    rw [scriptOf, scriptOf, h.1, ih h.2]

theorem eq_map_of_forall₂ {α β ε : Type} {f : α → Except ε (List β)} {l : List α}
    {parts : List (List β)} (h : List.Forall₂ (fun a part => f a = .ok part) l parts) :
    (∀ a ∈ l, f a = .ok ((f a).toOption.getD [])) ∧
      parts = l.map fun a => (f a).toOption.getD [] := by
  induction h with
  | nil => exact ⟨nofun, rfl⟩
  | cons hpart _ ih =>
    rw [List.forall_mem_cons, List.map_cons, ← ih.2, hpart]
    exact ⟨⟨rfl, ih.1⟩, rfl⟩

theorem exists_parts {source? : Option InfoSource} {changes : ChangeSet} {commands : List String}
    (h : (changes.compile source?).1 = .ok commands) :
    ∃ part : String × Change → List String,
      (∀ e ∈ rearrange changes, commandsAlone source? e.1 e.2 = .ok (part e)) ∧
        commands = ((rearrange changes).map part).flatten := by
  rw [compile_eq_script, ChangeSet.script, scriptOf_eq_ok] at h
  obtain ⟨parts, hparts, rfl⟩ := h
  obtain ⟨hpart, hmap⟩ := eq_map_of_forall₂ hparts
  exact ⟨_, hpart, congrArg List.flatten hmap⟩

namespace ChangeSet

/-- The commands hang on the order in which a node lists the sinks: the changes have commands, and
some of them are to a name that is repeated. -/
def HangsOnOrder (changes : ChangeSet) (sinks : List (String × String)) : Prop :=
  ∃ source : InfoSource, source.Enumerates sinks ∧
    (∃ commands, (changes.compile (some source)).1 = .ok commands) ∧
      ∃ e ∈ rearrange changes, commandsAlone (some source) e.1 e.2 ≠ .ok [] ∧
        ∃ sink field, sinkField? e.1 = some (sink, field) ∧ IsRepeated sinks (nodeSinkName sink)

theorem compile_eq_of_not_hangsOnOrder {changes : ChangeSet} {sinks : List (String × String)}
    (hchanges : ¬ changes.HangsOnOrder sinks) {source source' : InfoSource}
    (h : source.Enumerates sinks) (h' : source'.Enumerates sinks) :
    changes.compile (some source) = changes.compile (some source') := by
  refine Prod.ext ?_ (asked_of_enumerates h h' changes)
  cases hresult : (changes.compile (some source)).1 with
  | error cause => exact (compile_error_of_enumerates h h' hresult).symm
  | ok commands =>
    have halone : ∀ e ∈ rearrange changes,
        commandsAlone (some source) e.1 e.2 = commandsAlone (some source') e.1 e.2 := by
      intro e he
      rcases commandsAlone_eq_or h h' e.1 e.2 with heq | hrepeated
      · exact heq
      · exact absurd ⟨source, h, ⟨commands, hresult⟩, e, he, hrepeated⟩ hchanges
    rw [← hresult, compile_eq_script, compile_eq_script, script, script, scriptOf_congr halone]

/-- **Commands that hang on the order** differ between two orders. -/
theorem HangsOnOrder.exists_ne {changes : ChangeSet} {sinks : List (String × String)}
    (h : changes.HangsOnOrder sinks) : ∃ source source' : InfoSource, source.Enumerates sinks ∧
      source'.Enumerates sinks ∧
        (changes.compile (some source)).1 ≠ (changes.compile (some source')).1 := by
  obtain ⟨source, hsource, ⟨commands, hresult⟩, e, he, hnonempty, sink, field, hsink, hname⟩ := h
  have ⟨l, hl, hperm⟩ := hsource
  obtain ⟨part, hpart, hcommands⟩ := exists_parts hresult
  obtain ⟨id, texts, hid, htexts, hadded⟩ := exists_texts_of_sinkField? e.2 hl hsink (hpart e he)
  -- one of the two numbers of the name is not the one that is chosen in this order
  obtain ⟨other, hother, hne⟩ : ∃ other, (other, nodeSinkName sink) ∈ sinks ∧ other ≠ id := by
    obtain ⟨id₁, id₂, h₁, h₂, hne⟩ := hname
    by_cases heq : id₁ = id
    · exact ⟨id₂, h₂, fun heq' => hne (heq.trans heq'.symm)⟩
    · exact ⟨id₁, h₁, heq⟩
  obtain ⟨l', hperm', hid'⟩ := exists_perm_sinkId? hother
  have hsource' : (InfoSource.inOrder l').Enumerates sinks := ⟨l', rfl, hperm'⟩
  refine ⟨source, .inOrder l', hsource, hsource', fun hsame => ?_⟩
  rw [hresult] at hsame
  obtain ⟨part', hpart', hcommands'⟩ := exists_parts hsame.symm
  have hlengths : ((rearrange changes).map part).map List.length =
      ((rearrange changes).map part').map List.length := by
    rw [List.map_map, List.map_map]
    exact List.map_congr_left fun e he =>
      length_of_enumerates hsource hsource' (hpart e he) (hpart' e he)
  have hparts := List.eq_iff_flatten_eq.2 ⟨hcommands.symm.trans hcommands', hlengths⟩
  obtain ⟨id', texts', hchosen, htexts', hadded'⟩ :=
    exists_texts_of_sinkField? e.2 rfl hsink (hpart' e he)
  cases htexts.symm.trans htexts'
  cases hid'.symm.trans hchosen
  rw [← List.map_inj_left.1 hparts e he, hadded] at hadded'
  cases texts with
  | nil =>
    rw [hpart e he, hadded] at hnonempty
    exact hnonempty rfl
  | cons text rest =>
    have hhead := (List.cons.inj hadded').1
    exact hne (sinkCommand_injective hhead).symm

end ChangeSet

/-! ## When the order makes no difference -/

theorem exists_sinkCommand_of_script {changes : ChangeSet} {source : InfoSource}
    {sinks : List (String × String)} (hsinks : source.ask logsCommand = .ok sinks)
    {script : List (String × String)} (hscript : changes.script (some source) = .ok script)
    {key command : String} (hmem : (key, command) ∈ script) {sink field : String}
    (hsink : sinkField? key = some (sink, field)) :
    ∃ id text, sinkId? sinks (nodeSinkName sink) = some id ∧
      command = sinkCommand id field text := by
  obtain ⟨change, part, -, halone, hcommand⟩ := (mem_scriptOf hscript).1 hmem
  obtain ⟨id, texts, hid, -, rfl⟩ := exists_texts_of_sinkField? change hsinks hsink halone
  obtain ⟨text, -, rfl⟩ := List.mem_map.1 hcommand
  exact ⟨id, text, hid, rfl⟩

/-- **The order in which a node lists its sinks makes no difference** to the commands of a set of
changes, their error and what the node is asked, unless some of the commands are to a sink whose
name is listed under two numbers. In every order a command to a sink addresses a number under which
the node lists its name. Nothing more can be said: for every choice of one such number for each
name there is an order in which the commands address just these. -/
theorem sink_order_free_iff (changes : ChangeSet) (sinks : List (String × String)) :
    ((∀ source source' : InfoSource, source.Enumerates sinks → source'.Enumerates sinks →
        changes.compile (some source) = changes.compile (some source')) ↔
      ¬ changes.HangsOnOrder sinks) ∧
    (∀ source : InfoSource, source.Enumerates sinks →
      ∀ commands, (changes.compile (some source)).1 = .ok commands →
        ∃ script, changes.script (some source) = .ok script ∧ commands = script.map Prod.snd ∧
          ∀ key command, (key, command) ∈ script →
            ∀ sink field, sinkField? key = some (sink, field) →
              ∃ id text, (id, nodeSinkName sink) ∈ sinks ∧
                command = sinkCommand id field text) ∧
    ∀ pick : String → String, IsChoice sinks pick →
      ∃ source : InfoSource, source.Enumerates sinks ∧
        ∀ commands, (changes.compile (some source)).1 = .ok commands →
          ∃ script, changes.script (some source) = .ok script ∧ commands = script.map Prod.snd ∧
            ∀ key command, (key, command) ∈ script →
              ∀ sink field, sinkField? key = some (sink, field) →
                ∃ text, command = sinkCommand (pick (nodeSinkName sink)) field text := by
  refine ⟨⟨fun hfree hhangs => ?_, fun h source source' => ?_⟩, ?_, fun pick hpick => ?_⟩
  · obtain ⟨source, source', h, h', hne⟩ := hhangs.exists_ne
    exact hne (congrArg Prod.fst (hfree source source' h h'))
  · exact ChangeSet.compile_eq_of_not_hangsOnOrder h
  · rintro source ⟨l, hl, hperm⟩ commands hresult
    rw [compile_eq_script] at hresult
    obtain ⟨script, hscript, rfl⟩ := exists_of_map_eq_ok hresult
    refine ⟨script, hscript, rfl, fun key command hmem sink field hsink => ?_⟩
    obtain ⟨id, text, hid, rfl⟩ := exists_sinkCommand_of_script hl hscript hmem hsink
    exact ⟨id, text, hperm.mem_iff.1 (mem_of_sinkId? hid), rfl⟩
  · obtain ⟨l, hperm, hl⟩ := exists_perm_of_isChoice hpick
    refine ⟨.inOrder l, ⟨l, rfl, hperm⟩, fun commands hresult => ?_⟩
    rw [compile_eq_script] at hresult
    obtain ⟨script, hscript, rfl⟩ := exists_of_map_eq_ok hresult
    refine ⟨script, hscript, rfl, fun key command hmem sink field hsink => ?_⟩
    obtain ⟨id, text, hid, rfl⟩ := exists_sinkCommand_of_script rfl hscript hmem hsink
    exact ⟨text, by rw [hl _ _ hid]⟩

/-- A change to the sink that the node calls `stderr`. -/
def consoleChange : ChangeSet :=
  .ofList [("logging.\x7bconsole\x7d.any", .update (.text "debug"))]

/-- A node that lists `stderr` under two numbers. -/
def twoNumbers (order : Enumeration) : InfoSource :=
  .ofResponses order [(logsCommand, [("0", "stderr"), ("1", "stderr")])]

/-- The name stands for two numbers, and the one that is enumerated last is addressed. -/
theorem sink_order_matters_of_repeated :
    (consoleChange.compile (some (twoNumbers .asListed))).1 = .ok ["log-set:id=1;any=debug"] ∧
      (consoleChange.compile (some (twoNumbers .reversed))).1 = .ok ["log-set:id=0;any=debug"] ∧
      consoleChange.HangsOnOrder [("0", "stderr"), ("1", "stderr")] := by
  have hlisted : (consoleChange.compile (some (twoNumbers .asListed))).1 =
      .ok ["log-set:id=1;any=debug"] := by decide
  have hreversed : (consoleChange.compile (some (twoNumbers .reversed))).1 =
      .ok ["log-set:id=0;any=debug"] := by decide
  refine ⟨hlisted, hreversed, ?_⟩
  by_contra h
  have hnode : ∀ order, (twoNumbers order).Enumerates [("0", "stderr"), ("1", "stderr")] := by
    have hanswer : [(logsCommand, [("0", "stderr"), ("1", "stderr")])].reverse.lookup logsCommand =
        some [("0", "stderr"), ("1", "stderr")] := rfl
    exact .ofResponses hanswer (by decide)
  have hsame := (sink_order_free_iff _ _).1.2 h _ _ (hnode .asListed) (hnode .reversed)
  have hcommands := hlisted.symm.trans ((congrArg Prod.fst hsame).trans hreversed)
  exact absurd hcommands (by decide)

end Reconfig
