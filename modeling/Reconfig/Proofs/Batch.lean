import Reconfig.Proofs.Script

/-!
# All commands or none

A set of changes has the commands that its changes have on their own, in the order of application,
and the first change without commands decides the error. The node is asked for its log sinks by the
first change that needs the number of one, and never again.

* `needsSink`: a change that needs the number of a log sink;
* `commandsFor_of_needsSink`, `commandsFor_of_not_needsSink`: what one change asks;
* `reached`: the changes up to the first one without commands;
* `asked_compileAll`: what a list of changes asks;
* `scriptOf_eq_ok`, `scriptOf_eq_error`: when a list of changes has commands;
* **`compile_eq_error_iff`**, `exists_error_of_refused`: when a set of changes has none;
* **`compiles_as_alone`**: the commands, the error and the questions of a set of changes.
-/

namespace Reconfig

/-! ## What one change asks -/

/-- The key is that of a field of a log sink other than its name. -/
def needsSink (key : String) : Bool :=
  match Path.parse key with
  | [.field context, .selector _, .field field] =>
    context == "logging" && field != Vocabulary.nameField
  | _ => false

section Step

variable (e : Enquiry) {key : String} (change : Change)

theorem commandsFor_of_not_needsSink (h : needsSink key = false) :
    (commandsFor e key change).2 = e := by
  rw [commandsFor]
  split
  · rename_i context rest hpath
    split_ifs with h1 h2 h3 h4
    · rfl
    · rfl
    · rw [needsSink, hpath] at h
      unfold loggingCommands
      split
      · rename_i sink field
        have hname : field = Vocabulary.nameField := by simpa [h3] using h
        rw [if_pos hname]
      · rfl
    · rfl
    · rfl
  · rfl

/-- **A change that needs a sink looks it up in the listing**, and has no commands without one. -/
theorem commandsFor_of_needsSink (h : needsSink key = true) :
    (commandsFor e key change).2 = e.listing.2 ∧
      ∀ cause, e.listing.1 = .error cause → (commandsFor e key change).1 = .error cause := by
  rw [needsSink] at h
  split at h
  · rename_i context sink field hpath
    rw [Bool.and_eq_true, beq_iff_eq, bne_iff_ne] at h
    obtain ⟨rfl, hname⟩ := h
    have hcommands : commandsFor e key change =
        loggingCommands e key change [.selector sink, .field field] := by
      simp [commandsFor, hpath]
    rw [hcommands, loggingCommands, if_neg hname]
    cases hl : e.listing with
    | mk answer e' =>
      cases answer with
      | error cause =>
        refine ⟨rfl, fun cause' heq => ?_⟩
        cases heq
        rfl
      | ok sinks => exact ⟨rfl, fun cause heq => nomatch heq⟩
  · cases h

end Step

/-- The question that a change brings to a node of which something is known already: the listing
of its sinks, unless it is known. -/
def Enquiry.question (e : Enquiry) (needed : Bool) : List String :=
  if needed ∧ e.source?.isSome ∧ e.sinks?.isNone then [logsCommand] else []

theorem Enquiry.asked_listing (e : Enquiry) :
    e.listing.2.asked = e.asked ++ e.question true := by
  obtain ⟨source?, sinks?, asked⟩ := e
  cases sinks? with
  | some sinks => simp [listing, question]
  | none =>
    cases source? with
    | none => simp [listing, question]
    | some source =>
      simp only [listing, question]
      cases source.ask logsCommand <;> simp

theorem Enquiry.sinks?_listing {e : Enquiry} {sinks : List (String × String)}
    (h : e.listing.1 = .ok sinks) : e.listing.2.sinks? = some sinks := by
  obtain ⟨source?, sinks?, asked⟩ := e
  cases sinks? with
  | some known =>
    cases h
    rfl
  | none =>
    cases source? with
    | none => cases h
    | some source =>
      simp only [listing] at h ⊢
      cases hs : source.ask logsCommand with
      | error cause =>
        rw [hs] at h
        cases h
      | ok found =>
        rw [hs] at h
        cases h
        rfl

theorem asked_commandsFor (e : Enquiry) (key : String) (change : Change) :
    (commandsFor e key change).2.asked = e.asked ++ e.question (needsSink key) := by
  cases h : needsSink key with
  | false => simp [commandsFor_of_not_needsSink e change h, Enquiry.question]
  | true => rw [(commandsFor_of_needsSink e change h).1, e.asked_listing]

theorem question_commandsFor {e : Enquiry} {key : String} {change : Change}
    {commands : List String} (h : (commandsFor e key change).1 = .ok commands) (later : Bool) :
    e.question (needsSink key) ++ (commandsFor e key change).2.question later =
      e.question (needsSink key || later) := by
  cases hneeds : needsSink key with
  | false => simp [commandsFor_of_not_needsSink e change hneeds, Enquiry.question]
  | true =>
    obtain ⟨hafter, hfails⟩ := commandsFor_of_needsSink e change hneeds
    cases hl : e.listing.1 with
    | error cause =>
      rw [hfails cause hl] at h
      cases h
    | ok sinks =>
      have hknown : (commandsFor e key change).2.sinks? = some sinks := by
        rw [hafter, Enquiry.sinks?_listing hl]
      simp [Enquiry.question, hknown]

/-! ## What a list of changes asks -/

/-- The changes up to the first one that has no commands on its own, that one included. -/
def reached (source? : Option InfoSource) : List (String × Change) → List (String × Change)
  | [] => []
  | (key, change) :: rest =>
    match commandsAlone source? key change with
    | .ok _ => (key, change) :: reached source? rest
    | .error _ => [(key, change)]

/-- A change of the list needs the number of a log sink. -/
def anyNeedsSink (entries : List (String × Change)) : Bool := entries.any fun e => needsSink e.1

/-- **The node is asked if a change that is reached needs a sink** and no sinks are known. -/
theorem asked_compileAll {source? : Option InfoSource} {e : Enquiry}
    (h : e.IsFaithful source?) (entries : List (String × Change)) :
    (compileAll e entries).2.asked =
      e.asked ++ e.question (anyNeedsSink (reached source? entries)) := by
  induction entries generalizing e with
  | nil => simp [compileAll, reached, anyNeedsSink, Enquiry.question]
  | cons entry rest ih =>
    obtain ⟨key, change⟩ := entry
    obtain ⟨halone, hfaithful⟩ := commandsFor_eq_alone h key change
    have hasked := asked_commandsFor e key change
    rw [compileAll, reached, ← halone]
    cases hc : commandsFor e key change with
    | mk compiled e' =>
      rw [hc] at hfaithful hasked
      cases compiled with
      | error cause => simpa [anyNeedsSink] using hasked
      | ok commands =>
        have hrest := ih hfaithful
        have hquestion := question_commandsFor (congrArg Prod.fst hc)
          (anyNeedsSink (reached source? rest))
        rw [hc] at hquestion
        cases hm : compileAll e' rest with
        | mk more e'' =>
          rw [hm] at hrest
          have hlast : e''.asked =
              e.asked ++ e.question (anyNeedsSink ((key, change) :: reached source? rest)) := by
            rw [anyNeedsSink, List.any_cons, ← anyNeedsSink, ← hquestion, ← List.append_assoc,
              ← hasked]
            exact hrest
          cases more with
          | error cause =>
            simp only [hm]
            exact hlast
          | ok more =>
            simp only [hm]
            exact hlast

/-! ## When a list of changes has commands -/

/-- There is an error. -/
def Compiled.IsRefused (r : Compiled) : Prop := ∃ cause, r = .error cause

section Results

variable {source? : Option InfoSource} {entries : List (String × Change)}

theorem scriptOf_cons_of_error {key : String} {change : Change} {cause : CompileError}
    (h : commandsAlone source? key change = .error cause) :
    scriptOf source? ((key, change) :: entries) = .error cause := by
  rw [scriptOf, h]

theorem scriptOf_cons_of_ok {key : String} {change : Change} {commands : List String}
    (h : commandsAlone source? key change = .ok commands) :
    scriptOf source? ((key, change) :: entries) =
      (scriptOf source? entries).map (commands.map (fun command => (key, command)) ++ ·) := by
  rw [scriptOf, h]
  cases scriptOf source? entries <;> rfl

/-- **A list of changes has commands if all its changes have**, and its commands are theirs. -/
theorem scriptOf_eq_ok {commands : List String} :
    (scriptOf source? entries).map (List.map Prod.snd) = .ok commands ↔
      ∃ parts, List.Forall₂ (fun e part => commandsAlone source? e.1 e.2 = .ok part) entries parts ∧
        commands = parts.flatten := by
  induction entries generalizing commands with
  | nil =>
    constructor
    · intro h
      cases h
      exact ⟨[], .nil, rfl⟩
    · rintro ⟨parts, hparts, rfl⟩
      cases hparts
      rfl
  | cons entry rest ih =>
    obtain ⟨key, change⟩ := entry
    cases hc : commandsAlone source? key change with
    | error cause =>
      rw [scriptOf_cons_of_error hc]
      constructor
      · intro h
        cases h
      · rintro ⟨parts, hparts, -⟩
        cases hparts with
        | cons hpart _ =>
          rw [hc] at hpart
          cases hpart
    | ok first =>
      rw [scriptOf_cons_of_ok hc]
      cases hs : scriptOf source? rest with
      | error cause =>
        rw [hs] at ih
        constructor
        · intro h
          cases h
        · rintro ⟨parts, hparts, -⟩
          cases hparts with
          | cons _ hrest =>
            have hmore := ih.2 ⟨_, hrest, rfl⟩
            cases hmore
      | ok more =>
        rw [hs] at ih
        have hfirst : (first.map fun command => (key, command)).map Prod.snd = first := by
          rw [List.map_map]
          exact List.map_id first
        constructor
        · intro h
          cases h
          obtain ⟨parts, hparts, hmore⟩ := ih.1 rfl
          refine ⟨first :: parts, .cons hc hparts, ?_⟩
          rw [List.map_append, hfirst, List.flatten_cons, ← hmore]
        · rintro ⟨parts, hparts, rfl⟩
          cases hparts with
          | cons hpart hrest =>
            obtain rfl : first = _ := Except.ok.inj (hc.symm.trans hpart)
            have hmore := Except.ok.inj (ih.2 ⟨_, hrest, rfl⟩)
            rw [List.flatten_cons, ← hmore]
            simp only [Except.map, List.map_append, hfirst]

/-- **The first change without commands decides the error.** -/
theorem scriptOf_eq_error {cause : CompileError} :
    scriptOf source? entries = .error cause ↔
      ∃ before e after, entries = before ++ e :: after ∧
        (∀ b ∈ before, ∃ part, commandsAlone source? b.1 b.2 = .ok part) ∧
          commandsAlone source? e.1 e.2 = .error cause := by
  induction entries with
  | nil => simp [scriptOf]
  | cons entry rest ih =>
    obtain ⟨key, change⟩ := entry
    cases hc : commandsAlone source? key change with
    | error cause' =>
      rw [scriptOf_cons_of_error hc]
      constructor
      · intro h
        cases h
        exact ⟨[], (key, change), rest, rfl, by simp, hc⟩
      · rintro ⟨before, e, after, heq, hbefore, he⟩
        cases before with
        | nil =>
          cases heq
          exact congrArg (Except.error ·) (Except.error.inj (hc.symm.trans he))
        | cons b before =>
          cases heq
          obtain ⟨part, hpart⟩ := hbefore _ List.mem_cons_self
          rw [hc] at hpart
          cases hpart
    | ok first =>
      have hrest : scriptOf source? ((key, change) :: rest) = .error cause ↔
          scriptOf source? rest = .error cause := by
        rw [scriptOf_cons_of_ok hc]
        cases scriptOf source? rest <;> simp [Except.map]
      rw [hrest, ih]
      constructor
      · rintro ⟨before, e, after, rfl, hbefore, he⟩
        refine ⟨(key, change) :: before, e, after, rfl, fun b hb => ?_, he⟩
        rcases List.mem_cons.1 hb with rfl | hb
        · exact ⟨first, hc⟩
        · exact hbefore b hb
      · rintro ⟨before, e, after, heq, hbefore, he⟩
        cases before with
        | nil =>
          cases heq
          rw [hc] at he
          cases he
        | cons b before =>
          cases heq
          exact ⟨before, e, after, rfl, fun b hb => hbefore b (List.mem_cons_of_mem _ hb), he⟩

theorem scriptOf_eq_error_iff {cause : CompileError} :
    scriptOf source? entries = .error cause ↔
      ∃ e ∈ reached source? entries, commandsAlone source? e.1 e.2 = .error cause := by
  induction entries with
  | nil => simp [scriptOf, reached]
  | cons entry rest ih =>
    obtain ⟨key, change⟩ := entry
    rw [reached]
    cases hc : commandsAlone source? key change with
    | error cause' => simp [scriptOf_cons_of_error hc, hc]
    | ok first =>
      have hrest : scriptOf source? ((key, change) :: rest) = .error cause ↔
          scriptOf source? rest = .error cause := by
        rw [scriptOf_cons_of_ok hc]
        cases scriptOf source? rest <;> simp [Except.map]
      simp [hrest, ih, hc]

theorem exists_error_of_mem {e : String × Change} (hmem : e ∈ entries)
    (h : (commandsAlone source? e.1 e.2).IsRefused) :
    ∃ cause, scriptOf source? entries = .error cause := by
  induction entries with
  | nil => cases hmem
  | cons entry rest ih =>
    obtain ⟨key, change⟩ := entry
    cases hc : commandsAlone source? key change with
    | error cause => exact ⟨cause, scriptOf_cons_of_error hc⟩
    | ok first =>
      rcases List.mem_cons.1 hmem with rfl | hmem
      · obtain ⟨cause, he⟩ := h
        cases hc.symm.trans he
      · obtain ⟨cause, hrest⟩ := ih hmem
        exact ⟨cause, by rw [scriptOf_cons_of_ok hc, hrest]; rfl⟩

theorem mem_of_mem_reached {e : String × Change} (h : e ∈ reached source? entries) :
    e ∈ entries := by
  induction entries with
  | nil => cases h
  | cons entry rest ih =>
    obtain ⟨key, change⟩ := entry
    rw [reached] at h
    split at h
    · rcases List.mem_cons.1 h with rfl | h
      · exact List.mem_cons_self
      · exact List.mem_cons_of_mem _ (ih h)
    · rw [List.mem_singleton.1 h]
      exact List.mem_cons_self

end Results

section Sets

variable {changes : ChangeSet} {source? : Option InfoSource}

/-- **The error of a set of changes** is that of a change that is reached. -/
theorem compile_eq_error_iff {cause : CompileError} :
    (changes.compile source?).1 = .error cause ↔
      ∃ e ∈ reached source? (rearrange changes), commandsAlone source? e.1 e.2 = .error cause := by
  rw [compile_eq_script, ← scriptOf_eq_error_iff, ChangeSet.script]
  cases scriptOf source? (rearrange changes) <;> simp [Except.map]

/-- **A change without commands refuses the set**, unless it is left out. -/
theorem exists_error_of_refused {e : String × Change} (hmem : e ∈ rearrange changes)
    (h : (commandsAlone source? e.1 e.2).IsRefused) :
    ∃ cause, (changes.compile source?).1 = .error cause := by
  obtain ⟨cause, hscript⟩ := exists_error_of_mem hmem h
  rw [compile_eq_script, ChangeSet.script, hscript]
  exact ⟨cause, rfl⟩

end Sets

/-- **A set of changes is compiled as its changes are on their own.** In the order of application,
its commands are those that its changes have on their own if all of them have some, and otherwise
the first change without commands decides the error. The node is asked for its sinks, and once, if
there is one and a change that needs a sink stands no later than the first change without
commands. -/
theorem compiles_as_alone (changes : ChangeSet) (source? : Option InfoSource) :
    (∀ commands, (changes.compile source?).1 = .ok commands ↔
      ∃ parts, List.Forall₂ (fun e part => commandsAlone source? e.1 e.2 = .ok part)
        (rearrange changes) parts ∧ commands = parts.flatten) ∧
    (∀ cause, (changes.compile source?).1 = .error cause ↔
      ∃ before e after, rearrange changes = before ++ e :: after ∧
        (∀ b ∈ before, ∃ part, commandsAlone source? b.1 b.2 = .ok part) ∧
          commandsAlone source? e.1 e.2 = .error cause) ∧
    (changes.compile source?).2 =
      if source?.isSome ∧ anyNeedsSink (reached source? (rearrange changes)) then [logsCommand]
      else [] := by
  have hresult := compile_eq_script changes source?
  refine ⟨fun commands => ?_, fun cause => ?_, ?_⟩
  · rw [hresult, ChangeSet.script, scriptOf_eq_ok]
  · rw [hresult, ChangeSet.script, ← scriptOf_eq_error]
    cases scriptOf source? (rearrange changes) <;> simp [Except.map]
  · have hasked := asked_compileAll (Enquiry.start_isFaithful source?) (rearrange changes)
    have hcompile : (changes.compile source?).2 =
        (compileAll (.start source?) (rearrange changes)).2.asked := rfl
    rw [hcompile, hasked]
    simp [Enquiry.start, Enquiry.question, and_comm]

end Reconfig
