import Mathlib.Data.List.Basic
import Reconfig.Command.Compile

/-!
# Scripts

The commands of a set of changes are made one change after another, and what the node has answered
once is used again for later changes. As the node answers alike each time, a change has the
commands that it has on its own. A script lists them with the keys of the changes they come from,
which the texts of the commands alone do not tell.

* `Enquiry.IsFaithful`: what is known of the node is what it answers;
* `commandsAlone`, **`commandsFor_eq_alone`**: the commands of a change on its own;
* `scriptOf`, `ChangeSet.script`: the commands of changes with their keys;
* **`compile_eq_script`**: the commands of a set of changes are those of its script;
* `mem_scriptOf`: the commands of a script come from the changes.
-/

namespace Reconfig

/-! ## What is known of the node -/

/-- The node is the one to ask, and what is known of its sinks is what it answers. -/
structure Enquiry.IsFaithful (source? : Option InfoSource) (e : Enquiry) : Prop where
  source_eq : e.source? = source?
  answered : ∀ sinks, e.sinks? = some sinks →
    ∃ source, source? = some source ∧ source.ask logsCommand = .ok sinks

namespace Enquiry

theorem start_isFaithful (source? : Option InfoSource) : (start source?).IsFaithful source? :=
  ⟨rfl, fun _ h => nomatch h⟩

variable {source? : Option InfoSource} {e : Enquiry}

/-- **The listing does not depend on what is known already**, and what is known afterwards is
again what the node answers. -/
theorem IsFaithful.listing (h : e.IsFaithful source?) :
    e.listing.1 = (start source?).listing.1 ∧ e.listing.2.IsFaithful source? := by
  obtain ⟨source, sinks?, asked⟩ := e
  obtain ⟨rfl, hanswered⟩ := h
  cases sinks? with
  | some sinks =>
    obtain ⟨src, rfl, hsrc⟩ := hanswered sinks rfl
    refine ⟨?_, rfl, hanswered⟩
    simp only [Enquiry.listing, start, hsrc]
  | none =>
    cases source with
    | none => exact ⟨rfl, rfl, hanswered⟩
    | some src =>
      simp only [Enquiry.listing, start]
      cases hsrc : src.ask logsCommand with
      | error cause => exact ⟨rfl, rfl, fun _ h => nomatch h⟩
      | ok sinks =>
        refine ⟨rfl, rfl, fun sinks' h => ⟨src, rfl, ?_⟩⟩
        cases h
        exact hsrc

end Enquiry

/-! ## Changes on their own -/

/-- The commands of a change for which the node has been asked nothing yet. -/
def commandsAlone (source? : Option InfoSource) (key : String) (change : Change) : Compiled :=
  (commandsFor (.start source?) key change).1

section Alone

variable {source? : Option InfoSource} {e : Enquiry} (h : e.IsFaithful source?)
  (key : String) (change : Change)

include h

theorem loggingCommands_eq_alone (segments : List Segment) :
    (loggingCommands e key change segments).1 =
        (loggingCommands (.start source?) key change segments).1 ∧
      (loggingCommands e key change segments).2.IsFaithful source? := by
  unfold loggingCommands
  split
  · split_ifs
    · exact ⟨rfl, h⟩
    · obtain ⟨hfst, hsnd⟩ := h.listing
      cases hl : e.listing with
      | mk answer e' =>
        cases hs : (Enquiry.start source?).listing with
        | mk answer' e'' =>
          rw [hl] at hfst hsnd
          rw [hs] at hfst
          obtain rfl : answer = answer' := hfst
          cases answer with
          | error cause => exact ⟨rfl, hsnd⟩
          | ok sinks => exact ⟨rfl, hsnd⟩
  · exact ⟨rfl, h⟩

/-- **A change has the commands that it has on its own**, whatever is known of the node. -/
theorem commandsFor_eq_alone :
    (commandsFor e key change).1 = commandsAlone source? key change ∧
      (commandsFor e key change).2.IsFaithful source? := by
  unfold commandsAlone commandsFor
  dsimp only
  split
  · split_ifs
    · exact ⟨rfl, h⟩
    · exact ⟨rfl, h⟩
    · exact loggingCommands_eq_alone h key change _
    · exact ⟨rfl, h⟩
    · exact ⟨rfl, h⟩
  · exact ⟨rfl, h⟩

end Alone

/-! ## Scripts -/

/-- The commands of changes in their order, each with the key of its change, up to the first change
that has none. -/
def scriptOf (source? : Option InfoSource) :
    List (String × Change) → Except CompileError (List (String × String))
  | [] => .ok []
  | (key, change) :: rest =>
    match commandsAlone source? key change with
    | .error cause => .error cause
    | .ok commands =>
      match scriptOf source? rest with
      | .error cause => .error cause
      | .ok more => .ok (commands.map (fun command => (key, command)) ++ more)

/-- The script of a set of changes. -/
def ChangeSet.script (changes : ChangeSet) (source? : Option InfoSource) :
    Except CompileError (List (String × String)) :=
  scriptOf source? (rearrange changes)

theorem compileAll_eq_scriptOf {source? : Option InfoSource} {e : Enquiry}
    (h : e.IsFaithful source?) (entries : List (String × Change)) :
    (compileAll e entries).1 = (scriptOf source? entries).map (List.map Prod.snd) := by
  induction entries generalizing e with
  | nil => rfl
  | cons entry rest ih =>
    obtain ⟨key, change⟩ := entry
    obtain ⟨hfst, hsnd⟩ := commandsFor_eq_alone h key change
    rw [compileAll, scriptOf, ← hfst]
    cases hc : commandsFor e key change with
    | mk compiled e' =>
      rw [hc] at hsnd
      cases compiled with
      | error cause => rfl
      | ok commands =>
        have hrest := ih hsnd
        cases hm : compileAll e' rest with
        | mk more e'' =>
          rw [hm] at hrest
          cases hs : scriptOf source? rest with
          | error cause =>
            rw [hs] at hrest
            obtain rfl : more = .error cause := hrest
            simp only [hm, Except.map]
          | ok script =>
            rw [hs] at hrest
            obtain rfl : more = .ok (script.map Prod.snd) := hrest
            simp [hm, Except.map, Function.comp_def]

/-- **The commands of a set of changes are those of its script.** -/
theorem compile_eq_script (changes : ChangeSet) (source? : Option InfoSource) :
    (changes.compile source?).1 = (changes.script source?).map (List.map Prod.snd) :=
  compileAll_eq_scriptOf (Enquiry.start_isFaithful source?) (rearrange changes)

/-- **The commands of a script come from the changes.** -/
theorem mem_scriptOf {source? : Option InfoSource} {entries : List (String × Change)}
    {script : List (String × String)} (h : scriptOf source? entries = .ok script)
    {key command : String} : (key, command) ∈ script ↔
      ∃ change commands, (key, change) ∈ entries ∧
        commandsAlone source? key change = .ok commands ∧ command ∈ commands := by
  induction entries generalizing script with
  | nil =>
    cases h
    simp
  | cons entry rest ih =>
    obtain ⟨key', change'⟩ := entry
    rw [scriptOf] at h
    cases hc : commandsAlone source? key' change' with
    | error cause =>
      rw [hc] at h
      cases h
    | ok commands =>
      cases hs : scriptOf source? rest with
      | error cause =>
        rw [hc, hs] at h
        cases h
      | ok more =>
        rw [hc, hs] at h
        cases h
        rw [List.mem_append, List.mem_map, ih hs]
        constructor
        · rintro (⟨command', hmem, heq⟩ | ⟨change, commands', hmem, hchange, hcommand⟩)
          · cases heq
            exact ⟨change', commands, List.mem_cons_self, hc, hmem⟩
          · exact ⟨change, commands', List.mem_cons_of_mem _ hmem, hchange, hcommand⟩
        · rintro ⟨change, commands', hmem, hchange, hcommand⟩
          rcases List.mem_cons.1 hmem with heq | hmem
          · cases heq
            rw [hc] at hchange
            cases hchange
            exact .inl ⟨command, hcommand, rfl⟩
          · exact .inr ⟨change, commands', hmem, hchange, hcommand⟩

end Reconfig
