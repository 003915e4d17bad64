import Reconfig.Proofs.Instances
import Reconfig.Proofs.Outcome

/-!
# Instances that are removed

An instance of the current configuration that the desired one lacks is removed by its identity.
Its other keys are passed over, unless an instance around it is reopened by a new desired key:
then they return to their defaults first, and so may appear in the report beside the removal.

* `IsRemoved`: an instance that only the current configuration has, within instances of both;
* `FlatConfig.identityPath`: the field that identifies an instance;
* **`IsRemoved.currentOutcome_below`**: what becomes of a key below a removed instance;
* `IsRemoved.find?_changes`, `IsRemoved.contains_unresolved`: what is reported there;
* `Tree.Identifies`, **`exists_identity`**: the field that identifies an instance;
* `DiffReport.RemovesOnly`: a report removes an instance and says nothing else about it;
* **`removes_only_iff`**: when it does so.
-/

namespace Reconfig

open Vocabulary (nameField typeField)
open Reconfig.Path (render parse IsPlace)

/-- The instance is one of the current configuration that the desired one lacks, while it has all
instances around it. -/
structure IsRemoved (desired current : FlatConfig) (p : Path) : Prop where
  isCurrent : p ∈ current.instancePaths
  notDesired : p ∉ desired.instancePaths
  enclosed : ∀ q ∈ p.instancePaths, q ≠ p → q ∈ desired.instancePaths

/-- The field that identifies an instance: its name or, if it has none, its type. -/
def FlatConfig.identityPath (flat : FlatConfig) (p : Path) : Path :=
  if flat.contains (render (p.child nameField)) then p.child nameField else p.child typeField

/-- What becomes of a key below an instance before the instance is removed. -/
def Comparison.outcomeBefore (c : Comparison) (p path : Path) (w : Value) : Outcome :=
  if c.reopensAround p then c.resetOutcome path w else .unchanged

/-! ## Keys below a removed instance -/

section Below

variable {desired current : FlatConfig} {p : Path} (hp : IsRemoved desired current p)

include hp

theorem IsRemoved.mem_instancePaths_of_prefix {path : Path} (hpath : p <+: path) :
    p ∈ path.instancePaths := by
  obtain ⟨key, -, hmem⟩ := List.mem_flatMap.1 (List.mem_eraseDups.1 hp.isCurrent)
  exact Path.mem_instancePaths.2 ⟨hpath, (Path.mem_instancePaths.1 hmem).2⟩

theorem IsRemoved.find?_instancePaths {path : Path} (hpath : p <+: path) :
    path.instancePaths.find? (fun s => !desired.instancePaths.contains s) = some p := by
  obtain ⟨-, list, id, rfl⟩ := Path.mem_instancePaths.1 (hp.mem_instancePaths_of_prefix hpath)
  obtain ⟨rest, rfl⟩ := hpath
  rw [Path.instancePaths_append, Path.instancePaths_select, List.append_assoc, List.find?_append]
  have houter : (Path.instancePaths list).find? (fun s => !desired.instancePaths.contains s) =
      none := by
    rw [List.find?_eq_none]
    intro s hs
    have hne : s ≠ list.select id := by
      intro heq
      have hlen := (Path.mem_instancePaths.1 hs).1.length_le
      rw [heq, Path.select, List.length_append, List.length_singleton] at hlen
      omega
    have hmem : s ∈ (list.select id).instancePaths := by
      rw [Path.instancePaths_select]
      exact List.mem_append_left _ hs
    simpa using hp.enclosed s hmem hne
  rw [houter, Option.none_or, List.singleton_append, List.find?_cons_of_pos]
  simpa using hp.notDesired

theorem IsRemoved.any_reopened (defaults : Dict Value) (options : DiffOptions) {path : Path}
    (hpath : p <+: path) :
    (Comparison.of desired current defaults options).reopened.any (fun s => s.isPrefixOf path) =
      (Comparison.of desired current defaults options).reopensAround p := by
  rw [Comparison.reopensAround, Bool.eq_iff_iff, List.any_eq_true, List.any_eq_true]
  refine exists_congr fun s => and_congr_right fun hs => ?_
  rw [List.isPrefixOf_iff_prefix, List.isPrefixOf_iff_prefix]
  refine ⟨fun hsp => ?_, fun hsp => hsp.trans hpath⟩
  rcases List.prefix_or_prefix_of_prefix hsp hpath with h | h
  · exact h
  · -- an instance inside the removed one would be desired, and the removed one with it
    refine absurd ?_ hp.notDesired
    obtain ⟨key, hkey, -, -, hsec, -⟩ := mem_reopened.1 hs
    have hsmem := Path.mem_instancePaths_of_section? hsec
    refine mem_instancePaths_of_contains hkey ?_
    exact Path.mem_instancePaths_trans (hp.mem_instancePaths_of_prefix h) hsmem

/-- **What becomes of a key below a removed instance**: it is reset if an instance around the
removed one is reopened; then the identity is removed, unless the key has a change already. -/
theorem IsRemoved.currentOutcome_below (defaults : Dict Value) (options : DiffOptions)
    {key : String} (w : Value) (hkey : p <+: parse key)
    (hx : isExcluded options (parse key) = false) :
    let c := Comparison.of desired current defaults options
    c.currentOutcome c.reopened key w =
      Comparison.removedOutcome (parse key) p w (c.outcomeBefore p (parse key) w) := by
  intro c
  have hdesired : c.desired.contains key = false :=
    contains_eq_false_of_below hp.notDesired (hp.mem_instancePaths_of_prefix hkey)
  have hfirst : (parse key).instancePaths.find? (fun s => !c.desiredInstances.contains s) =
      some p := hp.find?_instancePaths hkey
  have hopts : isExcluded c.options (parse key) = false := hx
  rw [Comparison.currentOutcome, hdesired, hopts]
  simp only [Bool.or_self, Bool.false_eq_true, if_false, hfirst]
  rw [hp.any_reopened defaults options hkey]
  rfl

end Below

/-! ## Removing the identity -/

/-- The path is that of an instance of the identity in the list of a field. -/
def Path.Selects (p : Path) (id : String) : Prop :=
  ∃ (base : Path) (name : String), p = (base.child name).select id

theorem Path.Selects.exists_select {p : Path} {id : String} (h : p.Selects id) :
    ∃ list id', p = Path.select list id' := by
  obtain ⟨base, name, rfl⟩ := h
  exact ⟨base.child name, id, rfl⟩

theorem Path.Selects.ne_nil {p : Path} {id : String} (h : p.Selects id) : p ≠ [] := by
  obtain ⟨base, name, rfl⟩ := h
  exact (IsPlace.select id).1

theorem exists_field_of_identityAt? {path p : Path} (hparent : path.parent? = some p) {w : Value}
    {id : String} (h : identityAt? path w = some id) :
    ∃ f, (f = nameField ∨ f = typeField) ∧ path = p.child f := by
  unfold Path.parent? at hparent
  split_ifs at hparent with hempty
  rw [Option.some.injEq] at hparent
  have hne : path ≠ [] := fun hnil => hempty (by rw [hnil]; rfl)
  have hpath := List.dropLast_concat_getLast hne
  rw [hparent] at hpath
  rw [← hpath] at h ⊢
  unfold identityAt? at h
  split_ifs at h with hid
  rw [Path.isIdentity, List.reverse_append, List.reverse_singleton, List.singleton_append] at hid
  cases hlast : path.getLast hne with
  | selector x => rw [hlast] at hid; cases hid
  | field f =>
    refine ⟨f, ?_, rfl⟩
    rw [hlast] at hid
    unfold Path.endsInIdentity at hid
    split at hid
    · rename_i heq
      obtain ⟨hf, -⟩ := List.cons.inj heq
      cases hf
      simpa using hid
    · cases hid

section Selects

variable {p : Path} {id : String} (hsel : p.Selects id)

include hsel

theorem identityAt?_child {f : String} (hf : f = nameField ∨ f = typeField) (w : Value) :
    identityAt? (p.child f) w = if w.text? = some id then some id else none := by
  obtain ⟨base, name, rfl⟩ := hsel
  have hpath : Path.isIdentity (((base.child name).select id).child f) = true := by
    simp only [Path.isIdentity, Path.child, Path.select, List.reverse_append,
      List.reverse_singleton, List.singleton_append, Path.endsInIdentity, Bool.or_eq_true,
      beq_iff_eq]
    exact hf
  have hlast : (Path.child ((base.child name).select id) f).dropLast.getLast? =
      some (.selector id) := by
    simp [Path.child, Path.select]
  rw [identityAt?, if_pos hpath, hlast]
  cases w.text? with
  | none => rfl
  | some t => by_cases h : t = id <;> simp [h]

theorem removalAt_eq_some {path : Path} {w : Value} {change : Change}
    (h : removalAt path p w = some change) :
    w = .text id ∧ ∃ f, (f = nameField ∨ f = typeField) ∧ path = p.child f := by
  unfold removalAt at h
  split_ifs at h with hparent
  obtain ⟨id', hid, rfl⟩ := Option.map_eq_some_iff.1 h
  obtain ⟨f, hf, rfl⟩ := exists_field_of_identityAt? hparent hid
  have hw := eq_text_of_identityAt? hid
  rw [identityAt?_child hsel hf] at hid
  obtain ⟨-, heq⟩ := Option.ite_none_right_eq_some.1 hid
  cases heq
  exact ⟨hw, f, hf, rfl⟩

theorem removalAt_child {f : String} (hf : f = nameField ∨ f = typeField) :
    removalAt (p.child f) p (.text id) = some (.remove (.text id)) := by
  rw [removalAt, if_pos (Path.parent?_child _ _), identityAt?_child hsel hf]
  simp [Value.text, Value.text?, Scalar.text?]

end Selects

theorem resetOutcome_text {c : Comparison} {path : Path} {id : String} {change : Change}
    (h : (c.resetOutcome path (.text id)).change? = some change) : ∃ v, change = .update v := by
  rcases Comparison.resetOutcome_eq_some h with ⟨items, heq, -⟩ | ⟨d, -, rfl⟩
  · cases heq
  · exact ⟨d, rfl⟩

/-! ## The report on a removed instance -/

section Report

variable {desired current : FlatConfig} {p : Path} (hp : IsRemoved desired current p)
  (defaults : Dict Value) (options : DiffOptions) {key : String} {w : Value}

include hp

theorem IsRemoved.find?_changes (hw : current.find? key = some w)
    (hkey : p <+: parse key) (hx : isExcluded options (parse key) = false) :
    (diff desired current defaults options).changes.find? key =
      ((Comparison.of desired current defaults options).outcomeBefore p (parse key) w).change?.or
        (removalAt (parse key) p w) := by
  have hdesired := contains_eq_false_of_below hp.notDesired (hp.mem_instancePaths_of_prefix hkey)
  have h := Comparison.find?_report_of_not_desired
    (c := .of desired current defaults options) (Dict.contains_eq_false.1 hdesired)
  have hbelow := hp.currentOutcome_below defaults options w hkey hx
  rw [diff, h]
  change (current.find? key).bind _ = _
  rw [hw, Option.bind_some, hbelow, removedOutcome_eq]

theorem IsRemoved.contains_unresolved (hw : current.find? key = some w)
    (hkey : p <+: parse key) (hx : isExcluded options (parse key) = false) :
    (diff desired current defaults options).unresolved.contains key =
      ((Comparison.of desired current defaults options).outcomeBefore p
        (parse key) w).isUnresolved := by
  have hbelow := hp.currentOutcome_below defaults options w hkey hx
  rw [Bool.eq_iff_iff, diff, Comparison.contains_unresolved]
  constructor
  · rintro ⟨w', hw', h⟩
    rw [show current.find? key = some w' from hw', Option.some.injEq] at hw
    rw [hw, hbelow, removedOutcome_eq] at h
    exact h
  · intro h
    refine ⟨w, hw, ?_⟩
    rw [hbelow, removedOutcome_eq]
    exact h

/-- **A key below a removed instance is not reported** if nothing becomes of it before the removal
and it does not carry the identity. -/
theorem IsRemoved.not_reported_iff (hw : current.find? key = some w) (hkey : p <+: parse key)
    (hx : isExcluded options (parse key) = false) :
    ((diff desired current defaults options).changes.find? key = none ∧
        (diff desired current defaults options).unresolved.contains key = false) ↔
      (Comparison.of desired current defaults options).outcomeBefore p (parse key) w =
          .unchanged ∧ removalAt (parse key) p w = none := by
  rw [hp.find?_changes defaults options hw hkey hx,
    hp.contains_unresolved defaults options hw hkey hx, Option.or_eq_none_iff]
  obtain ⟨change?, isUnresolved⟩ :=
    (Comparison.of desired current defaults options).outcomeBefore p (parse key) w
  simp only [Outcome.unchanged, Outcome.mk.injEq]
  exact ⟨fun h => ⟨⟨h.1.1, h.2⟩, h.1.2⟩, fun h => ⟨⟨h.1.1, h.2⟩, h.1.2⟩⟩

/-- **The identity is removed** unless it returns to a default before. -/
theorem IsRemoved.removes_identity_iff {id f : String} (hsel : p.Selects id)
    (hf : f = nameField ∨ f = typeField) (hfind : current.find? key = some (.text id))
    (hkey : parse key = p.child f) (hx : isExcluded options (parse key) = false) :
    (diff desired current defaults options).changes.find? key = some (.remove (.text id)) ↔
      ((Comparison.of desired current defaults options).outcomeBefore p (parse key)
        (.text id)).change? = none := by
  have hbelow : p <+: parse key := by
    rw [hkey]
    exact List.prefix_append _ _
  rw [hp.find?_changes defaults options hfind hbelow hx, Comparison.outcomeBefore]
  have hremoval : removalAt (parse key) p (.text id) = some (.remove (.text id)) := by
    rw [hkey, removalAt_child hsel hf]
  rw [hremoval]
  split_ifs with hr
  · cases hbefore : ((Comparison.of desired current defaults options).resetOutcome (parse key)
        (.text id)).change? with
    | none => simp
    | some change =>
      obtain ⟨v, rfl⟩ := resetOutcome_text hbefore
      simp
  · simp [Outcome.unchanged]

omit hp in
theorem not_reported (hdesired : desired.contains key = false)
    (h : current.find? key = none ∨ isExcluded options (parse key) = true) :
    (diff desired current defaults options).changes.find? key = none ∧
      (diff desired current defaults options).unresolved.contains key = false := by
  have hoff : ∀ w, current.find? key = some w →
      ∀ reopened, (Comparison.of desired current defaults options).currentOutcome reopened key w =
        .unchanged := by
    intro w hw reopened
    rcases h with h | h
    · rw [h] at hw
      cases hw
    · exact Comparison.currentOutcome_of_excluded w h
  constructor
  · rw [diff, Comparison.find?_report_of_not_desired (Dict.contains_eq_false.1 hdesired)]
    change (current.find? key).bind _ = none
    cases hw : current.find? key with
    | none => rfl
    | some w => rw [Option.bind_some, hoff w hw]; rfl
  · rw [← Bool.not_eq_true, diff, Comparison.contains_unresolved]
    rintro ⟨w, hw, h⟩
    rw [hoff w hw] at h
    cases h

end Report

/-! ## The field that identifies an instance -/

theorem isExcluded_identity (options : DiffOptions) {p : Path} (hp : p ≠ []) {f : String}
    (hf : f = nameField ∨ f = typeField) : isExcluded options (p.child f) =
      (options.skipNodeSpecific && (p.context? == some loggingContext)) := by
  have hbase : (p.child f).baseField? = some f := by
    simp [Path.baseField?, Path.child, Segment.field?]
  have hcontext : (p.child f).context? = p.context? := by
    obtain ⟨s, rest, rfl⟩ := List.exists_cons_of_ne_nil hp
    rfl
  have hplain : (f == Vocabulary.indexField) = false ∧ isNodeSpecific f = false := by
    rcases hf with rfl | rfl <;> decide
  rw [isExcluded, Path.isIndexMarker, hbase, hcontext, Option.any_some, hplain.2,
    Option.some_beq_some, hplain.1, Bool.false_or, Bool.or_false]

theorem parse_render_identity {p : Path} (hp : p ≠ []) {f g : String}
    (h : Path.isReadable (p.child f) = true) (hg : g = nameField ∨ g = typeField) :
    parse (render (p.child g)) = p.child g := by
  have hreadable : Path.isReadable (p.child g) = true := by
    rw [Path.child, Path.isReadable_append] at h ⊢
    refine ⟨h.1, ?_⟩
    rcases hg with rfl | rfl <;> decide
  refine Path.parse_render hreadable fun heq => ?_
  have hlen := congrArg List.length heq
  have hpos := List.length_pos_of_ne_nil hp
  simp only [Path.child, List.length_append, List.length_singleton] at hlen
  omega

/-- A field of a tree identifies the instance, a type only where there is no name. -/
structure Tree.Identifies (t : Tree) (p : Path) (id f : String) : Prop where
  selects : p.Selects id
  isIdentity : f = nameField ∨ f = typeField
  mem_leaves : (p.child f, .text id) ∈ fieldLeaves t
  nameless : f = typeField → t.flatten.contains (render (p.child nameField)) = false

section Identifies

variable {t : Tree} (ht : t.isSound = true)

include ht

/-- **An instance of a sound tree is identified by a field.** -/
theorem exists_identity {list : Path} {id : String}
    (hp : list.select id ∈ t.flatten.instancePaths) : ∃ f, t.Identifies (list.select id) id f := by
  obtain ⟨e, he, hmem⟩ := (mem_instancePaths_flatten ht).1 hp
  obtain ⟨⟨q, hq⟩, -⟩ := Path.mem_instancePaths.1 hmem
  have hleaf : (list ++ .selector id :: q, e.2) ∈ fieldLeaves t := by
    rw [← List.singleton_append, ← List.append_assoc]
    rwa [show list ++ [.selector id] ++ q = e.1 from hq]
  obtain ⟨⟨base, name, hlist⟩, -⟩ := exists_section ht list hleaf
  have hsel : (list.select id).Selects id := ⟨base, name, by rw [hlist]⟩
  rcases identity_leaf ht hleaf with hname | ⟨hnone, htype⟩
  · exact ⟨nameField, hsel, .inl rfl, hname, fun h => absurd h (by decide)⟩
  · refine ⟨typeField, hsel, .inr rfl, htype, fun _ => ?_⟩
    have hparse := parse_render_identity hsel.ne_nil (fieldLeaves_readable t ht _ htype) (.inl rfl)
    rw [← Bool.not_eq_true, contains_flatten ht, hparse]
    rintro ⟨v, hv⟩
    exact hnone v hv

variable {p : Path} {id f : String} (hi : t.Identifies p id f)

include hi

theorem Tree.Identifies.parse_render {g : String} (hg : g = nameField ∨ g = typeField) :
    parse (render (p.child g)) = p.child g :=
  parse_render_identity hi.selects.ne_nil (fieldLeaves_readable t ht _ hi.mem_leaves) hg

theorem Tree.Identifies.find?_eq : t.flatten.find? (render (p.child f)) = some (.text id) :=
  find?_flatten_render ht hi.mem_leaves

theorem Tree.Identifies.identityPath_eq : t.flatten.identityPath p = p.child f := by
  rcases hi.isIdentity with rfl | rfl
  · exact if_pos (Dict.contains_eq_true.2 ⟨_, hi.find?_eq ht⟩)
  · rw [FlatConfig.identityPath, hi.nameless rfl]
    rfl

end Identifies

/-! ## Removals that stand alone -/

/-- The report removes the instance by its identity and has nothing else at or below it. -/
def DiffReport.RemovesOnly (r : DiffReport) (p identity : Path) (id : String) : Prop :=
  r.changes.find? (render identity) = some (.remove (.text id)) ∧
    ∀ key, p <+: parse key → key ≠ render identity →
      r.changes.find? key = none ∧ r.unresolved.contains key = false

/-- The instance has its identity twice, as its name and as its type. -/
def FlatConfig.RepeatsIdentity (flat : FlatConfig) (p : Path) (id : String) : Prop :=
  flat.contains (render (p.child nameField)) = true ∧
    flat.find? (render (p.child typeField)) = some (.text id)

/-- Returning the keys of an instance to their defaults would change none of them and miss no
default, but for that of the identity. -/
def Comparison.ResetsNothing (c : Comparison) (p identity : Path) : Prop :=
  ∀ key w, c.current.find? key = some w → p <+: parse key →
    isExcluded c.options (parse key) = false →
      (key = render identity → (c.resetOutcome (parse key) w).change? = none) ∧
        (key ≠ render identity → c.resetOutcome (parse key) w = .unchanged)

section Alone

variable {desired : FlatConfig} {current : Tree} (hc : current.isSound = true) {p : Path}
  {id f : String} (hi : current.Identifies p id f) (hp : IsRemoved desired current.flatten p)
  (defaults : Dict Value) (options : DiffOptions)
  (hx : isExcluded options (p.child f) = false)

include hc hi

theorem eq_render_of_removalAt (hrepeat : ¬ current.flatten.RepeatsIdentity p id) {key : String}
    {w : Value} (hw : current.flatten.find? key = some w) {change : Change}
    (h : removalAt (parse key) p w = some change) : key = render (p.child f) := by
  obtain ⟨rfl, g, hg, hpath⟩ := removalAt_eq_some hi.selects h
  have hkey : key = render (p.child g) := by
    rw [← Path.render_parse key, hpath]
  rw [hkey] at hw ⊢
  rcases hi.isIdentity with rfl | rfl
  · rcases hg with rfl | rfl
    · rfl
    · exact absurd ⟨Dict.contains_eq_true.2 ⟨_, hi.find?_eq hc⟩, hw⟩ hrepeat
  · rcases hg with rfl | rfl
    · rw [Dict.contains_eq_false.1 (hi.nameless rfl)] at hw
      cases hw
    · rfl

include hp hx

theorem not_repeatsIdentity_of_removesOnly
    (h : (diff desired current.flatten defaults options).RemovesOnly p (p.child f) id) :
    ¬ current.flatten.RepeatsIdentity p id := by
  rintro ⟨hname, htype⟩
  obtain rfl : f = nameField := hi.isIdentity.resolve_right fun hf => by
    rw [hi.nameless hf] at hname
    cases hname
  have hkey := hi.parse_render hc (.inr rfl)
  have hne : render (p.child typeField) ≠ render (p.child nameField) := by
    intro heq
    have hpaths := congrArg parse heq
    rw [hkey, hi.parse_render hc (.inl rfl)] at hpaths
    have hfields : typeField = nameField := by simpa [Path.child] using hpaths
    exact absurd hfields (by decide)
  have hbelow : p <+: parse (render (p.child typeField)) := by
    rw [hkey]
    exact List.prefix_append _ _
  have hxtype : isExcluded options (parse (render (p.child typeField))) = false := by
    rw [isExcluded_identity options hi.selects.ne_nil (.inl rfl)] at hx
    rw [hkey, isExcluded_identity options hi.selects.ne_nil (.inr rfl), hx]
  obtain ⟨-, hnone⟩ := (hp.not_reported_iff defaults options htype hbelow hxtype).1
    (h.2 _ hbelow hne)
  rw [hkey, removalAt_child hi.selects (.inr rfl)] at hnone
  cases hnone

omit hx in
theorem resetsNothing_of_removesOnly
    (h : (diff desired current.flatten defaults options).RemovesOnly p (p.child f) id)
    (hr : (Comparison.of desired current.flatten defaults options).reopensAround p = true) :
    (Comparison.of desired current.flatten defaults options).ResetsNothing p (p.child f) := by
  intro key w hw hbelow hkx
  have hreset : ∀ path w, (Comparison.of desired current.flatten defaults options).outcomeBefore p
      path w = (Comparison.of desired current.flatten defaults options).resetOutcome path w :=
    fun _ _ => if_pos hr
  refine ⟨?_, fun hne => ?_⟩
  · rintro rfl
    have hkey := hi.parse_render hc hi.isIdentity
    obtain rfl : Value.text id = w := Option.some.inj ((hi.find?_eq hc).symm.trans hw)
    rw [← hreset]
    exact (hp.removes_identity_iff defaults options hi.selects hi.isIdentity hw hkey hkx).1 h.1
  · rw [← hreset]
    exact ((hp.not_reported_iff defaults options hw hbelow hkx).1 (h.2 key hbelow hne)).1

theorem removesOnly_of_resetsNothing (hrepeat : ¬ current.flatten.RepeatsIdentity p id)
    (h : (Comparison.of desired current.flatten defaults options).reopensAround p = true →
      (Comparison.of desired current.flatten defaults options).ResetsNothing p (p.child f)) :
    (diff desired current.flatten defaults options).RemovesOnly p (p.child f) id := by
  refine ⟨?_, fun key hbelow hne => ?_⟩
  · have hkey := hi.parse_render hc hi.isIdentity
    have hfind := hi.find?_eq hc
    have hkx : isExcluded options (parse (render (p.child f))) = false := by rwa [hkey]
    have hbelow : p <+: parse (render (p.child f)) := by
      rw [hkey]
      exact List.prefix_append _ _
    rw [hp.removes_identity_iff defaults options hi.selects hi.isIdentity hfind hkey hkx,
      Comparison.outcomeBefore]
    split_ifs with hr
    · exact (h hr _ _ hfind hbelow hkx).1 rfl
    · rfl
  · have hdesired := contains_eq_false_of_below hp.notDesired
      (hp.mem_instancePaths_of_prefix hbelow)
    cases hw : current.flatten.find? key with
    | none => exact not_reported defaults options hdesired (.inl hw)
    | some w =>
      cases hkx : isExcluded options (parse key) with
      | true => exact not_reported defaults options hdesired (.inr hkx)
      | false =>
        refine (hp.not_reported_iff defaults options hw hbelow hkx).2 ⟨?_, ?_⟩
        · rw [Comparison.outcomeBefore]
          split_ifs with hr
          · exact (h hr key w hw hbelow hkx).2 hne
          · rfl
        · rw [Option.eq_none_iff_forall_ne_some]
          exact fun change hchange => hne (eq_render_of_removalAt hc hi hrepeat hw hchange)

end Alone

/-- **When an instance is removed and nothing else is said about it.** The report of two trees
removes an instance by its identity alone if and only if the instance does not have its identity
twice, as name and as type, and returning its keys to their defaults would change none of them,
wherever an instance around it is reopened. -/
theorem removes_only_iff (desired : Tree) {current : Tree} (hcurrent : current.isSound = true)
    (defaults : Dict Value) (options : DiffOptions) {list : Path} {id : String}
    (hp : IsRemoved desired.flatten current.flatten (list.select id))
    (hx : isExcluded options (current.flatten.identityPath (list.select id)) = false) :
    (diff desired.flatten current.flatten defaults options).RemovesOnly (list.select id)
        (current.flatten.identityPath (list.select id)) id ↔
      ¬ current.flatten.RepeatsIdentity (list.select id) id ∧
        ((Comparison.of desired.flatten current.flatten defaults options).reopensAround
            (list.select id) = true →
          (Comparison.of desired.flatten current.flatten defaults options).ResetsNothing
            (list.select id) (current.flatten.identityPath (list.select id))) := by
  obtain ⟨f, hi⟩ := exists_identity hcurrent hp.isCurrent
  rw [hi.identityPath_eq hcurrent] at hx ⊢
  constructor
  · intro h
    exact ⟨not_repeatsIdentity_of_removesOnly hcurrent hi hp defaults options hx h,
      resetsNothing_of_removesOnly hcurrent hi hp defaults options h⟩
  · rintro ⟨hrepeat, h⟩
    exact removesOnly_of_resetsNothing hcurrent hi hp defaults options hx hrepeat h

/-- A set that is removed from a namespace that gains a field is also reset. -/
theorem not_removes_only_of_reopened :
    let desired : Tree := [("namespaces", .repeated [[("name", .text "test"),
      ("x", .scalar (.uint 1))]])]
    let current : Tree := [("namespaces", .repeated [[("name", .text "test"),
      ("sets", .repeated [[("name", .text "s"), ("disable-eviction", .scalar (.bool true))]])]])]
    let defaults : Dict Value := .ofList [("namespaces.sets.disable-eviction",
      .scalar (.bool false))]
    let list : Path := [.field "namespaces", .selector "test", .field "sets"]
    ¬ (diff desired.flatten current.flatten defaults {}).RemovesOnly (list.select "s")
      (current.flatten.identityPath (list.select "s")) "s" := by
  intro desired current defaults list h
  have hsound : current.isSound = true := by decide
  have hcurrent : current.flatten.instancePaths =
      [Path.select [.field "namespaces"] "test", list.select "s"] := by decide +kernel
  have hdesired : desired.flatten.instancePaths = [Path.select [.field "namespaces"] "test"] := by
    decide +kernel
  have hremoved : IsRemoved desired.flatten current.flatten (list.select "s") := by
    constructor
    · rw [hcurrent]
      decide
    · rw [hdesired]
      decide
    · rw [hdesired]
      decide
  have hidentity : current.flatten.identityPath (list.select "s") =
      (list.select "s").child nameField := by decide +kernel
  have hx : isExcluded {} (current.flatten.identityPath (list.select "s")) = false := by
    rw [hidentity]
    decide
  obtain ⟨-, hnothing⟩ := (removes_only_iff desired hsound defaults {} hremoved hx).1 h
  have hreset := (hnothing (by decide +kernel)
    "namespaces.\x7btest\x7d.sets.\x7bs\x7d.disable-eviction" (.scalar (.bool true)) (by rfl)
    (by decide +kernel) (by decide +kernel)).2 (by rw [hidentity]; decide +kernel)
  exact absurd (congrArg (fun o => o.change?.isSome) hreset) (by decide +kernel)

end Reconfig
