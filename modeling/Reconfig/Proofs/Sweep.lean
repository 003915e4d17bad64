import Reconfig.Proofs.Surroundings

/-!
# Comparing in two sweeps

A comparison can be made key by key. A first sweep visits the desired keys; the first time that it
finds one to be new within an instance that exists, it fills that instance: all current keys below
it which are not desired return to their defaults. A second sweep visits the current keys. What has
been noted on a key is not replaced when the key is met again. In whatever order the keys are
visited, what has been noted in the end is the report.

* `Sweep`, `DiffReport.on`: what has been noted, as a whole and on one key;
* `Comparison.fill`, `visitDesired`, `visitCurrent`, **`Comparison.sweep`**;
* `on_foldl`: visits that concern one key each;
* `Comparison.filledOutcome`, `on_fill`: what filling an instance does to a key;
* `Comparison.Swept`, **`swept_visitDesired`**: the first sweep, visit by visit;
* `on_report`, **`sweep_eq_report`**: the two sweeps find what the comparison reports.
-/

namespace Reconfig

open Reconfig.Path (parse)

/-! ## Notes -/

/-- What a report says about a key. -/
def DiffReport.on (r : DiffReport) (key : String) : Outcome :=
  ⟨r.changes.find? key, r.unresolved.contains key⟩

/-- What has been noted while keys are visited. -/
structure Sweep extends DiffReport where
  /-- The instances that have been filled. -/
  filled : List Path

namespace Sweep

/-- Nothing has been noted. -/
def start : Sweep := ⟨⟨∅, ∅⟩, []⟩

/-- Note the change of a key, if there is one. -/
def note (w : Sweep) (key : String) : Option Change → Sweep
  | some change => { w with changes := w.changes.insert key change }
  | none => w

/-- Note what becomes of a key; a change that was noted before stays. -/
def noteNew (w : Sweep) (key : String) (o : Outcome) : Sweep where
  changes :=
    match o.change? with
    | some change => w.changes.insertNew key change
    | none => w.changes
  unresolved := if o.isUnresolved then w.unresolved.add key else w.unresolved
  filled := w.filled

theorem on_note (w : Sweep) (k : String) (change? : Option Change) (key : String) :
    (w.note k change?).on key =
      if key = k then ⟨change?.or (w.on key).change?, (w.on key).isUnresolved⟩ else w.on key := by
  cases change? with
  | none => simp [note]
  | some change =>
    simp only [note, DiffReport.on, Dict.find?_insert]
    split_ifs <;> rfl

theorem on_noteNew (w : Sweep) (k : String) (o : Outcome) (key : String) :
    (w.noteNew k o).on key =
      if key = k then
        ⟨(w.on key).change?.or o.change?, (w.on key).isUnresolved || o.isUnresolved⟩
      else w.on key := by
  have hchanges : (w.noteNew k o).changes.find? key =
      if key = k then (w.changes.find? key).or o.change? else w.changes.find? key := by
    rw [noteNew]
    cases o.change? with
    | none => simp
    | some change => exact Dict.find?_insertNew _ _ _ _
  have hunresolved : (w.noteNew k o).unresolved.contains key =
      if key = k then w.unresolved.contains key || o.isUnresolved
        else w.unresolved.contains key := by
    rw [noteNew]
    cases o.isUnresolved with
    | false => simp
    | true =>
      simp only [if_true, TextSet.add, Dict.contains, Dict.find?_insert]
      split_ifs <;> simp
  rw [DiffReport.on, hchanges, hunresolved]
  split_ifs <;> rfl

/-- **Visits that concern one key each**: what is noted on a key comes from the visit of it. -/
theorem on_foldl {f : Sweep → String × Value → Sweep} {g : String × Value → Outcome → Outcome}
    (hf : ∀ w e key, (f w e).on key = if key = e.1 then g e (w.on key) else w.on key)
    {l : List (String × Value)} (hl : l.Pairwise fun a b => a.1 ≠ b.1) (w : Sweep)
    (key : String) : (l.foldl f w).on key =
      match l.lookup key with
      | some v => g (key, v) (w.on key)
      | none => w.on key := by
  induction l generalizing w with
  | nil => rfl
  | cons e rest ih =>
    obtain ⟨k, v⟩ := e
    rw [List.pairwise_cons] at hl
    rw [List.foldl_cons, ih hl.2, hf, List.lookup_cons]
    by_cases hkey : key = k
    · subst hkey
      have hrest : rest.lookup key = none :=
        Dict.lookup_eq_none_of_not_mem fun e he => (hl.1 e he).symm
      simp [hrest]
    · simp [hkey, beq_eq_false_iff_ne.2 hkey]

end Sweep

/-! ## The sweeps -/

namespace Comparison

variable (c : Comparison)

/-- Return a current key to its default if it is below the instance, not left out and not desired,
and has no change. -/
def fillKey (s : Path) (w : Sweep) (e : String × Value) : Sweep :=
  let path := parse e.1
  if !s.isPrefixOf path || isExcluded c.options path || c.desired.contains e.1 ||
      w.changes.contains e.1 then w
  else w.noteNew e.1 (c.resetOutcome path e.2)

/-- Fill an instance, unless that has been done. -/
def fill (current : List (String × Value)) (s : Path) (w : Sweep) : Sweep :=
  if w.filled.contains s then w
  else current.foldl (c.fillKey s) { w with filled := s :: w.filled }

/-- Visit a desired key. -/
def visitDesired (current : List (String × Value)) (w : Sweep) (e : String × Value) : Sweep :=
  let w :=
    match c.reopenedBy? e.1 with
    | some s => c.fill current s w
    | none => w
  w.note e.1 (c.desiredChange? e.1 e.2)

/-- Visit a current key. -/
def visitCurrent (w : Sweep) (e : String × Value) : Sweep :=
  let path := parse e.1
  if c.desired.contains e.1 || w.changes.contains e.1 || isExcluded c.options path then w
  else
    match c.removedAround? path with
    | some s => w.note e.1 (removalAt path s e.2)
    | none => w.noteNew e.1 (c.resetOutcome path e.2)

/-- **The comparison key by key**: all desired keys are visited, then all current ones. -/
def sweep (desired current : List (String × Value)) : Sweep :=
  current.foldl c.visitCurrent (desired.foldl (c.visitDesired current) .start)

variable {c}

/-! ## Filling -/

/-- What becomes of a key once some instances have been filled. -/
def filledOutcome (c : Comparison) (filled : List Path) (key : String) : Outcome :=
  match c.current.find? key with
  | some w =>
    if isExcluded c.options (parse key) then .unchanged
    else if filled.any fun s => s.isPrefixOf (parse key) then c.resetOutcome (parse key) w
    else .unchanged
  | none => .unchanged

/-- What the filling of an instance makes of a key, after what has been noted on it. -/
def fillNote (c : Comparison) (s : Path) (e : String × Value) (before : Outcome) : Outcome :=
  if !s.isPrefixOf (parse e.1) || isExcluded c.options (parse e.1) || c.desired.contains e.1 ||
      before.change?.isSome then before
  else
    ⟨(c.resetOutcome (parse e.1) e.2).change?,
      before.isUnresolved || (c.resetOutcome (parse e.1) e.2).isUnresolved⟩

theorem on_fillKey (s : Path) (w : Sweep) (e : String × Value) (key : String) :
    (c.fillKey s w e).on key = if key = e.1 then c.fillNote s e (w.on key) else w.on key := by
  by_cases hkey : key = e.1
  · subst hkey
    have hchange : w.changes.contains e.1 = (w.on e.1).change?.isSome := rfl
    simp only [fillKey, fillNote, hchange, if_true]
    split_ifs with h
    · rfl
    · simp only [Bool.or_eq_true, not_or, Bool.not_eq_true, Option.isSome_eq_false_iff,
        Option.isNone_iff_eq_none] at h
      rw [Sweep.on_noteNew, if_pos rfl, h.2, Option.none_or]
  · rw [if_neg hkey, fillKey]
    split_ifs
    · rfl
    · rw [Sweep.on_noteNew, if_neg hkey]

theorem filled_foldl_fillKey (s : Path) (current : List (String × Value)) (w : Sweep) :
    (current.foldl (c.fillKey s) w).filled = w.filled := by
  induction current generalizing w with
  | nil => rfl
  | cons e rest ih =>
    rw [List.foldl_cons, ih, fillKey]
    split_ifs <;> rfl

theorem fillNote_filledOutcome {s : Path} {filled : List Path} {key : String} {v : Value}
    (hv : c.current.find? key = some v) (hkey : c.desired.find? key = none) :
    c.fillNote s (key, v) (c.filledOutcome filled key) = c.filledOutcome (s :: filled) key := by
  have hdesired : c.desired.contains key = false := Dict.contains_eq_false.2 hkey
  by_cases hx : isExcluded c.options (parse key) = true
  · simp [fillNote, filledOutcome, hv, hx]
  by_cases hs : s.isPrefixOf (parse key) = true
  · simp only [fillNote, filledOutcome, hv, hx, hs, hdesired, List.any_cons]
    cases hreset : c.resetOutcome (parse key) v with
    | mk change? isUnresolved =>
      by_cases hf : (filled.any fun s => s.isPrefixOf (parse key)) = true <;>
        cases change? <;> simp [hf, Outcome.unchanged]
  · simp [fillNote, filledOutcome, hv, hs]

section Fill

variable {current : List (String × Value)} (hcurrent : current.Perm c.current.entries)

include hcurrent

theorem on_foldl_fillKey (s : Path) (w : Sweep) (key : String) :
    (current.foldl (c.fillKey s) w).on key =
      match c.current.find? key with
      | some v => c.fillNote s (key, v) (w.on key)
      | none => w.on key := by
  have hdistinct := hcurrent.symm.pairwise c.current.entries_distinct fun hne => hne.symm
  rw [← Dict.lookup_of_perm hcurrent key]
  exact Sweep.on_foldl (g := c.fillNote s) (on_fillKey s) hdistinct w key

/-- **Filling one more instance** returns the keys below it to their defaults. -/
theorem on_fill (s : Path) {w : Sweep} {key : String} (hkey : c.desired.find? key = none)
    (h : w.on key = c.filledOutcome w.filled key) :
    (c.fill current s w).on key = c.filledOutcome (c.fill current s w).filled key := by
  unfold fill
  split_ifs
  · exact h
  · rw [filled_foldl_fillKey, on_foldl_fillKey hcurrent]
    change (match c.current.find? key with
      | some v => c.fillNote s (key, v) (w.on key)
      | none => w.on key) = _
    rw [h]
    cases hv : c.current.find? key with
    | none => simp [filledOutcome, hv]
    | some v => exact fillNote_filledOutcome hv hkey

theorem on_fill_of_desired (s : Path) (w : Sweep) {key : String}
    (hkey : c.desired.contains key = true) : (c.fill current s w).on key = w.on key := by
  unfold fill
  split_ifs
  · rfl
  · rw [on_foldl_fillKey hcurrent]
    cases c.current.find? key with
    | none => rfl
    | some v =>
      simp only [fillNote, hkey, Bool.or_true, Bool.true_or, if_true]

end Fill

theorem mem_filled_fill (current : List (String × Value)) (s : Path) (w : Sweep) (t : Path) :
    t ∈ (c.fill current s w).filled ↔ t = s ∨ t ∈ w.filled := by
  unfold fill
  split_ifs with h
  · rw [List.contains_iff_mem] at h
    exact ⟨.inr, fun ht => ht.elim (fun heq => heq ▸ h) id⟩
  · rw [filled_foldl_fillKey, List.mem_cons]

/-! ## The first sweep -/

/-- **What has been noted when some desired keys have been visited**: their changes, and what the
instances in which one of them is new have been filled with. -/
structure Swept (c : Comparison) (visited : List (String × Value)) (w : Sweep) : Prop where
  mem_filled : ∀ s, s ∈ w.filled ↔ ∃ e ∈ visited, c.reopenedBy? e.1 = some s
  on_desired : ∀ key v, c.desired.find? key = some v →
    w.on key = ⟨if key ∈ visited.map (·.1) then c.desiredChange? key v else none, false⟩
  on_other : ∀ key, c.desired.find? key = none → w.on key = c.filledOutcome w.filled key

theorem swept_start (c : Comparison) : c.Swept [] .start where
  mem_filled s := by simp [Sweep.start]
  on_desired key v _ := rfl
  on_other key _ := by
    unfold filledOutcome
    split
    · simp only [Sweep.start, List.any_nil, Bool.false_eq_true, if_false, ite_self]
      rfl
    · rfl

theorem filled_note (w : Sweep) (key : String) (change? : Option Change) :
    (w.note key change?).filled = w.filled := by
  cases change? <;> rfl

section First

variable {current : List (String × Value)} (hcurrent : current.Perm c.current.entries)

include hcurrent

theorem Swept.visit {visited : List (String × Value)} {w : Sweep} (h : c.Swept visited w)
    {e : String × Value} (he : c.desired.find? e.1 = some e.2) (hnew : e.1 ∉ visited.map (·.1)) :
    c.Swept (visited ++ [e]) (c.visitDesired current w e) := by
  have hcontains : ∀ {key v}, c.desired.find? key = some v → c.desired.contains key = true :=
    fun hv => Dict.contains_eq_true.2 ⟨_, hv⟩
  -- the sweep after the instance has been filled, if the key reopens one
  obtain ⟨w', hw', hfilled, hdesired, hother⟩ : ∃ w' : Sweep,
      c.visitDesired current w e = w'.note e.1 (c.desiredChange? e.1 e.2) ∧
        (∀ s, s ∈ w'.filled ↔ s ∈ w.filled ∨ c.reopenedBy? e.1 = some s) ∧
        (∀ key v, c.desired.find? key = some v → w'.on key = w.on key) ∧
        ∀ key, c.desired.find? key = none → w'.on key = c.filledOutcome w'.filled key := by
    unfold visitDesired
    cases c.reopenedBy? e.1 with
    | none =>
      exact ⟨w, rfl, fun s => by simp, fun _ _ _ => rfl, h.on_other⟩
    | some s =>
      refine ⟨c.fill current s w, rfl, fun t => ?_,
        fun key v hv => on_fill_of_desired hcurrent s w (hcontains hv),
        fun key hkey => on_fill hcurrent s hkey (h.on_other key hkey)⟩
      rw [mem_filled_fill, or_comm, Option.some.injEq, eq_comm]
  rw [hw']
  refine ⟨fun s => ?_, fun key v hv => ?_, fun key hkey => ?_⟩
  · rw [filled_note, hfilled, h.mem_filled]
    simp [or_and_right, exists_or]
  · rw [Sweep.on_note, hdesired key v hv, h.on_desired key v hv]
    by_cases heq : key = e.1
    · subst heq
      obtain rfl := Option.some.inj (he.symm.trans hv)
      simp [hnew]
    · have hmem : key ∈ (visited ++ [e]).map (·.1) ↔ key ∈ visited.map (·.1) := by simp [heq]
      simp only [if_neg heq, hmem]
  · have hne : key ≠ e.1 := by
      rintro rfl
      exact nomatch hkey.symm.trans he
    rw [Sweep.on_note, if_neg hne, filled_note, hother key hkey]

theorem swept_foldl {visited : List (String × Value)}
    (hdistinct : visited.Pairwise fun a b => a.1 ≠ b.1)
    (hvisited : ∀ e ∈ visited, c.desired.find? e.1 = some e.2) :
    c.Swept visited (visited.foldl (c.visitDesired current) .start) := by
  induction visited using List.reverseRecOn with
  | nil => exact c.swept_start
  | append_singleton before e ih =>
    rw [List.pairwise_append] at hdistinct
    rw [List.foldl_append]
    refine (ih hdistinct.1 fun e' he' => hvisited e' (List.mem_append_left _ he')).visit hcurrent
      (hvisited e (List.mem_append_right _ List.mem_cons_self)) fun hmem => ?_
    obtain ⟨e', he', heq⟩ := List.mem_map.1 hmem
    exact hdistinct.2.2 e' he' e List.mem_cons_self heq

theorem on_firstSweep {desired : List (String × Value)}
    (hdesired : desired.Perm c.desired.entries) (key : String) :
    (desired.foldl (c.visitDesired current) .start).on key =
      match c.desired.find? key with
      | some v => ⟨c.desiredChange? key v, false⟩
      | none => c.filledOutcome c.reopened key := by
  have hdistinct := hdesired.symm.pairwise c.desired.entries_distinct fun hne => hne.symm
  have hswept := swept_foldl hcurrent hdistinct fun e he =>
    Dict.mem_entries.1 (hdesired.mem_iff.1 he)
  cases hv : c.desired.find? key with
  | some v =>
    have hmem : key ∈ desired.map (·.1) := List.mem_map.2
      ⟨(key, v), hdesired.mem_iff.2 (Dict.mem_entries.2 hv), rfl⟩
    rw [hswept.on_desired key v hv, if_pos hmem]
  | none =>
    rw [hswept.on_other key hv]
    have hfilled : ∀ p : Path, (desired.foldl (c.visitDesired current) .start).filled.any
        (fun s => s.isPrefixOf p) = c.reopened.any fun s => s.isPrefixOf p := by
      intro p
      rw [Bool.eq_iff_iff, List.any_eq_true, List.any_eq_true]
      refine exists_congr fun s => and_congr_left fun _ => ?_
      rw [hswept.mem_filled, reopened, List.mem_eraseDups, List.mem_filterMap]
      simp only [Dict.keys, List.mem_map, hdesired.mem_iff, exists_exists_and_eq_and]
    simp only [filledOutcome, hfilled]

end First

/-! ## The second sweep -/

/-- What the second sweep makes of a key, after what has been noted on it. -/
def currentNote (c : Comparison) (e : String × Value) (before : Outcome) : Outcome :=
  if c.desired.contains e.1 || before.change?.isSome || isExcluded c.options (parse e.1) then before
  else
    match c.removedAround? (parse e.1) with
    | some s => ⟨removalAt (parse e.1) s e.2, before.isUnresolved⟩
    | none => ⟨(c.resetOutcome (parse e.1) e.2).change?,
        before.isUnresolved || (c.resetOutcome (parse e.1) e.2).isUnresolved⟩

theorem on_visitCurrent (w : Sweep) (e : String × Value) (key : String) :
    (c.visitCurrent w e).on key = if key = e.1 then c.currentNote e (w.on key) else w.on key := by
  by_cases hkey : key = e.1
  · subst hkey
    have hchange : w.changes.contains e.1 = (w.on e.1).change?.isSome := rfl
    simp only [visitCurrent, currentNote, hchange, if_true]
    split_ifs with h
    · rfl
    · simp only [Bool.or_eq_true, not_or, Bool.not_eq_true, Option.isSome_eq_false_iff,
        Option.isNone_iff_eq_none] at h
      split
      · rw [Sweep.on_note, if_pos rfl, h.1.2, Option.or_none]
      · rw [Sweep.on_noteNew, if_pos rfl, h.1.2, Option.none_or]
  · rw [if_neg hkey, visitCurrent]
    split_ifs
    · rfl
    · split
      · rw [Sweep.on_note, if_neg hkey]
      · rw [Sweep.on_noteNew, if_neg hkey]

theorem on_report (c : Comparison) (key : String) : c.report.on key =
    match c.desired.find? key with
    | some v => ⟨c.desiredChange? key v, false⟩
    | none =>
      match c.current.find? key with
      | some w => c.currentOutcome c.reopened key w
      | none => .unchanged := by
  cases hv : c.desired.find? key with
  | some v =>
    have hunresolved : c.report.unresolved.contains key = false := by
      rw [← Bool.not_eq_true, contains_unresolved]
      rintro ⟨w, -, hw⟩
      rw [currentOutcome_of_desired w (Dict.contains_eq_true.2 ⟨v, hv⟩)] at hw
      cases hw
    rw [DiffReport.on, find?_report_of_desired hv, hunresolved]
  | none =>
    rw [DiffReport.on, find?_report_of_not_desired hv]
    cases hw : c.current.find? key with
    | none => rw [(report_of_missing hv hw).2]; rfl
    | some w =>
      have hunresolved : c.report.unresolved.contains key =
          (c.currentOutcome c.reopened key w).isUnresolved := by
        rw [Bool.eq_iff_iff, contains_unresolved, hw]
        simp
      rw [hunresolved, Option.bind_some]

theorem currentNote_filledOutcome {key : String} {v : Value} (hkey : c.desired.find? key = none)
    (hv : c.current.find? key = some v) :
    c.currentNote (key, v) (c.filledOutcome c.reopened key) =
      c.currentOutcome c.reopened key v := by
  have hdesired : c.desired.contains key = false := Dict.contains_eq_false.2 hkey
  rw [currentNote, hdesired]
  by_cases hx : isExcluded c.options (parse key) = true
  · rw [currentOutcome_of_excluded v hx, filledOutcome, hv, hx]
    simp
  rw [Bool.not_eq_true] at hx
  have hfilled : c.filledOutcome c.reopened key = c.outcomeAround (parse key) v := by
    simp only [filledOutcome, hv, hx, Bool.false_eq_true, if_false]
    rfl
  rw [hfilled, currentOutcome_eq hkey hx, hx]
  cases c.removedAround? (parse key) with
  | some s =>
    dsimp only
    rw [removedOutcome_eq]
    cases c.outcomeAround (parse key) v with
    | mk change? isUnresolved => cases change? <;> simp
  | none =>
    -- if an instance around the key has been filled, the return to the default is noted twice
    dsimp only
    rw [outcomeAround]
    cases c.reopensAround (parse key) with
    | true =>
      cases hreset : c.resetOutcome (parse key) v with
      | mk change? isUnresolved => cases change? <;> simp
    | false => simp [Outcome.unchanged]

/-- **The two sweeps find what the comparison reports**, in whatever order they visit the keys. -/
theorem sweep_eq_report {desired current : List (String × Value)}
    (hdesired : desired.Perm c.desired.entries) (hcurrent : current.Perm c.current.entries) :
    (c.sweep desired current).toDiffReport = c.report := by
  refine DiffReport.ext_sameAt fun key => ?_
  suffices h : (c.sweep desired current).on key = c.report.on key from
    ⟨congrArg Outcome.change? h, congrArg Outcome.isUnresolved h⟩
  have hdistinct := hcurrent.symm.pairwise c.current.entries_distinct fun hne => hne.symm
  rw [sweep, Sweep.on_foldl on_visitCurrent hdistinct, on_firstSweep hcurrent hdesired, on_report,
    Dict.lookup_of_perm hcurrent]
  cases hkey : c.desired.find? key with
  | some v =>
    have hdesired : c.desired.contains key = true := Dict.contains_eq_true.2 ⟨v, hkey⟩
    cases c.current.find? key <;> simp [currentNote, hdesired]
  | none =>
    cases hv : c.current.find? key with
    | none => simp [filledOutcome, hv]
    | some v => exact currentNote_filledOutcome hkey hv

end Comparison

end Reconfig
