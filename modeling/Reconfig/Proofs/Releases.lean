import Mathlib.Data.List.TakeWhile
import Reconfig.Schema.Registry

/-!
# The releases of builds

The name of a build is a release and whatever follows it, up to the next character that is no
digit. A release is read off from the front, greedily; here the names that have one are described
without reading, and the two are shown to agree. A release is its own release.

* `isBlank_of_decimalDigit`: no digit is blank;
* `Text.trimEnd_append_of_getLast?`: the removal of blanks leaves what ends in none;
* `Version.IsRun`, `Version.IsRelease`, `Version.IsBuildOf`: runs of digits, releases, and the names
  of their builds;
* `Version.core?_eq_some`: what is read at the front of a text;
* **`releaseOf_eq_ok`**, `releaseOf_eq_error`: the builds that have a release;
* **`release_is_normal_form`**.
-/

namespace Reconfig

/-! ## Digits and blanks -/

namespace Text

/-- The code points of the blank characters. -/
def blankPoints : List Nat :=
  [0x09, 0x0a, 0x0b, 0x0c, 0x0d, 0x20, 0x85, 0xa0, 0x1680, 0x2000, 0x2001, 0x2002, 0x2003, 0x2004,
   0x2005, 0x2006, 0x2007, 0x2008, 0x2009, 0x200a, 0x2028, 0x2029, 0x202f, 0x205f, 0x3000]

theorem toNat_mem_blankPoints {c : Char} (h : isBlank c = true) : c.toNat ∈ blankPoints := by
  simp only [isBlank, Bool.or_eq_true, Bool.and_eq_true, decide_eq_true_eq, beq_iff_eq] at h
  simp only [blankPoints, List.mem_cons, List.not_mem_nil, or_false]
  omega

theorem isBlank_of_decimalDigit {c : Char} (h : isDigit c = true) : isBlank c = false := by
  have hnone : ∀ n ∈ blankPoints, (digitZeros.any fun z => z ≤ n && n < z + 10) = false := by decide
  rw [Bool.eq_false_iff]
  intro hblank
  exact nomatch h.symm.trans (hnone _ (toNat_mem_blankPoints hblank))

theorem isDigit_point : isDigit '.' = false := by decide

theorem trimEnd_prefix (s : List Char) : trimEnd s <+: s := by
  obtain ⟨blanks, h⟩ := List.dropWhile_suffix isBlank (l := s.reverse)
  refine ⟨blanks.reverse, ?_⟩
  rw [trimEnd, ← List.reverse_append, h, List.reverse_reverse]

theorem trimEnd_append_of_getLast? {s : List Char} (hlast : ∀ c ∈ s.getLast?, isBlank c = false)
    (t : List Char) : trimEnd (s ++ t) = s ++ trimEnd t := by
  have hs : s.reverse.dropWhile isBlank = s.reverse := by
    have h := trimEnd_eq_self hlast
    rwa [trimEnd, List.reverse_eq_iff] at h
  rw [trimEnd, List.reverse_append, List.dropWhile_append, trimEnd]
  split
  · rename_i hempty
    rw [List.isEmpty_iff.1 hempty, hs, List.reverse_reverse, List.reverse_nil, List.append_nil]
  · rw [List.reverse_append, List.reverse_reverse]

end Text

open Text (isDigit isBlank trim trimEnd)

/-! ## Runs and releases -/

namespace Version

/-- A run of digits. -/
def IsRun (s : List Char) : Prop := s ≠ [] ∧ ∀ c ∈ s, isDigit c = true

instance (s : List Char) : Decidable (IsRun s) :=
  decidable_of_iff (s ≠ [] ∧ s.all isDigit = true) (by rw [IsRun, List.all_eq_true])

/-- A text does not go on with a digit. -/
def Stops (rest : List Char) : Prop := ∀ c ∈ rest.head?, isDigit c = false

instance (rest : List Char) : Decidable (Stops rest) :=
  decidable_of_iff (rest.head?.any isDigit = false) (by cases rest <;> simp [Stops])

/-- **A release**: three runs of digits with points between them. -/
inductive IsRelease : List Char → Prop
  | of {major minor patch : List Char} : IsRun major → IsRun minor → IsRun patch →
      IsRelease (major ++ '.' :: (minor ++ '.' :: patch))

/-- **A build of a release**: without the blanks around it, its name is the release and a text that
does not go on with a digit. -/
def IsBuildOf (build release : String) : Prop :=
  IsRelease release.toList ∧
    ∃ rest, trim build.toList = release.toList ++ rest ∧ Stops rest

theorem stops_point (s : List Char) : Stops ('.' :: s) := fun _ h =>
  Option.some.inj h ▸ Text.isDigit_point

theorem run?_eq_some {s d rest : List Char} :
    run? s = some (d, rest) ↔ IsRun d ∧ s = d ++ rest ∧ Stops rest := by
  rw [run?]
  constructor
  · intro h
    split_ifs at h with hnil
    cases h
    refine ⟨⟨hnil, fun c hc => List.mem_takeWhile_imp hc⟩, List.takeWhile_append_dropWhile.symm, ?_⟩
    intro c hc
    have hnot := List.head?_dropWhile_not isDigit s
    rwa [hc] at hnot
  · rintro ⟨⟨hne, hd⟩, rfl, hstops⟩
    have hrest : rest.takeWhile isDigit = [] ∧ rest.dropWhile isDigit = rest := by
      cases rest with
      | nil => exact ⟨rfl, rfl⟩
      | cons c more => simp [hstops c rfl]
    rw [List.takeWhile_append_of_pos hd, List.dropWhile_append_of_pos hd, hrest.1, hrest.2,
      List.append_nil, if_neg hne]

theorem pointRun?_eq_some {s d rest : List Char} :
    pointRun? s = some (d, rest) ↔ IsRun d ∧ s = '.' :: (d ++ rest) ∧ Stops rest := by
  unfold pointRun?
  split
  · rename_i more
    rw [run?_eq_some, List.cons.injEq, eq_self, true_and]
  · rename_i hpoint
    constructor
    · exact fun h => nomatch h
    · rintro ⟨-, rfl, -⟩
      exact absurd rfl (hpoint _)

/-- **What is read at the front of a text** is a release up to its end. -/
theorem core?_eq_some {s release : List Char} :
    core? s = some release ↔ IsRelease release ∧ ∃ rest, s = release ++ rest ∧ Stops rest := by
  simp only [core?, bind, Option.bind_eq_some_iff, Prod.exists, Option.some.injEq]
  constructor
  · rintro ⟨major, _, h, minor, _, h', patch, rest, h'', rfl⟩
    obtain ⟨hmajor, rfl, -⟩ := run?_eq_some.1 h
    obtain ⟨hminor, rfl, -⟩ := pointRun?_eq_some.1 h'
    obtain ⟨hpatch, rfl, hstops⟩ := pointRun?_eq_some.1 h''
    exact ⟨.of hmajor hminor hpatch, rest, by simp, hstops⟩
  · rintro ⟨⟨hmajor, hminor, hpatch⟩, rest, rfl, hstops⟩
    rename_i major minor patch
    exact ⟨major, _, run?_eq_some.2 ⟨hmajor, by simp, stops_point _⟩, minor, _,
      pointRun?_eq_some.2 ⟨hminor, rfl, stops_point _⟩, patch, rest,
      pointRun?_eq_some.2 ⟨hpatch, rfl, hstops⟩, rfl⟩

/-! ## Releases among their builds -/

theorem IsRun.exists_concat {s : List Char} (h : IsRun s) :
    ∃ before c, s = before ++ [c] ∧ isDigit c = true := by
  refine ⟨s.dropLast, s.getLast h.1, (List.dropLast_concat_getLast h.1).symm, ?_⟩
  exact h.2 _ (List.getLast_mem h.1)

theorem IsRelease.ne_nil {s : List Char} (h : IsRelease s) : s ≠ [] := by
  obtain ⟨-, -, -⟩ := h
  simp

theorem IsRelease.isBlank_ends {s : List Char} (h : IsRelease s) :
    (∀ c ∈ s.head?, isBlank c = false) ∧ ∀ c ∈ s.getLast?, isBlank c = false := by
  obtain ⟨hmajor, -, hpatch⟩ := h
  rename_i major minor patch
  constructor
  · obtain ⟨d, more, rfl⟩ := List.exists_cons_of_ne_nil hmajor.1
    intro c hc
    cases hc
    exact Text.isBlank_of_decimalDigit (hmajor.2 d List.mem_cons_self)
  · obtain ⟨before, d, rfl, hd⟩ := hpatch.exists_concat
    intro c hc
    have heq : major ++ '.' :: (minor ++ '.' :: (before ++ [d])) =
        (major ++ '.' :: (minor ++ '.' :: before)) ++ [d] := by simp
    rw [heq, List.getLast?_concat] at hc
    cases hc
    exact Text.isBlank_of_decimalDigit hd

theorem IsRelease.trim_append {s : List Char} (h : IsRelease s) (rest : List Char) :
    trim (s ++ rest) = s ++ trimEnd rest := by
  obtain ⟨hhead, hlast⟩ := h.isBlank_ends
  have hdrop : (s ++ rest).dropWhile isBlank = s ++ rest := by
    obtain ⟨c, more, rfl⟩ := List.exists_cons_of_ne_nil h.ne_nil
    simp [hhead c rfl]
  rw [trim, hdrop, Text.trimEnd_append_of_getLast? hlast]

theorem Stops.trimEnd {rest : List Char} (h : Stops rest) : Stops (trimEnd rest) := by
  obtain ⟨blanks, hblanks⟩ := Text.trimEnd_prefix rest
  intro c hc
  refine h c ?_
  rw [← hblanks, List.head?_append, hc]
  rfl

theorem IsRelease.isBuildOf_append {release rest : String} (h : IsRelease release.toList)
    (hrest : Stops rest.toList) : IsBuildOf (release ++ rest) release :=
  ⟨h, trimEnd rest.toList, by rw [String.toList_append, h.trim_append], hrest.trimEnd⟩

end Version

/-! ## The release of a build -/

open Version (IsRelease IsBuildOf Stops)

/-- **The builds that have a release** are those of releases. -/
theorem releaseOf_eq_ok {build release : String} :
    releaseOf build = .ok release ↔ IsBuildOf build release := by
  have hrelease : Version.release? build = some release ↔ IsBuildOf build release := by
    rw [Version.release?, Option.map_eq_some_iff, IsBuildOf, ← Version.core?_eq_some]
    constructor
    · rintro ⟨chars, hchars, rfl⟩
      rwa [String.toList_ofList]
    · exact fun h => ⟨release.toList, h, String.ofList_toList⟩
  rw [← hrelease, releaseOf]
  cases Version.release? build <;> simp

theorem releaseOf_eq_error {build : String} {e : SchemaError} :
    releaseOf build = .error e ↔
      (∀ release, ¬ IsBuildOf build release) ∧ e = .versionInvalid build := by
  simp only [← releaseOf_eq_ok, releaseOf]
  cases Version.release? build <;> simp [eq_comm]

/-- **The release of a build is a normal form of it.** A build has a release if and only if its
name, without blanks around it, is three runs of digits with points between them and a rest that
does not go on with a digit, and then those runs are the release; any other build is invalid. There
is only one such way to take a name apart; and a release is its own release, and that of whatever
does not go on with a digit behind it. -/
theorem release_is_normal_form :
    (∀ build release : String, releaseOf build = .ok release ↔
      IsRelease release.toList ∧ ∃ rest, trim build.toList = release.toList ++ rest ∧ Stops rest) ∧
    (∀ build : String, (∀ release, ¬ IsBuildOf build release) ↔
      releaseOf build = .error (.versionInvalid build)) ∧
    (∀ build release release' : String, IsBuildOf build release → IsBuildOf build release' →
      release = release') ∧
    ∀ release : String, IsRelease release.toList →
      releaseOf release = .ok release ∧
        ∀ rest : String, Stops rest.toList → releaseOf (release ++ rest) = .ok release := by
  refine ⟨fun build release => releaseOf_eq_ok, fun build => ?_,
    fun build release release' h h' => ?_, fun release h => ?_⟩
  · rw [releaseOf_eq_error, and_iff_left rfl]
  · exact Except.ok.inj ((releaseOf_eq_ok.2 h).symm.trans (releaseOf_eq_ok.2 h'))
  · have hbuild : ∀ rest : String, Stops rest.toList → releaseOf (release ++ rest) = .ok release :=
      fun rest hrest => releaseOf_eq_ok.2 (h.isBuildOf_append hrest)
    refine ⟨?_, hbuild⟩
    have hempty := hbuild "" fun _ hc => nomatch hc
    rwa [String.append_empty] at hempty

/-- A release in digits of another script, with a point and a blank behind it. -/
theorem release_is_normal_form_of_arabic :
    IsRelease "\u0667.\u0660.\u0661\u0660".toList ∧ Stops ".x ".toList ∧
      releaseOf ("\u0667.\u0660.\u0661\u0660" ++ ".x ") = .ok "\u0667.\u0660.\u0661\u0660" := by
  have hruns : Version.IsRun ['\u0667'] ∧ Version.IsRun ['\u0660'] ∧
      Version.IsRun ['\u0661', '\u0660'] := by decide
  have hrelease : IsRelease "\u0667.\u0660.\u0661\u0660".toList :=
    .of hruns.1 hruns.2.1 hruns.2.2
  have hstops : Stops ".x ".toList := by decide
  exact ⟨hrelease, hstops, (release_is_normal_form.2.2.2 _ hrelease).2 _ hstops⟩

end Reconfig
