import Reconfig.Proofs.Dict
import Reconfig.Proofs.Releases

/-!
# Registries hold every document

Documents are added to a registry one after the other, each under the release of its build, and the
first that cannot be added decides the error. What a registry holds is described here by the list of
documents alone: no document is lost, and none stands in front of another one.

* `Registry.HasDistinctReleases`: the lists of documents that make a registry;
* `Registry.Refuses`: why a document cannot be added to those before it;
* `Registry.Holds`, `Registry.register_eq_error`, `Registry.holds_register`: what one addition
  preserves;
* **`Registry.outcome_registerAll`**: what all additions do, and which of them is the first to fail;
* `Registry.Serves`: the look-ups of a build, by the documents;
* **`registry_keeps_every_document`**.
-/

namespace Reconfig

namespace Registry

/-! ## Documents and their releases -/

/-- Every document is for a build with a release, and no two are for the same release. -/
structure HasDistinctReleases (documents : List (String × Json)) : Prop where
  /-- Every build has a release. -/
  valid : ∀ d ∈ documents, ∃ release, releaseOf d.1 = .ok release
  /-- A release does not come back. -/
  distinct : documents.Pairwise fun a b =>
    ∀ release, releaseOf a.1 = .ok release → releaseOf b.1 ≠ .ok release

/-- **Why a document cannot be added** to the documents before it: its build has no release, or the
release is that of an earlier one. -/
inductive Refuses (before : List (String × Json)) (build : String) : SchemaError → Prop
  | invalid : (∃ e, releaseOf build = .error e) → Refuses before build (.versionInvalid build)
  | repeated {release : String} : releaseOf build = .ok release →
      (∃ d ∈ before, releaseOf d.1 = .ok release) → Refuses before build (.duplicateVersion release)

/-- The document is the only one for a release. -/
def IsOnly (documents : List (String × Json)) (release : String) (d : String × Json) : Prop :=
  ∃ before after, documents = before ++ d :: after ∧ releaseOf d.1 = .ok release ∧
    ∀ other ∈ before ++ after, releaseOf other.1 ≠ .ok release

variable {documents before after : List (String × Json)} {d : String × Json}
  {build release : String}
  {e : SchemaError}

theorem hasDistinctReleases_nil : HasDistinctReleases [] := ⟨nofun, .nil⟩

theorem Refuses.not_hasDistinctReleases (h : Refuses before d.1 e) :
    ¬ HasDistinctReleases (before ++ d :: after) := by
  intro hdocuments
  obtain ⟨release, hrelease⟩ := hdocuments.valid d (by simp)
  cases h with
  | invalid hnone =>
    obtain ⟨e, he⟩ := hnone
    exact nomatch hrelease.symm.trans he
  | repeated hd hbefore =>
    obtain ⟨d', hmem, hd'⟩ := hbefore
    exact (List.pairwise_append.1 hdocuments.distinct).2.2 d' hmem d List.mem_cons_self _ hd' hd

theorem HasDistinctReleases.concat (h : HasDistinctReleases before)
    (hd : releaseOf d.1 = .ok release) (hnew : ∀ d' ∈ before, releaseOf d'.1 ≠ .ok release) :
    HasDistinctReleases (before ++ [d]) where
  valid d' hd' := by
    rcases List.mem_append.1 hd' with hd' | hd'
    · exact h.valid d' hd'
    · exact ⟨release, List.mem_singleton.1 hd' ▸ hd⟩
  distinct := by
    refine List.pairwise_append.2 ⟨h.distinct, List.pairwise_singleton _ _, ?_⟩
    intro a ha b hb release' hrelease' hb'
    rw [List.mem_singleton.1 hb, hd] at hb'
    exact hnew a ha (Except.ok.inj hb' ▸ hrelease')

theorem HasDistinctReleases.isOnly (h : HasDistinctReleases documents) (hmem : d ∈ documents)
    (hd : releaseOf d.1 = .ok release) : IsOnly documents release d := by
  obtain ⟨before, after, rfl⟩ := List.append_of_mem hmem
  obtain ⟨-, hafter, hbefore⟩ := List.pairwise_append.1 h.distinct
  refine ⟨before, after, rfl, hd, fun other hother => ?_⟩
  rcases List.mem_append.1 hother with hother | hother
  · exact fun hrelease => hbefore other hother d List.mem_cons_self release hrelease hd
  · exact (List.pairwise_cons.1 hafter).1 other hother release hd

/-- **What makes no registry**: a build without a release, or two builds of one release. -/
theorem not_hasDistinctReleases_iff : ¬ HasDistinctReleases documents ↔
    (∃ d ∈ documents, ∃ e, releaseOf d.1 = .error e) ∨
      ∃ a b release, [a, b].Sublist documents ∧ releaseOf a.1 = .ok release ∧
        releaseOf b.1 = .ok release := by
  constructor
  · intro h
    by_contra hnot
    rw [not_or] at hnot
    obtain ⟨hvalid, hdistinct⟩ := hnot
    refine h ⟨fun d hd => ?_, List.pairwise_iff_forall_sublist.2 fun {a b} hsub release ha hb =>
      hdistinct ⟨a, b, release, hsub, ha, hb⟩⟩
    cases hrelease : releaseOf d.1 with
    | error e => exact absurd ⟨d, hd, e, hrelease⟩ hvalid
    | ok release => exact ⟨release, rfl⟩
  · rintro (⟨d, hd, e, he⟩ | ⟨a, b, release, hsub, ha, hb⟩) h
    · obtain ⟨release, hrelease⟩ := h.valid d hd
      exact nomatch hrelease.symm.trans he
    · exact List.pairwise_iff_forall_sublist.1 h.distinct hsub release ha hb

/-! ## One addition -/

/-- **A registry holds documents**: they have distinct releases, and the schema of a release is that
of its document. -/
structure Holds (r : Registry) (documents : List (String × Json)) : Prop
    extends HasDistinctReleases documents where
  /-- The schemas are those of the documents. -/
  find?_eq_some : ∀ release entry, r.find? release = some entry ↔
    ∃ d ∈ documents, releaseOf d.1 = .ok release ∧ entry = .ofDocument release d.2

variable {r r' : Registry} {document : Json}

theorem holds_empty : Holds ∅ [] :=
  ⟨hasDistinctReleases_nil, fun release entry => by
    constructor
    · exact fun h => nomatch h
    · rintro ⟨d, hd, -⟩
      cases hd⟩

theorem Holds.contains_eq_true (h : r.Holds documents) : r.contains release = true ↔
    ∃ d ∈ documents, releaseOf d.1 = .ok release := by
  rw [Dict.contains_eq_true]
  constructor
  · rintro ⟨entry, hentry⟩
    obtain ⟨d, hd, hrelease, -⟩ := (h.find?_eq_some release entry).1 hentry
    exact ⟨d, hd, hrelease⟩
  · rintro ⟨d, hd, hrelease⟩
    exact ⟨_, (h.find?_eq_some release _).2 ⟨d, hd, hrelease, rfl⟩⟩

theorem Holds.find?_eq_none (h : r.Holds documents) : r.find? release = none ↔
    ∀ d ∈ documents, releaseOf d.1 ≠ .ok release := by
  rw [← Dict.contains_eq_false, ← Bool.not_eq_true, h.contains_eq_true]
  simp only [not_exists, not_and, ne_eq]

/-- **An addition fails** exactly if the document cannot be added to those that are held. -/
theorem register_eq_error (h : r.Holds before) :
    r.register build document = .error e ↔ Refuses before build e := by
  rw [register]
  cases hrelease : releaseOf build with
  | error e' =>
    obtain ⟨-, rfl⟩ := releaseOf_eq_error.1 hrelease
    constructor
    · intro he
      cases he
      exact .invalid ⟨_, hrelease⟩
    · rintro (- | ⟨hok, -⟩)
      · rfl
      · exact nomatch hrelease.symm.trans hok
  | ok release =>
    dsimp only
    split_ifs with hcontains
    · constructor
      · intro he
        cases he
        exact .repeated hrelease (h.contains_eq_true.1 hcontains)
      · rintro (⟨e', he'⟩ | ⟨hok, -⟩)
        · exact nomatch hrelease.symm.trans he'
        · rw [Except.ok.inj (hrelease.symm.trans hok)]
    · constructor
      · exact fun he => nomatch he
      · rintro (⟨e', he'⟩ | ⟨hok, hbefore⟩)
        · exact nomatch hrelease.symm.trans he'
        · obtain rfl := Except.ok.inj (hrelease.symm.trans hok)
          exact absurd (h.contains_eq_true.2 hbefore) hcontains

/-- **An addition adds its document** to those that are held. -/
theorem holds_register (h : r.Holds before) (hr : r.register build document = .ok r') :
    r'.Holds (before ++ [(build, document)]) := by
  rw [register] at hr
  cases hrelease : releaseOf build with
  | error e =>
    rw [hrelease] at hr
    cases hr
  | ok added =>
    rw [hrelease] at hr
    dsimp only at hr
    split_ifs at hr with hcontains
    cases hr
    have hnew : ∀ d ∈ before, releaseOf d.1 ≠ .ok added := fun d hd heq =>
      hcontains (h.contains_eq_true.2 ⟨d, hd, heq⟩)
    refine ⟨h.toHasDistinctReleases.concat (d := (build, document)) hrelease hnew,
      fun release entry => ?_⟩
    simp only [List.mem_append, List.mem_singleton, or_and_right, exists_or, exists_eq_left]
    rw [Dict.find?_insert, ← h.find?_eq_some]
    split_ifs with hkey
    · subst hkey
      have hnone : r.find? release = none := h.find?_eq_none.2 hnew
      rw [hnone, hrelease]
      simp [eq_comm]
    · have hne : ¬ releaseOf build = .ok release := fun heq =>
        hkey (Except.ok.inj (heq.symm.trans hrelease))
      simp [hne]

/-! ## All additions -/

theorem registerAll_append (hr : r.registerAll before = .ok r') :
    r.registerAll (before ++ after) = r'.registerAll after := by
  induction before generalizing r with
  | nil =>
    cases hr
    rfl
  | cons d rest ih =>
    rw [List.cons_append, registerAll]
    rw [registerAll] at hr
    cases hd : r.register d.1 d.2 with
    | error e =>
      rw [hd] at hr
      cases hr
    | ok r'' =>
      rw [hd] at hr
      exact ih hr

/-- **All additions succeed, or the first that fails decides the error.** -/
theorem outcome_registerAll (h : r.Holds before) (documents : List (String × Json)) :
    (∃ r', r.registerAll documents = .ok r' ∧ r'.Holds (before ++ documents)) ∨
      ∃ e added d after, r.registerAll documents = .error e ∧ documents = added ++ d :: after ∧
        HasDistinctReleases (before ++ added) ∧ Refuses (before ++ added) d.1 e := by
  induction documents generalizing r before with
  | nil => exact .inl ⟨r, rfl, by rwa [List.append_nil]⟩
  | cons d rest ih =>
    rw [registerAll]
    cases hd : r.register d.1 d.2 with
    | error e =>
      refine .inr ⟨e, [], d, rest, rfl, rfl, ?_, ?_⟩
      · rw [List.append_nil]
        exact h.toHasDistinctReleases
      · rw [List.append_nil]
        exact (register_eq_error h).1 hd
    | ok r'' =>
      have hcons : ∀ l, before ++ [d] ++ l = before ++ d :: l := fun l =>
        (List.append_cons before d l).symm
      rcases ih (holds_register h hd) with
        ⟨r', hr', hholds⟩ | ⟨e, added, d', after, he, rfl, h', href⟩
      · rw [hcons] at hholds
        exact .inl ⟨r', hr', hholds⟩
      · rw [hcons] at h' href
        exact .inr ⟨e, d :: added, d', after, he, rfl, h', href⟩

theorem holds_ofDocuments (h : ofDocuments documents = .ok r) : r.Holds documents := by
  rcases outcome_registerAll holds_empty documents with ⟨r', hr', hholds⟩ | ⟨e, _, _, _, he, -⟩
  · rwa [Except.ok.inj (h.symm.trans hr')]
  · exact nomatch h.symm.trans he

theorem exists_ofDocuments (h : HasDistinctReleases documents) :
    ∃ r, ofDocuments documents = .ok r ∧ r.Holds documents := by
  rcases outcome_registerAll holds_empty documents with hok | ⟨e, added, d, after, -, rfl, -, href⟩
  · exact hok
  · exact absurd h href.not_hasDistinctReleases

/-- **The first document that cannot be added decides the error.** -/
theorem ofDocuments_eq_error : ofDocuments documents = .error e ↔
    ∃ before d after, documents = before ++ d :: after ∧ HasDistinctReleases before ∧
      Refuses before d.1 e := by
  constructor
  · intro h
    rcases outcome_registerAll holds_empty documents with
      ⟨r, hr, -⟩ | ⟨e', before, d, after, he', rfl, hbefore, href⟩
    · exact nomatch hr.symm.trans h
    · obtain rfl := Except.error.inj (h.symm.trans he')
      exact ⟨before, d, after, rfl, hbefore, href⟩
  · rintro ⟨before, d, after, rfl, hbefore, href⟩
    obtain ⟨r, hr, hholds⟩ := exists_ofDocuments hbefore
    rw [ofDocuments, registerAll_append hr, registerAll, (register_eq_error hholds).2 href]

theorem exists_error_ofDocuments :
    (∃ e, ofDocuments documents = .error e) ↔ ¬ HasDistinctReleases documents := by
  constructor
  · rintro ⟨e, he⟩
    obtain ⟨before, d, after, rfl, -, href⟩ := ofDocuments_eq_error.1 he
    exact href.not_hasDistinctReleases
  · intro h
    cases hr : ofDocuments documents with
    | error e => exact ⟨e, rfl⟩
    | ok r => exact absurd (holds_ofDocuments hr).toHasDistinctReleases h

/-! ## Look-ups -/

/-- **The look-ups of a build** find the document for its release, and fail for a build without a
release and for a release without a document. All of them succeed together. -/
structure Serves (r : Registry) (documents : List (String × Json)) (build : String) : Prop where
  /-- The build is invalid if and only if it has no release. -/
  invalid_iff : ∀ named, r.entry build = .error (.versionInvalid named) ↔
    named = build ∧ ∃ e, releaseOf build = .error e
  /-- The schema is that of the one document for the release of the build. -/
  entry_iff : ∀ entry, r.entry build = .ok entry ↔ ∃ release d, releaseOf build = .ok release ∧
    IsOnly documents release d ∧ entry = .ofDocument release d.2
  /-- The release is unsupported if and only if there is no document for it. -/
  unsupported_iff : ∀ release, r.entry build = .error (.versionUnsupported release) ↔
    releaseOf build = .ok release ∧ ∀ d ∈ documents, releaseOf d.1 ≠ .ok release
  /-- There are defaults. -/
  defaults_iff : (∃ defaults, r.defaults build = .ok defaults) ↔ ∃ entry, r.entry build = .ok entry
  /-- There are keys that may change on a running node, if only none of them. -/
  dynamic_iff : (∃ keys, r.dynamic build = .ok keys) ↔ ∃ entry, r.entry build = .ok entry
  /-- There are required fields. -/
  required_iff : (∃ sets, r.required build = .ok sets) ↔ ∃ entry, r.entry build = .ok entry
  /-- There is an answer on missing fields. -/
  missing_iff : ∀ context present,
    (∃ names?, r.missing? build context present = .ok names?) ↔ ∃ entry, r.entry build = .ok entry

theorem exists_map_eq_ok {ε α β : Type} (x : Except ε α) (f : α → β) :
    (∃ b, x.map f = .ok b) ↔ ∃ a, x = .ok a := by
  cases x with
  | error e => exact ⟨nofun, nofun⟩
  | ok a => exact ⟨fun _ => ⟨a, rfl⟩, fun _ => ⟨f a, rfl⟩⟩

theorem entry_of_error (h : releaseOf build = .error e) : r.entry build = .error e := by
  rw [entry, h]

theorem entry_of_find?_eq_some {entry : SchemaEntry} (h : releaseOf build = .ok release)
    (hfind : r.find? release = some entry) : r.entry build = .ok entry := by
  rw [Registry.entry, h]
  simp only [hfind]

theorem entry_of_find?_eq_none (h : releaseOf build = .ok release)
    (hfind : r.find? release = none) : r.entry build = .error (.versionUnsupported release) := by
  rw [entry, h]
  simp only [hfind]

theorem Holds.find?_eq_some_iff_isOnly (h : r.Holds documents) {entry : SchemaEntry} :
    r.find? release = some entry ↔
      ∃ d, IsOnly documents release d ∧ entry = .ofDocument release d.2 := by
  rw [h.find?_eq_some]
  constructor
  · rintro ⟨d, hmem, hd, rfl⟩
    exact ⟨d, h.toHasDistinctReleases.isOnly hmem hd, rfl⟩
  · rintro ⟨d, ⟨before, after, rfl, hd, -⟩, rfl⟩
    exact ⟨d, by simp, hd, rfl⟩

theorem Holds.serves (h : r.Holds documents) (build : String) : r.Serves documents build := by
  have hlookups {α : Type} (f : Catalogue → α) :
      (∃ a, (r.catalogue build).map f = .ok a) ↔ ∃ entry, r.entry build = .ok entry :=
    (exists_map_eq_ok _ f).trans (exists_map_eq_ok _ _)
  suffices hentry : (∀ named, r.entry build = .error (.versionInvalid named) ↔
        named = build ∧ ∃ e, releaseOf build = .error e) ∧
      (∀ entry, r.entry build = .ok entry ↔ ∃ release, releaseOf build = .ok release ∧
        r.find? release = some entry) ∧
      ∀ release, r.entry build = .error (.versionUnsupported release) ↔
        releaseOf build = .ok release ∧ r.find? release = none by
    obtain ⟨hinvalid, hok, hunsupported⟩ := hentry
    refine ⟨hinvalid, fun entry => ?_, fun release => ?_, hlookups _, hlookups _, hlookups _,
      fun context present => hlookups _⟩
    · simp only [hok, h.find?_eq_some_iff_isOnly, exists_and_left]
    · rw [hunsupported, h.find?_eq_none]
  cases hbuild : releaseOf build with
  | error e =>
    obtain ⟨-, rfl⟩ := releaseOf_eq_error.1 hbuild
    rw [entry_of_error hbuild]
    simp [eq_comm]
  | ok release =>
    cases hfind : r.find? release with
    | some entry =>
      rw [entry_of_find?_eq_some hbuild hfind]
      simp [hfind]
    | none =>
      rw [entry_of_find?_eq_none hbuild hfind]
      simp +contextual [hfind, eq_comm]

/-- **A registry neither loses a document nor hides one behind another.** Documents make no registry
if and only if one is for a build without a release or two are for one release, and the first that
cannot be added to those before it decides the error. A registry that they make finds for every
build the one document for its release, if there is one, and every look-up of a build succeeds
exactly then. -/
theorem registry_keeps_every_document (documents : List (String × Json)) :
    ((∃ e, ofDocuments documents = .error e) ↔
      (∃ d ∈ documents, ∃ e, releaseOf d.1 = .error e) ∨
        ∃ a b release, [a, b].Sublist documents ∧ releaseOf a.1 = .ok release ∧
          releaseOf b.1 = .ok release) ∧
    (∀ e, ofDocuments documents = .error e ↔ ∃ before d after, documents = before ++ d :: after ∧
      HasDistinctReleases before ∧ Refuses before d.1 e) ∧
    ∀ r, ofDocuments documents = .ok r → ∀ build, r.Serves documents build :=
  ⟨exists_error_ofDocuments.trans not_hasDistinctReleases_iff, fun _ => ofDocuments_eq_error,
    fun _ hr build => (holds_ofDocuments hr).serves build⟩

/-- Two documents make a registry, which serves a build of one of their releases, has nothing for
another release, and refuses a build without one. With a release that comes back, before a build
that has none, they make no registry, and of the two errors the first one is shown. -/
theorem registry_keeps_every_document_of_repeated :
    (∃ r, ofDocuments [("7.0.0.5-1", .object []), ("6.4.0", .bool true)] = .ok r ∧
      r.entry "6.4.0-rc1" = .ok (.ofDocument "6.4.0" (.bool true)) ∧
      r.entry "5.7.0.1" = .error (.versionUnsupported "5.7.0") ∧
      r.entry "v7" = .error (.versionInvalid "v7")) ∧
    ofDocuments [("7.0.0.5-1", .object []), ("6.4.0", .bool true), (" 7.0.0-rc2", .null),
      ("v7", .null)] = .error (.duplicateVersion "7.0.0") := by
  have h7 : releaseOf "7.0.0.5-1" = .ok "7.0.0" := by rfl
  have h6 : releaseOf "6.4.0" = .ok "6.4.0" := by rfl
  have hback : releaseOf " 7.0.0-rc2" = .ok "7.0.0" := by rfl
  have hserved : releaseOf "6.4.0-rc1" = .ok "6.4.0" := by rfl
  have hother : releaseOf "5.7.0.1" = .ok "5.7.0" := by rfl
  have hnone : releaseOf "v7" = .error (.versionInvalid "v7") := by rfl
  have hne : releaseOf "7.0.0.5-1" ≠ .ok "6.4.0" := by
    rw [h7]
    exact fun h => absurd (Except.ok.inj h) (by decide)
  have hdistinct : HasDistinctReleases [("7.0.0.5-1", .object []), ("6.4.0", .bool true)] :=
    (hasDistinctReleases_nil.concat (d := ("7.0.0.5-1", .object [])) h7 nofun).concat
      (d := ("6.4.0", .bool true)) h6 (List.forall_mem_singleton.2 hne)
  refine ⟨?_, ((registry_keeps_every_document _).2.1 _).2
    ⟨_, (" 7.0.0-rc2", .null), [("v7", .null)], rfl, hdistinct,
      .repeated hback ⟨("7.0.0.5-1", .object []), List.mem_cons_self, h7⟩⟩⟩
  obtain ⟨r, hr, -⟩ := exists_ofDocuments hdistinct
  have hserves := (registry_keeps_every_document _).2.2 r hr
  refine ⟨r, hr, ?_, ?_, ?_⟩
  · have honly : IsOnly [("7.0.0.5-1", .object []), ("6.4.0", .bool true)] "6.4.0"
        ("6.4.0", .bool true) :=
      ⟨[("7.0.0.5-1", .object [])], [], rfl, h6, List.forall_mem_singleton.2 hne⟩
    exact ((hserves "6.4.0-rc1").entry_iff _).2 ⟨_, _, hserved, honly, rfl⟩
  · refine ((hserves "5.7.0.1").unsupported_iff _).2 ⟨hother, ?_⟩
    simp [h7, h6]
  · exact ((hserves "v7").invalid_iff _).2 ⟨rfl, _, hnone⟩

end Registry

end Reconfig
