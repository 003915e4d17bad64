import Mathlib.Data.List.Basic
import Reconfig.Key.Text
import Reconfig.Flat.Flatten

/-!
# Keys and paths

The text of a path and the path of a text determine each other.

* **`render_parse`**: the text of the path of a key is the key, so distinct keys have distinct
  paths (`parse_injective`);
* `Segment.isReadable`: the segments whose text is read back as one segment;
* **`parse_render`**: the path of the text of readable segments is those segments;
* **`codings_inverse`**: keys and paths code each other;
* `parse_render_child`: a field at the end of a key can be replaced, whatever stands before it;
* `join_render`, `instanceKey_render`: the keys of a field and of an instance as texts of paths;
* `mem_instancePaths`, `instancePaths_append`: the instances around a path.
-/

namespace Reconfig

/-! ## Reading a key -/

namespace Key

theorem intercalate_tokensFrom (inBraces : Bool) (before s : List Char) :
    List.intercalate ['.'] (tokensFrom inBraces before s) = before.reverse ++ s := by
  have hne : ∀ b before s, tokensFrom b before s ≠ [] := by
    intro b before s
    induction s generalizing b before with
    | nil => simp [tokensFrom]
    | cons c rest ih =>
      rw [tokensFrom]
      split_ifs
      · exact ih _ _
      · exact ih _ _
      · simp
      · exact ih _ _
  induction s generalizing inBraces before with
  | nil => simp [tokensFrom]
  | cons c rest ih =>
    rw [tokensFrom]
    split_ifs with h1 h2 h3
    · rw [ih, h1.1, h1.2]
      rfl
    · rw [ih, h2.1]
      simp
    · rw [List.intercalate_cons_of_ne_nil (hne _ _ _), ih, h3.1]
      simp
    · rw [ih]
      simp

theorem intercalate_tokens (key : String) :
    List.intercalate ['.'] (tokens key) = key.toList := by
  unfold tokens
  split
  · rename_i h
    rw [h]
    rfl
  · exact intercalate_tokensFrom _ _ _

theorem tokens_eq_map (key : String) : tokens key = (Path.parse key).map Segment.render := by
  rw [Path.parse, List.map_map]
  exact (List.map_id'' Segment.render_ofToken _).symm

end Key

namespace Path

/-- **The text of the path of a key is the key.** -/
theorem render_parse (key : String) : render (parse key) = key := by
  rw [render, ← Key.tokens_eq_map, Key.intercalate_tokens, String.ofList_toList]

theorem parse_injective : Function.Injective parse := fun a b h => by
  rw [← render_parse a, ← render_parse b, h]

end Path

/-! ## Readable segments -/

/-- The text of the segment is read back as this segment: a field has no point and opens no brace,
and an identity closes none. -/
def Segment.isReadable : Segment → Bool
  | .field name => !name.toList.contains '.' && name.toList.head? != some '{'
  | .selector id => !id.toList.contains '}'

/-- All segments of the path can be read back. -/
def Path.isReadable (p : Path) : Bool := p.all Segment.isReadable

namespace Key

theorem tokensFrom_plain {s before : List Char} (hs : '.' ∉ s) (hb : before ≠ [])
    (rest : List Char) :
    tokensFrom false before (s ++ rest) = tokensFrom false (s.reverse ++ before) rest := by
  induction s generalizing before with
  | nil => rfl
  | cons c s ih =>
    rw [List.mem_cons, not_or] at hs
    rw [List.cons_append, tokensFrom, if_neg (fun h => hb h.2), if_neg (by simp),
      if_neg (fun h => hs.1 h.1.symm), ih hs.2 (List.cons_ne_nil _ _)]
    simp

theorem tokensFrom_field {s : List Char} (hs : '.' ∉ s) (ho : s.head? ≠ some '{')
    (rest : List Char) : tokensFrom false [] (s ++ rest) = tokensFrom false s.reverse rest := by
  cases s with
  | nil => rfl
  | cons c s =>
    rw [List.mem_cons, not_or] at hs
    have hc : c ≠ '{' := fun h => ho (by rw [h]; rfl)
    rw [List.cons_append, tokensFrom, if_neg (fun h => hc h.1), if_neg (by simp),
      if_neg (fun h => hs.1 h.1.symm), tokensFrom_plain hs.2 (List.cons_ne_nil _ _)]
    simp

theorem tokensFrom_braced {s before : List Char} (hs : '}' ∉ s) (hb : before ≠ [])
    (rest : List Char) :
    tokensFrom true before (s ++ '}' :: rest) =
      tokensFrom false ('}' :: (s.reverse ++ before)) rest := by
  induction s generalizing before with
  | nil =>
    rw [List.nil_append, tokensFrom, if_neg (fun h => hb h.2), if_pos ⟨rfl, rfl⟩]
    rfl
  | cons c s ih =>
    rw [List.mem_cons, not_or] at hs
    rw [List.cons_append, tokensFrom, if_neg (fun h => hb h.2),
      if_neg (fun h => hs.1 h.1.symm), if_neg (by simp), ih hs.2 (List.cons_ne_nil _ _)]
    simp

theorem tokensFrom_segment {s : Segment} (hs : s.isReadable = true) (rest : List Char) :
    tokensFrom false [] (s.render ++ rest) = tokensFrom false s.render.reverse rest := by
  cases s with
  | field name =>
    simp only [Segment.isReadable, Bool.and_eq_true, Bool.not_eq_true', bne_iff_ne] at hs
    exact tokensFrom_field (by simpa using hs.1) hs.2 rest
  | selector id =>
    have hid : '}' ∉ id.toList := by simpa [Segment.isReadable] using hs
    have hr : (Segment.selector id).render ++ rest = '{' :: (id.toList ++ '}' :: rest) := by
      simp [Segment.render]
    rw [hr, tokensFrom, if_pos ⟨rfl, rfl⟩, tokensFrom_braced hid (List.cons_ne_nil _ _)]
    simp [Segment.render]

theorem tokensFrom_segments {p : Path} (hp : p.isReadable = true) (hne : p ≠ []) :
    tokensFrom false [] (List.intercalate ['.'] (p.map Segment.render)) =
      p.map Segment.render := by
  induction p with
  | nil => exact absurd rfl hne
  | cons s rest ih =>
    rw [Path.isReadable, List.all_cons, Bool.and_eq_true] at hp
    cases rest with
    | nil =>
      have h := tokensFrom_segment hp.1 []
      rw [List.append_nil] at h
      simp [h, tokensFrom]
    | cons t more =>
      have hmore : (t :: more).map Segment.render ≠ [] := by simp
      rw [List.map_cons, List.intercalate_cons_of_ne_nil hmore, List.append_assoc,
        tokensFrom_segment hp.1, List.singleton_append, tokensFrom, if_neg (by simp),
        if_neg (by simp), if_pos (by simp), ih hp.2 (List.cons_ne_nil _ _), List.reverse_reverse]

theorem tokensFrom_append (inBraces : Bool) (before s : List Char) :
    ∃ closed inBraces' before', ∀ rest, tokensFrom inBraces before (s ++ rest) =
      closed ++ tokensFrom inBraces' before' rest := by
  induction s generalizing inBraces before with
  | nil => exact ⟨[], inBraces, before, fun rest => rfl⟩
  | cons c s ih =>
    simp only [List.cons_append, tokensFrom]
    split_ifs
    · exact ih _ _
    · exact ih _ _
    · obtain ⟨closed, inBraces', before', h⟩ := ih false []
      exact ⟨before.reverse :: closed, inBraces', before', fun rest => by rw [h]; rfl⟩
    · exact ih _ _

theorem tokensFrom_unclosed {s before : List Char} (hs : '}' ∉ s) (hb : before ≠ []) :
    tokensFrom true before s = [before.reverse ++ s] := by
  induction s generalizing before with
  | nil => simp [tokensFrom]
  | cons c s ih =>
    rw [List.mem_cons, not_or] at hs
    rw [tokensFrom, if_neg (fun h => hb h.2), if_neg (fun h => hs.1 h.1.symm), if_neg (by simp),
      ih hs.2 (List.cons_ne_nil _ _)]
    simp

theorem tokens_ofList {s : List Char} (hs : s ≠ []) :
    tokens (String.ofList s) = tokensFrom false [] s := by
  unfold tokens
  split
  · rename_i h
    rw [String.toList_ofList] at h
    exact absurd h hs
  · rw [String.toList_ofList]

end Key

theorem Segment.ofToken_render {s : Segment} (hs : s.isReadable = true) :
    Segment.ofToken s.render = s := by
  cases s with
  | field name =>
    simp only [isReadable, Bool.and_eq_true, bne_iff_ne] at hs
    unfold ofToken
    split
    · rename_i rest h
      rw [show name.toList = '{' :: rest from h] at hs
      exact absurd rfl hs.2
    · exact congrArg Segment.field String.ofList_toList
  | selector id =>
    simp [render, ofToken]

namespace Path

theorem render_eq_empty {p : Path} (h : render p = "") : p = [] ∨ p = [.field ""] := by
  have hl : List.intercalate ['.'] (p.map Segment.render) = [] := by
    rw [← String.toList_ofList (l := List.intercalate _ _), ← render, h]
    rfl
  rcases p with _ | ⟨s, _ | ⟨t, more⟩⟩
  · exact .inl rfl
  · right
    rw [List.map_singleton, List.intercalate_singleton] at hl
    cases s with
    | field name => rw [show name = "" from String.toList_eq_nil_iff.1 hl]
    | selector id => simp [Segment.render] at hl
  · simp [List.intercalate_cons_cons] at hl

/-- **The path of the text of readable segments is those segments.** -/
theorem parse_render {p : Path} (hp : p.isReadable = true) (hne : p ≠ [.field ""]) :
    parse (render p) = p := by
  have htokens : Key.tokens (render p) = p.map Segment.render := by
    unfold Key.tokens
    split
    · rename_i h
      rcases render_eq_empty (String.toList_eq_nil_iff.1 h) with rfl | rfl
      · rfl
      · exact absurd rfl hne
    · rename_i h
      have hp0 : p ≠ [] := by
        rintro rfl
        exact h rfl
      rw [render, String.toList_ofList, Key.tokensFrom_segments hp hp0]
  rw [parse, htokens, List.map_map]
  refine (List.map_congr_left fun s hs => ?_).trans (List.map_id p)
  exact Segment.ofToken_render (List.all_eq_true.1 hp s hs)

/-- **Keys and paths code each other.** No two keys have the same path, and a path of readable
segments is the path of its text: points and opening braces within an identity do no harm, nor does
an empty identity. One field without a name has the empty text, which is the text of no segments. -/
theorem codings_inverse : (∀ key, render (parse key) = key) ∧ Function.Injective parse ∧
    ∀ p : Path, p.isReadable = true → p ≠ [.field ""] → parse (render p) = p :=
  ⟨render_parse, parse_injective, fun _ => parse_render⟩

theorem codings_inverse_of_braces :
    let p : Path := [.field "", .selector "/var/\x7ba.log", .selector "", .field "x\x7by\x7d"]
    p.isReadable = true ∧ p ≠ [.field ""] ∧ parse (render p) = p :=
  have hreadable : Path.isReadable [.field "", .selector "/var/\x7ba.log", .selector "",
    .field "x\x7by\x7d"] = true := by decide
  ⟨hreadable, by decide, codings_inverse.2.2 _ hreadable (by decide)⟩

/-! ## Keys of fields and instances -/

theorem render_append {p q : Path} (hp : p ≠ []) (hq : q ≠ []) :
    render (p ++ q) = render p ++ "." ++ render q := by
  have hl : List.intercalate ['.'] ((p ++ q).map Segment.render) =
      List.intercalate ['.'] (p.map Segment.render) ++ ['.'] ++
        List.intercalate ['.'] (q.map Segment.render) := by
    induction p with
    | nil => exact absurd rfl hp
    | cons s rest ih =>
      cases rest with
      | nil =>
        rw [List.singleton_append, List.map_cons,
          List.intercalate_cons_of_ne_nil (by simpa using hq)]
        simp
      | cons t more =>
        have h := ih (List.cons_ne_nil _ _)
        rw [List.cons_append, List.map_cons, List.intercalate_cons_of_ne_nil (by simp), h,
          List.map_cons (l := t :: more), List.intercalate_cons_of_ne_nil (by simp)]
        simp only [List.append_assoc]
  rw [render, hl, String.ofList_append, String.ofList_append]
  rfl

/-- **A key stays one when the field at its end is replaced**, also where the fields before it are
not readable by themselves, such as `\x7ba.b\x7dc`. -/
theorem parse_render_child {p : Path} (hp : p ≠ []) {key a b : String}
    (hkey : parse key = p.child a) (ha : (Segment.field a).isReadable = true)
    (hclosed : '}' ∉ a.toList) (hb : (Segment.field b).isReadable = true) :
    parse (render (p.child b)) = p.child b := by
  have hsplit : ∀ name, (render (p.child name)).toList =
      (render p).toList ++ '.' :: name.toList := fun name => by
    rw [child, render_append hp (List.cons_ne_nil _ _)]
    simp [render, Segment.render]
  have hscan : ∀ name, Key.tokens (render (p.child name)) =
      Key.tokensFrom false [] ((render p).toList ++ '.' :: name.toList) := fun name => by
    rw [← hsplit, ← Key.tokens_ofList (by rw [hsplit]; simp), String.ofList_toList]
  have hlast : ∀ {name : String}, (Segment.field name).isReadable = true →
      Key.tokensFrom false [] name.toList = [name.toList] := fun hname => by
    have h := Key.tokensFrom_segment hname []
    rwa [List.append_nil, Key.tokensFrom, List.reverse_reverse] at h
  obtain ⟨closed, inBraces, before, hrest⟩ := Key.tokensFrom_append false [] (render p).toList
  have htokens : p.map Segment.render ++ [a.toList] =
      closed ++ Key.tokensFrom inBraces before ('.' :: a.toList) := by
    rw [← hrest, ← hscan, ← hkey, render_parse, Key.tokens_eq_map, hkey, child, List.map_append]
    rfl
  cases inBraces with
  | true =>
    -- the point would belong to the last token, which is the name itself
    rw [Key.tokensFrom, if_neg (by simp), if_neg (by simp), if_neg (by simp),
      Key.tokensFrom_unclosed hclosed (List.cons_ne_nil _ _)] at htokens
    have hlen := congrArg (List.map List.length) (List.append_inj_right' htokens rfl)
    simp only [List.map_cons, List.map_nil, List.length_append, List.length_reverse,
      List.length_cons, List.cons.injEq, and_true] at hlen
    omega
  | false =>
    have hpoint : ∀ name : String, Key.tokensFrom false before ('.' :: name.toList) =
        before.reverse :: Key.tokensFrom false [] name.toList := fun name => by
      rw [Key.tokensFrom, if_neg (by simp), if_neg (by simp), if_pos (by simp)]
    rw [hpoint, hlast ha, List.append_cons closed] at htokens
    have hp' : (p.map Segment.render).map Segment.ofToken = p := by
      have h := hkey
      rw [parse, Key.tokens_eq_map, hkey, child, List.map_append, List.map_append] at h
      exact List.append_inj_left' h rfl
    rw [parse, hscan, hrest, hpoint, hlast hb, List.append_cons closed,
      ← List.append_cancel_right htokens, List.map_append, hp']
    exact congrArg (fun s => p ++ [s]) (Segment.ofToken_render hb)

theorem render_field (name : String) : render [.field name] = name := by
  simp [render, Segment.render]

theorem render_selector (id : String) : render [.selector id] = "\x7b" ++ id ++ "\x7d" := by
  apply String.ext
  simp [render, Segment.render]

theorem join_render {p : Path} (hp : p ≠ [.field ""]) (name : String) :
    Key.join (render p) name = render (p.child name) := by
  unfold Key.join child
  split
  · rename_i h
    rw [String.isEmpty_iff] at h
    rcases render_eq_empty h with rfl | rfl
    · rw [List.nil_append, render_field]
    · exact absurd rfl hp
  · rename_i h
    have hne : p ≠ [] := by
      rintro rfl
      exact h rfl
    rw [render_append hne (List.cons_ne_nil _ _), render_field]

theorem instanceKey_render {p : Path} (hp : p ≠ []) (id : String) :
    Key.instanceKey (render p) id = render (p.select id) := by
  rw [Key.instanceKey, select, render_append hp (List.cons_ne_nil _ _), render_selector]
  simp only [String.append_assoc]
  rfl

/-! ## Instances around a path -/

theorem isReadable_append {p q : Path} :
    isReadable (p ++ q) = true ↔ p.isReadable = true ∧ q.isReadable = true := by
  rw [isReadable, List.all_append, Bool.and_eq_true]
  rfl

theorem instancePaths_append (p q : Path) :
    instancePaths (p ++ q) = instancePaths p ++ (instancePaths q).map (p ++ ·) := by
  induction p with
  | nil => simp [instancePaths]
  | cons s rest ih =>
    have hmap : ((instancePaths q).map (rest ++ ·)).map (s :: ·) =
        (instancePaths q).map (s :: rest ++ ·) := by
      simp [List.map_map, Function.comp_def]
    rw [List.cons_append, instancePaths, instancePaths, ih, List.map_append, hmap]
    split <;> rfl

theorem prefix_of_eq_child {p q : Path} {name : String} (h : q = p.child name) : p <+: q := by
  rw [h]
  exact List.prefix_append _ _

theorem instancePaths_select (p : Path) (id : String) :
    instancePaths (p.select id) = instancePaths p ++ [p.select id] := by
  rw [select, instancePaths_append]
  simp [instancePaths, Segment.isSelector, Segment.selector?]

/-- **The instances around a path** are its beginnings that end with a selector. -/
theorem mem_instancePaths {p q : Path} :
    q ∈ p.instancePaths ↔ q <+: p ∧ ∃ list id, q = select list id := by
  constructor
  · intro h
    refine ⟨prefix_of_mem_instancePaths h, ?_⟩
    induction p generalizing q with
    | nil => cases h
    | cons s rest ih =>
      have deeper : q ∈ (instancePaths rest).map (s :: ·) → ∃ list id, q = select list id := by
        intro hq
        obtain ⟨r, hr, rfl⟩ := List.mem_map.1 hq
        obtain ⟨list, id, rfl⟩ := ih hr
        exact ⟨s :: list, id, rfl⟩
      rw [instancePaths] at h
      split at h
      · rename_i hs
        rcases List.mem_cons.1 h with rfl | h
        · cases s with
          | field name => cases hs
          | selector id => exact ⟨[], id, rfl⟩
        · exact deeper h
      · exact deeper h
  · rintro ⟨⟨rest, rfl⟩, list, id, rfl⟩
    rw [instancePaths_append, instancePaths_select]
    simp

theorem mem_instancePaths_trans {p q r : Path} (hr : r ∈ q.instancePaths)
    (hq : q ∈ p.instancePaths) : r ∈ p.instancePaths := by
  rw [mem_instancePaths] at hr hq ⊢
  exact ⟨hr.1.trans hq.1, hr.2⟩

theorem section?_select_append (p : Path) (id : String) {q : Path} (hq : instancePaths q = []) :
    Path.section? (p.select id ++ q) = some (p.select id) := by
  rw [Path.section?, instancePaths_append, hq, instancePaths_select]
  simp

theorem mem_instancePaths_of_section? {p q : Path} (h : p.section? = some q) :
    q ∈ p.instancePaths := List.mem_of_getLast? h

end Path

end Reconfig
