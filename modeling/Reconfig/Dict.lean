/-!
# Dictionaries ordered by their keys

A `Dict α` maps texts to values of `α` and lists its entries in increasing order of the keys
(the order of code points).

* `Dict.insert`, `Dict.insertNew`, `Dict.find?`, `Dict.contains`, `Dict.filter`, `Dict.ofList`;
* `Dict.gather`, the values of each key; `TextSet`, a set of texts;
* **`find?_insert`**: an insertion is seen at its own key and nowhere else;
* **`ext_find?`**: two dictionaries with the same look-ups are equal.
-/

namespace Reconfig

/-- A finite map from texts, its entries in increasing order of the keys. -/
structure Dict (α : Type) where
  /-- The entries, at most one for a key. -/
  entries : List (String × α)
  /-- The keys increase. -/
  ordered : entries.Pairwise (fun a b => a.1 < b.1)

namespace Dict

variable {α β : Type}

/-! ## Entry lists -/

/-- Put an entry in its place, in the place of an entry with the same key if there is one. -/
def put (key : String) (value : α) : List (String × α) → List (String × α)
  | [] => [(key, value)]
  | e :: rest =>
    if key < e.1 then (key, value) :: e :: rest
    else if key = e.1 then (key, value) :: rest
    else e :: put key value rest

theorem mem_put {key : String} {value : α} {entry : String × α} {l : List (String × α)}
    (h : entry ∈ put key value l) : entry = (key, value) ∨ entry ∈ l := by
  induction l with
  | nil => simpa [put] using h
  | cons e rest ih =>
    rw [put] at h
    split at h
    · simpa using h
    · split at h
      · rcases List.mem_cons.1 h with h | h
        · exact .inl h
        · exact .inr (List.mem_cons_of_mem _ h)
      · rcases List.mem_cons.1 h with h | h
        · exact .inr (h ▸ List.mem_cons_self)
        · exact (ih h).imp id (List.mem_cons_of_mem _)

theorem lt_of_not_lt {a b : String} (h : ¬ a < b) (hne : a ≠ b) : b < a := by
  rcases String.le_total a b with hab | hba
  · by_cases hlt : b < a
    · exact hlt
    · exact absurd (String.le_antisymm hab (String.not_lt.1 h)) hne
  · by_cases hlt : b < a
    · exact hlt
    · exact absurd (String.le_antisymm (String.not_lt.1 hlt) hba) hne

theorem put_ordered {key : String} {value : α} {l : List (String × α)}
    (h : l.Pairwise (fun a b => a.1 < b.1)) :
    (put key value l).Pairwise (fun a b => a.1 < b.1) := by
  induction l with
  | nil => simp [put]
  | cons e rest ih =>
    rw [List.pairwise_cons] at h
    rw [put]
    split
    · rename_i hlt
      refine List.pairwise_cons.2 ⟨fun x hx => ?_, List.pairwise_cons.2 h⟩
      rcases List.mem_cons.1 hx with rfl | hx
      · exact hlt
      · exact String.lt_trans hlt (h.1 x hx)
    · split
      · rename_i heq
        exact List.pairwise_cons.2 ⟨fun x hx => heq ▸ h.1 x hx, h.2⟩
      · rename_i hlt hne
        refine List.pairwise_cons.2 ⟨fun x hx => ?_, ih h.2⟩
        rcases mem_put hx with rfl | hx
        · exact lt_of_not_lt hlt hne
        · exact h.1 x hx

/-! ## Operations -/

/-- The dictionary without entries. -/
def empty : Dict α := ⟨[], .nil⟩

instance : EmptyCollection (Dict α) := ⟨empty⟩

instance : Inhabited (Dict α) := ⟨empty⟩

/-- Map `key` to `value`, whatever it was mapped to before. -/
def insert (d : Dict α) (key : String) (value : α) : Dict α :=
  ⟨put key value d.entries, put_ordered d.ordered⟩

/-- The value at a key. -/
def find? (d : Dict α) (key : String) : Option α := d.entries.lookup key

/-- A key has a value. -/
def contains (d : Dict α) (key : String) : Bool := (d.find? key).isSome

/-- Map `key` to `value` unless it has a value already. -/
def insertNew (d : Dict α) (key : String) (value : α) : Dict α :=
  if d.contains key then d else d.insert key value

/-- The keys, increasing. -/
def keys (d : Dict α) : List String := d.entries.map (·.1)

/-- The number of entries. -/
def size (d : Dict α) : Nat := d.entries.length

/-- There are no entries. -/
def isEmpty (d : Dict α) : Bool := d.entries.isEmpty

/-- The dictionary of a list of entries; the last entry of a key counts. -/
def ofList (l : List (String × α)) : Dict α := l.foldl (fun d e => d.insert e.1 e.2) empty

/-- The entries that satisfy a test. -/
def filter (p : String → α → Bool) (d : Dict α) : Dict α :=
  ⟨d.entries.filter (fun e => p e.1 e.2), d.ordered.filter _⟩

/-- The images of the entries that have one. -/
def filterMap (f : String → α → Option β) (d : Dict α) : Dict β where
  entries := d.entries.filterMap fun e => (f e.1 e.2).map fun v => (e.1, v)
  ordered := d.ordered.filterMap _ fun a a' h b hb b' hb' => by
    obtain ⟨v, -, rfl⟩ := Option.map_eq_some_iff.1 hb
    obtain ⟨v', -, rfl⟩ := Option.map_eq_some_iff.1 hb'
    exact h

/-- Add a value to the end of the list at a key. -/
def push (d : Dict (List α)) (key : String) (value : α) : Dict (List α) :=
  d.insert key ((d.find? key).getD [] ++ [value])

/-- The values of each key of a list of entries, in the order of the list. -/
def gather (l : List (String × α)) : Dict (List α) := l.foldl (fun d e => d.push e.1 e.2) empty

/-- Remove a key. -/
def erase (d : Dict α) (key : String) : Dict α := d.filter (fun k _ => k != key)

instance [DecidableEq α] : DecidableEq (Dict α) := fun a b =>
  if h : a.entries = b.entries then
    isTrue (by cases a; cases b; cases h; rfl)
  else isFalse (fun e => h (congrArg entries e))

end Dict

/-- A finite set of texts, listed in increasing order. -/
abbrev TextSet : Type := Dict Unit

/-- Add a text to a set. -/
def TextSet.add (s : TextSet) (t : String) : TextSet := s.insert t ()

/-- The set of a list of texts. -/
def TextSet.ofTexts (l : List String) : TextSet := Dict.ofList (l.map (fun t => (t, ())))

/-! ## Look-ups -/

namespace Dict

variable {α : Type}

theorem lookup_put_self (key : String) (value : α) (l : List (String × α)) :
    (put key value l).lookup key = some value := by
  induction l with
  | nil => simp [put]
  | cons e rest ih =>
    obtain ⟨k, v⟩ := e
    rw [put]
    split
    · simp
    · split
      · simp
      · rename_i hne
        have hk : (key == k) = false := by simpa using hne
        simp [List.lookup_cons, hk, ih]

theorem lookup_put_of_ne {key other : String} (hne : other ≠ key) (value : α)
    (l : List (String × α)) : (put key value l).lookup other = l.lookup other := by
  have ho : (other == key) = false := by simpa using hne
  induction l with
  | nil => simpa [put] using hne
  | cons e rest ih =>
    obtain ⟨k, v⟩ := e
    rw [put]
    split
    · simp [List.lookup_cons, ho]
    · split
      · rename_i heq
        simp only at heq
        subst heq
        simp [List.lookup_cons, ho]
      · simp [List.lookup_cons, ih]

/-- **An insertion is seen at its own key and nowhere else.** -/
theorem find?_insert (d : Dict α) (key other : String) (value : α) :
    (d.insert key value).find? other = if other = key then some value else d.find? other := by
  by_cases h : other = key
  · subst h
    simp [find?, insert, lookup_put_self]
  · simp [find?, insert, lookup_put_of_ne h, h]

theorem lookup_eq_none_of_lt {key : String} {l : List (String × α)} (h : ∀ e ∈ l, key < e.1) :
    l.lookup key = none := by
  rw [List.lookup_eq_none_iff]
  intro e he
  have := h e he
  simp only [ne_eq, bne_iff_ne]
  intro heq
  rw [heq] at this
  exact String.lt_irrefl _ this

theorem entries_eq_of_lookup {l m : List (String × α)}
    (hl : l.Pairwise (fun a b => a.1 < b.1)) (hm : m.Pairwise (fun a b => a.1 < b.1))
    (h : ∀ k, l.lookup k = m.lookup k) : l = m := by
  induction l generalizing m with
  | nil =>
    cases m with
    | nil => rfl
    | cons e rest => obtain ⟨k, v⟩ := e; simpa using h k
  | cons e rest ih =>
    obtain ⟨k, v⟩ := e
    cases m with
    | nil => simpa using h k
    | cons f more =>
      obtain ⟨k', v'⟩ := f
      rw [List.pairwise_cons] at hl hm
      by_cases hkk : k = k'
      · subst hkk
        have hv : v = v' := by simpa using h k
        subst hv
        congr 1
        refine ih hl.2 hm.2 fun x => ?_
        by_cases hx : x = k
        · subst hx
          rw [lookup_eq_none_of_lt hl.1, lookup_eq_none_of_lt hm.1]
        · have hb : (x == k) = false := by simpa using hx
          simpa [List.lookup_cons, hb] using h x
      · exfalso
        by_cases hlt : k < k'
        · have hn : ((k', v') :: more).lookup k = none := by
            refine lookup_eq_none_of_lt fun e he => ?_
            rcases List.mem_cons.1 he with rfl | he
            · exact hlt
            · exact String.lt_trans hlt (hm.1 e he)
          have := h k
          rw [hn] at this
          simp at this
        · have hgt := lt_of_not_lt hlt hkk
          have hn : ((k, v) :: rest).lookup k' = none := by
            refine lookup_eq_none_of_lt fun e he => ?_
            rcases List.mem_cons.1 he with rfl | he
            · exact hgt
            · exact String.lt_trans hgt (hl.1 e he)
          have := h k'
          rw [hn] at this
          simp at this

/-- **Two dictionaries with the same look-ups are equal.** -/
theorem ext_find? {d e : Dict α} (h : ∀ k, d.find? k = e.find? k) : d = e := by
  obtain ⟨l, hl⟩ := d
  obtain ⟨m, hm⟩ := e
  have := entries_eq_of_lookup hl hm h
  subst this
  rfl

end Dict

end Reconfig
