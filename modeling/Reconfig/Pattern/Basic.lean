/-!
# Patterns

A pattern describes texts. A text satisfies it if a part of the text matches; anchors tie the part
to the ends of the text or of its lines.

* `CharSet`, `CharSet.has`: sets of characters;
* `Pattern`; `Pattern.simplified`: a pattern whose groups are remembered only if they have to be;
* `Pattern.State`: a place in a text with what the groups have matched;
* `Pattern.ends`: the places where a match from a place can end;
* **`Pattern.occursIn`**.

A repetition ends where it makes no progress, so its places are found in as many rounds as there
are characters left.
-/

namespace Reconfig

/-- A set of characters. -/
inductive CharSet where
  /-- The characters of ranges of code points, ends included. -/
  | ranges (list : List (Nat × Nat))
  /-- The characters of either set. -/
  | union (a b : CharSet)
  /-- The characters of both sets. -/
  | both (a b : CharSet)
  /-- The characters of exactly one set. -/
  | either (a b : CharSet)
  /-- The characters that are not in the set. -/
  | complement (a : CharSet)
  deriving Repr

namespace CharSet

/-- A code point is in the set. -/
def has : CharSet → Nat → Bool
  | .ranges list, n => list.any fun r => r.1 ≤ n && n ≤ r.2
  | .union a b, n => a.has n || b.has n
  | .both a b, n => a.has n && b.has n
  | .either a b, n => a.has n != b.has n
  | .complement a, n => !a.has n

/-- The set of one character. -/
def one (c : Char) : CharSet := .ranges [(c.toNat, c.toNat)]

/-- The characters of the first set that are not in the second. -/
def without (a b : CharSet) : CharSet := .both a (.complement b)

/-- The decimal digits. -/
def digits : CharSet := .ranges [(0x30, 0x39)]

/-- Letters, digits and the underscore. -/
def word : CharSet := .ranges [(0x30, 0x39), (0x41, 0x5a), (0x5f, 0x5f), (0x61, 0x7a)]

/-- White space. -/
def space : CharSet :=
  .ranges [(0x09, 0x0d), (0x20, 0x20), (0xa0, 0xa0), (0x2003, 0x2003), (0x2029, 0x2029),
    (0xfeff, 0xfeff)]

theorem has_one (c : Char) (n : Nat) : (one c).has n = decide (c.toNat = n) := by
  simp only [one, has, List.any_cons, List.any_nil, Bool.or_false]
  by_cases h : c.toNat = n
  · simp [h]
  · simp only [h, decide_false, Bool.and_eq_false_iff, decide_eq_false_iff_not]
    omega

end CharSet

/-- A pattern. -/
inductive Pattern where
  /-- The empty text. -/
  | empty
  /-- One character of a set, in either case if `folded` holds. -/
  | one (set : CharSet) (folded : Bool)
  /-- The beginning of the text, or of a line. -/
  | start (ofLine : Bool)
  /-- The end of the text, or of a line. -/
  | stop (ofLine : Bool)
  /-- A boundary of a word, or a place that is none. -/
  | boundary (isOne : Bool)
  /-- One pattern and then another. -/
  | seq (a b : Pattern)
  /-- Either of two patterns. -/
  | alt (a b : Pattern)
  /-- A pattern whose part is remembered under a number. -/
  | group (n : Nat) (p : Pattern)
  /-- The part remembered under a number again. -/
  | again (n : Nat)
  /-- A pattern that matches from the place on, or up to the place, or does not. -/
  | look (ahead negative : Bool) (p : Pattern)
  /-- A pattern at least `least` times, and at most `most?` times if there is a limit. -/
  | repeated (p : Pattern) (least : Nat) (most? : Option Nat)
  deriving Repr

namespace Pattern

/-- Some part is meant again. -/
def repeatsGroup : Pattern → Bool
  | .seq a b => a.repeatsGroup || b.repeatsGroup
  | .alt a b => a.repeatsGroup || b.repeatsGroup
  | .group _ p => p.repeatsGroup
  | .again _ => true
  | .look _ _ p => p.repeatsGroup
  | .repeated p _ _ => p.repeatsGroup
  | _ => false

/-- The pattern without numbers on its groups. It matches the same texts if no group is meant
again. -/
def withoutGroups : Pattern → Pattern
  | .seq a b => .seq a.withoutGroups b.withoutGroups
  | .alt a b => .alt a.withoutGroups b.withoutGroups
  | .group _ p => p.withoutGroups
  | .look ahead negative p => .look ahead negative p.withoutGroups
  | .repeated p least most? => .repeated p.withoutGroups least most?
  | p => p

/-- The pattern without what no match needs. -/
def simplified (p : Pattern) : Pattern := if p.repeatsGroup then p else p.withoutGroups

/-- A place in a text. -/
structure State where
  /-- The characters before the place in reverse. -/
  before : List Char
  /-- The characters from the place on. -/
  rest : List Char
  /-- What the groups have matched, the latest first. -/
  groups : List (Nat × List Char)
  deriving DecidableEq

/-- The place after one character. -/
def State.next (s : State) (c : Char) (rest : List Char) : State :=
  { s with before := c :: s.before, rest := rest }

/-- A character is in a set, in either case if `folded` holds. -/
def isIn (set : CharSet) (folded : Bool) (c : Char) : Bool :=
  set.has c.toNat || (folded && (set.has c.toLower.toNat || set.has c.toUpper.toNat))

/-- The place after a given text, if it stands there. -/
def State.over? (s : State) : List Char → Option State
  | [] => some s
  | c :: text =>
    match s.rest with
    | d :: rest => if c = d then State.over? (s.next d rest) text else none
    | [] => none

/-- A letter, a digit or an underscore stands before the place, or after it, but not both. -/
def State.atBoundary (s : State) : Bool :=
  let isWord := fun c : Option Char => c.any fun c => CharSet.word.has c.toNat
  isWord s.before.head? != isWord s.rest.head?

/-- The places after exactly `n` rounds. -/
def rounds (step : State → List State) : Nat → List State → List State
  | 0, states => states
  | n + 1, states => rounds step n (states.flatMap step).eraseDups

/-- The places after at most `n` rounds, each of which goes on in the text. -/
def upTo (step : State → List State) : Nat → List State → List State
  | 0, states => states
  | n + 1, states =>
    let more := states.flatMap fun s => (step s).filter fun t => t.rest.length < s.rest.length
    if more.isEmpty then states else states ++ upTo step n more.eraseDups

/-- The places before a place, each as a place in the same text. -/
def State.earlier (s : State) : List State :=
  (List.range (s.before.length + 1)).map fun n =>
    { s with before := s.before.drop n, rest := (s.before.take n).reverse ++ s.rest }

/-- The places where a match from a place can end. -/
def ends : Pattern → State → List State
  | .empty, s => [s]
  | .one set folded, s =>
    match s.rest with
    | c :: rest => if isIn set folded c then [s.next c rest] else []
    | [] => []
  | .start ofLine, s =>
    if s.before.isEmpty || (ofLine && s.before.head? == some '\n') then [s] else []
  | .stop ofLine, s =>
    if s.rest.isEmpty || (ofLine && s.rest.head? == some '\n') then [s] else []
  | .boundary isOne, s => if s.atBoundary == isOne then [s] else []
  | .seq a b, s => ((ends a s).flatMap (ends b)).eraseDups
  | .alt a b, s => (ends a s ++ ends b s).eraseDups
  | .group n p, s =>
    (ends p s).map fun t =>
      { t with groups := (n, s.rest.take (s.rest.length - t.rest.length)) :: t.groups }
  | .again n, s =>
    match s.groups.lookup n with
    | some text => (s.over? text).toList
    | none => []
  | .look ahead negative p, s =>
    let found :=
      if ahead then !(ends p s).isEmpty
      else s.earlier.any fun t => (ends p t).any fun u => u.rest.length == s.rest.length
    if found != negative then [s] else []
  | .repeated p least most?, s =>
    let more := (most?.getD (least + s.rest.length)) - least
    upTo (ends p) (min more s.rest.length) (rounds (ends p) least [s])

/-- A match begins at a place or behind it. -/
def occursFrom (p : Pattern) (before : List Char) : List Char → Bool
  | [] => !(p.ends ⟨before, [], []⟩).isEmpty
  | c :: rest => !(p.ends ⟨before, c :: rest, []⟩).isEmpty || occursFrom p (c :: before) rest

/-- **A part of the text matches.** -/
def occursIn (p : Pattern) (text : String) : Bool := occursFrom p [] text.toList

end Pattern

end Reconfig
