import Reconfig.Change
import Reconfig.Number.Decimal
import Reconfig.Text.Blank

/-!
# Comparing values

Whether a desired value and a current one differ, and by which change the current one becomes the
desired one. Values of a running node arrive as texts, so a text that denotes a number is compared
as that number, and a single value counts as a list of one element where a list is expected.

* `Scalar.number?`, `Scalar.agrees`: equality across the kinds of scalars;
* `isBlankText`, `Scalar.elements`;
* `missingFrom`, **`setChange?`**: the change between two lists of elements;
* **`Value.changeTo?`**.
-/

namespace Reconfig

/-- A text that stands for no value. -/
def isBlankText (s : String) : Bool := s == "" || s == "null"

/-- The number that a text denotes, apart from blanks around it: an unsigned word, else a signed
one, else a finite number. -/
def numberOfText? (s : String) : Option Scalar :=
  let s := Text.trim s.toList
  match Numeral.unsigned? s with
  | some n => some (.uint n)
  | none =>
    match Numeral.signed? s with
    | some i => some (.int i)
    | none => ((Binary64.read? s).filter Binary64.isFinite).map .float

namespace Scalar

/-- The number that a scalar denotes. -/
def number? : Scalar → Option Scalar
  | .text s => numberOfText? s
  | .bool _ => none
  | n => some n

/-- Equality of numeric scalars: exact for integers, up to rounding otherwise. -/
def sameNumber (a b : Scalar) : Bool :=
  match a.integer?, b.integer? with
  | some i, some j => i == j
  | _, _ =>
    match a.toBinary64?, b.toBinary64? with
    | some x, some y => x.near y
    | _, _ => false

/-- Equality of scalars of any kinds. -/
def agrees (a b : Scalar) : Bool :=
  match a, b with
  | .text s, .text t => s == t || (isBlankText s && isBlankText t)
  | .bool p, .bool q => p == q
  | a, b =>
    match a.number?, b.number? with
    | some x, some y => x.sameNumber y
    | _, _ => a.render == b.render

/-- A scalar as a list of elements: its text, unless that stands for no value. -/
def elements (s : Scalar) : List String := if isBlankText s.render then [] else [s.render]

end Scalar

/-! ## Changes between values -/

/-- The elements of a list that a second one lacks, each once, in the order of the first list. -/
def missingFrom (items others : List String) : List String :=
  (items.filter fun x => !others.contains x).eraseDups

/-- The change from one list of elements to another, as sets. -/
def setChange? (desired current : List String) : Option Change :=
  Change.ofLists? (missingFrom desired current) (missingFrom current desired)

/-- **The change that turns the current value into the desired one**, none if they agree. Sections
are never changed as a whole. -/
def Value.changeTo? (desired current : Value) : Option Change :=
  match desired, current with
  | .nested _, _ => none
  | _, .nested _ => none
  | .list d, .list c => setChange? d c
  | .list d, .scalar c => setChange? d c.elements
  | .scalar d, .list c => setChange? d.elements c
  | .scalar d, .scalar c => if d.agrees c then none else some (.update desired)
  | d, c => if d.same c then none else some (.update desired)

/-- The change for a key that has no current value. -/
def Value.newChange? (v : Value) : Option Change :=
  match v with
  | .list items => if items.isEmpty then none else some (.add v)
  | .nested _ => none
  | _ => some (.update v)

/-! ## Laws -/

theorem mem_missingFrom {x : String} {items others : List String} :
    x ∈ missingFrom items others ↔ x ∈ items ∧ x ∉ others := by
  simp [missingFrom]

/-- **Lists with the same elements need no change.** -/
theorem setChange?_eq_none {d c : List String} (h : ∀ x, x ∈ d ↔ x ∈ c) :
    setChange? d c = none := by
  have hd : missingFrom d c = [] := by
    refine List.eq_nil_iff_forall_not_mem.2 fun x hx => ?_
    rw [mem_missingFrom] at hx
    exact hx.2 ((h x).1 hx.1)
  have hc : missingFrom c d = [] := by
    refine List.eq_nil_iff_forall_not_mem.2 fun x hx => ?_
    rw [mem_missingFrom] at hx
    exact hx.2 ((h x).2 hx.1)
  rw [setChange?, hd, hc]
  rfl

end Reconfig
