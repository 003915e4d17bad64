import Reconfig.Schema.Library
import Reconfig.Json.Reader
import Reconfig.Text.Base64

/-!
# Checking a value against a schema

All violations of a schema in a value, in the order in which the schema states its constraints.
Alternatives are judged as a whole; conjunctions, conditions and references report what their
parts report. What is wrong with a part of the schema that a reference names is reported like a
violation.

* `Schema.issues`: the violations, given what references mean;
* `follow`: the meaning of references;
* **`Schema.validate?`**: the violations of a schema document in a value.

A chain of references is followed for a bounded number of steps. Two steps at one place of the
value to one address make an endless chain, so a chain that ends visits no such pair twice. An
address is met in one part of the documents, and is relative to what a second part and the way from
there give, so there are no more addresses than triples of parts.
-/

namespace Reconfig

namespace Schema

/-! ## Violations -/

/-- The violations in a value at a place. -/
abbrev Checker : Type := String → Json → List Issue

/-- The value at the place satisfies the checker. -/
def Checker.holds (c : Checker) (path : String) (j : Json) : Bool := (c path j).isEmpty

/-- The violation of a constraint on the value itself, unless it holds. -/
def expect (holds : Bool) (v : Violation) (path : String) (j : Json) : List Issue :=
  if holds then [] else [⟨v, path, j⟩]

/-- The violations in the items of an array from a position on. -/
def itemIssues (c : Checker) (path : String) (position : Nat) : List Json → List Issue
  | [] => []
  | j :: rest => c (Place.item path position) j ++ itemIssues c path (position + 1) rest

/-- The violations in the items of an array from a position on, each with a checker of its own. -/
def turnIssues (path : String) (position : Nat) : List Checker → List Json → List Issue
  | c :: cs, j :: rest =>
    c (Place.item path position) j ++ turnIssues path (position + 1) cs rest
  | _, _ => []

/-- The violations in the fields that are known. -/
def knownIssues (known : List (String × Checker)) (path : String)
    (members : List (String × Json)) : List Issue :=
  known.flatMap fun e =>
    match members.lookup e.1 with
    | some j => e.2 (Place.field path e.1) j
    | none => []

/-- The checkers of the patterns that a name matches. -/
def matched (patterns : List (Pattern × Checker)) (name : String) : List Checker :=
  (patterns.filter fun e => e.1.occursIn name).map (·.2)

/-- The checkers of a field: that of its name and those of the patterns that its name matches, else
another one. -/
def fieldChecks (known : List (String × Checker)) (patterns : List (Pattern × Checker))
    (other : Checker) (name : String) : List Checker :=
  match known.lookup name, matched patterns name with
  | some c, list => c :: list
  | none, [] => [other]
  | none, list => list

/-- The violations in all fields. -/
def fieldIssues (known : List (String × Checker)) (patterns : List (Pattern × Checker))
    (other : Checker) (path : String) (members : List (String × Json)) : List Issue :=
  members.flatMap fun m =>
    (fieldChecks known patterns other m.1).flatMap fun c => c (Place.field path m.1) m.2

/-- The fields that are not known and match no pattern. -/
def unexpected (known : List (String × Checker)) (patterns : List (Pattern × Checker))
    (members : List (String × Json)) : List String :=
  (members.map (·.1)).filter fun name =>
    (known.lookup name).isNone && (matched patterns name).isEmpty

/-- The violations in the fields whose names match a pattern, pattern by pattern. -/
def patternIssues (patterns : List (Pattern × Checker)) (path : String)
    (members : List (String × Json)) : List Issue :=
  patterns.flatMap fun e =>
    (members.filter fun m => e.1.occursIn m.1).flatMap fun m => e.2 (Place.field path m.1) m.2

/-- The violations in the names of fields. They concern the object. -/
def nameIssues (c : Checker) (path : String) (j : Json) (members : List (String × Json)) :
    List Issue :=
  members.flatMap fun m =>
    (c path (.string m.1)).map fun i => ⟨.fieldName i.violation i.value, path, j⟩

/-- The violations in what a text holds. -/
def contentIssues (c : Content) (text path : String) : List Issue :=
  let isDocument := fun s => (Json.read? s).isSome
  match c, Text.Base64.bytes? text.toList with
  | .document, _ => expect (isDocument text) .noDocument path (.string text)
  | _, none => [⟨.notEncoded, path, .string text⟩]
  | .bytes, some _ => []
  | .encodedDocument, some bytes =>
    match Utf8.fault? bytes, String.fromUTF8? ⟨bytes.toArray⟩ with
    | some f, _ => [.ofSchema (.notText f)]
    | none, decoded? => expect (decoded?.any isDocument) .noDocument path (.string text)

mutual

/-- The violations of a schema in a value at a place, given the meaning of references. -/
def issues (meaning : Url → Checker) : Schema → String → Json → List Issue
  | .reject, path, j => [⟨.rejected, path, j⟩]
  | .reference target, path, j => meaning target path j
  | .all parts, path, j => (checkers meaning parts).flatMap fun c => c path j
  | .any parts, path, j =>
    expect ((checkers meaning parts).any fun c => c.holds path j) .noneOfAny path j
  | .one parts, path, j =>
    match (checkers meaning parts).countP fun c => c.holds path j with
    | 0 => [⟨.noneOfOne, path, j⟩]
    | 1 => []
    | _ => [⟨.severalOfOne, path, j⟩]
  | .unless part source, path, j =>
    expect (!(issues meaning part path j).isEmpty) (.excluded source) path j
  | .conditional test yes no, path, j =>
    if (issues meaning test path j).isEmpty then issues meaning yes path j
    else issues meaning no path j
  | .types names, path, j => expect (names.any fun t => t.accepts j) (.type names) path j
  | .required names, path, j =>
    match j with
    | .object members =>
      (names.filter fun name => (members.lookup name).isNone).map fun name =>
        ⟨.required name, path, j⟩
    | _ => []
  | .enumeration values, path, j =>
    expect (values.any fun v => j.same v) (.enumeration values) path j
  | .constant value, path, j => expect (isConstant value j) (.constant value) path j
  | .bound b limit, path, j =>
    match j with
    | .number n => expect (b.admits limit n) (.bound b limit) path j
    | _ => []
  | .multiple divisor, path, j =>
    match j with
    | .number n => expect (isMultiple divisor n) (.multiple divisor) path j
    | _ => []
  | .matching p source, path, j =>
    match j with
    | .string s => expect (p.occursIn s) (.matching source) path j
    | _ => []
  | .format f, path, j =>
    match j with
    | .string s => expect (f.admits s) (.format f) path j
    | _ => []
  | .content c, path, j =>
    match j with
    | .string s => contentIssues c s path
    | _ => []
  | .atLeast measure limit, path, j =>
    expect ((measure.size? j).all (limit ≤ ·)) (.tooFew measure limit) path j
  | .atMost measure limit, path, j =>
    expect ((measure.size? j).all (· ≤ limit)) (.tooMany measure limit) path j
  | .fields known, path, j =>
    match j with
    | .object members => knownIssues (fieldCheckers meaning known) path members
    | _ => []
  | .patternFields patterns, path, j =>
    match j with
    | .object members => patternIssues (patternCheckers meaning patterns) path members
    | _ => []
  | .closedFields known patterns, path, j =>
    match j with
    | .object members =>
      let checks := fieldCheckers meaning known
      let patternChecks := patternCheckers meaning patterns
      let names := unexpected checks patternChecks members
      fieldIssues checks patternChecks (fun _ _ => []) path members ++
        expect names.isEmpty (.unexpectedFields names) path j
    | _ => []
  | .noFields, path, j =>
    match j with
    | .object ((_, v) :: _) => [⟨.rejected, path, v⟩]
    | _ => []
  | .otherFields known patterns other, path, j =>
    match j with
    | .object members =>
      fieldIssues (fieldCheckers meaning known) (patternCheckers meaning patterns)
        (issues meaning other) path members
    | _ => []
  | .fieldNames each, path, j =>
    match j with
    | .object members => nameIssues (issues meaning each) path j members
    | _ => []
  | .noFieldNames, path, j =>
    match j with
    | .object (_ :: _) => [⟨.rejected, path, j⟩]
    | _ => []
  | .dependent parts, path, j =>
    match j with
    | .object members =>
      (fieldCheckers meaning parts).flatMap fun e =>
        if (members.lookup e.1).isSome then e.2 path j else []
    | _ => []
  | .items each, path, j =>
    match j with
    | .array list => itemIssues (issues meaning each) path 0 list
    | _ => []
  | .itemsInTurn parts, path, j =>
    match j with
    | .array list => turnIssues path 0 (checkers meaning parts) list
    | _ => []
  | .furtherItems count each, path, j =>
    match j with
    | .array list => itemIssues (issues meaning each) path count (list.drop count)
    | _ => []
  | .noFurtherItems count, path, j =>
    match j with
    | .array list => expect (list.length ≤ count) (.furtherItems count) path j
    | _ => []
  | .distinctItems, path, j =>
    match j with
    | .array list => expect (areDistinct list) .repeatedItems path j
    | _ => []
  | .someItem each, path, j =>
    match j with
    | .array list =>
      expect (list.any fun k => (issues meaning each path k).isEmpty) .noItem path j
    | _ => []

/-- The checkers of schemas. -/
def checkers (meaning : Url → Checker) : List Schema → List Checker
  | [] => []
  | s :: rest => issues meaning s :: checkers meaning rest

/-- The checkers of named schemas. -/
def fieldCheckers (meaning : Url → Checker) :
    List (String × Schema) → List (String × Checker)
  | [] => []
  | (name, s) :: rest => (name, issues meaning s) :: fieldCheckers meaning rest

/-- The checkers of schemas under patterns. -/
def patternCheckers (meaning : Url → Checker) :
    List (Pattern × Schema) → List (Pattern × Checker)
  | [] => []
  | (p, s) :: rest => (p, issues meaning s) :: patternCheckers meaning rest

end

/-! ## Documents -/

/-- The meaning of references to the documents of a schema, for chains of a bounded length. -/
def follow (l : Library) : Nat → Url → Checker
  | 0, _ => fun _ _ => []
  | steps + 1, target =>
    match l.resolve target with
    | .error i => fun _ _ => [i]
    | .ok (scope, j) =>
      match read ⟨scope, ""⟩ j with
      | .error i => fun _ _ => [i]
      | .ok s => s.issues (follow l steps)

/-- The schema that a document denotes, with its documents; none if the document is no schema, or
its own keywords cannot be read. -/
def ofDocument? (document : Json) : Option (Schema × Library) :=
  match Library.ofDocument document with
  | .error _ => none
  | .ok l =>
    if isSchema document then (read ⟨l.scope, ""⟩ document).toOption.map (·, l) else none

/-- **The violations of a schema document in a value**; none if the document is no schema. -/
def validate? (document value : Json) : Option (List Issue) :=
  (ofDocument? document).map fun (s, l) =>
    let parts := Nat.pow (document.size + standard.size + 1) 3
    s.issues (follow l (parts * (value.size + 1))) "" value

end Schema

end Reconfig
