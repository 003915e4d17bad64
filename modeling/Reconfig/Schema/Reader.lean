import Reconfig.Schema.Form
import Reconfig.Schema.Issue
import Reconfig.Json.Place

/-!
# The schema of a document

What the keywords of a document say. A document that is not well formed may still be read up to
the first keyword that cannot be; that is an issue with the schema itself. Keywords are read in
the order of their names, and those that say nothing are not looked at.

* `Site`: where a schema stands;
* `Part`, `Keyword`: a keyword of an object with its schemas read;
* `constraint`: what a keyword says, given the other keywords of its object;
* **`Schema.read`**.

A reference decides its object alone. Where an object closes its fields or has a schema for fields
not known, that keyword speaks for the known fields and for those under patterns, too.
-/

namespace Reconfig.Schema

/-! ## Sites -/

/-- Where a schema stands. -/
structure Site where
  /-- The address to which addresses in the schema are relative. -/
  scope : Url
  /-- The way to it from where reading began. -/
  path : String

namespace Site

/-- The site of a member. -/
def field (s : Site) (name : String) : Site := { s with path := Place.field s.path name }

/-- The site of an item. -/
def item (s : Site) (position : Nat) : Site := { s with path := Place.item s.path position }

end Site

/-- The address that an object gives itself. -/
def identifier? (members : List (String × Json)) : Option String :=
  (members.lookup "$id").bind Json.string?

/-- The site within an object, which may have an address of its own. -/
def Site.within (s : Site) (members : List (String × Json)) : Except Issue Site :=
  match identifier? members with
  | none => .ok s
  | some id =>
    match s.scope.join id with
    | .ok scope => .ok { s with scope := scope }
    | .error e => .error (.ofSchema (.badAddress e))

/-! ## Keywords -/

/-- The value of a keyword, its schemas read. -/
inductive Part where
  /-- A schema. -/
  | schema (s : Except Issue Schema)
  /-- A list of schemas. -/
  | schemas (list : List (Except Issue Schema))
  /-- Named schemas. -/
  | fields (list : List (String × Except Issue Schema))
  /-- A value without schemas. -/
  | plain

/-- A keyword of an object. -/
structure Keyword where
  /-- The name. -/
  name : String
  /-- The value as the document writes it. -/
  value : Json
  /-- The value, its schemas read. -/
  part : Part

/-- The keyword of a name. -/
def keyword? (all : List Keyword) (name : String) : Option Keyword :=
  all.find? fun k => k.name == name

/-- All schemas of a list, or the first issue. -/
def together (list : List (Except Issue Schema)) : Except Issue (List Schema) := list.mapM id

/-- All named schemas, or the first issue. -/
def namedTogether (list : List (String × Except Issue Schema)) :
    Except Issue (List (String × Schema)) :=
  list.mapM fun e => e.2.map (e.1, ·)

/-- Schemas under patterns, or the first issue. -/
def patternsTogether (site : Site) (members : Json) (list : List (String × Except Issue Schema)) :
    Except Issue (List (Pattern × Schema)) :=
  list.mapM fun e =>
    match Pattern.read? e.1 with
    | some p => e.2.map (p, ·)
    | none =>
      let path := (site.field "patternProperties").path
      .error ⟨.format .pattern, path, (members.member? e.1).getD .null⟩

/-! ## Values without schemas -/

/-- The keywords that limit numbers. -/
def bounds : List (String × Bound) :=
  [("minimum", .minimum), ("maximum", .maximum), ("exclusiveMinimum", .exclusiveMinimum),
   ("exclusiveMaximum", .exclusiveMaximum)]

/-- The keywords that limit sizes from below. -/
def lowerSizes : List (String × Measure) :=
  [("minLength", .characters), ("minItems", .items), ("minProperties", .properties)]

/-- The keywords that limit sizes from above. -/
def upperSizes : List (String × Measure) :=
  [("maxLength", .characters), ("maxItems", .items), ("maxProperties", .properties)]

/-- A size. It has to be written as a natural number. -/
def size (path : String) (j : Json) : Except Issue Nat :=
  match j with
  | .number (.natural n) => .ok n.toNat
  | .number (.negative _) => .error ⟨.bound .minimum (.natural 0), path, j⟩
  | j => .error (.wrongType path j [.integer])

/-- The text of a value, which is a part of a schema at a place. -/
def text (path : String) (j : Json) : Except Issue String :=
  match j with
  | .string s => .ok s
  | j => .error (.wrongType path j [.string])

/-- Required fields. -/
def requiredFields (path : String) (j : Json) : Except Issue Schema :=
  match j with
  | .array list => (list.mapM (text path)).map .required
  | j => .error (.wrongType path j [.array])

/-- The type of a name in a list of several. -/
def listedType (path : String) (j : Json) : Except Issue TypeName :=
  match j with
  | .string s =>
    match TypeName.ofName? s with
    | some t => .ok t
    | none => .error ⟨.enumeration (TypeName.all.map fun t => .string t.name), path, j⟩
  | j => .error (.wrongType path j [.string])

/-- The one type of a name. -/
def onlyType (path : String) (j : Json) : Except Issue Schema :=
  match text path j with
  | .error i => .error i
  | .ok s =>
    match TypeName.ofName? s with
    | some t => .ok (.types [t])
    | none => .error (.ofSchema .badSchema)

/-- The types that a value names, in the order of their names. -/
def typesOf (site : Site) (j : Json) : Except Issue Schema :=
  let path := (site.field "type").path
  match j with
  | .string _ => onlyType path j
  | .array [j] => onlyType path j
  | .array list =>
    (list.mapM (listedType path)).map fun named => .types (TypeName.all.filter named.contains)
  | j => .error (.wrongType site.path j [.array, .string])

/-- A pattern for texts. -/
def patternOf (site : Site) (j : Json) : Except Issue Schema :=
  match text site.path j with
  | .error i => .error i
  | .ok s =>
    match Pattern.read? s with
    | some p => .ok (.matching p s)
    | none => .error ⟨.format .pattern, site.path, j⟩

/-- What a keyword with a value without schemas says. -/
def plainConstraint (site : Site) (name : String) (j : Json) : Except Issue (Option Schema) :=
  let path := (site.field name).path
  match bounds.lookup name, lowerSizes.lookup name, upperSizes.lookup name with
  | some b, _, _ =>
    match j with
    | .number n => .ok (some (.bound b n))
    | j => .error (.wrongType site.path j [.number])
  | _, some measure, _ => (size path j).map fun n => some (.atLeast measure n)
  | _, _, some measure => (size path j).map fun n => some (.atMost measure n)
  | _, _, _ =>
    match name, j with
    | "type", j => (typesOf site j).map some
    | "required", j => (requiredFields path j).map some
    | "enum", .array values => .ok (some (.enumeration values))
    | "enum", j => .error (.wrongType site.path j [.array])
    | "const", j => .ok (some (.constant j))
    | "multipleOf", .number n => .ok (some (.multiple n))
    | "multipleOf", j => .error (.wrongType site.path j [.number])
    | "uniqueItems", .bool b => .ok (if b then some .distinctItems else none)
    | "uniqueItems", j => .error (.wrongType site.path j [.boolean])
    | "pattern", j => (patternOf site j).map some
    | "format", j => (text site.path j).map fun s => (Format.ofName? s).map .format
    | _, _ => .ok none

/-! ## Values with schemas -/

/-- The schemas under patterns of an object that has a keyword for other fields. -/
def patternsOf (site : Site) (all : List Keyword) (other : Json) :
    Except Issue (List (Pattern × Schema)) :=
  match keyword? all "patternProperties" with
  | none => .ok []
  | some ⟨_, members, .fields list⟩ => patternsTogether site members list
  | some _ => .error (.wrongType site.path other [.object])

/-- The known fields of an object that has a keyword for other fields. -/
def knownOf (all : List Keyword) : Except Issue (List (String × Schema)) :=
  match keyword? all "properties" with
  | none => .ok []
  | some ⟨_, _, .fields list⟩ => namedTogether list
  | some _ => .error (.ofSchema .badSchema)

/-- What the keyword for fields not known says. -/
def constraintOnOthers (site : Site) (all : List Keyword) (k : Keyword) :
    Except Issue (Option Schema) := do
  let patterns ← patternsOf site all k.value
  match k.value, k.part with
  | .bool true, _ => .ok none
  | .bool false, _ =>
    if (keyword? all "properties").isNone && (keyword? all "patternProperties").isNone then
      .ok (some .noFields)
    else (knownOf all).map fun known => some (.closedFields known patterns)
  | _, .schema s => do
    let known ← knownOf all
    s.map fun other => some (.otherFields known patterns other)
  | _, _ => .ok none

/-- The keyword for fields not known speaks for the other fields, too. -/
def speaksForFields (all : List Keyword) : Bool :=
  match keyword? all "additionalProperties" with
  | some ⟨_, .bool false, _⟩ => true
  | some ⟨_, .object _, _⟩ => true
  | _ => false

/-- What the keyword for items behind those with schemas of their own says. -/
def constraintBehind (site : Site) (all : List Keyword) (k : Keyword) :
    Except Issue (Option Schema) :=
  match (keyword? all "items").map Keyword.value, k.value, k.part with
  | some (.array list), .object _, .schema s => s.map fun s => some (.furtherItems list.length s)
  | some (.array list), .bool false, _ => .ok (some (.noFurtherItems list.length))
  | some (.array _), _, _ => .ok none
  | some (.object _), _, _ => .ok none
  | some (.bool _), _, _ => .ok none
  | some _, j, _ => .error (.wrongType site.path j [.array, .boolean, .object])
  | none, _, _ => .ok none

/-- The schema of a keyword, else the one that allows every value. -/
def schemaOf (k? : Option Keyword) : Except Issue Schema :=
  match k? with
  | some ⟨_, _, .schema s⟩ => s
  | _ => .ok anything

/-- A condition. Without any consequence it is not looked at. -/
def condition (all : List Keyword) (test : Except Issue Schema) : Except Issue (Option Schema) :=
  let yes? := keyword? all "then"
  let no? := keyword? all "else"
  if yes?.isNone && no?.isNone then .ok none
  else do
    let test ← test
    let yes ← schemaOf yes?
    let no ← schemaOf no?
    .ok (some (.conditional test yes no))

/-- What the keyword for the kind of a text says. With an encoding it is on what the text encodes.
Only one kind and one encoding are known. -/
def constraintOnKind (site : Site) (all : List Keyword) (k : Keyword) :
    Except Issue (Option Schema) := do
  if (← text site.path k.value) ≠ "application/json" then .ok none
  else
    match keyword? all "contentEncoding" with
    | none => .ok (some (.content .document))
    | some encoding =>
      if (← text site.path encoding.value) = "base64" then .ok (some (.content .encodedDocument))
      else .ok none

/-- What the keyword for the encoding of a text says. A keyword for the kind speaks for it. -/
def constraintOnEncoding (site : Site) (all : List Keyword) (k : Keyword) :
    Except Issue (Option Schema) :=
  if (keyword? all "contentMediaType").isSome then .ok none
  else
    (text site.path k.value).map fun s => if s = "base64" then some (.content .bytes) else none

/-- What a keyword says, given all keywords of its object. -/
def constraint (site : Site) (all : List Keyword) (k : Keyword) : Except Issue (Option Schema) :=
  match k.name, k.part with
  | "additionalProperties", _ => constraintOnOthers site all k
  | "additionalItems", _ => constraintBehind site all k
  | "properties", .fields list =>
    if speaksForFields all then .ok none else (namedTogether list).map fun l => some (.fields l)
  | "properties", _ =>
    if speaksForFields all then .ok none else .error (.wrongType site.path k.value [.object])
  | "patternProperties", .fields list =>
    if speaksForFields all then .ok none
    else (patternsTogether site k.value list).map fun l => some (.patternFields l)
  | "patternProperties", _ =>
    if speaksForFields all then .ok none else .error (.wrongType site.path k.value [.object])
  | "dependencies", .fields list => (namedTogether list).map fun l => some (.dependent l)
  | "dependencies", _ => .error (.wrongType site.path k.value [.object])
  | "allOf", .schemas l => (together l).map fun l => some (.all l)
  | "allOf", _ => .error (.wrongType site.path k.value [.array])
  | "anyOf", .schemas l => (together l).map fun l => some (.any l)
  | "anyOf", _ => .error (.wrongType site.path k.value [.array])
  | "oneOf", .schemas l => (together l).map fun l => some (.one l)
  | "oneOf", _ => .error (.wrongType site.path k.value [.array])
  | "not", .schema s => s.map fun s => some (.unless s k.value)
  | "if", .schema s => condition all s
  | "items", .schemas l => (together l).map fun l => some (.itemsInTurn l)
  | "items", .schema s =>
    match k.value with
    | .object _ => s.map fun s => some (.items s)
    | .bool _ => s.map fun s => some (.items s)
    | _ => .ok none
  | "contains", .schema s => s.map fun s => some (.someItem s)
  | "propertyNames", .schema s =>
    match k.value with
    | .object _ => s.map fun s => some (.fieldNames s)
    | .bool false => .ok (some .noFieldNames)
    | _ => .ok none
  | "contentMediaType", _ => constraintOnKind site all k
  | "contentEncoding", _ => constraintOnEncoding site all k
  | name, .plain => plainConstraint site name k.value
  | _, _ => .ok none

/-- The schema of an object of keywords. -/
def ofKeywords (site : Site) (all : List Keyword) : Except Issue Schema :=
  (all.mapM (constraint site all)).map fun l => .all (l.filterMap id)

/-- The schema of a reference. -/
def ofReference (site : Site) (j : Json) : Except Issue Schema :=
  match text site.path j with
  | .error i => .error i
  | .ok target =>
    match site.scope.join target with
    | .ok u => .ok (.reference u)
    | .error e => .error (.ofSchema (.badAddress e))

/-! ## Documents -/

mutual

/-- **The schema that a document denotes**, or the first issue with it. -/
def read (site : Site) : Json → Except Issue Schema
  | .bool b => .ok (if b then anything else .reject)
  | .object members =>
    match site.within members with
    | .error i => .error i
    | .ok site =>
      match members.lookup "$ref" with
      | some j => ofReference site j
      | none => ofKeywords site (readKeywords site members)
  | j => .error (.wrongType site.path j [.boolean, .object])

/-- The keywords of an object. -/
def readKeywords (site : Site) : List (String × Json) → List Keyword
  | [] => []
  | (name, j) :: rest =>
    let site' := site.field name
    let part :=
      match Form.of name with
      | .schema => .schema (read site' j)
      | .schemas => readItems site' j
      | .schemaOrSchemas => if j.isArray then readItems site' j else .schema (read site' j)
      | .fields => readMembers site' j
      | .patternFields => readMembers site' j
      | .dependencies => readDependencies site' j
      | _ => .plain
    ⟨name, j, part⟩ :: readKeywords site rest

/-- The schemas of an array. -/
def readItems (site : Site) : Json → Part
  | .array list => .schemas (readAll site 0 list)
  | _ => .plain

/-- The schemas of a list from a position on. -/
def readAll (site : Site) (position : Nat) : List Json → List (Except Issue Schema)
  | [] => []
  | j :: rest => read (site.item position) j :: readAll site (position + 1) rest

/-- The schemas of an object. -/
def readMembers (site : Site) : Json → Part
  | .object members => .fields (readNamed site members)
  | _ => .plain

/-- Named schemas. -/
def readNamed (site : Site) : List (String × Json) → List (String × Except Issue Schema)
  | [] => []
  | (name, j) :: rest => (name, read (site.field name) j) :: readNamed site rest

/-- The schemas and the lists of names of an object. -/
def readDependencies (site : Site) : Json → Part
  | .object members => .fields (readDependent site members)
  | _ => .plain

/-- Named schemas or lists of names. -/
def readDependent (site : Site) : List (String × Json) → List (String × Except Issue Schema)
  | [] => []
  | (name, j) :: rest =>
    (name, if j.isArray then requiredFields site.path j else read (site.field name) j) ::
      readDependent site rest

end

end Reconfig.Schema
