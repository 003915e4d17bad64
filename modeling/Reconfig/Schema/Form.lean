import Reconfig.Schema.Basic

/-!
# Well-formed schema documents

A schema document is a truth value or an object of keywords. Every known keyword must have a value
of its form, wherever in the document it stands and also if it constrains nothing there; an unknown
keyword may have any value.

* `Form`, `Form.of`: the forms of the values of keywords;
* `size?`, `names?`, `types?`: values that keywords take apart;
* **`isSchema`**.
-/

namespace Reconfig.Schema

/-! ## Forms of values -/

/-- The form of the value of a keyword. -/
inductive Form where
  /-- A schema. -/
  | schema
  /-- A list of schemas, at least one. -/
  | schemas
  /-- A schema or a list of schemas. -/
  | schemaOrSchemas
  /-- Named schemas. -/
  | fields
  /-- Schemas under patterns. -/
  | patternFields
  /-- Named schemas or lists of names. -/
  | dependencies
  /-- A text. -/
  | text
  /-- An address. -/
  | address
  /-- An address that may be relative. -/
  | reference
  /-- A pattern. -/
  | pattern
  /-- A truth value. -/
  | flag
  /-- A number. -/
  | number
  /-- A number above zero. -/
  | positive
  /-- A size. -/
  | size
  /-- A list. -/
  | list
  /-- A list of distinct texts. -/
  | names
  /-- A type, or a list of distinct types, at least one. -/
  | types
  /-- Any value. -/
  | free

/-- The keywords with their forms. -/
def forms : List (String × Form) :=
  [("$id", .reference), ("$schema", .address), ("$ref", .reference), ("$comment", .text),
   ("title", .text), ("description", .text), ("readOnly", .flag), ("writeOnly", .flag),
   ("examples", .list), ("multipleOf", .positive), ("maximum", .number),
   ("exclusiveMaximum", .number), ("minimum", .number), ("exclusiveMinimum", .number),
   ("maxLength", .size), ("minLength", .size), ("pattern", .pattern), ("additionalItems", .schema),
   ("items", .schemaOrSchemas), ("maxItems", .size), ("minItems", .size), ("uniqueItems", .flag),
   ("contains", .schema), ("maxProperties", .size), ("minProperties", .size), ("required", .names),
   ("additionalProperties", .schema), ("definitions", .fields), ("properties", .fields),
   ("patternProperties", .patternFields), ("dependencies", .dependencies),
   ("propertyNames", .schema), ("enum", .list), ("type", .types), ("format", .text),
   ("contentMediaType", .text), ("contentEncoding", .text), ("if", .schema), ("then", .schema),
   ("else", .schema), ("allOf", .schemas), ("anyOf", .schemas), ("oneOf", .schemas),
   ("not", .schema)]

/-- The form of a keyword's value. -/
def Form.of (keyword : String) : Form := (forms.lookup keyword).getD .free

/-- The number of a numeric value. -/
def number? : Json → Option Json.Number
  | .number n => some n
  | _ => none

/-- A whole number that is not below zero, however it is written. -/
def isSize (j : Json) : Bool :=
  match number? j with
  | some n => n.isInteger && !n.less (.natural 0)
  | none => false

/-- The texts of a list of distinct texts. -/
def names? : Json → Option (List String)
  | .array list => (list.mapM Json.string?).filter (decide ·.Nodup)
  | _ => none

/-- The name of a type, or a list of distinct names of types, at least one. -/
def areTypes : Json → Bool
  | .string s => (TypeName.ofName? s).isSome
  | j =>
    match (names? j).bind (·.mapM TypeName.ofName?) with
    | some found => !found.isEmpty
    | none => false

/-- A value without schemas has the form of its keyword. -/
def Form.admits (f : Form) (j : Json) : Bool :=
  match f, j with
  | .text, .string _ => true
  | .address, .string s => Format.uri.admits s
  | .reference, .string s => Format.uriReference.admits s
  | .pattern, .string s => Format.pattern.admits s
  | .flag, .bool _ => true
  | .number, .number _ => true
  | .positive, .number n => (Json.Number.natural 0).less n
  | .size, j => isSize j
  | .list, .array _ => true
  | .names, j => (names? j).isSome
  | .types, j => areTypes j
  | .free, _ => true
  | _, _ => false

/-! ## Documents -/

mutual

/-- **The value is a well-formed schema.** -/
def isSchema : Json → Bool
  | .bool _ => true
  | .object members => areKeywords members
  | _ => false

/-- Every keyword has a value of its form. -/
def areKeywords : List (String × Json) → Bool
  | [] => true
  | (keyword, j) :: rest =>
    (match Form.of keyword with
      | .schema => isSchema j
      | .schemas => areSomeSchemas j
      | .schemaOrSchemas => isSchema j || areSomeSchemas j
      | .fields => areFields j
      | .patternFields => areFields j && j.memberNames.all Format.pattern.admits
      | .dependencies => areDependencies j
      | f => f.admits j) && areKeywords rest

/-- The value is a list of well-formed schemas, at least one. -/
def areSomeSchemas : Json → Bool
  | .array list => !list.isEmpty && areSchemas list
  | _ => false

/-- Every value is a well-formed schema. -/
def areSchemas : List Json → Bool
  | [] => true
  | j :: rest => isSchema j && areSchemas rest

/-- The value is an object of well-formed schemas. -/
def areFields : Json → Bool
  | .object members => areMembers members
  | _ => false

/-- Every member is a well-formed schema. -/
def areMembers : List (String × Json) → Bool
  | [] => true
  | (_, j) :: rest => isSchema j && areMembers rest

/-- The value names, for some fields, a schema or a list of further fields. -/
def areDependencies : Json → Bool
  | .object members => areDependencyMembers members
  | _ => false

/-- Every member is a well-formed schema or a list of distinct names. -/
def areDependencyMembers : List (String × Json) → Bool
  | [] => true
  | (_, j) :: rest => ((names? j).isSome || isSchema j) && areDependencyMembers rest

end

end Reconfig.Schema
