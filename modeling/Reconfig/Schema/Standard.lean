import Reconfig.Schema.Form

/-!
# The schema of schemas

A schema document that well-formed schema documents satisfy. Schemas may refer to it by its address.

* `Form.document`: the schema of the values of a keyword;
* `standardAddress`, **`standard`**.
-/

namespace Reconfig.Schema

/-- The object of some members. -/
def objectOf (members : List (String × Json)) : Json := .ofDict (Dict.ofList members)

/-- The schema of values of a type. -/
def typedDocument (t : TypeName) (more : List (String × Json)) : Json :=
  objectOf (("type", .string t.name) :: more)

/-- The schema that refers to a place in its own document. -/
def placeDocument (place : String) : Json := objectOf [("$ref", .string ("#" ++ place))]

/-- The schema of schemas as a part of itself. -/
def selfDocument : Json := placeDocument ""

/-- A part of the schema of schemas by its name. -/
def namedDocument (name : String) : Json := placeDocument ("/definitions/" ++ name)

/-- The schema of texts in a format. -/
def formatDocument (f : Format) : Json := typedDocument .string [("format", .string f.name)]

/-- The schema of the values of a keyword. -/
def Form.document : Form → Json
  | .schema => selfDocument
  | .schemas => namedDocument "schemaArray"
  | .schemaOrSchemas =>
    objectOf
      [("anyOf", .array [selfDocument, namedDocument "schemaArray"]), ("default", .bool true)]
  | .fields =>
    typedDocument .object [("additionalProperties", selfDocument), ("default", .object [])]
  | .patternFields =>
    typedDocument .object
      [("additionalProperties", selfDocument), ("default", .object []),
       ("propertyNames", objectOf [("format", .string Format.pattern.name)])]
  | .dependencies =>
    typedDocument .object
      [("additionalProperties",
        objectOf [("anyOf", .array [selfDocument, namedDocument "stringArray"])])]
  | .text => typedDocument .string []
  | .address => formatDocument .uri
  | .reference => formatDocument .uriReference
  | .pattern => formatDocument .pattern
  | .flag => typedDocument .boolean [("default", .bool false)]
  | .number => typedDocument .number []
  | .positive => typedDocument .number [("exclusiveMinimum", .ofNat 0)]
  | .size => namedDocument "nonNegativeInteger"
  | .list => typedDocument .array [("items", .bool true)]
  | .names => namedDocument "stringArray"
  | .types =>
    let name := namedDocument "simpleTypes"
    objectOf
      [("anyOf", .array [name, typedDocument .array
        [("items", name), ("minItems", .ofNat 1), ("uniqueItems", .bool true)]])]
  | .free => .bool true

/-- The parts of the schema of schemas that have a name. -/
def standardParts : List (String × Json) :=
  [("schemaArray", typedDocument .array [("items", selfDocument), ("minItems", .ofNat 1)]),
   ("nonNegativeInteger", typedDocument .integer [("minimum", .ofNat 0)]),
   ("nonNegativeIntegerDefault0",
    objectOf
      [("allOf", .array [namedDocument "nonNegativeInteger", objectOf [("default", .ofNat 0)]])]),
   ("simpleTypes", objectOf [("enum", .array (TypeName.all.map fun t => .string t.name))]),
   ("stringArray",
    typedDocument .array
      [("default", .array []), ("items", typedDocument .string []), ("uniqueItems", .bool true)])]

/-- The address of the schema of schemas. -/
def standardAddress : String := "http://json-schema.org/draft-07/schema"

/-- **The schema of schemas.** -/
def standard : Json :=
  objectOf
    [("$id", .string (standardAddress ++ "#")), ("$schema", .string (standardAddress ++ "#")),
     ("default", .bool true), ("definitions", objectOf standardParts),
     ("properties",
      objectOf
        (("const", .bool true) :: ("default", .bool true) ::
          forms.map fun e => (e.1, e.2.document))),
     ("title", .string "Core schema meta-schema"),
     ("type", .array [.string TypeName.object.name, .string TypeName.boolean.name])]

end Reconfig.Schema
