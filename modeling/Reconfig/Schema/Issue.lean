import Reconfig.Schema.Basic
import Reconfig.Json.Writer
import Reconfig.Text.Utf8

/-!
# Violations of a schema

* `Violation`: which constraint a value breaks; `Violation.kind`, `Violation.describe`;
* `Issue`: a violation with the place and the value; `Issue.summary`.
-/

namespace Reconfig

/-- The constraint that a value breaks. -/
inductive Violation where
  /-- The value is of none of the types. -/
  | type (names : List TypeName)
  /-- A field is missing. -/
  | required (name : String)
  /-- The value is none of a list. -/
  | enumeration (values : List Json)
  /-- The value is not the given one. -/
  | constant (value : Json)
  /-- A number is beyond a limit. -/
  | bound (b : Bound) (limit : Json.Number)
  /-- A size is below a limit. -/
  | tooFew (measure : Measure) (limit : Nat)
  /-- A size is above a limit. -/
  | tooMany (measure : Measure) (limit : Nat)
  /-- An object has fields that are not known. -/
  | unexpectedFields (names : List String)
  /-- No value is allowed. -/
  | rejected
  /-- No part holds where one has to. -/
  | noneOfOne
  /-- More than one part holds where one has to. -/
  | severalOfOne
  /-- No part holds where some have to. -/
  | noneOfAny
  /-- A part holds that must not. -/
  | excluded (source : Json)
  /-- A number is no multiple of another one. -/
  | multiple (divisor : Json.Number)
  /-- No part of a text matches a pattern. -/
  | matching (source : String)
  /-- An array has more than `count` items. -/
  | furtherItems (count : Nat)
  /-- Two items of an array are equal. -/
  | repeatedItems
  /-- No item of an array satisfies a schema. -/
  | noItem
  /-- The name of a field breaks a constraint; `value` is what the constraint is on. -/
  | fieldName (inner : Violation) (value : Json)
  /-- A text does not have the form of a format. -/
  | format (f : Schema.Format)
  /-- A text does not encode bytes. -/
  | notEncoded
  /-- A text, or what it encodes, is no document. -/
  | noDocument
  /-- The bytes that a text encodes are no text. -/
  | notText (f : Utf8.Fault)
  /-- The schema names a type that does not exist, or closes the fields of what is no object. -/
  | badSchema
  /-- The schema holds a text that is no address. -/
  | badAddress (e : UrlError)
  /-- A reference does not decode to a text. -/
  | badReference (f : Utf8.Fault)
  /-- There is nothing at the place of a document that a reference names. -/
  | danglingReference (target : Url)
  /-- There is no document at an address. -/
  | unknownDocument (address : Url)

namespace Violation

/-- The name of a kind of violation. -/
def kind : Violation → String
  | .type _ => "Type"
  | .required _ => "Required"
  | .enumeration _ => "Enum"
  | .constant _ => "Constant"
  | .bound .minimum _ => "Minimum"
  | .bound .maximum _ => "Maximum"
  | .bound .exclusiveMinimum _ => "ExclusiveMinimum"
  | .bound .exclusiveMaximum _ => "ExclusiveMaximum"
  | .tooFew .characters _ => "MinLength"
  | .tooFew .items _ => "MinItems"
  | .tooFew .properties _ => "MinProperties"
  | .tooMany .characters _ => "MaxLength"
  | .tooMany .items _ => "MaxItems"
  | .tooMany .properties _ => "MaxProperties"
  | .unexpectedFields _ => "AdditionalProperties"
  | .rejected => "FalseSchema"
  | .noneOfOne => "OneOfNotValid"
  | .severalOfOne => "OneOfMultipleValid"
  | .noneOfAny => "AnyOf"
  | .excluded _ => "Not"
  | .multiple _ => "MultipleOf"
  | .matching _ => "Pattern"
  | .furtherItems _ => "AdditionalItems"
  | .repeatedItems => "UniqueItems"
  | .noItem => "Contains"
  | .fieldName .. => "PropertyNames"
  | .format _ => "Format"
  | .notEncoded => "ContentEncoding"
  | .noDocument => "ContentMediaType"
  | .notText _ => "FromUtf8"
  | .badSchema => "Schema"
  | .badAddress _ => "InvalidURL"
  | .badReference _ => "Utf8"
  | .danglingReference _ => "InvalidReference"
  | .unknownDocument _ => "Resolver"

/-- Texts between commas. -/
def listed (texts : List String) : String := ", ".intercalate texts

/-- A text between apostrophes. -/
def apostrophised (s : String) : String := "'" ++ s ++ "'"

/-- What a number beyond a limit is. -/
def beyond : Bound → String
  | .minimum => " is less than the minimum of "
  | .maximum => " is greater than the maximum of "
  | .exclusiveMinimum => " is less than or equal to the minimum of "
  | .exclusiveMaximum => " is greater than or equal to the maximum of "

/-- A number of things that a measure counts. -/
def counted (measure : Measure) (n : Nat) : String :=
  let unit :=
    match measure with
    | .characters => if n = 1 then " character" else " characters"
    | .items => if n = 1 then " item" else " items"
    | .properties => if n = 1 then " property" else " properties"
  toString n ++ unit

/-- What a size below a limit is. -/
def tooSmall : Measure → String
  | .characters => " is shorter than "
  | _ => " has less than "

/-- What a size above a limit is. -/
def tooLarge : Measure → String
  | .characters => " is longer than "
  | _ => " has more than "

/-- Things that should not be there, by number. -/
def unexpected (texts : List String) : String :=
  "(" ++ listed texts ++ (if texts.length = 1 then " was" else " were") ++ " unexpected)"

/-- A text between quotes, as it is. -/
def inQuotes (s : String) : String := "\x22" ++ s ++ "\x22"

/-- The items of an array behind the first ones. -/
def itemsBehind (count : Nat) : Json → List Json
  | .array items => items.drop count
  | _ => []

/-- Why there is no document at an address. Only the schema itself and its parts are documents. -/
def unknownReason (address : Url) : String :=
  if address.scheme = "http" ∨ address.scheme = "https" then
    "\x60resolve-http\x60 feature or a custom resolver is required to resolve external schemas" ++
      " via HTTP"
  else if address.scheme = Url.fileScheme then
    "\x60resolve-file\x60 feature or a custom resolver is required to resolve external schemas" ++
      " via files"
  else if address.scheme = "json-schema" then
    "cannot resolve relative external schema without root schema ID"
  else "unknown scheme " ++ address.scheme

/-- A violation in words, given the value that breaks the constraint. -/
def describe (v : Violation) (value : Json) : String :=
  let shown := value.compact
  match v with
  | .type [t] => shown ++ " is not of type " ++ Json.quoted t.name
  | .type names => shown ++ " is not of types " ++ listed (names.map fun t => Json.quoted t.name)
  | .required name => Json.quoted name ++ " is a required property"
  | .enumeration values => shown ++ " is not one of " ++ (Json.array values).compact
  | .constant expected => expected.compact ++ " was expected"
  | .bound b limit => shown ++ beyond b ++ limit.text
  | .tooFew measure limit => shown ++ tooSmall measure ++ counted measure limit
  | .tooMany measure limit => shown ++ tooLarge measure ++ counted measure limit
  | .unexpectedFields names =>
    "Additional properties are not allowed " ++ unexpected (names.map apostrophised)
  | .rejected => "False schema does not allow " ++ shown
  | .noneOfOne => shown ++ " is not valid under any of the schemas listed in the 'oneOf' keyword"
  | .severalOfOne =>
    shown ++ " is valid under more than one of the schemas listed in the 'oneOf' keyword"
  | .noneOfAny => shown ++ " is not valid under any of the schemas listed in the 'anyOf' keyword"
  | .excluded source => source.compact ++ " is not allowed for " ++ shown
  | .multiple divisor =>
    shown ++ " is not a multiple of " ++ Layout.plain.render divisor.toBinary64
  | .matching source => shown ++ " does not match " ++ inQuotes source
  | .furtherItems count =>
    "Additional items are not allowed " ++ unexpected ((itemsBehind count value).map Json.compact)
  | .repeatedItems => shown ++ " has non-unique elements"
  | .noItem => "None of " ++ shown ++ " are valid under the given schema"
  | .fieldName inner value => inner.describe value
  | .format f => shown ++ " is not a " ++ inQuotes f.name
  | .notEncoded => shown ++ " is not compliant with " ++ inQuotes "base64" ++ " content encoding"
  | .noDocument =>
    shown ++ " is not compliant with " ++ inQuotes "application/json" ++ " media type"
  | .notText f => f.message
  | .badSchema => "Schema error"
  | .badAddress e => e.message
  | .badReference f => f.message
  | .danglingReference target => "Invalid reference: " ++ target.text
  | .unknownDocument address =>
    "failed to resolve " ++ address.text ++ ": " ++ unknownReason address

end Violation

/-- A violation in a document. -/
structure Issue where
  /-- The constraint. -/
  violation : Violation
  /-- The place of the value: the names and positions on the way to it. -/
  path : String
  /-- The value. -/
  value : Json

namespace Issue

/-- The name of the kind of violation. -/
def kind (i : Issue) : String := i.violation.kind

/-- The violation in words. -/
def description (i : Issue) : String := i.violation.describe i.value

/-- A part of a schema is of none of the types that it may have. -/
def wrongType (path : String) (j : Json) (names : List TypeName) : Issue := ⟨.type names, path, j⟩

/-- An issue with the schema itself, without a place. -/
def ofSchema (v : Violation) : Issue := ⟨v, "", .null⟩

/-- The kind and the place of an issue. -/
def summary (i : Issue) : String := i.kind ++ " at '" ++ i.path ++ "'"

end Issue

end Reconfig
