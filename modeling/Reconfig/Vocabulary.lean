/-!
# The vocabulary of configuration fields

The names that carry a meaning of their own: repeated sections, sections identified by their
type, identity fields, and the singular forms under which commands address list fields.

* `indexField`, `nameField`, `typeField`;
* `isListSection`, `isTypedSection`, `singular`, `plural`;
* **`singular_plural`**, **`plural_singular`**: within the table the two forms are inverse.
-/

namespace Reconfig.Vocabulary

/-- The field that records the position of a section in its list. -/
def indexField : String := "<index>"

/-- The field that identifies a section. -/
def nameField : String := "name"

/-- The field that identifies a section without a name. -/
def typeField : String := "type"

/-- The fields whose value is a list of named sections. -/
def listSections : List String := ["namespaces", "sets", "dcs", "tls", "logging"]

/-- The fields whose section is identified by its type. -/
def typedSections : List String := ["storage-engine", "index-type", "sindex-type"]

/-- The singular and the plural forms of list fields. -/
def forms : List (String × String) :=
  [("access-address", "access-addresses"),
   ("address", "addresses"),
   ("alternate-access-address", "alternate-access-addresses"),
   ("dc", "dcs"),
   ("device", "devices"),
   ("feature-key-file", "feature-key-files"),
   ("file", "files"),
   ("http-url", "http-urls"),
   ("ignore-bin", "ignore-bins"),
   ("ignore-set", "ignore-sets"),
   ("mesh-seed-address-port", "mesh-seed-address-ports"),
   ("mount", "mounts"),
   ("multicast-group", "multicast-groups"),
   ("namespace", "namespaces"),
   ("node-address-port", "node-address-ports"),
   ("role-query-pattern", "role-query-patterns"),
   ("set", "sets"),
   ("ship-bin", "ship-bins"),
   ("ship-set", "ship-sets"),
   ("tls-access-address", "tls-access-addresses"),
   ("tls-address", "tls-addresses"),
   ("tls-alternate-access-address", "tls-alternate-access-addresses"),
   ("tls-mesh-seed-address-port", "tls-mesh-seed-address-ports")]

/-- The field holds a list of named sections. -/
def isListSection (field : String) : Bool := listSections.contains field

/-- The field holds a section that is identified by its type. -/
def isTypedSection (field : String) : Bool := typedSections.contains field

/-- The form of a field that commands use; a field without a plural is its own singular. -/
def singular (field : String) : String :=
  ((forms.find? fun f => f.2 == field).map (·.1)).getD field

/-- The form of a field under which it is stored. -/
def plural (field : String) : String :=
  ((forms.find? fun f => f.1 == field).map (·.2)).getD field

/-- **The singular of the plural of a listed field is that field.** -/
theorem singular_plural : ∀ f ∈ forms, singular (plural f.1) = f.1 := by decide

/-- **The plural of the singular of a listed field is that field.** -/
theorem plural_singular : ∀ f ∈ forms, plural (singular f.2) = f.2 := by decide

end Reconfig.Vocabulary
