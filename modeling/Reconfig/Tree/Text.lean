import Reconfig.Tree.Document
import Reconfig.Json.Reader
import Reconfig.Yaml.Reader

/-!
# Reading trees from texts

* `Tree.ofJsonText`, `Tree.ofYamlText`: the tree of a text.
-/

namespace Reconfig.Tree

/-- The tree of a JSON text. -/
def ofJsonText (text : String) : Except TreeError Tree :=
  match Json.read? text with
  | some j => ofJson j
  | none => .error .invalidJson

/-- The tree of a YAML text. -/
def ofYamlText (text : String) : Except TreeError Tree :=
  match Yaml.read? text with
  | some j => ofJson j
  | none => .error .invalidYaml

end Reconfig.Tree
