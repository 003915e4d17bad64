import Reconfig.Yaml.Value

/-!
# Reading YAML

* **`Yaml.read?`**: the JSON value of a text that holds one document.
-/

namespace Reconfig.Yaml

/-- **The JSON value of a text.** A text without content is a null. -/
def read? (text : String) : Option Json :=
  ((Token.ofText? text).bind Node.ofTokens?).bind Node.toJson?

end Reconfig.Yaml
