import Apidoc.Json.Reader
import Apidoc.Text.Blank

/-!
# `Apidoc.Site.Navigation`: the list of types in a browser

Every page loads the script of the graph. It sets one constant to an object that is written as JSON.
The list of types has an entry for each type of that object, and an entry links to a page in the
directory `types`.
-/

set_option autoImplicit false

namespace Apidoc.Site.Navigation

/-- The object that the script of a graph sets. -/
def root? (script : String) : Option Json := do
  let value ← Text.dropLead? "const root = ".toList script.toList
  let text ← Text.dropLead? "\n;".toList value.reverse
  (Json.read text.reverse).toOption

/-- The text of a member. -/
def text? (name : String) (entry : Json) : Option String :=
  match entry.member? name with
  | some (.string s) => some s
  | _ => none

/-- The name of the page that an entry leads to. -/
def pageName? (entry : Json) : Option String := do
  let package ← text? "packageName" entry
  let name ← text? "name" entry
  return (if package = "" then "" else package ++ ".") ++ name ++ ".html"

/-- The links of the entries, in their order. `base` leads from the page to the top of the site. -/
def links? (base script : String) : Option (List String) := do
  match (← root? script).member? "types" with
  | some (.array entries) => entries.mapM fun entry => do
    return base ++ "types/" ++ (← pageName? entry)
  | _ => none

end Apidoc.Site.Navigation
