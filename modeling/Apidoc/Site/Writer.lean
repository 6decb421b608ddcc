import Apidoc.Files.Action
import Apidoc.Site.Asset
import Apidoc.Site.Page

/-!
# `Apidoc.Site.Writer`: writing a site

The site is the index page, the two assets, the graph as a script, and a page per record in the
directory `types`. That directory is removed first, so no page of an earlier build survives.
-/

set_option autoImplicit false

namespace Apidoc.Site

open Apidoc.Comment (Renderer)
open Apidoc.Files (Action Path Tree)
open Apidoc.Graph (Record Symbols)

/-- Writes the stylesheet and the script, and nothing else. -/
def writeAssets (output : Path) : Action Unit := do
  Action.makeDirectories output
  for (name, text) in assets do
    Action.write (output.child name) text

/-- The path of the page of a type from the directory of such pages. A name is written as in its
source, so a comment inside it can bring slashes, which separate directories here too. -/
def pagePath (r : Record) : Path := Path.ofString (r.qualifiedName ++ ".html")

/-- The directory of the pages of types. -/
def typesDirectory (output : Path) : Path := output.child "types"

/-- Writes the page of a type. The press is made for the files as they are. -/
def writeTypePage (output : Path) (press : Tree → Press) (r : Record) : Action Path := do
  let path := (typesDirectory output).join (pagePath r)
  let text ← (press (← get)).typePage r
  Action.write path text
  return path

/-- Writes a site, and answers the paths of the pages of types in graph order. -/
def writeSite (output : Path) (g : Symbols) (site : Info) (press : Tree → Press) :
    Action (List Path) := do
  Action.makeDirectories output
  let types := typesDirectory output
  if (← Action.ask fun t => t.find? types).isSome then Action.removeDirectory types
  Action.makeDirectories types
  writeAssets output
  Action.write (output.child "root.js") g.script
  Action.write (output.child "index.html") (indexPage g site)
  g.types.mapM (writeTypePage output press)

end Apidoc.Site
