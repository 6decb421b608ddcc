import Apidoc.Comment.Heading
import Apidoc.Comment.Renderer
import Apidoc.Graph.Symbols
import Apidoc.Sample.Cache
import Apidoc.Site.Editor

/-!
# `Apidoc.Site.Page`: the pages of a site

Every record has a page, and the index page lists them all. The page of a record shows its heading, its
place among the other types, and a section for each visible member, whose `id` is the signature.
-/

set_option autoImplicit false

namespace Apidoc.Site

open Apidoc.Comment (Renderer)
open Apidoc.Files (Path)
open Apidoc.Graph (Member Record Symbols)
open Apidoc.Html (escape)
open Apidoc.Java (Modifier)
open Apidoc.Model (Declaration)

/-- What a site is about. -/
structure Info where
  product : String
  project : String
  version : String
  deriving DecidableEq, Repr

namespace Info

/-- The title of every page. -/
def title (s : Info) : String :=
  let name := if s.product ≠ "" then s.product else if s.project ≠ "" then s.project else "API"
  Text.onString Text.trim (name ++ " " ++ s.version)

end Info

/-- Lines joined by line feeds. -/
def joinLines (ls : List String) : String := "\n".intercalate ls

/-- The frame of a page. `base` leads to the top of the site. -/
def layout (site : Info) (base article aside : String) : String :=
  let title := escape site.title
  joinLines
    ["<!DOCTYPE html>", "<html>", "<head>", "<meta charset=\"UTF-8\">", s!"<title>{title}</title>",
      s!"<link rel=\"stylesheet\" href=\"{base}main.css\">", "</head>", "<body>",
      s!"<header class=\"site\"><h1><a href=\"{base}index.html\">{title}</a></h1></header>", "<main>",
      s!"<nav class=\"types\" data-base=\"{base}\"></nav>", s!"<article>{article}</article>",
      s!"<aside class=\"members\">{aside}</aside>", "</main>",
      s!"<script src=\"{base}root.js\"></script>", s!"<script src=\"{base}main.js\"></script>",
      "</body>", "</html>", ""]

/-- The modifiers of a declaration in page order. -/
def modifierText (d : Declaration) : String :=
  " ".intercalate ((Modifier.ordered d.modifiers).map Modifier.text)

/-- A member as its declaration reads. -/
def memberSignature (d : Declaration) : String :=
  let parameters := ", ".intercalate (d.parameters.map fun p => p.type ++ " " ++ p.name)
  let thrown := if d.throws = [] then "" else " throws " ++ ", ".intercalate d.throws
  let text :=
    match d.kind with
    | .method => d.returnType ++ " " ++ d.name ++ "(" ++ parameters ++ ")" ++ thrown
    | .constructor => d.name ++ "(" ++ parameters ++ ")" ++ thrown
    | _ => d.returnType ++ " " ++ ", ".intercalate d.variableNames
  Text.onString Text.trim (modifierText d ++ " " ++ text)

/-- What the pages of types are made with. -/
structure Press where
  site : Info
  renderer : Renderer
  samples : Option Sample.Cache
  editor : Option Editor

namespace Press

/-- The link to edit some lines of a file. -/
def editLink (p : Press) (path : Path) (lines : Nat × Nat) : String :=
  match p.editor with
  | some editor => s!"<a class=\"edit\" href=\"{escape (editor.link path (some lines))}\">Edit</a>"
  | none => ""

/-- Links to several types. -/
def typeLinks (p : Press) (names : List String) : String :=
  ", ".intercalate (names.map fun name => (p.renderer.link name none none true).render)

/-- One row of the place of a type among the others. -/
def hierarchyRow (p : Press) (label : String) (names : List String) : List String :=
  if names = [] then [] else [s!"<dt>{label}</dt><dd>{p.typeLinks names}</dd>"]

/-- The place of a type among the others. -/
def hierarchy (p : Press) (r : Record) : List String :=
  let rows :=
    p.hierarchyRow "Supertypes" r.supertypes ++ p.hierarchyRow "Interfaces" r.interfaces ++
      p.hierarchyRow "Known subtypes" r.subtypes ++ p.hierarchyRow "Nested types" r.children
  if rows = [] then [] else ["<dl class=\"hierarchy\">" ++ String.join rows ++ "</dl>"]

/-- The heading of a type and the rest of its comment. Without a heading in the comment, the name
stands for it, at the level of its nesting. -/
def headingAndBody (p : Press) (r : Record) : Except Failure (String × String) := do
  let rendered ← p.renderer.render r.doc (some r.scope)
  match Comment.Heading.split rendered with
  | (some heading, body) => return (heading, body)
  | (none, body) =>
    let level := min r.scope.nestLevel 6
    return (s!"<h{level}>{r.name}</h{level}>", body)

/-- The part of a page about the type itself. -/
def typeSection (p : Press) (r : Record) : Except Failure (List String) := do
  let (heading, body) ← p.headingAndBody r
  let modifiers := escape (modifierText r.declaration)
  return ["<section>", s!"<header>{heading}{p.editLink r.scope.source.path r.lines}</header>",
      s!"<p class=\"signature\">{modifiers} {r.label.text} {escape r.name}</p>", body] ++
      p.hierarchy r ++ ["</section>"]

/-- The listings for a member. -/
def sampleBlocks (p : Press) (r : Record) (m : Member) : List String :=
  match p.samples with
  | none => []
  | some cache =>
    (cache.samplesFor r.qualifiedName m.declaration.name m.id).map fun code =>
      s!"<pre class=\"sample\"><code class=\"language-java\">{escape code}</code></pre>"

/-- The part of a page about one member. -/
def memberSection (p : Press) (r : Record) (m : Member) : Except Failure (List String) := do
  let comment ← p.renderer.render m.doc (some m.scope)
  let signature := escape (memberSignature m.declaration)
  let link := p.editLink r.scope.source.path m.lines
  return [s!"<section id=\"{escape m.id}\">",
      s!"<header><h3 class=\"signature\">{signature}</h3>{link}</header>", comment] ++
      p.sampleBlocks r m ++ ["</section>"]

/-- The entry of a member in the list beside the page. -/
def memberEntry (m : Member) : String :=
  s!"<div><a href=\"#{escape m.id}\">{escape m.id}</a></div>"

/-- The page of a type. -/
def typePage (p : Press) (r : Record) : Except Failure String := do
  let type ← p.typeSection r
  let members ← r.visibleMembers.mapM (p.memberSection r)
  return layout p.site "../" (joinLines (type ++ members.flatten))
    (joinLines (r.visibleMembers.map memberEntry))

end Press

/-- The entry of a type on the index page. -/
def typeEntry (r : Record) : String :=
  s!"<li><a href=\"types/{escape r.qualifiedName}.html\">{escape r.name}</a>" ++
    s!" <span class=\"kind\">{r.label.text}</span></li>"

/-- The types of one package on the index page. -/
def packageList (g : Symbols) (package : String) : List String :=
  let types := g.types.filter fun r => r.package = package
  if types.isEmpty then []
  else
    let heading := escape (if package = "" then "(default package)" else package)
    [s!"<h2>{heading}</h2><ul>{String.join (types.map typeEntry)}</ul>"]

/-- The page that lists all types by package, the default package last. -/
def indexPage (g : Symbols) (site : Info) : String :=
  let lists := (g.packages ++ [""]).flatMap (packageList g)
  layout site "" (joinLines ([s!"<section><h1>{escape site.title}</h1>"] ++ lists ++ ["</section>"])) ""

end Apidoc.Site
