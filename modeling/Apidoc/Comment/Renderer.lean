import Apidoc.Comment.Inline
import Apidoc.Comment.Target
import Apidoc.Failure
import Apidoc.Html.Node
import Apidoc.Model.Reference

/-!
# `Apidoc.Comment.Renderer`: comments as HTML

The text of a comment is HTML already and passes through. Inline tags and references become nodes of
their own, in which everything is escaped. Samples come from a lookup that may fail, and then the
rendering fails with it.
-/

set_option autoImplicit false

namespace Apidoc.Comment

open Apidoc.Html (Node)
open Apidoc.Model (Resolver Reference Scope)

/-- What comments are rendered against. -/
structure Renderer where
  resolver : Resolver
  /-- The listing of a type or of one of its members. Without samples, tags that ask for one are
  empty. -/
  samples : Option (String → Option String → Except Failure String)
  /-- The path from the page to the top of the site. -/
  root : String

namespace Renderer

/-- What a reference without a type part belongs to: the type itself, or the type around a
member. -/
def ownerName (scope : Scope) : String :=
  if scope.declaration.kind.isType then scope.declaration.qualifiedName
  else (scope.owners.head?.map (·.qualifiedName)).getD ""

/-- Where the type part of a reference leads, if there is one or a scope to stand for it. -/
def locate (r : Renderer) (typeName : String) (scope : Option Scope) : Option Reference :=
  if typeName ≠ "" then some (r.resolver.classify typeName scope)
  else scope.map fun s => r.resolver.classify (ownerName s) scope

/-- The label of a reference that has none of its own. -/
def defaultLabel (found : Option Reference) (typeName member : String) : String :=
  let simple :=
    if typeName = "" then typeName else ((found.map Reference.simpleName).getD typeName)
  if simple ≠ "" ∧ member ≠ "" then simple ++ "." ++ member
  else if simple ≠ "" then simple
  else member

/-- A reference as a link, or as code if it leads nowhere. -/
def link (r : Renderer) (target : String) (scope : Option Scope) (label : Option String)
    (asCode : Bool) : Node :=
  let (type, fragment) := Target.typeAndMember target.toList
  let typeName := String.ofList type
  let member :=
    match fragment with
    | some m => String.ofList (Java.Descriptor.normalize m)
    | none => ""
  let found := r.locate typeName scope
  let shown := label.getD (defaultLabel found typeName member)
  match found.bind fun f => f.href (if member = "" then none else some member) r.root with
  | some href => .element "a" [("href", href)] [if asCode then Html.code shown else .text shown]
  | none => Html.code shown

/-- The listing of a sample. -/
def sampleBlock (code : String) : Node :=
  .element "pre" [("class", "sample")] [.element "code" [("class", "language-java")] [.text code]]

/-- The sample that a tag asks for. A target without a type means the outermost type of the
scope. -/
def sample (r : Renderer) (target : List Char) (scope : Option Scope) : Except Failure (List Node) :=
  match r.samples with
  | none => .ok []
  | some find => do
    let (type, fragment) := Target.typeAndMember target
    let typeName :=
      match type, scope with
      | [], some s => s.topLevel.qualifiedName
      | _, _ => String.ofList type
    let member := fragment.getD []
    let code ← find typeName (if member = [] then none else some (String.ofList member))
    return if code = "" then [] else [sampleBlock code]

/-- The text of a `value` tag: the reference with dots, none of them at its start. -/
def valueText (text : List Char) : List Char :=
  (text.map fun c => if c = '#' then '.' else c).dropWhile (· = '.')

/-- An inline tag. A tag that is not known is shown as it is written. -/
def inlineTag (r : Renderer) (body : List Char) (scope : Option Scope) :
    Except Failure (List Node) :=
  let (name, text) := Inline.nameAndText body
  let shown := String.ofList text
  match String.ofList name with
  | "code" => .ok [Html.code shown]
  | "literal" => .ok [.text shown]
  | "link" | "linkplain" =>
    let (target, label) := Target.withLabel text
    .ok [r.link (String.ofList target) scope (label.map String.ofList) (name = "link".toList)]
  | "inheritDoc" => .ok []
  | "value" => .ok [Html.code (String.ofList (valueText text))]
  | "sample" => r.sample text scope
  | _ => .ok [.text (String.ofList body)]

/-- A part of running text. -/
def inlinePart (r : Renderer) (scope : Option Scope) : Inline → Except Failure (List Node)
  | .char c => .ok [.raw (String.ofList [c])]
  | .tag body => r.inlineTag body scope

/-- The nodes of running text, in order. -/
def inlineNodes (r : Renderer) (scope : Option Scope) : List Inline → Except Failure (List Node)
  | [] => .ok []
  | part :: rest => do
    let front ← r.inlinePart scope part
    let back ← r.inlineNodes scope rest
    return front ++ back

/-- Running text with its inline tags expanded. -/
def renderInline (r : Renderer) (text : String) (scope : Option Scope) : Except Failure String := do
  let nodes ← r.inlineNodes scope (Inline.parts text.toList)
  return Html.renderAll nodes

/-- A `@see` tag: a quoted string, a link as written, or a reference with a label. -/
def renderSee (r : Renderer) (text : String) (scope : Option Scope) : String :=
  let trimmed := Text.trim text.toList
  match trimmed with
  | '"' :: _ =>
    let isQuote (c : Char) : Bool := c = '"'
    Html.escape (String.ofList (Text.dropTrailing isQuote (Text.dropLeading isQuote trimmed)))
  | '<' :: _ => String.ofList trimmed
  | _ =>
    let (target, label) := Target.withLabel trimmed
    (r.link (String.ofList target) scope (label.map String.ofList) true).render

/-- A list element around the entries of several tags, or nothing if there are none. -/
def tagList (className : String) (entry : BlockTag → Except Failure String) (tags : List BlockTag) :
    Except Failure (List String) :=
  if tags.isEmpty then .ok []
  else do
    let items ← tags.mapM entry
    let entries := String.join (items.map fun item => "<li>" ++ item ++ "</li>")
    return ["<ul class=\"" ++ className ++ "\">" ++ entries ++ "</ul>"]

/-- A paragraph for each of several tags. -/
def paragraphs (className : String) (text : BlockTag → Except Failure String)
    (tags : List BlockTag) : Except Failure (List String) :=
  tags.mapM fun tag => do
    let inner ← text tag
    return "<p class=\"" ++ className ++ "\">" ++ inner ++ "</p>"

/-- A whole comment, one line for each part that there is. -/
def render (r : Renderer) (doc : Doc) (scope : Option Scope) : Except Failure String := do
  let running (tag : BlockTag) : Except Failure String := r.renderInline tag.text scope
  let escaped (tag : BlockTag) : Except Failure String := .ok (Html.escape tag.text)
  let description ←
    if doc.description = "" then pure []
    else do
      let text ← r.renderInline doc.description scope
      pure [text]
  let params ← tagList "params"
    (fun tag => do
      let text ← running tag
      return (Html.code tag.argument).render ++ " " ++ text)
    (doc.tagsNamed ["param"])
  let returns ← paragraphs "return" running (doc.tagsNamed ["return"])
  let throws ← tagList "throws"
    (fun tag => do
      let text ← running tag
      return (r.link tag.argument scope none true).render ++ " " ++ text)
    (doc.tagsNamed ["throws", "exception"])
  let see ← tagList "see" (fun tag => .ok (r.renderSee tag.text scope)) (doc.tagsNamed ["see"])
  let deprecated ← paragraphs "deprecated" running (doc.tagsNamed ["deprecated"])
  let since ← paragraphs "since" escaped (doc.tagsNamed ["since"])
  let version ← paragraphs "version" escaped (doc.tagsNamed ["version"])
  let author ← paragraphs "author" escaped (doc.tagsNamed ["author"])
  return "\n".intercalate
    (description ++ params ++ returns ++ throws ++ see ++ deprecated ++ since ++ version ++ author)

end Renderer

end Apidoc.Comment
