import Apidoc.Java.Reader
import Apidoc.Java.TypeName
import Apidoc.Model.Element

/-!
# `Apidoc.Model.Unit`: the elements of a compilation unit

Turns the declarations of a unit into elements. A declaration is documented by the comment that
stands directly before it among its siblings. Members of interfaces get the modifiers that the
language implies, and nested names are built from the names around them.
-/

set_option autoImplicit false

namespace Apidoc.Model

open Apidoc.Files (Path)
open Apidoc.Java

/-- A compilation unit: its file, its top-level types, and the module it declares. -/
structure CompilationUnit where
  source : SourceFile
  types : List Element
  moduleName : Option String

namespace CompilationUnit

/-- The text begins with a given lead. -/
def beginsWith (lead text : String) : Bool := lead.toList.isPrefixOf text.toList

/-- The comment documents the declaration after it: a block comment that opens with two stars. -/
def docOf (previous : Option CommentSyntax) : Option DocBlock := do
  let c ← previous
  if c.isBlock && beginsWith "/**" c.text && !beginsWith "/**/" c.text then some ⟨c.text, c.span⟩
  else none

/-- The item, if it is a comment. -/
def comment? : Item → Option CommentSyntax
  | .comment c => some c
  | _ => none

/-- The last segment of an annotation's name. -/
def annotationName (a : Annotation) : String := Text.onString (Text.afterLast '.') a.name

/-- A parameter with its type erased. -/
def parameter (p : ParameterSyntax) : Parameter where
  name := p.name
  type :=
    if p.isVariadic then TypeName.erased p.type ++ "..."
    else TypeName.erased p.type ++ TypeName.erased p.dimensions

/-- The qualified name of a type: below its owner, or in the package of its file. -/
def qualifiedTypeName (source : SourceFile) (owner : Option Declaration) (name : String) : String :=
  match owner with
  | some o => o.qualifiedName ++ "." ++ name
  | none => if source.package = "" then name else source.package ++ "." ++ name

/-- Whether members of the owner are members of an interface. -/
def inInterface (owner : Option Declaration) : Bool := owner.any (·.kind.isInterface)

/-- The declaration of a type. -/
def typeDeclaration (source : SourceFile) (owner : Option Declaration) (doc : Option DocBlock)
    (head : TypeSyntax) : Declaration :=
  let implied : List Modifier :=
    (if inInterface owner then [.publicAccess, .static] else []) ++
      (if head.kind = .interfaceType ∨ head.kind = .annotationType then [.abstract] else [])
  { kind := .type head.kind
    name := head.name
    qualifiedName := qualifiedTypeName source owner head.name
    span := head.span
    modifiers := Modifier.ordered (head.modifiers.keywords ++ implied)
    annotations := head.modifiers.annotations.map annotationName
    doc
    superclass := head.superclass.map TypeName.erased
    interfaces := head.interfaces.map TypeName.erased
    typeParameters := head.typeParameters
    returnType := ""
    parameters := head.components.map parameter
    throws := []
    variableNames := [] }

/-- The declaration of a member, without what only some members have. -/
def memberDeclaration (owner : Declaration) (kind : ElementKind) (doc : Option DocBlock)
    (name : String) (span : Span) (keywords : List Modifier) (annotations : List Annotation) :
    Declaration :=
  { Declaration.bare kind name (owner.qualifiedName ++ "#" ++ name) span with
    modifiers := Modifier.ordered keywords
    annotations := annotations.map annotationName
    doc }

/-- The declaration of a method. In an interface it is public unless it is private, and abstract
unless it has a body or says otherwise. -/
def methodDeclaration (owner : Declaration) (doc : Option DocBlock) (head : MethodSyntax) :
    Declaration :=
  let written := head.modifiers.keywords
  let implied : List Modifier :=
    if owner.kind.isInterface then
      (if .privateAccess ∈ written then [] else [.publicAccess]) ++
        (if head.hasBody ∨ .default ∈ written ∨ .static ∈ written ∨ .privateAccess ∈ written then []
          else [.abstract])
    else []
  { memberDeclaration owner .method doc head.name head.span (written ++ implied)
      head.modifiers.annotations with
    returnType := TypeName.erased head.returnType
    typeParameters := head.typeParameters
    parameters := head.parameters.map parameter
    throws := head.throws.map TypeName.erased }

/-- The declaration of a constructor. A compact one has the parameters of its record. -/
def constructorDeclaration (owner : Declaration) (doc : Option DocBlock) (head : ConstructorSyntax) :
    Declaration :=
  let name := if head.name = "" then owner.name else head.name
  { memberDeclaration owner .constructor doc name head.span head.modifiers.keywords
      head.modifiers.annotations with
    parameters :=
      match head.parameters with
      | some ps => ps.map parameter
      | none => owner.parameters
    throws := head.throws.map TypeName.erased }

/-- The declaration of a field. It goes by the name of its first variable. -/
def fieldDeclaration (owner : Declaration) (doc : Option DocBlock) (head : FieldSyntax) :
    Declaration :=
  let implied : List Modifier :=
    if owner.kind.isInterface then [.publicAccess, .static, .final] else []
  { memberDeclaration owner .field doc (head.variableNames.headD "") head.span
      (head.modifiers.keywords ++ implied) head.modifiers.annotations with
    returnType := TypeName.erased head.type
    variableNames := head.variableNames }

/-- The declaration of an enum constant. Its type is the enum. -/
def constantDeclaration (owner : Declaration) (doc : Option DocBlock) (head : ConstantSyntax) :
    Declaration :=
  { memberDeclaration owner .constant doc head.name head.span [.publicAccess, .static, .final]
      head.modifiers.annotations with
    returnType := owner.name
    variableNames := [head.name] }

mutual

/-- The elements that an item declares. `previous` is the comment before it, if one is. -/
def ofItem (source : SourceFile) (owner : Option Declaration) (previous : Option CommentSyntax) :
    Item → List Element
  | .type head members =>
    let d := typeDeclaration source owner (docOf previous) head
    [.mk d (ofItems source (some d) none members)]
  | .rest _ members => ofItems source owner none members
  | .method head _ =>
    (owner.map fun o => .mk (methodDeclaration o (docOf previous) head) []).toList
  | .constructor head _ =>
    (owner.map fun o => .mk (constructorDeclaration o (docOf previous) head) []).toList
  | .field head _ =>
    (owner.map fun o => .mk (fieldDeclaration o (docOf previous) head) []).toList
  | .constant head _ =>
    (owner.map fun o => .mk (constantDeclaration o (docOf previous) head) []).toList
  | _ => []

/-- The elements that siblings declare, in source order. -/
def ofItems (source : SourceFile) (owner : Option Declaration) (previous : Option CommentSyntax) :
    List Item → List Element
  | [] => []
  | item :: rest => ofItem source owner previous item ++ ofItems source owner (comment? item) rest

end

/-- The package that the last package declaration names, or the default package. -/
def packageOf (items : List Item) : String :=
  ((items.filterMap fun item => match item with
    | .package _ name => some name
    | _ => none).getLast?).getD ""

/-- The imported names, static or not. -/
def importsOf (static : Bool) (items : List Item) : List String :=
  items.filterMap fun item => match item with
    | .imported _ name isStatic => if isStatic = static then some name else none
    | _ => none

/-- The name that the last module declaration declares. -/
def moduleOf (items : List Item) : Option String :=
  (items.filterMap fun item => match item with
    | .module _ name => some name
    | _ => none).getLast?

/-- The unit that the items of a file make up. -/
def ofSyntax (path : Path) (items : List Item) : CompilationUnit :=
  let source : SourceFile :=
    { path, package := packageOf items, imports := importsOf false items
      staticImports := importsOf true items }
  ⟨source, ofItems source none none items, moduleOf items⟩

/-- The unit that the contents of a file make up. -/
def read (path : Path) (content : Text.Bytes) : CompilationUnit :=
  ofSyntax path (Reader.items content)

/-- The top-level types with their file. -/
def located (u : CompilationUnit) : List Located := u.types.map fun e => ⟨u.source, [], e⟩

/-- Every element of the unit, depth first. -/
def flatten (u : CompilationUnit) : List Located := flattenAll u.source [] u.types

end CompilationUnit

end Apidoc.Model
