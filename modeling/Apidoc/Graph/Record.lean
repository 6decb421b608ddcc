import Apidoc.Comment.Target
import Apidoc.Model.Ancestors
import Apidoc.Model.Position

/-!
# `Apidoc.Graph.Record`: what is documented of a type

A record is made once from a declared type: its members in three groups, its comment, its ancestors,
and its nested types. The subtypes of a type are not known from its declaration. They stay empty until
all records are there.
-/

set_option autoImplicit false

namespace Apidoc.Graph

open Apidoc.Comment (Doc)
open Apidoc.Java (Modifier)
open Apidoc.Model (Declaration Element ElementKind Index Located Scope)
open Apidoc.Text (Bytes)

/-- A reference of a `@see` tag. -/
structure CrossReference where
  /-- The type as written. -/
  typeName : String
  /-- Empty, or `#` and a descriptor. -/
  member : String
  /-- The qualified name of the type. -/
  qualified : String
  deriving DecidableEq, Repr

namespace CrossReference

/-- What samples for the reference are kept under. -/
def key (r : CrossReference) : String := r.qualified ++ r.member

end CrossReference

/-- A documented member of a type. -/
structure Member where
  scope : Scope
  doc : Doc
  documentLines : Option (Nat × Nat)
  declarationLines : Nat × Nat
  references : List CrossReference
  deriving Repr

namespace Member

/-- The declaration of the member. -/
def declaration (m : Member) : Declaration := m.scope.declaration

/-- What tells the member from the others of its type. -/
def id (m : Member) : String := m.declaration.signature

/-- Whether the member is declared public or protected. -/
def isVisible (m : Member) : Bool :=
  Modifier.publicAccess ∈ m.declaration.modifiers || Modifier.protectedAccess ∈ m.declaration.modifiers

/-- The lines that an edit link leads to: those of the comment, or else of the declaration. -/
def lines (m : Member) : Nat × Nat := m.documentLines.getD m.declarationLines

/-- The record of a member declared in `scope`, for a type called `owner`. A reference without a type
part is to a member of the owner. -/
def ofScope (index : Index) (content : Bytes) (owner : String) (scope : Scope) : Member :=
  let d := scope.declaration
  let doc := Doc.ofRaw (d.doc.map (·.text))
  { scope, doc
    documentLines := d.documentLines content
    declarationLines := d.declarationLines content
    references := doc.seeReferences.map fun r =>
      ⟨r.typeName, r.member,
        if r.typeName = "" then owner else index.qualify r.typeName (some scope)⟩ }

end Member

/-- The labels of types in navigation. -/
inductive Label where
  | annotationType
  | functionalInterface
  | interface
  | enum
  | record
  | exception
  | abstractClass
  | concreteClass
  deriving DecidableEq, Repr

namespace Label

/-- The text of a label. -/
def text : Label → String
  | .annotationType => "Annotation"
  | .functionalInterface => "FunctionalInterface"
  | .interface => "Interface"
  | .enum => "Enum"
  | .record => "Record"
  | .exception => "Exception"
  | .abstractClass => "AbstractClass"
  | .concreteClass => "Class"

end Label

/-- A class below one of these is an exception. -/
def throwableTypes : List String :=
  ["java.lang.Throwable", "java.lang.Exception", "java.lang.RuntimeException", "java.lang.Error"]

/-- A documented type. -/
structure Record where
  scope : Scope
  doc : Doc
  documentLines : Option (Nat × Nat)
  declarationLines : Nat × Nat
  /-- Fields and constants. -/
  fields : List Member
  constructors : List Member
  methods : List Member
  /-- The names of the types declared directly inside, private ones left out. -/
  children : List String
  supertypes : List String
  interfaces : List String
  /-- The names of the types below this one. -/
  subtypes : List String
  deriving Repr

namespace Record

/-- The declaration of the type. -/
def declaration (r : Record) : Declaration := r.scope.declaration

/-- The qualified name, which tells the record from all others. -/
def qualifiedName (r : Record) : String := r.declaration.qualifiedName

/-- The package of the type. -/
def package (r : Record) : String := r.scope.source.package

/-- The name without the package. -/
def name (r : Record) : String :=
  if r.package = "" then r.qualifiedName
  else String.ofList (r.qualifiedName.toList.drop (r.package.length + 1))

/-- The members in page order. -/
def members (r : Record) : List Member := r.fields ++ r.constructors ++ r.methods

/-- The members that a page shows. An interface shows all. -/
def visibleMembers (r : Record) : List Member :=
  if r.declaration.kind.isInterface then r.members else r.members.filter (·.isVisible)

/-- Classes and interfaces above the type. -/
def ancestors (r : Record) : List String := r.supertypes ++ r.interfaces

/-- Lists a type as a subtype, unless it is listed already. -/
def addSubtype (r : Record) (name : String) : Record :=
  if name ∈ r.subtypes then r else { r with subtypes := r.subtypes ++ [name] }

/-- The label of the type in navigation. -/
def label (r : Record) : Label :=
  match r.declaration.kind with
  | .type .annotationType => .annotationType
  | .type .interfaceType =>
    if "FunctionalInterface" ∈ r.declaration.annotations then .functionalInterface else .interface
  | .type .enumType => .enum
  | .type .recordType => .record
  | _ =>
    if throwableTypes.any (· ∈ r.supertypes) then .exception
    else if Modifier.abstract ∈ r.declaration.modifiers then .abstractClass
    else .concreteClass

/-- The lines that an edit link leads to: those of the comment, or else of the declaration. -/
def lines (r : Record) : Nat × Nat := r.documentLines.getD r.declarationLines

/-- Whether a nested type gets a record. -/
def isPublished (d : Declaration) : Bool := d.kind.isType && Modifier.privateAccess ∉ d.modifiers

/-- The record of a type from its declaration in `scope` and the declarations inside. -/
def make (index : Index) (content : Bytes) (scope : Scope) (enclosed : List Declaration) : Record :=
  let d := scope.declaration
  let membersOf (kinds : List ElementKind) : List Member :=
    (enclosed.filter (·.kind ∈ kinds)).map fun m =>
      Member.ofScope index content d.qualifiedName ⟨scope.source, m, scope.chain⟩
  let above := Model.ancestors index scope
  { scope
    doc := Doc.ofRaw (d.doc.map (·.text))
    documentLines := d.documentLines content
    declarationLines := d.declarationLines content
    fields := membersOf [.field, .constant]
    constructors := membersOf [.constructor]
    methods := membersOf [.method]
    children := (enclosed.filter isPublished).map (·.qualifiedName)
    supertypes := above.1
    interfaces := above.2
    subtypes := [] }

mutual

/-- The record of a type, followed by those of its nested types, depth first. -/
def ofElement (index : Index) (content : Bytes) (source : Model.SourceFile)
    (owners : List Declaration) : Element → List Record
  | .mk d es =>
    make index content ⟨source, d, owners⟩ (es.map Element.declaration) ::
      ofNested index content source (d :: owners) es

/-- The records of the published types among several elements. -/
def ofNested (index : Index) (content : Bytes) (source : Model.SourceFile)
    (owners : List Declaration) : List Element → List Record
  | [] => []
  | e :: es =>
    (if isPublished e.declaration then ofElement index content source owners e else []) ++
      ofNested index content source owners es

end

/-- The record of a type and those of its nested types, depth first. -/
def ofLocated (index : Index) (content : Bytes) (l : Located) : List Record :=
  ofElement index content l.source l.owners l.element

end Record

end Apidoc.Graph
