import Apidoc.Files.Path
import Apidoc.Java.Syntax

/-!
# `Apidoc.Model.Element`: declared elements

The model of a source that documentation is written from: types with their members, the modifiers
that the language implies, erased types, and the doc comment of each declaration. An element does
not know what encloses it. `Located` is an element together with the declarations around it and its
file.
-/

set_option autoImplicit false

namespace Apidoc.Model

open Apidoc.Files (Path)
open Apidoc.Java (Span Modifier TypeKind)

/-- What is declared. -/
inductive ElementKind where
  | module
  | package
  | type (kind : TypeKind)
  | method
  | constructor
  | field
  | constant
  deriving DecidableEq, Repr

namespace ElementKind

/-- Classes, interfaces, enums, records and annotation types. -/
def isType : ElementKind → Bool
  | .type _ => true
  | _ => false

/-- Types whose members are public unless they are declared private. -/
def isInterface : ElementKind → Bool
  | .type .interfaceType => true
  | .type .annotationType => true
  | _ => false

end ElementKind

/-- A compilation unit: where it is, its package, and what it imports. -/
structure SourceFile where
  path : Path
  package : String
  imports : List String
  staticImports : List String
  deriving DecidableEq, Repr

namespace SourceFile

/-- The package of an import on demand. -/
def onDemand? (name : String) : Option String :=
  if ".*".toList.isSuffixOf name.toList then some (String.ofList (name.toList.dropLast.dropLast))
  else none

/-- The imports of single types. -/
def singleTypeImports (s : SourceFile) : List String :=
  s.imports.filter fun name => (onDemand? name).isNone

/-- The packages and types whose members are imported on demand. -/
def onDemandImports (s : SourceFile) : List String := s.imports.filterMap onDemand?

end SourceFile

/-- A parameter with its erased type. -/
structure Parameter where
  name : String
  type : String
  deriving DecidableEq, Repr

/-- A doc comment as written. -/
structure DocBlock where
  text : String
  span : Span
  deriving DecidableEq, Repr

/-- One declaration, without what it encloses. -/
structure Declaration where
  kind : ElementKind
  name : String
  qualifiedName : String
  span : Span
  modifiers : List Modifier
  annotations : List String
  doc : Option DocBlock
  /-- The erased text of the declared superclass of a class. -/
  superclass : Option String
  /-- The erased texts of the declared interfaces. -/
  interfaces : List String
  typeParameters : String
  returnType : String
  parameters : List Parameter
  throws : List String
  /-- The names that a field declaration or a constant introduces. -/
  variableNames : List String
  deriving Repr

namespace Declaration

/-- The declaration of a name and nothing else. -/
def bare (kind : ElementKind) (name qualifiedName : String) (span : Span) : Declaration :=
  { kind, name, qualifiedName, span, modifiers := [], annotations := [], doc := none
    superclass := none, interfaces := [], typeParameters := "", returnType := "", parameters := []
    throws := [], variableNames := [] }

/-- What tells overloads apart: the name, with the erased parameter types for a method or a
constructor. -/
def signature (d : Declaration) : String :=
  match d.kind with
  | .method | .constructor => d.name ++ "(" ++ ",".intercalate (d.parameters.map (·.type)) ++ ")"
  | _ => d.name

end Declaration

/-- A declaration and the declarations it encloses, in source order. -/
inductive Element where
  | mk (declaration : Declaration) (enclosed : List Element)

namespace Element

/-- The declaration itself. -/
def declaration : Element → Declaration
  | .mk d _ => d

/-- The declarations directly inside. -/
def enclosed : Element → List Element
  | .mk _ es => es

end Element

/-- A declaration in its surroundings. -/
structure Scope where
  source : SourceFile
  declaration : Declaration
  /-- The enclosing types, the nearest one first. -/
  owners : List Declaration
  deriving Repr

namespace Scope

/-- The declaration and its enclosing types, from the inside out. -/
def chain (s : Scope) : List Declaration := s.declaration :: s.owners

/-- The enclosing types, and the declaration itself if it is a type. -/
def typeChain (s : Scope) : List Declaration := s.chain.filter (·.kind.isType)

/-- The type around everything else. -/
def topLevel (s : Scope) : Declaration := s.chain.getLast (by simp [chain])

/-- One for a top-level type, and one more for each enclosing type. -/
def nestLevel (s : Scope) : Nat := 1 + (s.owners.filter (·.kind.isType)).length

end Scope

/-- An element in its surroundings. -/
structure Located where
  source : SourceFile
  owners : List Declaration
  element : Element

namespace Located

/-- The declaration itself. -/
def declaration (l : Located) : Declaration := l.element.declaration

/-- The surroundings without the enclosed declarations. -/
def scope (l : Located) : Scope := ⟨l.source, l.declaration, l.owners⟩

/-- The declarations directly inside. -/
def enclosed (l : Located) : List Located :=
  l.element.enclosed.map fun e => ⟨l.source, l.declaration :: l.owners, e⟩

end Located

mutual

/-- An element and everything inside it, depth first. -/
def Element.flatten (source : SourceFile) (owners : List Declaration) : Element → List Located
  | .mk d es => ⟨source, owners, .mk d es⟩ :: flattenAll source (d :: owners) es

/-- Several elements and everything inside them, depth first. -/
def flattenAll (source : SourceFile) (owners : List Declaration) : List Element → List Located
  | [] => []
  | e :: es => Element.flatten source owners e ++ flattenAll source owners es

end

/-- An element and everything inside it, depth first. -/
def Located.flatten (l : Located) : List Located := l.element.flatten l.source l.owners

end Apidoc.Model
