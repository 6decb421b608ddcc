import Apidoc.Model.Index
import Apidoc.Model.QualifiedName

/-!
# `Apidoc.Model.Ancestors`: the supertypes of a type

Follows the declared supertypes through the index, depth first and in the order of declaration. Each
name is met once, so a hierarchy with cycles or diamonds does no harm. `java.lang.Object` is never
met.
-/

set_option autoImplicit false

namespace Apidoc.Model

/-- The type that every class extends. -/
def rootType : String := "java.lang.Object"

/-- A supertype as a declaration names it. -/
structure Supertype where
  name : String
  /-- It stands among interfaces. -/
  asInterface : Bool
  deriving DecidableEq, Repr

/-- The supertypes that a type declares or, for enums and records, has by the language. -/
def directSupertypes (index : Index) (scope : Scope) : List Supertype :=
  let d := scope.declaration
  let qualify (name : String) : String := index.qualify name (some scope)
  let implied : List Supertype :=
    match d.kind with
    | .type .enumType => [⟨"java.lang.Enum", false⟩]
    | .type .recordType => [⟨"java.lang.Record", false⟩]
    | _ => []
  let superclass : List Supertype :=
    match d.superclass with
    | some name => if name = "" then implied else [⟨qualify name, false⟩]
    | none => implied
  superclass ++ d.interfaces.map fun name => ⟨qualify name, true⟩

/-- What has been met so far. -/
structure Ancestry where
  /-- Every name met, and the type itself. -/
  visited : List String
  /-- The classes among them, in the order in which they were met. -/
  classes : List String
  /-- The interfaces among them, in the order in which they were met. -/
  interfaces : List String
  deriving DecidableEq, Repr

namespace Ancestry

/-- Meets a name. -/
def meet (a : Ancestry) (name : String) (isInterface : Bool) : Ancestry where
  visited := a.visited ++ [name]
  classes := if isInterface then a.classes else a.classes ++ [name]
  interfaces := if isInterface then a.interfaces ++ [name] else a.interfaces

/-- Meets the supertypes of a type and, at each indexed one, its own supertypes before the next. The
fuel bounds the length of a chain of supertypes. -/
def collect (index : Index) : Nat → Scope → Ancestry → Ancestry
  | 0, _, a => a
  | fuel + 1, scope, a =>
    (directSupertypes index scope).foldl
      (fun a supertype =>
        if supertype.name = rootType ∨ supertype.name ∈ a.visited then a
        else
          match index.get? supertype.name with
          | some l =>
            collect index fuel l.scope (a.meet supertype.name l.declaration.kind.isInterface)
          | none => a.meet supertype.name supertype.asInterface)
      a

end Ancestry

/-- The ancestors of a type: the classes in the order in which they are met, and the interfaces
ordered by their last segment. A chain of supertypes visits each indexed type at most once, which
bounds the search. -/
def ancestors (index : Index) (scope : Scope) : List String × List String :=
  let found := Ancestry.collect index (index.size + 1) scope
    ⟨[scope.declaration.qualifiedName], [], []⟩
  let key (name : String) : String := QualifiedName.lastSegment (QualifiedName.simple name)
  (found.classes, found.interfaces.mergeSort fun x y => decide (key x ≤ key y))

end Apidoc.Model
