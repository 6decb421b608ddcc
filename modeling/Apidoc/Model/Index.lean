import Apidoc.Model.Element
import Apidoc.Text.Blank

/-!
# `Apidoc.Model.Index`: finding types by name

The index holds every type of the units that were added, at every nesting level. A name is resolved
as a compiler would: enclosing types from the inside out, imports of single types, the package of
the unit, imports on demand, and the types of `java.lang`. A name that nothing matches stays as it
is.
-/

set_option autoImplicit false

namespace Apidoc.Model

/-- The types of `java.lang` that are known without an index. -/
def javaLangTypes : List String :=
  ["AutoCloseable", "Boolean", "Byte", "CharSequence", "Character", "Class", "ClassLoader",
    "Cloneable", "Comparable", "Deprecated", "Double", "Enum", "Error", "Exception", "Float",
    "FunctionalInterface", "IllegalArgumentException", "IllegalStateException",
    "IndexOutOfBoundsException", "Integer", "Iterable", "Long", "Math", "NullPointerException",
    "Number", "Object", "Override", "Record", "Runnable", "RuntimeException", "SafeVarargs", "Short",
    "String", "StringBuilder", "SuppressWarnings", "System", "Thread", "Throwable",
    "UnsupportedOperationException", "Void"]

/-- Types by qualified name, and the packages they are declared in. -/
structure Index where
  /-- One entry per qualified name, in the order of their first declarations. -/
  types : List Located
  /-- Each package once. -/
  packages : List String

namespace Index

/-- The index of nothing. -/
def empty : Index := ⟨[], []⟩

/-- The type with a qualified name. -/
def get? (index : Index) (name : String) : Option Located :=
  index.types.find? fun l => l.declaration.qualifiedName = name

/-- Whether a type has the qualified name. -/
def contains (index : Index) (name : String) : Bool := (index.get? name).isSome

/-- The number of names. -/
def size (index : Index) : Nat := index.types.length

/-- Adds one type. The first declaration of a name stays. -/
def insert (index : Index) (l : Located) : Index where
  types := if index.contains l.declaration.qualifiedName then index.types else index.types ++ [l]
  packages :=
    if l.source.package ∈ index.packages then index.packages
    else index.packages ++ [l.source.package]

/-- A type with the types nested in it, depth first. -/
def nestedTypes (l : Located) : List Located :=
  l.flatten.filter fun inner => inner.declaration.kind.isType

/-- Adds an element and the types nested in it. Other elements than types are left out. -/
def add (index : Index) (l : Located) : Index :=
  if l.declaration.kind.isType then (nestedTypes l).foldl insert index else index

/-- Adds elements in order. -/
def addAll (index : Index) (ls : List Located) : Index := ls.foldl add index

/-! ### Resolving names -/

/-- The first segment of a name and the rest with its leading dot. A dot at the end is no rest. -/
def headAndSuffix (name : List Char) : String × String :=
  match Text.cutAt '.' name with
  | (head, none) => (String.ofList head, "")
  | (head, some rest) =>
    (String.ofList head, if rest = [] then "" else String.ofList ('.' :: rest))

/-- The first name in the list that the index has. -/
def firstKnown (index : Index) (names : List String) : Option String := names.find? index.contains

/-- What a name may mean inside a type: the type itself, or a member of it. -/
def memberNames (head suffix : String) (type : Declaration) : List String :=
  (if type.name = head then [type.qualifiedName ++ suffix] else []) ++
    [type.qualifiedName ++ "." ++ head ++ suffix]

/-- A name as a member of the enclosing types, from the inside out. -/
def viaEnclosing (index : Index) (scope : Scope) (head suffix : String) : Option String :=
  scope.typeChain.findSome? fun type => index.firstKnown (memberNames head suffix type)

/-- The import of a single type whose last segment is the head of the name. -/
def viaSingleImport (source : SourceFile) (head suffix : String) : Option String :=
  (source.singleTypeImports.find? fun imported =>
    imported = head ∨ ("." ++ head).toList.isSuffixOf imported.toList).map (· ++ suffix)

/-- The name in the package of its unit. -/
def viaPackage (index : Index) (source : SourceFile) (name : String) : Option String :=
  index.firstKnown [if source.package = "" then name else source.package ++ "." ++ name]

/-- The name in a package that is imported on demand. -/
def viaOnDemandImport (index : Index) (source : SourceFile) (name : String) : Option String :=
  index.firstKnown (source.onDemandImports.map (· ++ "." ++ name))

/-- A simple name of a type of `java.lang`. -/
def viaJavaLang (head suffix : String) : Option String :=
  if suffix = "" ∧ head ∈ javaLangTypes then some ("java.lang." ++ head) else none

/-- The qualified name of a type as written in a scope. Without a scope, or if nothing matches, the
name is taken to be qualified. -/
def qualify (index : Index) (written : String) (scope : Option Scope) : String :=
  let name := Text.trim written.toList
  let trimmed := String.ofList name
  match scope with
  | none => trimmed
  | some scope =>
    if name = [] then trimmed
    else
      let (head, suffix) := headAndSuffix name
      (index.viaEnclosing scope head suffix <|>
        viaSingleImport scope.source head suffix <|>
        index.viaPackage scope.source trimmed <|>
        index.viaOnDemandImport scope.source trimmed <|>
        index.firstKnown [trimmed] <|>
        viaJavaLang head suffix).getD trimmed

end Index

end Apidoc.Model
