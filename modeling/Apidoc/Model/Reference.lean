import Apidoc.Java.TypeName
import Apidoc.Model.Index
import Apidoc.Model.QualifiedName

/-!
# `Apidoc.Model.Reference`: where a type name leads

A name leads to a page of this site, to a page of an external site, or nowhere. A type of a scanned
package has a page here even if it is not indexed. An external site lists packages and types by
their simple names.
-/

set_option autoImplicit false

namespace Apidoc.Model

/-- Where a name leads. -/
inductive Target where
  | internal
  | external (base : String)
  | unresolved
  deriving DecidableEq, Repr

/-- A qualified name and where it leads. -/
structure Reference where
  target : Target
  name : String
  deriving DecidableEq, Repr

namespace Reference

/-- The name without its package. -/
def simpleName (r : Reference) : String := QualifiedName.simple r.name

/-- The address of the page, with the member as fragment. `root` leads to the top of this site. -/
def href (r : Reference) (member : Option String) (root : String) : Option String :=
  let anchor :=
    match member with
    | some m => if m = "" then "" else "#" ++ m
    | none => ""
  match r.target with
  | .internal => some (root ++ "types/" ++ r.name ++ ".html" ++ anchor)
  | .external base =>
    if base = "" then none
    else
      let (package, simple) := QualifiedName.split r.name
      if package = "" then some base
      else
        let folder := Text.onString (fun cs => cs.map fun c => if c = '.' then '/' else c) package
        some (base ++ folder ++ "/" ++ simple ++ ".html" ++ anchor)
  | .unresolved => none

end Reference

/-- The types that are no declarations. -/
def primitiveTypes : List String :=
  ["boolean", "byte", "char", "double", "float", "int", "long", "short", "void", "var"]

/-- Drops brackets and dots of array and variadic types from the end. -/
def dropArraySuffix (cs : List Char) : List Char :=
  let rec strip : List Char → List Char
    | ']' :: '[' :: rest => strip rest
    | '.' :: '.' :: '.' :: rest => strip rest
    | cs => cs
  (strip cs.reverse).reverse

/-- What names are resolved against. -/
structure Resolver where
  index : Index
  /-- The packages that have pages here. -/
  internals : List String
  /-- The base address of the site that lists a name. -/
  lookup : String → Option String
  /-- The scope of names that come without one. -/
  scope : Option Scope

namespace Resolver

/-- The qualified name of a type text. -/
def qualify (r : Resolver) (written : String) (scope : Option Scope) : String :=
  let name := Text.onString (fun cs => dropArraySuffix (Java.TypeName.erase cs)) written
  r.index.qualify name (scope <|> r.scope)

/-- Where a qualified name leads. -/
def locate (r : Resolver) (name : String) : Target :=
  if name = "" ∨ name ∈ primitiveTypes then .unresolved
  else if r.index.contains name then .internal
  else
    let (package, simple) := QualifiedName.split name
    if package ≠ "" ∧ package ∈ r.internals then .internal
    else
      let outermost := String.ofList (Text.cutAt '.' simple.toList).1
      match (if package ≠ "" then r.lookup package else none) <|> r.lookup outermost with
      | some base => .external base
      | none => .unresolved

/-- Where a type text leads. -/
def classify (r : Resolver) (written : String) (scope : Option Scope) : Reference :=
  let name := r.qualify written scope
  ⟨r.locate name, name⟩

end Resolver

end Apidoc.Model
