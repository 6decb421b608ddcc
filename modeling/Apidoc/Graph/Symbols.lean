import Apidoc.Graph.Record
import Apidoc.Json.Printer

/-!
# `Apidoc.Graph.Symbols`: all documented types of a build

A graph holds records with distinct qualified names, and the packages of those records. Sorting puts
them in order of their names. Connecting tells every record about the records below it; it can be done
again without effect.
-/

set_option autoImplicit false

namespace Apidoc.Graph

/-- The documented types of a build. -/
structure Symbols where
  docs : List String
  modules : List String
  /-- The packages of the records, the default package left out. -/
  packages : List String
  types : List Record
  deriving Repr

namespace Symbols

/-- The graph of nothing. -/
def empty : Symbols := ⟨[], [], [], []⟩

/-- The record with a qualified name. -/
def find? (g : Symbols) (name : String) : Option Record :=
  g.types.find? fun r => r.qualifiedName = name

/-- Whether a record has the qualified name. -/
def contains (g : Symbols) (name : String) : Bool := (g.find? name).isSome

/-- Adds a record, unless its name is taken. -/
def add (g : Symbols) (r : Record) : Symbols :=
  if g.contains r.qualifiedName then g
  else
    { g with
      types := g.types ++ [r]
      packages :=
        if r.package = "" ∨ r.package ∈ g.packages then g.packages
        else g.packages ++ [r.package] }

/-- Strings in order. -/
def inOrder (names : List String) : List String := names.mergeSort fun a b => decide (a ≤ b)

/-- The graph in order of names. -/
def sort (g : Symbols) : Symbols :=
  { g with
    modules := inOrder g.modules
    packages := inOrder g.packages
    types := g.types.mergeSort fun a b => decide (a.qualifiedName ≤ b.qualifiedName) }

/-- Lists a name below the records called `name`. -/
def listBelow (below : String) (types : List Record) (name : String) : List Record :=
  types.map fun r => if r.qualifiedName = name then r.addSubtype below else r

/-- Lists a record below each of its ancestors among the records. Ancestors outside are passed
over. -/
def connectRecord (types : List Record) (r : Record) : List Record :=
  r.ancestors.foldl (listBelow r.qualifiedName) types

/-- The graph with every record listed below its ancestors, one record after the other in graph
order. -/
def connect (g : Symbols) : Symbols := { g with types := g.types.foldl connectRecord g.types }

/-- The graph as navigation sees it. -/
def toJson (g : Symbols) : Json :=
  let strings (names : List String) : Json := .array (names.map .string)
  .object
    [("docs", strings g.docs), ("modules", strings g.modules), ("packages", strings g.packages),
      ("types", .array (g.types.map fun r =>
        .object
          [("name", .string r.name), ("packageName", .string r.package),
            ("type", .string r.label.text),
            ("modifiers", strings (inOrder (r.declaration.modifiers.map (·.text))))]))]

/-- The script that hands the graph to navigation. -/
def script (g : Symbols) : String := s!"const root = {g.toJson.print};\n"

end Symbols

end Apidoc.Graph
