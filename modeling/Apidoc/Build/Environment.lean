import Apidoc.Failure
import Apidoc.Files.Tree
import Apidoc.Model.Index
import Apidoc.Model.Unit

/-!
# `Apidoc.Build.Environment`: all units of a pass, and visiting them

A pass reads every file before anything is visited, so that each type can be found by name. What is
visited are the modules, packages and top-level types of the specified files, in file order. A file
that cannot be read ends the pass before it has begun.
-/

set_option autoImplicit false

namespace Apidoc.Build

open Apidoc.Files (Path Tree)
open Apidoc.Model (CompilationUnit Index Located SourceFile)

/-- What a pass visits. -/
inductive Visited where
  | module (name : String) (source : SourceFile)
  | package (source : SourceFile)
  | type (type : Located)

/-- What a visitor may see. -/
structure Environment where
  /-- The types of every file. -/
  index : Index
  /-- Every file, in the order given. -/
  sources : List SourceFile
  /-- What is visited, in order. -/
  specified : List Visited

namespace Environment

/-- Before the first file. -/
def empty : Environment := ⟨.empty, [], []⟩

/-- The packages of all files. -/
def packages (e : Environment) : List String :=
  (e.sources.map (·.package) ++ e.index.packages).eraseDups

/-- The file that declares a module. -/
def moduleFile : String := "module-info.java"

/-- The file that documents a package. -/
def packageFile : String := "package-info.java"

/-- What is visited of a unit. -/
def visitedOf (path : Path) (unit : CompilationUnit) : List Visited :=
  let moduleName := unit.moduleName.getD ""
  let special : List Visited :=
    if path.name? = some moduleFile ∧ moduleName ≠ "" then [.module moduleName unit.source]
    else if path.name? = some packageFile then [.package unit.source]
    else []
  special ++ unit.located.map .type

/-- Adds a unit. It is visited if it is wanted. -/
def add (e : Environment) (path : Path) (wanted : Bool) (unit : CompilationUnit) : Environment where
  index := e.index.addAll unit.located
  sources := e.sources ++ [unit.source]
  specified := if wanted then e.specified ++ visitedOf path unit else e.specified

/-- Reads a file. -/
def readUnit (files : Tree) (path : Path) : Except Failure CompilationUnit := do
  let content ← (files.read path).mapError Failure.ofRead
  return CompilationUnit.read path content

/-- Reads files in order. All of them are visited unless some are specified. -/
def read (files : Tree) (paths : List Path) (specified : Option (List Path)) :
    Except Failure Environment :=
  paths.foldlM
    (fun e path => do return e.add path ((specified.getD paths).contains path) (← readUnit files path))
    empty

end Environment

/-- An operation of a visitor on its state. What it changed before it failed stays changed. -/
abbrev Visit (σ α : Type) := ExceptT Failure (StateM σ) α

/-- What is called back during a pass. -/
structure Visitor (σ : Type) where
  prepare : Environment → Visit σ Unit
  process : Visited → Visit σ Unit
  complete : Visit σ Unit

namespace Visitor

/-- Runs a pass: the visitor is told the environment, then each thing to visit, then the end. -/
def run {σ : Type} (v : Visitor σ) (files : Tree) (paths : List Path)
    (specified : Option (List Path)) : Visit σ Environment := do
  match Environment.read files paths specified with
  | .error failure => throw failure
  | .ok environment =>
    v.prepare environment
    environment.specified.forM v.process
    v.complete
    return environment

end Visitor

end Apidoc.Build
