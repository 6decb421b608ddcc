import Apidoc.Failure
import Apidoc.Files.Pattern
import Apidoc.Files.Tree

/-!
# `Apidoc.Files.Search`: the files below a directory

Sources are the files below a directory whose names end in a suffix. The suffix is part of a pattern,
so it may hold special characters and even slashes. Results are in path order and each is there once.
A directory that does not exist has nothing below it.
-/

set_option autoImplicit false

namespace Apidoc.Files

namespace Tree

/-- The names in a directory with what they stand for. -/
def listing (t : Tree) (p : Path) : List (String × Entry) :=
  match t.locate p with
  | .error _ => []
  | .ok l => t.entries.filterMap fun (m, e) =>
      if m.dropLast = l then m.getLast?.map fun name => (name, e) else none

/-- A directory and all directories below it. -/
def directoriesFrom (t : Tree) (p : Path) : List Path :=
  match t.locate p with
  | .error _ => []
  | .ok l => p :: t.entries.filterMap fun (m, e) =>
      if e = .directory ∧ l.isPrefixOf m ∧ m ≠ l then
        some (p.join ⟨.workingDirectory, m.drop l.length⟩)
      else none

/-- The paths below a directory that fit a pattern. All but the last name must be directories. -/
def select (t : Tree) : List PathPart → Path → Except FileError (List Path)
  | [], p => .ok [p]
  | .directoryOnly :: _, p => .ok [p]
  | .exact name :: rest, p => do
    match ← t.find? (p.child name) with
    | none => return []
    | some e =>
      if rest.isEmpty || e = .directory then t.select rest (p.child name) else return []
  | .matching pattern :: rest, p => do
    let found ← (t.listing p).mapM fun (name, e) =>
      if NamePattern.fits pattern name.toList && (rest.isEmpty || e = .directory) then
        t.select rest (p.child name)
      else .ok []
    return found.flatten
  | .anyDirectories :: rest, p => do
    let found ← (t.directoriesFrom p).mapM (t.select rest)
    return found.flatten

/-- Each path once, in path order. -/
def inOrder (ps : List Path) : List Path := (ps.mergeSort Path.le).eraseDups

/-- The paths at any depth below a directory that fit a pattern. -/
def search (t : Tree) (root : Path) (pattern : String) : Except Failure (List Path) := do
  match PathPart.readAll? pattern with
  | none => throw .pattern
  | some parts =>
    if ← (t.isDirectory root).mapError Failure.file then
      inOrder <$> (t.select (.anyDirectories :: parts) root).mapError Failure.file
    else return []

/-- The files below a directory whose names end in a suffix. -/
def filesBelow (t : Tree) (root : Path) (suffix : String) : Except Failure (List Path) := do
  (← t.search root ("*" ++ suffix)).filterM fun p => (t.isFile p).mapError Failure.file

/-- The dotted names of all directories below a directory. -/
def packagesBelow (t : Tree) (root : Path) : Except Failure (List String) := do
  let directories ← (← t.search root "*").filterM fun p =>
    (t.isDirectory p).mapError Failure.file
  return (directories.map fun p => ".".intercalate (p.names.drop root.names.length)).eraseDups

end Tree

end Apidoc.Files
