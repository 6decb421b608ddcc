import Apidoc.Failure
import Apidoc.Files.Tree

/-!
# `Apidoc.Files.Action`: operations on a tree in sequence

An action works on a tree and may fail. What it changed before it failed stays changed, as it would on
a disk.
-/

set_option autoImplicit false

namespace Apidoc.Files

/-- An operation on a tree that may fail. -/
abbrev Action (α : Type) := ExceptT Failure (StateM Tree) α

namespace Action

/-- Runs an action. -/
def exec {α : Type} (a : Action α) (t : Tree) : Except Failure α × Tree := (ExceptT.run a).run t

/-- Asks the tree a question that may be refused. -/
def ask {α : Type} (question : Tree → Except FileError α) : Action α := do
  match question (← get) with
  | .ok answer => return answer
  | .error e => throw (.file e)

/-- Changes the tree, unless the change is refused. -/
def change (f : Tree → Except FileError Tree) : Action Unit := do
  match f (← get) with
  | .ok t => set t
  | .error e => throw (.file e)

/-- Writes a text file. -/
def write (p : Path) (text : String) : Action Unit := change fun t => t.write p (Text.encode text)

/-- Makes a directory, and those above it that are missing. `reversed` are the names of the path from
the last to the first. -/
def makeDirectoriesFrom (root : Root) : List String → Action Unit
  | [] => change fun t => t.makeDirectory ⟨root, []⟩
  | name :: above => do
    let p : Path := ⟨root, (name :: above).reverse⟩
    match (← get).makeDirectory p with
    | .ok t => set t
    | .error e =>
      if e.fault = .notFound then
        makeDirectoriesFrom root above
        change fun t => t.makeDirectory p
      else throw (.file e)

/-- Makes a directory, and those above it that are missing. -/
def makeDirectories (p : Path) : Action Unit := makeDirectoriesFrom p.root p.names.reverse

/-- Removes a directory with everything in it. What lies in it goes first, and a path that leads
through it may then lead nowhere. -/
def removeDirectory (p : Path) : Action Unit := do
  change fun t => t.clearDirectory p
  change fun t => t.removeDirectory p

end Action

end Apidoc.Files
