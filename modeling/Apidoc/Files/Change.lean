import Apidoc.Files.Tree

/-!
# `Apidoc.Files.Change`: what leads from one tree to another

The changes between two trees are what a disk that holds the first one has to go through to hold the
second one. Removals come first, then directories with the ones above before the ones below, then
files.
-/

set_option autoImplicit false

namespace Apidoc.Files

/-- A change of a disk. -/
inductive Change where
  | removeFile (l : Location)
  /-- Removes a directory with everything in it. -/
  | removeDirectory (l : Location)
  | makeDirectory (l : Location)
  | write (l : Location) (content : Text.Bytes)
  deriving DecidableEq, Repr

namespace Change

/-- Whether an entry is a directory. -/
def isDirectory (e : Entry) : Bool := e = .directory

/-- Whether a location holds an entry of the same kind in a tree. -/
def isKept (t : Tree) (e : Location × Entry) : Bool :=
  (t.get? e.1).any fun other => isDirectory other = isDirectory e.2

/-- The removals. What goes with the directory above is not removed by itself. -/
def removals (before after : Tree) : List Change :=
  let gone := before.entries.filter fun e => !isKept after e
  let tops := gone.filter fun e => !gone.any fun above => above.1 = e.1.dropLast && e.1 ≠ []
  tops.map fun e => if isDirectory e.2 then .removeDirectory e.1 else .removeFile e.1

/-- The new directories, the ones above first. -/
def directories (before after : Tree) : List Change :=
  let new := after.entries.filter fun e => isDirectory e.2 && !isKept before e
  (new.mergeSort fun a b => a.1.length ≤ b.1.length).map fun e => .makeDirectory e.1

/-- The files that are new or have new contents. -/
def writes (before after : Tree) : List Change :=
  after.entries.filterMap fun e =>
    match e.2 with
    | .directory => none
    | .file content => if before.get? e.1 = some e.2 then none else some (.write e.1 content)

/-- All changes from one tree to another. -/
def between (before after : Tree) : List Change :=
  removals before after ++ directories before after ++ writes before after

end Change

end Apidoc.Files
