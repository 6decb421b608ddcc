import Apidoc.Files.Error
import Apidoc.Text.Utf8

/-!
# `Apidoc.Files.Tree`: directories and their contents

A tree maps locations to directories and files. A location is a list of names from the top. A path
is followed name by name, so that `..` means the directory above the one that has been reached. There
are no links, so each file has one location.
-/

set_option autoImplicit false

namespace Apidoc.Files

open Apidoc.Text (Bytes)

/-- What a location holds. -/
inductive Entry where
  | directory
  | file (content : Bytes)
  deriving DecidableEq, Repr

/-- The names that lead from the top to an entry. -/
abbrev Location := List String

/-- The location that a name leads to from another one. -/
def move (l : Location) (name : String) : Location :=
  if name = ".." then l.dropLast else l ++ [name]

/-- The location that a path starts at. -/
def startOf (workingDirectory : Location) (p : Path) : Location :=
  if p.isAbsolute then [] else workingDirectory

/-- The location that a path means when `..` is the directory above, whatever there is. -/
def resolve (workingDirectory : Location) (p : Path) : Location :=
  p.names.foldl move (startOf workingDirectory p)

/-- Directories and files. The top is always a directory. -/
structure Tree where
  entries : List (Location × Entry)
  /-- Where paths without a leading slash start. -/
  workingDirectory : Location
  deriving Repr

namespace Tree

/-! ### Locations -/

/-- What a location holds. -/
def get? (t : Tree) (l : Location) : Option Entry :=
  if l = [] then some .directory else (t.entries.find? fun e => e.1 = l).map (·.2)

/-- Puts an entry at a location, in place of an earlier one. -/
def put (t : Tree) (l : Location) (e : Entry) : Tree :=
  { t with entries := (l, e) :: t.entries.filter fun other => other.1 ≠ l }

/-- Removes everything below a location. -/
def clear (t : Tree) (l : Location) : Tree :=
  { t with entries := t.entries.filter fun e => !(l.isPrefixOf e.1 && l ≠ e.1) }

/-- Removes a location and everything below it. -/
def prune (t : Tree) (l : Location) : Tree :=
  { t with entries := t.entries.filter fun e => !l.isPrefixOf e.1 }

/-- The longest name in bytes. -/
def longestName : Nat := 255

/-- The longest path in bytes. -/
def longestPath : Nat := 4095

/-- Follows one name. -/
def enter (t : Tree) (l : Location) (name : String) : Except Fault Location :=
  match t.get? l with
  | none => .error .notFound
  | some (.file _) => .error .notDirectory
  | some .directory =>
    if name ≠ ".." ∧ longestName < name.utf8ByteSize then .error .nameTooLong
    else .ok (move l name)

/-- The location that a path leads to. Only what is above it has to be there. -/
def locate (t : Tree) (p : Path) : Except Fault Location :=
  let text := p.toString
  if '\x00' ∈ text.toList then .error .nullCharacter
  else if longestPath < text.utf8ByteSize then .error .nameTooLong
  else p.names.foldlM t.enter (startOf t.workingDirectory p)

/-! ### Asking -/

/-- What a path leads to, if it leads to something. Only a path that is too long cannot be asked
about. -/
def find? (t : Tree) (p : Path) : Except FileError (Option Entry) :=
  match t.locate p with
  | .ok l => .ok (t.get? l)
  | .error .nameTooLong => .error { fault := .nameTooLong, path := p }
  | .error _ => .ok none

/-- Whether a path leads to a file. -/
def isFile (t : Tree) (p : Path) : Except FileError Bool := do
  match ← t.find? p with
  | some (.file _) => return true
  | _ => return false

/-- Whether a path leads to a directory. -/
def isDirectory (t : Tree) (p : Path) : Except FileError Bool := do
  match ← t.find? p with
  | some .directory => return true
  | _ => return false

/-- The contents of a file. -/
def read (t : Tree) (p : Path) : Except FileError Bytes :=
  match t.locate p with
  | .error fault => .error { fault, path := p }
  | .ok l =>
    match t.get? l with
    | none => .error { fault := .notFound, path := p }
    | some .directory => .error { fault := .isDirectory, path := p }
    | some (.file content) => .ok content

/-! ### Changing -/

/-- Writes a file, new or in place of an earlier one. -/
def write (t : Tree) (p : Path) (content : Bytes) : Except FileError Tree :=
  match t.locate p with
  | .error fault => .error { fault, path := p }
  | .ok l =>
    if t.get? l = some .directory then .error { fault := .isDirectory, path := p } else .ok (t.put l (.file content))

/-- Makes one directory, unless it is there already. -/
def makeDirectory (t : Tree) (p : Path) : Except FileError Tree :=
  match t.locate p with
  | .error fault => .error { fault, path := p }
  | .ok l =>
    match t.get? l with
    | none => .ok (t.put l .directory)
    | some .directory => .ok t
    | some (.file _) => .error { fault := .alreadyExists, path := p }

/-- Removes something of a directory: its contents, or all of it. -/
def remove (t : Tree) (p : Path) (gone : Location → Tree) : Except FileError Tree :=
  match t.locate p with
  | .error fault => .error { fault, path := p, ofRemoval := true }
  | .ok l =>
    match t.get? l with
    | none => .error { fault := .notFound, path := p, ofRemoval := true }
    | some .directory => .ok (gone l)
    | some (.file _) => .error { fault := .notRemovable, path := p, ofRemoval := true }

/-- Removes what lies in a directory. -/
def clearDirectory (t : Tree) (p : Path) : Except FileError Tree := t.remove p t.clear

/-- Removes a directory with everything in it. -/
def removeDirectory (t : Tree) (p : Path) : Except FileError Tree := t.remove p t.prune

/-! ### Small facts -/

@[simp] theorem get?_put_self (t : Tree) (l : Location) (e : Entry) (h : l ≠ []) :
    (t.put l e).get? l = some e := by
  simp [get?, put, h]

theorem get?_put_of_ne (t : Tree) {l k : Location} (e : Entry) (h : k ≠ l) :
    (t.put l e).get? k = t.get? k := by
  unfold get? put
  split
  · rfl
  · rw [List.find?_cons_of_neg (by simp [Ne.symm h]), List.find?_filter]
    congr 2
    funext a
    by_cases ha : a.1 = k
    · simp [ha, h]
    · simp [ha]

end Tree

end Apidoc.Files
