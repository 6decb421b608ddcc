import Apidoc.Text.Blank

/-!
# `Apidoc.Files.Path`: names of files

A path is a root and a list of names. Empty names and the name `.` vanish when a text is read, so
paths are equal if and only if their texts are. The name `..` stays, because what it means depends
on the files.
-/

set_option autoImplicit false

namespace Apidoc.Files

/-- Where a path starts. Two leading slashes are kept apart from one; three or more count as one. -/
inductive Root where
  | workingDirectory
  | slash
  | twoSlashes
  deriving DecidableEq, Repr

/-- A path in normal form. -/
structure Path where
  root : Root
  names : List String
  deriving DecidableEq, Repr

namespace Path

/-- The text of a root. -/
def rootText : Root → String
  | .workingDirectory => ""
  | .slash => "/"
  | .twoSlashes => "//"

/-- The root that a text starts with. -/
def rootOf : List Char → Root
  | '/' :: '/' :: '/' :: _ => .slash
  | '/' :: '/' :: _ => .twoSlashes
  | '/' :: _ => .slash
  | _ => .workingDirectory

/-- Reads a path. -/
def ofString (s : String) : Path where
  root := rootOf s.toList
  names := ((Text.splitOn (· = '/') s.toList).map String.ofList).filter fun n => n ≠ "" ∧ n ≠ "."

/-- The text of a path. The path without names is `.`. -/
def toString (p : Path) : String :=
  if p.root = .workingDirectory ∧ p.names = [] then "."
  else rootText p.root ++ "/".intercalate p.names

instance : ToString Path := ⟨toString⟩

/-- The path below `p` that another path names. An absolute path stands for itself. -/
def join (p q : Path) : Path :=
  if q.root = .workingDirectory then ⟨p.root, p.names ++ q.names⟩ else q

/-- The path of an entry of the directory `p`. -/
def child (p : Path) (name : String) : Path := ⟨p.root, p.names ++ [name]⟩

/-- The last name, or nothing for a bare root. -/
def name? (p : Path) : Option String := p.names.getLast?

/-- Whether the path does not depend on the working directory. -/
def isAbsolute (p : Path) : Bool := p.root ≠ .workingDirectory

/-- The path of the directory above. -/
def parent (p : Path) : Path := ⟨p.root, p.names.dropLast⟩

/-- The path with the extension of its last name replaced, or added if there is none. There has to be
a last name. -/
def withExtension? (p : Path) (extension : String) : Option Path := do
  let name := (← p.name?).toList
  let stem := (name.reverse.dropWhile (· ≠ '.')).drop 1 |>.reverse
  let hasExtension := !stem.isEmpty && stem.length + 1 < name.length
  let kept := if hasExtension then stem else name
  return p.parent.child (String.ofList kept ++ extension)

/-- The order of lists of names: by the first name in which they differ. -/
def namesLe : List String → List String → Bool
  | [], _ => true
  | _ :: _, [] => false
  | a :: as, b :: bs => if a = b then namesLe as bs else a < b

/-- The order of paths by their names. A directory comes before what lies in it, and its contents
come before its next neighbour. -/
def le (p q : Path) : Bool :=
  let key (r : Path) : List String := (if r.isAbsolute then [rootText r.root] else []) ++ r.names
  namesLe (key p) (key q)

end Path

end Apidoc.Files
