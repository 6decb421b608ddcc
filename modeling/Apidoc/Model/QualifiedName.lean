import Apidoc.Text.Blank
import Apidoc.Text.Letter

/-!
# `Apidoc.Model.QualifiedName`: telling the package from the type in a name

A dotted name does not say where its package ends. By convention packages are written in small
letters, so the package is taken to be the leading segments that start with one. The last segment
is never part of the package.
-/

set_option autoImplicit false

namespace Apidoc.Model

open Apidoc.Text

namespace QualifiedName

/-- The segments between the dots. A name without a dot has one segment. -/
def segments (name : List Char) : List (List Char) := splitOn (· = '.') name

/-- The segment starts with a small letter. -/
def isPackageSegment (segment : List Char) : Bool := segment.head?.any isLowercase

/-- Splits segments into those of the package and the rest, which is not empty. -/
def splitSegments : List (List Char) → List (List Char) × List (List Char)
  | [] => ([], [])
  | [segment] => ([], [segment])
  | segment :: rest =>
    if isPackageSegment segment then
      let (package, type) := splitSegments rest
      (segment :: package, type)
    else ([], segment :: rest)

/-- The package of a qualified name and the name of the type in it. -/
def split (name : String) : String × String :=
  let (package, type) := splitSegments (segments name.toList)
  (String.ofList (join ['.'] package), String.ofList (join ['.'] type))

/-- The name without its package. -/
def simple (name : String) : String := (split name).2

/-- The last segment. -/
def lastSegment (name : String) : String := onString (afterLast '.') name

end QualifiedName

end Apidoc.Model
