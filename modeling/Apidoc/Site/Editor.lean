import Apidoc.Files.Tree
import Apidoc.Site.Address

/-!
# `Apidoc.Site.Editor`: links to edit a source

A repository on `github.com` has an address for every file in it. Other hosts have no edit links. The
place of a file in the repository is its path from the base directory; a file outside keeps its own
path.
-/

set_option autoImplicit false

namespace Apidoc.Site

open Apidoc.Files (Path Location resolve)

/-- Makes edit links. -/
structure Editor where
  /-- The address of the repository, without slashes and `.git` at its end. -/
  repository : String
  /-- What paths in the repository start from. -/
  base : Location
  /-- Where relative paths start. -/
  workingDirectory : Location
  deriving DecidableEq, Repr

namespace Editor

/-- The host whose repositories have edit links. -/
def host : String := "github.com"

/-- The address of a repository without slashes and one `.git` at its end. -/
def bareRepository (repository : List Char) : List Char :=
  let bare := Text.dropTrailing (· = '/') repository
  if ".git".toList.isSuffixOf bare then bare.take (bare.length - 4) else bare

/-- The editor for a repository. There is none without a repository, and none for other hosts. -/
def forRepository (repository : Option String) (base : Option Path) (workingDirectory : Location) :
    Except Failure (Option Editor) := do
  match repository with
  | none => return none
  | some address =>
    if address = "" then return none
    else if (← Address.host? address.toList) = some host.toList then
      return some
        ⟨Text.onString bareRepository address,
          (base.map (resolve workingDirectory)).getD workingDirectory, workingDirectory⟩
    else return none

/-- The path of a file from the base, or its own path without slashes in front. -/
def placeOf (e : Editor) (p : Path) : String :=
  let l := resolve e.workingDirectory p
  if e.base.isPrefixOf l then
    let names := l.drop e.base.length
    if names = [] then "." else "/".intercalate names
  else Text.onString (Text.dropLeading (· = '/')) p.toString

/-- The address to edit a file, with its lines if they are known. -/
def link (e : Editor) (p : Path) (lines : Option (Nat × Nat)) : String :=
  let address := s!"{e.repository}/edit/master/{e.placeOf p}"
  match lines with
  | some (first, last) => s!"{address}#L{first}-L{last}"
  | none => address

end Editor

end Apidoc.Site
