import Apidoc.Failure
import Apidoc.Files.Tree
import Apidoc.Model.Position
import Apidoc.Sample.Clean
import Apidoc.Sample.Listing

/-!
# `Apidoc.Sample.Library`: looking samples up by name

A library is a list of directories. The sample `a.b.C` is in the file `a/b/C.java` below one of them.
Names are shortened from the right until a file is found, and what was cut off names a declaration in
it. A sample that is not found is empty.
-/

set_option autoImplicit false

namespace Apidoc.Sample

open Apidoc.Files (Path Tree)
open Apidoc.Model (CompilationUnit Declaration ElementKind Located)
open Apidoc.Text (Bytes)

/-- Where samples are looked up. -/
structure Library where
  roots : List Path
  /-- The annotations that listings leave out. -/
  noise : List String

namespace Library

/-- The extension of Java sources. -/
def sourceExtension : String := ".java"

/-- The first type with a simple name. -/
def findType? (candidates : List Located) (name : String) : Option Located :=
  candidates.find? fun l => l.declaration.kind.isType && l.declaration.name = name

/-- The declaration that a descriptor names: a method by its signature, else a type by its name, else
a field by one of its variables. -/
def findDeclaration? (candidates : List Located) (descriptor : String) : Option Located :=
  let signature := Java.Descriptor.normalized descriptor
  (candidates.find? fun l => l.declaration.kind = .method && l.declaration.signature = signature) <|>
    findType? candidates descriptor <|>
    candidates.find? fun l => l.declaration.kind = .field && descriptor ∈ l.declaration.variableNames

/-- Whether the line above a field belongs to it: a comment, an annotation, or nothing. -/
def belongsToField (line : List Char) : Bool :=
  let trimmed := Text.trim line
  trimmed.isEmpty || ["@", "//", "/*", "*"].any fun lead => lead.toList.isPrefixOf trimmed

/-- The listing of a declaration. -/
def listing (noise : List String) (d : Declaration) (content : Bytes) : String :=
  let (first, last) := d.declarationLines content
  let own := (Model.Position.lineRange content d.span.start d.span.stop).1
  let ls := Model.Position.textLines content first last
  let kept :=
    if d.kind = .field ∧ first < own ∧ ¬ belongsToField (ls.headD []) then ls.drop 1 else ls
  String.ofList (Listing.tidy noise (Text.unlines kept))

/-- The listing of what is asked for in a file, if the file has it. `trailing` are the segments of the
name that do not belong to the path. -/
def listingIn? (noise : List String) (path : Path) (content : Bytes) (trailing : List String)
    (member : Option String) : Option String :=
  let cleaned := Clean.clean noise content
  let unit := CompilationUnit.read path cleaned
  match trailing.getLast?, member with
  | none, none => some (String.ofList (Listing.tidy noise (Text.decode cleaned)))
  | some type, some descriptor => do
    let scope ← findType? unit.flatten type
    let found ← findDeclaration? (scope.enclosed.flatMap Located.flatten) descriptor
    return listing noise found.declaration cleaned
  | some descriptor, none | none, some descriptor => do
    let found ← findDeclaration? unit.flatten descriptor
    return listing noise found.declaration cleaned

/-- The file for the first segments of a name below a root. -/
def fileFor (root : Path) (segments : List String) : Except Failure Path :=
  let path := segments.foldl (fun p s => p.join (Path.ofString s)) root
  match path.withExtension? sourceExtension with
  | some file => .ok file
  | none => .error (.emptyName path)

/-- Looks below one root. The first `length` segments name the file; fewer are tried if that fails. -/
def findBelow (l : Library) (files : Tree) (segments : List String) (member : Option String)
    (root : Path) : Nat → Except Failure (Option String)
  | 0 => .ok none
  | length + 1 => do
    let path ← fileFor root (segments.take (length + 1))
    if ← (files.isFile path).mapError Failure.file then
      let content ← (files.read path).mapError Failure.ofRead
      match listingIn? l.noise path content (segments.drop (length + 1)) member with
      | some code => return some code
      | none => l.findBelow files segments member root length
    else l.findBelow files segments member root length

/-- Looks below several roots in turn. -/
def findAmong (l : Library) (files : Tree) (segments : List String) (member : Option String) :
    List Path → Except Failure String
  | [] => .ok ""
  | root :: roots => do
    match ← l.findBelow files segments member root segments.length with
    | some code => return code
    | none => l.findAmong files segments member roots

/-- The listing of a type, or of a member of it. It is empty if there is none. -/
def find (l : Library) (files : Tree) (name : String) (member : Option String) :
    Except Failure String :=
  let segments := ((Text.splitOn (· = '.') name.toList).filter (· ≠ [])).map String.ofList
  let descriptor := member.bind fun m =>
    let bare := m.toList.dropWhile (· = '#')
    if bare.isEmpty then none else some (String.ofList bare)
  l.findAmong files segments descriptor l.roots

end Library

end Apidoc.Sample
