import Apidoc.Java.TypeName
import Apidoc.Text.Letter
import Apidoc.Text.Lines

/-!
# `Apidoc.Comment.Doc`: doc comments

A doc comment is a description and a list of block tags. A block tag starts at a line whose first
character is `@`, unless a brace is still open there: then the line belongs to an inline tag.
-/

set_option autoImplicit false

namespace Apidoc.Comment

open Apidoc.Text

/-- A block tag such as `@param x the text`. -/
structure BlockTag where
  name : String
  /-- The first word of a tag that takes an argument, and empty for other tags. -/
  argument : String
  text : String
  deriving DecidableEq, Repr

/-- A doc comment without its delimiters. -/
structure Doc where
  description : String
  tags : List BlockTag
  deriving DecidableEq, Repr

namespace Doc

/-- The comment that says nothing. -/
def empty : Doc := ⟨"", []⟩

/-- The tags with one of the given names, in order. -/
def tagsNamed (doc : Doc) (names : List String) : List BlockTag :=
  doc.tags.filter fun tag => tag.name ∈ names

/-- Whether the comment says nothing. -/
def isEmpty (doc : Doc) : Bool := allBlank doc.description.toList && doc.tags.isEmpty

/-! ### Reading -/

/-- The text without `tail` at its end. -/
def dropTail (tail cs : List Char) : List Char :=
  if tail.isSuffixOf cs then cs.take (cs.length - tail.length) else cs

/-- What stands between the delimiters of a comment. -/
def body (raw : List Char) : List Char :=
  let trimmed := trim raw
  dropTail "*/".toList ((dropLead? "/**".toList trimmed).getD trimmed)

/-- A line without its leading star and the blank after it. -/
def dropStar (line : List Char) : List Char :=
  match trimStart line with
  | '*' :: ' ' :: rest => rest
  | '*' :: rest => rest
  | _ => line

/-- The lines of a comment without their leading stars. -/
def bodyLines (raw : List Char) : List (List Char) := (lines (body raw)).map dropStar

/-- The name of the block tag that a trimmed line starts, and the text after it. -/
def tagStart? : List Char → Option (List Char × List Char)
  | '@' :: rest =>
    let name := rest.takeWhile isWord
    if name = [] then none else some (name, trimStart (rest.dropWhile isWord))
  | _ => none

/-- The number of open braces after a line. It never falls below zero. -/
def bracesAfter (depth : Nat) (line : List Char) : Nat :=
  depth + line.count '\x7b' - line.count '\x7d'

/-- A block tag as its lines: the name, and the text lines from the one with the name on. -/
structure Section where
  name : List Char
  lines : List (List Char)

/-- Cuts lines into those before the first block tag and the sections of the tags. `depth` braces
are open before the first line. -/
def sections (depth : Nat) : List (List Char) → List (List Char) × List Section
  | [] => ([], [])
  | line :: below =>
    let (before, tags) := sections (bracesAfter depth line) below
    match if depth = 0 then tagStart? (trim line) else none with
    | some (name, rest) => ([], ⟨name, rest :: before⟩ :: tags)
    | none => (line :: before, tags)

/-- The tags whose first word is an argument. -/
def argumentTags : List String := ["param", "throws", "exception"]

/-- The block tag of a section. -/
def Section.tag (s : Section) : BlockTag :=
  let name := String.ofList s.name
  let text := trim (unlines s.lines)
  if name ∈ argumentTags then
    let (argument, rest) := cutAt ' ' text
    ⟨name, String.ofList argument, String.ofList (trim (rest.getD []))⟩
  else ⟨name, "", String.ofList text⟩

/-- Reads a comment with its delimiters. -/
def read (raw : String) : Doc :=
  if raw = "" then empty
  else
    let (description, tags) := sections 0 (bodyLines raw.toList)
    ⟨String.ofList (trim (unlines description)), tags.map Section.tag⟩

/-- Reads a comment that may be missing. -/
def ofRaw (raw : Option String) : Doc := (raw.map read).getD empty

end Doc

end Apidoc.Comment
