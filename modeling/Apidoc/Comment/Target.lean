import Apidoc.Comment.Doc

/-!
# `Apidoc.Comment.Target`: what a comment refers to

A reference such as `Type#member(int, String) label` starts a link or a `@see` tag. It ends at the
first blank outside parentheses.
-/

set_option autoImplicit false

namespace Apidoc.Comment

open Apidoc.Text

namespace Target

/-- The characters up to the first blank outside parentheses. A closing parenthesis without a
partner makes the depth negative, and then no blank ends the reference. -/
def scan (depth : Int) : List Char → List Char
  | [] => []
  | c :: rest =>
    if c = '(' then c :: scan (depth + 1) rest
    else if c = ')' then c :: scan (depth - 1) rest
    else if isBlank c && depth = 0 then []
    else c :: scan depth rest

/-- The reference at the front of a text. -/
def leading (text : List Char) : List Char := scan 0 (trim text)

/-- The reference at the front of a trimmed text, and the label after it. -/
def withLabel (text : List Char) : List Char × Option (List Char) :=
  let target := leading text
  let label := trim (text.drop target.length)
  (target, if label = [] then none else some label)

/-- The type of a reference, and its member if there is a `#`. -/
def typeAndMember (target : List Char) : List Char × Option (List Char) := cutAt '#' target

end Target

/-- The type and the member that a `@see` tag names. The member is empty or starts with `#`. -/
structure SeeReference where
  typeName : String
  member : String
  deriving DecidableEq, Repr

/-- The reference of one `@see` tag. Quoted strings and links are none. -/
def SeeReference.ofText? (text : String) : Option SeeReference :=
  match Target.leading text.toList with
  | [] => none
  | c :: rest =>
    if c = '"' ∨ c = '<' then none
    else
      match Target.typeAndMember (c :: rest) with
      | (type, none) => some ⟨String.ofList type, ""⟩
      | (type, some member) =>
        some ⟨String.ofList type, String.ofList ('#' :: Java.Descriptor.normalize member)⟩

/-- The references of all `@see` tags. -/
def Doc.seeReferences (doc : Doc) : List SeeReference :=
  (doc.tagsNamed ["see"]).filterMap fun tag => SeeReference.ofText? tag.text

end Apidoc.Comment
