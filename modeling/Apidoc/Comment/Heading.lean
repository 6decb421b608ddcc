import Apidoc.Text.Blank
import Apidoc.Text.Letter

/-!
# `Apidoc.Comment.Heading`: the first heading of a rendered comment

A heading element is `h` with or without a digit from one to seven. It ends at the first end tag of
the same name, in either case.
-/

set_option autoImplicit false

namespace Apidoc.Comment

open Apidoc.Text

namespace Heading

/-- The name of a heading element at the front of a text, and the rest. -/
def name? : List Char → Option (List Char × List Char)
  | c :: rest =>
    if c = 'h' ∨ c = 'H' then
      let (name, after) : List Char × List Char :=
        match rest with
        | d :: more => if '1' ≤ d ∧ d ≤ '7' then ([c, d], more) else ([c], rest)
        | [] => ([c], [])
      if after.head?.any isWord then none else some (name, after)
    else none
  | [] => none

/-- Whether the text goes on with the end tag of a name, in either case. -/
def atEndTag (name cs : List Char) : Bool :=
  let tag := '<' :: '/' :: name ++ ['>']
  (cs.take tag.length).map Char.toLower = tag.map Char.toLower

/-- The number of characters up to and including the first end tag. -/
def throughEndTag? (name : List Char) : List Char → Option Nat
  | [] => none
  | c :: rest =>
    if atEndTag name (c :: rest) then some (name.length + 3)
    else (throughEndTag? name rest).map (· + 1)

/-- The number of characters of the heading element at the front of a text. -/
def length? : List Char → Option Nat
  | '<' :: rest => do
    let (name, after) ← name? rest
    let attributes := after.takeWhile (· ≠ '>')
    match after.drop attributes.length with
    | _ :: content =>
      let n ← throughEndTag? name content
      some (1 + name.length + attributes.length + 1 + n)
    | [] => none
  | _ => none

/-- The text before the first heading element, the element, and the text after it. -/
def find? : List Char → Option (List Char × List Char × List Char)
  | [] => none
  | c :: rest =>
    match length? (c :: rest) with
    | some n => some ([], (c :: rest).take n, (c :: rest).drop n)
    | none => (find? rest).map fun (before, heading, after) => (c :: before, heading, after)

/-- Takes the first heading out of rendered text. What is left is trimmed; a text without heading
stays as it is. -/
def split (rendered : String) : Option String × String :=
  match find? rendered.toList with
  | some (before, heading, after) =>
    (some (String.ofList heading), String.ofList (trim (before ++ after)))
  | none => (none, rendered)

end Heading

end Apidoc.Comment
