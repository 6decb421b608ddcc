import Apidoc.Text.Blank

/-!
# `Apidoc.Text.Lines`: cutting a text into lines

A line ends at any of the line separators of Unicode, with carriage return and line feed together
counting once. The text after the last separator is a line only if it is not empty.
-/

set_option autoImplicit false

namespace Apidoc.Text

/-- The characters that end a line. -/
def isBreak (c : Char) : Bool :=
  let n := c.toNat
  (10 ≤ n && n ≤ 13) || (28 ≤ n && n ≤ 30) || n = 0x85 || n = 0x2028 || n = 0x2029

/-- The lines of a text, without their separators. -/
def lines : List Char → List (List Char)
  | [] => []
  | '\r' :: '\n' :: rest => [] :: lines rest
  | c :: rest =>
    if isBreak c then [] :: lines rest
    else
      match lines rest with
      | [] => [[c]]
      | line :: below => (c :: line) :: below

/-- The text with a line feed for each carriage return, and for each pair of the two. -/
def unifyBreaks : List Char → List Char
  | [] => []
  | '\r' :: '\n' :: rest => '\n' :: unifyBreaks rest
  | c :: rest => (if c = '\r' then '\n' else c) :: unifyBreaks rest

/-- The lines joined by line feeds, with none after the last. -/
def unlines (ls : List (List Char)) : List Char := join ['\n'] ls

end Apidoc.Text
