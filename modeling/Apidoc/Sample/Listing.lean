import Apidoc.Text.Lines

/-!
# `Apidoc.Sample.Listing`: code laid out for display

A listing has no blank lines at its ends, no line that is only a noise annotation, and no indent that
all of its lines share. Blank lines inside it are empty.
-/

set_option autoImplicit false

namespace Apidoc.Sample

open Apidoc.Text

/-- The annotations that say nothing about the use of a sample. -/
def noiseAnnotations : List String := ["Override", "SuppressWarnings", "Test"]

namespace Listing

/-- A line that starts with a noise annotation and, unless arguments follow, holds nothing else. -/
def isNoiseLine (noise : List String) (line : List Char) : Bool :=
  let trimmed := trim line
  noise.any fun name =>
    let marker := '@' :: name.toList
    trimmed = marker || (marker ++ ['(']).isPrefixOf trimmed

/-- The lines without the blank ones at both ends. -/
def dropBlankEnds (ls : List (List Char)) : List (List Char) :=
  ((ls.dropWhile allBlank).reverse.dropWhile allBlank).reverse

/-- The number of blanks in front of a line. -/
def indent (line : List Char) : Nat := (line.takeWhile isBlank).length

/-- The smallest indent of the lines that are not blank. -/
def commonIndent (ls : List (List Char)) : Nat :=
  (((ls.filter fun line => !allBlank line).map indent).min?).getD 0

/-- A line moved to the left. A blank line becomes empty. -/
def shift (n : Nat) (line : List Char) : List Char := if allBlank line then [] else line.drop n

/-- The lines of a listing, from the lines of the code. -/
def tidyLines (noise : List String) (ls : List (List Char)) : List (List Char) :=
  let kept := dropBlankEnds (ls.filter fun line => !isNoiseLine noise line)
  kept.map (shift (commonIndent kept))

/-- The listing of a piece of code. A single line is only trimmed. -/
def tidy (noise : List String) (code : List Char) : List Char :=
  let ls := lines code
  if ls.length ≤ 1 then trim code else unlines (tidyLines noise ls)

/-- The listing of a piece of code, as a string. -/
def tidyString (noise : List String) (code : String) : String := onString (tidy noise) code

end Listing

end Apidoc.Sample
