import Apidoc.Text.Letter.Alphanumeric
import Apidoc.Text.Letter.Digit
import Apidoc.Text.Letter.Lowercase
import Apidoc.Text.Letter.SmallForm
import Apidoc.Text.Letter.Unprintable

/-!
# `Apidoc.Text.Letter`: letters, words and their case

Names and annotations are cut at the end of a word, a package is told from a type by the case of
its first letter, and quoted text spells out what cannot be printed. All of these go by the Unicode
classes and not by ASCII alone.
-/

set_option autoImplicit false

namespace Apidoc.Text

/-- Membership in a list of closed ranges. -/
def inRanges (ranges : List (Nat × Nat)) (n : Nat) : Bool :=
  ranges.any fun (first, last) => first ≤ n && n ≤ last

/-- A letter of any script, a digit, or another number character. -/
def isAlphanumeric (c : Char) : Bool :=
  if c.val < 128 then c.isAlphanum else inRanges alphanumericRanges c.toNat

/-- A character of a word: alphanumeric, or the underscore. -/
def isWord (c : Char) : Bool := isAlphanumeric c || c = '_'

/-- A small letter. Letters without case and title-case letters are not small. -/
def isLowercase (c : Char) : Bool :=
  if c.val < 128 then c.isLower else inRanges lowercaseRanges c.toNat

/-- A character that a quoted text shows as itself. -/
def isPrintable (c : Char) : Bool :=
  if c.val < 128 then 32 ≤ c.toNat && c.toNat < 127 else !inRanges unprintableRanges c.toNat

/-- The small form of one character. The dotted capital I takes two code points. -/
def smallForm (c : Char) : List Char :=
  if c.val < 128 then [c.toLower]
  else if c = '\u0130' then ['i', '\u0307']
  else
    match smallFormRuns.find? fun (first, last, step, _) =>
      first ≤ c.toNat && c.toNat ≤ last && (c.toNat - first) % step = 0 with
    | some (_, _, _, shift) => [Char.ofNat (c.toNat + shift).toNat]
    | none => [c]

/-- A text with each letter in its small form. -/
def lowercase (cs : List Char) : List Char := cs.flatMap smallForm

/-- The capital form, for the characters whose capital is an ASCII letter. Two letters above ASCII
have one: the dotless i and the long s. Any other character is left alone. -/
def asciiCapital (c : Char) : Char :=
  if c = '\u0131' then 'I' else if c = '\u017f' then 'S' else c.toUpper

end Apidoc.Text
