/-!
# `Apidoc.Text.Blank`: blanks, trimming and words

A blank is a Unicode white-space character or one of the four ASCII separators. Trimming and
splitting into words go by it.
-/

set_option autoImplicit false

namespace Apidoc.Text

/-- The blanks: horizontal and vertical white space of Unicode, and the separators FS, GS, RS and
US. The zero-width space is none of them. -/
def isBlank (c : Char) : Bool :=
  let n := c.toNat
  (9 ≤ n && n ≤ 13) || (28 ≤ n && n ≤ 32) || n = 0x85 || n = 0xA0 || n = 0x1680 ||
    (0x2000 ≤ n && n ≤ 0x200A) || n = 0x2028 || n = 0x2029 || n = 0x202F || n = 0x205F || n = 0x3000

/-- The text without the leading characters that satisfy `p`. -/
def dropLeading (p : Char → Bool) (cs : List Char) : List Char := cs.dropWhile p

/-- The text without the trailing characters that satisfy `p`. -/
def dropTrailing (p : Char → Bool) (cs : List Char) : List Char :=
  (cs.reverse.dropWhile p).reverse

/-- The text without its leading blanks. -/
def trimStart (cs : List Char) : List Char := dropLeading isBlank cs

/-- The text without its trailing blanks. -/
def trimEnd (cs : List Char) : List Char := dropTrailing isBlank cs

/-- The text without the blanks at both ends. -/
def trim (cs : List Char) : List Char := trimEnd (trimStart cs)

/-- Nothing but blanks. -/
def allBlank (cs : List Char) : Bool := cs.all isBlank

/-- The text without any blank. -/
def squeeze (cs : List Char) : List Char := cs.filter fun c => !isBlank c

/-- The maximal runs of characters that do not satisfy `sep`, empty runs included: `n` separators
give `n + 1` parts. -/
def splitOn (sep : Char → Bool) : List Char → List (List Char)
  | [] => [[]]
  | c :: rest =>
    if sep c then [] :: splitOn sep rest
    else
      match splitOn sep rest with
      | [] => [[c]]
      | part :: parts => (c :: part) :: parts

/-- The non-empty runs between blanks. -/
def words (cs : List Char) : List (List Char) := (splitOn isBlank cs).filter (· ≠ [])

/-- The part before the first `c`, and the part after it if there is one. -/
def cutAt (c : Char) (cs : List Char) : List Char × Option (List Char) :=
  match cs.dropWhile (· ≠ c) with
  | [] => (cs, none)
  | _ :: rest => (cs.takeWhile (· ≠ c), some rest)

/-- The part after the last `c`, or the whole text if there is none. -/
def afterLast (c : Char) (cs : List Char) : List Char := (cs.reverse.takeWhile (· ≠ c)).reverse

/-- The rest of the text after `lead`, if it begins with it. -/
def dropLead? : List Char → List Char → Option (List Char)
  | [], cs => some cs
  | _ :: _, [] => none
  | l :: lead, c :: cs => if l = c then dropLead? lead cs else none

/-- The parts one after the other, with `sep` between neighbours. -/
def join (sep : List Char) : List (List Char) → List Char
  | [] => []
  | [part] => part
  | part :: parts => part ++ sep ++ join sep parts

/-- A function on characters applied to a string. -/
def onString (f : List Char → List Char) (s : String) : String := String.ofList (f s.toList)

end Apidoc.Text
