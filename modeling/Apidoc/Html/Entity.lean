import Apidoc.Html.Entity.Table
import Apidoc.Text.Blank

/-!
# `Apidoc.Html.Entity`: character references

A reference is a number or a name after `&`. A number that names no character gives U+FFFD or nothing,
and the numbers of the C1 range mean the characters of Windows-1252. A name that is not known is read
up to the longest known name at its front, or left as it is.
-/

set_option autoImplicit false

namespace Apidoc.Html.Entity

open Apidoc.Text

/-- The value of a digit in the given base. -/
def digit? (base : Nat) (c : Char) : Option Nat :=
  let value :=
    if c.isDigit then c.toNat - '0'.toNat
    else if 'a' ≤ c ∧ c ≤ 'f' then c.toNat - 'a'.toNat + 10
    else if 'A' ≤ c ∧ c ≤ 'F' then c.toNat - 'A'.toNat + 10
    else base
  if value < base then some value else none

/-- The number that digits in the given base stand for. -/
def number (base : Nat) (digits : List Char) : Nat :=
  digits.foldl (fun n c => n * base + (digit? base c).getD 0) 0

/-! ### Names -/

/-- The words of several lines. -/
def wordsOf (ls : List String) : List (List Char) := ls.flatMap fun line => words line.toList

/-- The names with their texts. -/
def names : List (List Char × List Char) :=
  (wordsOf nameLines).map fun word =>
    let (name, codes) := cutAt '=' word
    (name, (splitOn (· = '+') (codes.getD [])).map fun code => Char.ofNat (number 16 code))

/-- The names that need no semicolon. -/
def bareNames : List (List Char) := wordsOf bareNameLines

/-- The text of a name. -/
def text? (name : List Char) : Option (List Char) := (names.find? fun e => e.1 = name).map (·.2)

/-- The text of a name that stands without a semicolon. -/
def bareText? (name : List Char) : Option (List Char) :=
  if name ∈ bareNames then text? name else none

/-- The longest name of at least two characters that stands at the front without a semicolon: its text
and what follows. `length` is the largest number of characters to try. -/
def longestBare? (cs : List Char) : Nat → Option (List Char)
  | 0 | 1 => none
  | length + 2 =>
    match bareText? (cs.take (length + 2)) with
    | some text => some (text ++ cs.drop (length + 2))
    | none => longestBare? cs (length + 1)

/-- What a name stands for, with the semicolon if it has one. -/
def expandName (name : List Char) : List Char :=
  let bare := if name.getLast? = some ';' then name.dropLast else name
  let whole := if bare.length < name.length then text? bare else bareText? name
  (whole <|> longestBare? name (name.length - 1)).getD ('&' :: name)

/-! ### Numbers -/

/-- The characters that the numbers from 0x80 to 0x9F mean. -/
def highControls : List Nat :=
  [0x20ac, 0x81, 0x201a, 0x192, 0x201e, 0x2026, 0x2020, 0x2021, 0x2c6, 0x2030, 0x160, 0x2039, 0x152,
    0x8d, 0x17d, 0x8f, 0x90, 0x2018, 0x2019, 0x201c, 0x201d, 0x2022, 0x2013, 0x2014, 0x2dc, 0x2122,
    0x161, 0x203a, 0x153, 0x9d, 0x17e, 0x178]

/-- The numbers that no text may hold: controls other than blanks, and noncharacters. -/
def isForbidden (n : Nat) : Bool :=
  (1 ≤ n && n ≤ 8) || n = 0xb || (0xe ≤ n && n ≤ 0x1f) || n = 0x7f || (0xfdd0 ≤ n && n ≤ 0xfdef) ||
    0xfffe ≤ n % 0x10000

/-- What a number stands for. -/
def expandNumber (n : Nat) : List Char :=
  if n = 0 then ['\uFFFD']
  else if 0x80 ≤ n ∧ n ≤ 0x9f then [Char.ofNat (highControls.getD (n - 0x80) n)]
  else if (0xd800 ≤ n ∧ n ≤ 0xdfff) ∨ 0x10ffff < n then ['\uFFFD']
  else if isForbidden n then []
  else [Char.ofNat n]

/-! ### Text -/

/-- A character of a name. -/
def isNameChar (c : Char) : Bool :=
  c ≠ '\t' && c ≠ '\n' && c ≠ '\x0c' && c ≠ ' ' && c ≠ '<' && c ≠ '&' && c ≠ '#' && c ≠ ';'

/-- The longest run of name characters that is read. -/
def longestName : Nat := 32

/-- The number of semicolons at the front, but no more than one. -/
def semicolon (cs : List Char) : Nat := if cs.head? = some ';' then 1 else 0

/-- The reference after an `&`: what it stands for, and its length. The length is zero if there is no
reference. -/
def reference (cs : List Char) : List Char × Nat :=
  let numeric (base lead : Nat) : List Char × Nat :=
    let digits := (cs.drop lead).takeWhile fun c => (digit? base c).isSome
    let n := lead + digits.length
    if digits = [] then ([], 0)
    else (expandNumber (number base digits), n + semicolon (cs.drop n))
  match cs with
  | '#' :: 'x' :: _ | '#' :: 'X' :: _ => numeric 16 2
  | '#' :: _ => numeric 10 1
  | _ =>
    let run := (cs.take longestName).takeWhile isNameChar
    if run = [] then ([], 0)
    else
      let n := run.length + semicolon (cs.drop run.length)
      (expandName (cs.take n), n)

/-- The text with its references expanded. -/
def expand : List Char → List Char
  | [] => []
  | c :: rest =>
    if c = '&' then
      let (text, n) := reference rest
      if n = 0 then '&' :: expand rest else text ++ expand (rest.drop n)
    else c :: expand rest
termination_by cs => cs.length
decreasing_by all_goals (simp only [List.length_cons, List.length_drop]; omega)

end Apidoc.Html.Entity
