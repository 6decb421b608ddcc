import Apidoc.Decimal.Shortest
import Apidoc.Text.Blank
import Apidoc.Text.Letter.Digit

/-!
# `Apidoc.Decimal.Text`: numbers as text

Numbers are written with the fewest digits that read back, positionally from `0.0001` up to below
`10 ^ 16` and with an exponent of at least two digits elsewhere. Reading takes decimals with an
optional exponent, the infinities and the number that is none.
-/

set_option autoImplicit false

namespace Apidoc.Decimal

open Apidoc.Text

/-- A list of digits without the zeros at its end, and how many of them there were. -/
def stripZeros (digits : List Char) : List Char × Nat :=
  let kept := dropTrailing (· = '0') digits
  (kept, digits.length - kept.length)

/-- Lays out a positive decimal. -/
def layout (d : Digits) : List Char :=
  let (digits, zeros) := stripZeros (Nat.toDigits 10 d.digits)
  let unit := d.exponent + Int.ofNat zeros
  let leading := unit + Int.ofNat digits.length - 1
  if -4 ≤ leading ∧ leading < 16 then
    if 0 ≤ unit then digits ++ List.replicate unit.toNat '0' ++ ['.', '0']
    else if 0 ≤ leading then
      digits.take (leading.toNat + 1) ++ '.' :: digits.drop (leading.toNat + 1)
    else ['0', '.'] ++ List.replicate ((-leading).toNat - 1) '0' ++ digits
  else
    let mantissa :=
      match digits with
      | [d] => [d]
      | d :: rest => d :: '.' :: rest
      | [] => []
    let size := Nat.toDigits 10 leading.natAbs
    mantissa ++ 'e' :: (if leading < 0 then '-' else '+') ::
      (List.replicate (2 - size.length) '0' ++ size)

/-- The text of a number. -/
def floatText (x : Float) : List Char :=
  if x.isNaN then "nan".toList
  else
    let magnitude :=
      if x.isInf then "inf".toList
      else
        let b := Binary.ofFloat x
        if b.bits = 0 then "0.0".toList else layout (shortest b)
    if x.toBits >>> 63 = 1 then '-' :: magnitude else magnitude

/-- The text of a number, as a string. -/
def floatString (x : Float) : String := String.ofList (floatText x)

/-- The number `digits · 10 ^ exponent`, rounded. Exponents far out of range need no arithmetic. -/
def round (isNegative : Bool) (digits : Nat) (exponent : Int) : Float :=
  let size := Int.ofNat (Nat.toDigits 10 digits).length
  let magnitude : Float :=
    if digits = 0 ∨ size + exponent < -400 then 0.0
    else if 400 < size + exponent then 1.0 / 0.0
    else if 0 ≤ exponent then Float.ofScientific digits false exponent.toNat
    else Float.ofScientific digits true (-exponent).toNat
  if isNegative then -magnitude else magnitude

/-- An ASCII digit. -/
def isDigit (c : Char) : Bool := '0' ≤ c && c ≤ '9'

/-- The number that a list of digits denotes. -/
def digitsValue (cs : List Char) : Nat := cs.foldl (fun n c => 10 * n + (c.toNat - 48)) 0

/-- The digits at the front of a text, and the rest. A single underscore may stand between two of
them. -/
def digitRun (afterDigit : Bool) : List Char → List Char × List Char
  | [] => ([], [])
  | c :: rest =>
    if isDigit c then
      let (digits, left) := digitRun true rest
      (c :: digits, left)
    else if c = '_' && afterDigit && rest.head?.any isDigit then digitRun false rest
    else ([], c :: rest)

/-- A sign in front of a text: whether it is negative, and the rest. -/
def sign : List Char → Bool × List Char
  | '-' :: rest => (true, rest)
  | '+' :: rest => (false, rest)
  | cs => (false, cs)

/-- The exponent at the end of a number, zero if there is none. -/
def exponent? : List Char → Option Int
  | [] => some 0
  | c :: rest =>
    if c = 'e' ∨ c = 'E' then
      let (isNegative, unsigned) := sign rest
      match digitRun false unsigned with
      | ([], _) => none
      | (digits, []) =>
        let n := Int.ofNat (digitsValue digits)
        some (if isNegative then -n else n)
      | _ => none
    else none

/-- Reads a number. Blanks around it do not matter, and case does not matter in words. -/
def float? (cs : List Char) : Option Float :=
  let (isNegative, unsigned) := sign (trim cs)
  let word := unsigned.map Char.toLower
  if word = "inf".toList ∨ word = "infinity".toList then
    some (if isNegative then -1.0 / 0.0 else 1.0 / 0.0)
  else if word = "nan".toList then some (0.0 / 0.0)
  else do
    let (whole, afterWhole) := digitRun false unsigned
    let (fraction, rest) :=
      match afterWhole with
      | '.' :: cs => digitRun false cs
      | cs => ([], cs)
    if whole = [] ∧ fraction = [] then none
    else
      let e ← exponent? rest
      some (round isNegative (digitsValue (whole ++ fraction)) (e - Int.ofNat fraction.length))

/-- Reads a number that a user has typed, in the digits of any script. -/
def typed? (cs : List Char) : Option Float := float? (cs.map asciiDigit)

end Apidoc.Decimal
