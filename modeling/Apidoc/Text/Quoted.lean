import Apidoc.Text.Letter

/-!
# `Apidoc.Text.Quoted`: a text between quotes

Messages show paths, addresses and option values between quotes. Single quotes are used, or double
quotes if that saves escaping. What cannot be printed is spelled out by its code point.
-/

set_option autoImplicit false

namespace Apidoc.Text

/-- A number in lower-case hexadecimal, with zeros in front up to the given width. -/
def hex (width n : Nat) : List Char :=
  let digits := Nat.toDigits 16 n
  List.replicate (width - digits.length) '0' ++ digits

/-- One character inside quotes of the given kind. -/
def quotedChar (quote c : Char) : List Char :=
  if c = quote || c = '\\' then ['\\', c]
  else if c = '\n' then ['\\', 'n']
  else if c = '\r' then ['\\', 'r']
  else if c = '\t' then ['\\', 't']
  else if isPrintable c then [c]
  else if c.toNat < 0x100 then '\\' :: 'x' :: hex 2 c.toNat
  else if c.toNat < 0x10000 then '\\' :: 'u' :: hex 4 c.toNat
  else '\\' :: 'U' :: hex 8 c.toNat

/-- The text between single quotes, or between double quotes if it holds a single quote and no
double one. -/
def quoted (cs : List Char) : List Char :=
  let quote := if '\'' ∈ cs ∧ '"' ∉ cs then '"' else '\''
  quote :: cs.flatMap (quotedChar quote) ++ [quote]

/-- The string between quotes. -/
def quotedString (s : String) : String := String.ofList (quoted s.toList)

end Apidoc.Text
