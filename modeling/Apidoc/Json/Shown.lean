import Apidoc.Decimal.Text
import Apidoc.Json.Value
import Apidoc.Text.Quoted

/-!
# `Apidoc.Json.Shown`: values in messages

A message about a value names its type and shows the value on one line. A long value is cut in its
middle.
-/

set_option autoImplicit false

namespace Apidoc.Json

/-- The name of a value's type. -/
def typeName : Json → String
  | .null => "NoneType"
  | .bool _ => "bool"
  | .integer _ => "int"
  | .float _ => "float"
  | .string _ => "str"
  | .array _ => "list"
  | .object _ => "dict"

mutual

/-- A value on one line. -/
def shown : Json → String
  | .null => "None"
  | .bool b => if b then "True" else "False"
  | .integer n => toString n
  | .float x => Decimal.floatString x
  | .string s => Text.quotedString s
  | .array items => "[" ++ ", ".intercalate (shownItems items) ++ "]"
  | .object members => "\x7b" ++ ", ".intercalate (shownMembers members) ++ "\x7d"

/-- Each of some values on one line. -/
def shownItems : List Json → List String
  | [] => []
  | item :: items => shown item :: shownItems items

/-- Each of some members on one line. -/
def shownMembers : List (String × Json) → List String
  | [] => []
  | m :: members => shownMember m :: shownMembers members

/-- A member on one line. -/
def shownMember : String × Json → String
  | (name, value) => Text.quotedString name ++ ": " ++ shown value

end

/-- The longest beginning that takes up at most `n` bytes. -/
def takeBytes (n : Nat) : List Char → List Char
  | [] => []
  | c :: rest => if c.utf8Size ≤ n then c :: takeBytes (n - c.utf8Size) rest else []

/-- The most bytes that a shown value takes up before it is cut. -/
def longestShown : Nat := 50

/-- A text with its middle left out if it is long. -/
def abridged (s : String) : String :=
  if s.utf8ByteSize ≤ longestShown then s
  else
    let half := longestShown / 2
    let front := takeBytes half s.toList
    let back := (takeBytes (half - 1) s.toList.reverse).reverse
    String.ofList (front ++ "...".toList ++ back)

end Apidoc.Json
