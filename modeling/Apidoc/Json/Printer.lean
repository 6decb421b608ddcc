import Apidoc.Decimal.Text
import Apidoc.Json.Value
import Apidoc.Text.Quoted

/-!
# `Apidoc.Json.Printer`: writing JSON

Values are written in ASCII with two blanks per level. A character above ASCII is an escape, or two
escapes for a surrogate pair.
-/

set_option autoImplicit false

namespace Apidoc.Json

/-- The escape of a UTF-16 unit. -/
def unitEscape (n : Nat) : List Char := '\\' :: 'u' :: Text.hex 4 n

/-- A character inside a string. -/
def printChar (c : Char) : List Char :=
  let n := c.toNat
  if c = '"' then ['\\', '"']
  else if c = '\\' then ['\\', '\\']
  else if c = '\n' then ['\\', 'n']
  else if c = '\r' then ['\\', 'r']
  else if c = '\t' then ['\\', 't']
  else if n = 8 then ['\\', 'b']
  else if n = 12 then ['\\', 'f']
  else if 32 ≤ n ∧ n < 127 then [c]
  else if n < 0x10000 then unitEscape n
  else unitEscape (0xD800 + (n - 0x10000) / 0x400) ++ unitEscape (0xDC00 + (n - 0x10000) % 0x400)

/-- A string between quotes. -/
def printString (s : String) : String :=
  String.ofList ('"' :: s.toList.flatMap printChar ++ ['"'])

/-- A line break and the indent of a level. -/
def newline (level : Nat) : String := String.ofList ('\n' :: List.replicate (2 * level) ' ')

mutual

/-- A value whose first line is already indented. -/
def printValue (level : Nat) : Json → String
  | .null => "null"
  | .bool b => if b then "true" else "false"
  | .integer n => toString n
  | .float x => Decimal.floatString x
  | .string s => printString s
  | .array [] => "[]"
  | .array (item :: items) =>
    "[" ++ newline (level + 1) ++ printValue (level + 1) item ++ printItems level items ++
      newline level ++ "]"
  | .object [] => "\x7b\x7d"
  | .object (m :: members) =>
    "\x7b" ++ newline (level + 1) ++ printMember (level + 1) m ++ printMembers level members ++
      newline level ++ "\x7d"

/-- A member of an object: the name, a colon, and the value. -/
def printMember (level : Nat) : String × Json → String
  | (name, value) => printString name ++ ": " ++ printValue level value

/-- The items after the first, each after a comma on a line of its own. -/
def printItems (level : Nat) : List Json → String
  | [] => ""
  | item :: items =>
    "," ++ newline (level + 1) ++ printValue (level + 1) item ++ printItems level items

/-- The members after the first, each after a comma on a line of its own. -/
def printMembers (level : Nat) : List (String × Json) → String
  | [] => ""
  | m :: members =>
    "," ++ newline (level + 1) ++ printMember (level + 1) m ++ printMembers level members

end

/-- The text of a value. -/
def print (value : Json) : String := printValue 0 value

end Apidoc.Json
