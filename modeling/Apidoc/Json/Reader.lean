import Apidoc.Decimal.Text
import Apidoc.Json.Value

/-!
# `Apidoc.Json.Reader`: reading JSON

Reads a document and says where it goes wrong. Numbers may also be `NaN`, `Infinity` and
`-Infinity`. Of two members with one name the later one counts.
-/

set_option autoImplicit false

namespace Apidoc.Json

/-- Why a text is not JSON. -/
inductive Problem where
  | value
  | name
  | colon
  | comma
  | openString
  | controlCharacter
  | escape
  | unicodeEscape
  | extraData
  | byteOrderMark
  | integerTooLong (digits : Nat)
  deriving DecidableEq, Repr

/-- The longest integer that is read, in digits. -/
def longestInteger : Nat := 4300

namespace Problem

/-- What is wrong, in words. -/
def text : Problem → String
  | value => "Expecting value"
  | name => "Expecting property name enclosed in double quotes"
  | colon => "Expecting ':' delimiter"
  | comma => "Expecting ',' delimiter"
  | openString => "Unterminated string starting at"
  | controlCharacter => "Invalid control character at"
  | escape => "Invalid \\escape"
  | unicodeEscape => "Invalid \\uXXXX escape"
  | extraData => "Extra data"
  | byteOrderMark => "Unexpected UTF-8 BOM (decode using utf-8-sig)"
  | integerTooLong digits =>
    s!"Exceeds the limit ({longestInteger} digits) for integer string conversion: " ++
      s!"value has {digits} digits; use sys.set_int_max_str_digits() to increase the limit"

end Problem

/-- A problem and the number of characters in front of it. -/
structure ReadError where
  problem : Problem
  position : Nat
  deriving DecidableEq, Repr

namespace ReadError

/-- The message, with the line and the column of the position, both counted from one. -/
def message (e : ReadError) (document : List Char) : String :=
  let before := document.take e.position
  let line := before.count '\n' + 1
  let column := (before.reverse.takeWhile (· ≠ '\n')).length + 1
  s!"{e.problem.text}: line {line} column {column} (char {e.position})"

end ReadError

/-- The part of a document that is still to be read, and the number of characters in front of
it. -/
structure Cursor where
  position : Nat
  rest : List Char

namespace Cursor

/-- The cursor `n` characters further on. -/
def skip (c : Cursor) (n : Nat) : Cursor := ⟨c.position + n, c.rest.drop n⟩

/-- The cursor at the next character that is no blank. -/
def blanks (c : Cursor) : Cursor :=
  c.skip (c.rest.takeWhile fun x => x = ' ' ∨ x = '\t' ∨ x = '\n' ∨ x = '\r').length

/-- The next character. -/
def next? (c : Cursor) : Option Char := c.rest.head?

/-- A problem at the cursor. -/
def fail {α : Type} (c : Cursor) (p : Problem) : Except ReadError α := .error ⟨p, c.position⟩

/-- Whether the text goes on with a word. -/
def atWord (c : Cursor) (word : String) : Bool := word.toList.isPrefixOf c.rest

end Cursor

/-- The value of a hexadecimal digit. -/
def hexDigit? (c : Char) : Option Nat :=
  if '0' ≤ c ∧ c ≤ '9' then some (c.toNat - 48)
  else if 'a' ≤ c ∧ c ≤ 'f' then some (c.toNat - 87)
  else if 'A' ≤ c ∧ c ≤ 'F' then some (c.toNat - 55)
  else none

/-- The number that four hexadecimal digits at the front denote. -/
def hexFour? (cs : List Char) : Option Nat :=
  if cs.length < 4 then none
  else (cs.take 4).foldlM (fun n c => (hexDigit? c).map (16 * n + ·)) 0

/-- The character that a backslash and another character stand for. -/
def escaped? : Char → Option Char
  | '"' => some '"'
  | '\\' => some '\\'
  | '/' => some '/'
  | 'b' => some '\x08'
  | 'f' => some '\x0c'
  | 'n' => some '\n'
  | 'r' => some '\r'
  | 't' => some '\t'
  | _ => none

/-- The low half of a surrogate pair at the front, if one stands there. -/
def lowSurrogate? : List Char → Option Nat
  | '\\' :: 'u' :: cs => (hexFour? cs).filter fun n => 0xDC00 ≤ n ∧ n < 0xE000
  | _ => none

/-- The rest of a string whose opening quote is at offset `start`. Half a surrogate pair is read as
U+FFFD. -/
def readString (start : Nat) : Nat → Cursor → Except ReadError (List Char × Cursor)
  | 0, _ => .error ⟨.openString, start⟩
  | fuel + 1, c =>
    match c.rest with
    | [] => .error ⟨.openString, start⟩
    | '"' :: _ => .ok ([], c.skip 1)
    | '\\' :: rest =>
      match rest with
      | [] => .error ⟨.openString, start⟩
      | 'u' :: digits =>
        -- a document cannot end with the last digit of an escape
        if digits.length ≤ 4 then (c.skip 1).fail .unicodeEscape
        else
          match hexFour? digits with
          | none => (c.skip 1).fail .unicodeEscape
          | some n =>
            let low := if 0xD800 ≤ n ∧ n < 0xDC00 then lowSurrogate? (digits.drop 4) else none
            let (character, length) : Char × Nat :=
              match low with
              | some l => (Char.ofNat (0x10000 + (n - 0xD800) * 0x400 + (l - 0xDC00)), 12)
              | none => (if 0xD800 ≤ n ∧ n < 0xE000 then '\uFFFD' else Char.ofNat n, 6)
            do
              let (cs, after) ← readString start fuel (c.skip length)
              .ok (character :: cs, after)
      | e :: _ =>
        match escaped? e with
        | none => c.fail .escape
        | some character => do
          let (cs, after) ← readString start fuel (c.skip 2)
          .ok (character :: cs, after)
    | x :: _ =>
      if x.toNat < 32 then c.fail .controlCharacter
      else do
        let (cs, after) ← readString start fuel (c.skip 1)
        .ok (x :: cs, after)

/-- A number at the cursor. A fraction or an exponent that is not complete does not belong to it. -/
def readNumber (c : Cursor) : Except ReadError (Json × Cursor) :=
  let isNegative := c.next? = some '-'
  let unsigned := if isNegative then c.rest.drop 1 else c.rest
  let whole :=
    match unsigned with
    | '0' :: _ => ['0']
    | cs => cs.takeWhile Decimal.isDigit
  if whole = [] then c.fail .value
  else
    let afterWhole := unsigned.drop whole.length
    let fraction :=
      match afterWhole with
      | '.' :: cs => cs.takeWhile Decimal.isDigit
      | _ => []
    let afterFraction :=
      if fraction = [] then afterWhole else afterWhole.drop (fraction.length + 1)
    let exponent : List Char :=
      match afterFraction with
      | e :: cs =>
        if e = 'e' ∨ e = 'E' then
          let signed :=
            match cs with
            | s :: _ => if s = '+' ∨ s = '-' then 1 else 0
            | [] => 0
          let digits := (cs.drop signed).takeWhile Decimal.isDigit
          if digits = [] then [] else e :: cs.take (signed + digits.length)
        else []
      | [] => []
    let length := (if isNegative then 1 else 0) + whole.length +
      (if fraction = [] then 0 else fraction.length + 1) + exponent.length
    if fraction = [] ∧ exponent = [] then
      if longestInteger < whole.length then c.fail (.integerTooLong whole.length)
      else
        let n := Int.ofNat (Decimal.digitsValue whole)
        .ok (.integer (if isNegative then -n else n), c.skip length)
    else
      .ok (.float ((Decimal.float? (c.rest.take length)).getD 0.0), c.skip length)

mutual

/-- A value at the cursor. The fuel bounds the number of values and separators. -/
def readValue : Nat → Cursor → Except ReadError (Json × Cursor)
  | 0, c => c.fail .value
  | fuel + 1, c =>
    match c.next? with
    | none => c.fail .value
    | some '"' => do
      let (cs, after) ← readString c.position c.rest.length (c.skip 1)
      .ok (.string (String.ofList cs), after)
    | some '\x7b' =>
      let inner := (c.skip 1).blanks
      if inner.next? = some '\x7d' then .ok (.object [], inner.skip 1)
      else readMembers fuel inner []
    | some '[' =>
      let inner := (c.skip 1).blanks
      if inner.next? = some ']' then .ok (.array [], inner.skip 1)
      else readItems fuel inner []
    | some _ =>
      if c.atWord "null" then .ok (.null, c.skip 4)
      else if c.atWord "true" then .ok (.bool true, c.skip 4)
      else if c.atWord "false" then .ok (.bool false, c.skip 5)
      else if c.atWord "NaN" then .ok (.float (0.0 / 0.0), c.skip 3)
      else if c.atWord "Infinity" then .ok (.float (1.0 / 0.0), c.skip 8)
      else if c.atWord "-Infinity" then .ok (.float (-1.0 / 0.0), c.skip 9)
      else readNumber c

/-- The members of an object from the cursor on; `done` has those before. -/
def readMembers : Nat → Cursor → List (String × Json) → Except ReadError (Json × Cursor)
  | 0, c, _ => c.fail .value
  | fuel + 1, c, done =>
    if c.next? = some '"' then do
      let (name, afterName) ← readString c.position c.rest.length (c.skip 1)
      let colon := afterName.blanks
      if colon.next? = some ':' then
        let (value, afterValue) ← readValue fuel (colon.skip 1).blanks
        let members := setMember done (String.ofList name) value
        let c := afterValue.blanks
        if c.next? = some '\x7d' then .ok (.object members, c.skip 1)
        else if c.next? = some ',' then readMembers fuel (c.skip 1).blanks members
        else c.fail .comma
      else colon.fail .colon
    else c.fail .name

/-- The items of an array from the cursor on; `done` has those before in reverse order. -/
def readItems : Nat → Cursor → List Json → Except ReadError (Json × Cursor)
  | 0, c, _ => c.fail .value
  | fuel + 1, c, done => do
    let (value, afterValue) ← readValue fuel c
    let c := afterValue.blanks
    if c.next? = some ']' then .ok (.array (value :: done).reverse, c.skip 1)
    else if c.next? = some ',' then readItems fuel (c.skip 1).blanks (value :: done)
    else c.fail .comma

end

/-- Reads a document, which is one value with blanks around it. -/
def read (document : List Char) : Except ReadError Json :=
  if document.head? = some '\uFEFF' then .error ⟨.byteOrderMark, 0⟩
  else do
    let (value, after) ← readValue (2 * document.length + 1) (Cursor.mk 0 document).blanks
    let tail := after.blanks
    if tail.rest = [] then .ok value else tail.fail .extraData

end Apidoc.Json
