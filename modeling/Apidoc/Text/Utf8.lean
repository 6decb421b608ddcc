/-!
# `Apidoc.Text.Utf8`: reading bytes as text

A source file is a list of bytes and may hold anything. `decode` never fails: each maximal piece
that starts like a character and does not end like one becomes U+FFFD. `decode?` is the strict
reading, which refuses such a file.
-/

set_option autoImplicit false

namespace Apidoc.Text

/-- The contents of a file. -/
abbrev Bytes := List UInt8

/-- The UTF-8 form of a text. -/
def encode (s : String) : Bytes := s.toByteArray.data.toList

namespace Utf8

/-- A character whose first bytes have been read: how many bytes are missing, the bits so far, and
the range in which the next byte must lie. -/
structure Pending where
  missing : Nat
  bits : Nat
  low : Nat
  high : Nat

/-- What the first byte of a character announces. -/
inductive Lead where
  | whole (c : Char)
  | first (p : Pending)
  | invalid

/-- Reads a first byte. The second byte is narrowed where an unrestricted one would allow an
overlong form, a surrogate, or a number past the last code point. -/
def lead (byte : UInt8) : Lead :=
  let b := byte.toNat
  if b < 0x80 then .whole (Char.ofNat b)
  else if b < 0xC2 then .invalid
  else if b < 0xE0 then .first ⟨0, b - 0xC0, 0x80, 0xBF⟩
  else if b < 0xF0 then
    .first ⟨1, b - 0xE0, if b = 0xE0 then 0xA0 else 0x80, if b = 0xED then 0x9F else 0xBF⟩
  else if b < 0xF5 then
    .first ⟨2, b - 0xF0, if b = 0xF0 then 0x90 else 0x80, if b = 0xF4 then 0x8F else 0xBF⟩
  else .invalid

/-- Takes one more byte of a character that has begun, if it may follow. -/
def Pending.next? (p : Pending) (byte : UInt8) : Option Lead :=
  let b := byte.toNat
  if p.low ≤ b && b ≤ p.high then
    let bits := p.bits * 64 + (b - 0x80)
    match p.missing with
    | 0 => some (.whole (Char.ofNat bits))
    | n + 1 => some (.first ⟨n, bits, 0x80, 0xBF⟩)
  else none

/-- The items of a byte sequence: characters, and `none` for each maximal invalid piece. -/
def items : Option Pending → Bytes → List (Option Char)
  | none, [] => []
  | some _, [] => [none]
  | none, b :: rest =>
    match lead b with
    | .whole c => some c :: items none rest
    | .first p => items (some p) rest
    | .invalid => none :: items none rest
  | some p, b :: rest =>
    match p.next? b with
    | some (.whole c) => some c :: items none rest
    | some (.first q) => items (some q) rest
    | some .invalid => none :: items none rest
    | none =>
      none ::
        match lead b with
        | .whole c => some c :: items none rest
        | .first q => items (some q) rest
        | .invalid => none :: items none rest

end Utf8

/-- The text of a byte sequence, with U+FFFD for what is not UTF-8. -/
def decode (bytes : Bytes) : List Char :=
  (Utf8.items none bytes).map fun item => item.getD '\uFFFD'

/-- The text of a byte sequence, if all of it is UTF-8. -/
def decode? (bytes : Bytes) : Option (List Char) := (Utf8.items none bytes).mapM id

/-- The text of a byte sequence as a string, with U+FFFD for what is not UTF-8. -/
def decodeString (bytes : Bytes) : String := String.ofList (decode bytes)

end Apidoc.Text
