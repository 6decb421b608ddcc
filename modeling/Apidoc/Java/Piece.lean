import Apidoc.Text.Utf8

/-!
# `Apidoc.Java.Piece`: cutting a Java source into pieces

A source is a run of pieces: blanks, comments, words, numbers, quoted literals and symbols. Nothing
is dropped, so the pieces one after the other are the source again, and a piece starts where the one
before it stops. All offsets count bytes. Bytes above ASCII are letters of words.
-/

set_option autoImplicit false

namespace Apidoc.Java

open Apidoc.Text (Bytes)

/-- The classes of pieces. -/
inductive PieceKind where
  | blank
  | lineComment
  | blockComment
  | word
  | number
  | quoted
  | symbol
  deriving DecidableEq, Repr

/-- A part of a source that is read as a whole. -/
structure Piece where
  kind : PieceKind
  /-- The offset of the first byte. -/
  start : Nat
  text : Bytes

namespace Piece

/-- The offset after the last byte. -/
def stop (p : Piece) : Nat := p.start + p.text.length

/-- Comments may stand between any two tokens. -/
def isComment (p : Piece) : Bool := p.kind = .lineComment || p.kind = .blockComment

/-- Blanks and comments separate tokens and are none themselves. -/
def isTrivia (p : Piece) : Bool := p.kind = .blank || p.isComment

/-- The text of the piece, with U+FFFD for what is not UTF-8. -/
def string (p : Piece) : String := Text.decodeString p.text

end Piece

namespace Lexer

/-- The byte of an ASCII character. -/
def byte (c : Char) : UInt8 := c.val.toUInt8

/-- The blanks of the language: space, tab, line feed, vertical tab, form feed and carriage
return. -/
def isBlankByte (b : UInt8) : Bool := b = 32 || (9 ≤ b && b ≤ 13)

/-- An ASCII digit. -/
def isDigitByte (b : UInt8) : Bool := 48 ≤ b && b ≤ 57

/-- A byte of a word. -/
def isWordByte (b : UInt8) : Bool :=
  isDigitByte b || (97 ≤ b && b ≤ 122) || (65 ≤ b && b ≤ 90) || b = byte '_' || b = byte '$' || 128 ≤ b

/-- Whether the source goes on with the given ASCII text. -/
def startsWith (lead : String) (s : Bytes) : Bool := (Text.encode lead).isPrefixOf s

/-- The number of bytes up to and including the first `*/`, or of all bytes if there is none. -/
def blockCommentRest : Bytes → Nat
  | [] => 0
  | b :: rest =>
    if b = byte '*' && rest.head? = some (byte '/') then 2 else 1 + blockCommentRest rest

/-- The number of bytes up to and including the closing quote. A backslash takes the next byte
with it. -/
def quotedRest (quote : UInt8) : Bytes → Nat
  | [] => 0
  | b :: rest =>
    if b = quote then 1
    else if b = byte '\\' then
      match rest with
      | [] => 1
      | _ :: after => 2 + quotedRest quote after
    else 1 + quotedRest quote rest

/-- The number of bytes up to and including the three closing quotes of a text block. -/
def textBlockRest : Bytes → Nat
  | [] => 0
  | b :: rest =>
    if b = byte '"' && startsWith "\"\"" rest then 3
    else if b = byte '\\' then
      match rest with
      | [] => 1
      | _ :: after => 2 + textBlockRest after
    else 1 + textBlockRest rest

/-- The number of further bytes of a number. A sign belongs to it after the mark of an exponent,
which is `e` in decimal and `p` in hexadecimal. -/
def numberRest (hex : Bool) (last : UInt8) : Bytes → Nat
  | [] => 0
  | b :: rest =>
    let exponent :=
      if hex then last = byte 'p' || last = byte 'P' else last = byte 'e' || last = byte 'E'
    if isWordByte b || b = byte '.' || ((b = byte '+' || b = byte '-') && exponent) then
      1 + numberRest hex b rest
    else 0

/-- The operators of more than one character, longest first. An angle bracket that closes type
arguments is always a symbol of its own. -/
def longSymbols : List String :=
  ["...", "<<=", "::", "->", "++", "--", "&&", "||", "==", "!=", "<=", ">=", "+=", "-=", "*=", "/=",
    "&=", "|=", "^=", "%=", "<<"]

/-- The class of the piece that starts with byte `b`, and how many bytes of the rest belong to
it. -/
def measure (b : UInt8) (rest : Bytes) : PieceKind × Nat :=
  if isBlankByte b then (.blank, (rest.takeWhile isBlankByte).length)
  else if b = byte '/' && rest.head? = some (byte '/') then
    (.lineComment, (rest.takeWhile (· ≠ byte '\n')).length)
  else if b = byte '/' && rest.head? = some (byte '*') then
    (.blockComment, 1 + blockCommentRest rest.tail)
  else if isDigitByte b then
    let hex := b = byte '0' && (rest.head? = some (byte 'x') || rest.head? = some (byte 'X'))
    (.number, numberRest hex b rest)
  else if b = byte '.' && rest.head?.any isDigitByte then (.number, numberRest false b rest)
  else if isWordByte b then
    let word := b :: rest.takeWhile isWordByte
    let after := rest.dropWhile isWordByte
    if word = Text.encode "non" && startsWith "-sealed" after then (.word, 9)
    else (.word, word.length - 1)
  else if b = byte '@' && startsWith "interface" rest then (.word, 9)
  else if b = byte '"' then
    if startsWith "\"\"" rest then (.quoted, 2 + textBlockRest (rest.drop 2))
    else (.quoted, quotedRest b rest)
  else if b = byte '\'' then (.quoted, quotedRest b rest)
  else
    match longSymbols.find? fun symbol => startsWith symbol (b :: rest) with
    | some symbol => (.symbol, symbol.length - 1)
    | none => (.symbol, 0)

/-- The pieces of a source whose first byte has the given offset. -/
def piecesFrom (start : Nat) : Bytes → List Piece
  | [] => []
  | b :: rest =>
    let (kind, n) := measure b rest
    let piece : Piece := ⟨kind, start, b :: rest.take n⟩
    piece :: piecesFrom piece.stop (rest.drop n)
termination_by s => s.length
decreasing_by simp only [List.length_cons, List.length_drop]; omega

/-- The three bytes of a byte order mark. -/
def byteOrderMark : Bytes := [0xEF, 0xBB, 0xBF]

/-- The pieces of a source. A byte order mark at its start is a blank. -/
def pieces (source : Bytes) : List Piece :=
  if byteOrderMark.isPrefixOf source then
    ⟨.blank, 0, byteOrderMark⟩ :: piecesFrom 3 (source.drop 3)
  else piecesFrom 0 source

end Lexer

end Apidoc.Java
