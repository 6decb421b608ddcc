import Apidoc.Java.Piece

/-!
# `Apidoc.Java.Tree`: tokens and bracketed groups

A token keeps the trivia that stand before it. Tokens between a bracket and its partner form a
group, so that a body, an argument list or an initializer is one tree and can be passed over as a
whole. The pieces of the trees, read from left to right, are the pieces of the source.
-/

set_option autoImplicit false

namespace Apidoc.Java

/-- A piece that is no trivia, with the trivia between the token before and this one. -/
structure Token where
  before : List Piece
  piece : Piece

namespace Token

/-- The text of the token is the given ASCII text. Comparing texts is enough to tell keywords and
symbols from literals, which keep their quotes. -/
def is (t : Token) (text : String) : Bool := t.piece.text = Text.encode text

/-- An identifier or a keyword. -/
def isWord (t : Token) : Bool := t.piece.kind = .word

/-- The comments between the token before and this one. -/
def comments (t : Token) : List Piece := t.before.filter Piece.isComment

/-- The tokens of a list of pieces. Trivia after the last token belong to none. -/
def ofPieces (before : List Piece) : List Piece → List Token
  | [] => []
  | p :: rest =>
    if p.isTrivia then ofPieces (before ++ [p]) rest else ⟨before, p⟩ :: ofPieces [] rest

end Token

/-- A token, or the trees between two brackets. -/
inductive Tree where
  | token (t : Token)
  | group (opening : Token) (items : List Tree) (closing : Token)

namespace Tree

/-- The first token. -/
def first : Tree → Token
  | .token t => t
  | .group opening _ _ => opening

/-- The last token. -/
def last : Tree → Token
  | .token t => t
  | .group _ _ closing => closing

/-- The offset of the first byte. -/
def start (t : Tree) : Nat := t.first.piece.start

/-- The offset after the last byte. -/
def stop (t : Tree) : Nat := t.last.piece.stop

/-- The comments in front of the tree. -/
def comments (t : Tree) : List Piece := t.first.comments

/-- The tree is a token with the given text. -/
def is (t : Tree) (text : String) : Bool :=
  match t with
  | .token t => t.is text
  | .group .. => false

/-- The tree is an identifier or a keyword. -/
def isWord : Tree → Bool
  | .token t => t.isWord
  | .group .. => false

/-- The tree is a group that opens with the given bracket. -/
def isGroup (t : Tree) (bracket : String) : Bool :=
  match t with
  | .token _ => false
  | .group opening _ _ => opening.is bracket

/-- The trees between the brackets. -/
def items : Tree → List Tree
  | .token _ => []
  | .group _ items _ => items

mutual

/-- The pieces of a tree from left to right, trivia included. -/
def pieces : Tree → List Piece
  | .token t => t.before ++ [t.piece]
  | .group opening items closing =>
    opening.before ++ opening.piece :: piecesAll items ++ closing.before ++ [closing.piece]

/-- The pieces of several trees. -/
def piecesAll : List Tree → List Piece
  | [] => []
  | t :: rest => t.pieces ++ piecesAll rest

end

mutual

/-- The number of tokens and groups. -/
def size : Tree → Nat
  | .token _ => 1
  | .group _ items _ => 1 + sizeAll items

/-- The number of tokens and groups in several trees. -/
def sizeAll : List Tree → Nat
  | [] => 0
  | t :: rest => t.size + sizeAll rest

end

/-- A bracket that waits for its partner, with the trees before it in reverse order. -/
structure Open where
  opening : Token
  before : List Tree

/-- Brackets without a partner are tokens like any other. -/
def abandon (opened : List Open) (done : List Tree) : List Tree :=
  opened.foldl (fun inner o => inner ++ .token o.opening :: o.before) done

/-- Groups tokens. `opened` holds the brackets that wait, innermost first, and `done` the trees
since the innermost of them in reverse order. -/
def nest (opened : List Open) (done : List Tree) : List Token → List Tree
  | [] => (abandon opened done).reverse
  | t :: rest =>
    if t.is "(" || t.is "[" || t.is "\x7b" then nest (⟨t, done⟩ :: opened) [] rest
    else if t.is ")" || t.is "]" || t.is "\x7d" then
      match opened with
      | [] => nest [] (.token t :: done) rest
      | o :: outer => nest outer (.group o.opening done.reverse t :: o.before) rest
    else nest opened (.token t :: done) rest

/-- The trees of a source. -/
def ofSource (source : Text.Bytes) : List Tree :=
  nest [] [] (Token.ofPieces [] (Lexer.pieces source))

/-- The source text from the first token of a run of trees to its last, inner trivia included. -/
def text (run : List Tree) : String :=
  match run with
  | [] => ""
  | t :: _ =>
    Text.decodeString (((piecesAll run).drop t.first.before.length).flatMap Piece.text)

end Tree

end Apidoc.Java
