import Apidoc.Model.Element
import Apidoc.Text.Lines
import Apidoc.Text.Slice
import Apidoc.Text.Utf8

/-!
# `Apidoc.Model.Position`: lines of declarations

Line numbers start at one and count line feeds only. The text of lines is cut at every line
separator, so the two agree on sources whose only other separator is a carriage return in front of
a line feed.
-/

set_option autoImplicit false

namespace Apidoc.Model

open Apidoc.Text (Bytes)

namespace Position

/-- The number of line feeds. -/
def lineFeeds (bytes : Bytes) : Nat := bytes.count 10

/-- The first and the last line of the bytes from offset `start` up to offset `stop`. -/
def lineRange (content : Bytes) (start stop : Int) : Nat × Nat :=
  let first := lineFeeds (Text.slice 0 start content) + 1
  (first, first + lineFeeds (Text.slice start stop content))

/-- The lines from `first` to `last`, both included. -/
def textLines (content : Bytes) (first last : Int) : List (List Char) :=
  Text.slice (first - 1) last (Text.lines (Text.decode content))

end Position

namespace Declaration

open Apidoc.Model.Position

/-- The lines of the doc comment, if there is one. -/
def documentLines (d : Declaration) (content : Bytes) : Option (Nat × Nat) :=
  d.doc.map fun doc => lineRange content doc.span.start doc.span.stop

/-- The lines of the declaration. A field takes the line above it too, so that a comment or an
annotation there belongs to it. -/
def declarationLines (d : Declaration) (content : Bytes) : Nat × Nat :=
  let (first, last) := lineRange content d.span.start d.span.stop
  (if d.kind = .field then max 1 (first - 1) else first, last)

/-- The text of the lines of the declaration. -/
def sourceCode (d : Declaration) (content : Bytes) : List Char :=
  let (first, last) := d.declarationLines content
  Text.unlines (textLines content first last)

end Declaration

end Apidoc.Model
