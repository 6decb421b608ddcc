import Apidoc.Java.Reader
import Apidoc.Model.Unit

/-!
# `Apidoc.Sample.Clean`: a source without comments and noise

Every comment is removed from a sample source, and so are the noise annotations of methods and
constructors. A line of which nothing is left goes too. All other lines keep their layout.
-/

set_option autoImplicit false

namespace Apidoc.Sample

open Apidoc.Java (Item Span Annotation Modifiers)
open Apidoc.Text (Bytes)

namespace Clean

/-- The number of plain blanks and tabs that follow an offset. -/
def blanksAfter (content : Bytes) (offset : Nat) : Nat :=
  ((content.drop offset).takeWhile fun b => b = 32 || b = 9).length

/-- The spans of the noise annotations among modifiers, with the blanks after them. -/
def noiseSpans (noise : List String) (content : Bytes) (ms : Modifiers) : List Span :=
  ms.annotations.filterMap fun a =>
    if Model.CompilationUnit.annotationName a ∈ noise then
      some ⟨a.span.start, a.span.stop + blanksAfter content a.span.stop⟩
    else none

mutual

/-- The modifiers of a method or a constructor with a parameter list of its own, and of those inside
the item. -/
def memberModifiers : Item → List Modifiers
  | .type _ members => allMemberModifiers members
  | .method head inner =>
    (if head.isElement then [] else [head.modifiers]) ++ allMemberModifiers inner
  | .constructor head inner =>
    (if head.parameters.isSome then [head.modifiers] else []) ++ allMemberModifiers inner
  | .field _ inner => allMemberModifiers inner
  | .constant _ inner => allMemberModifiers inner
  | .rest _ members => allMemberModifiers members
  | .code _ inner => allMemberModifiers inner
  | .comment _ | .package .. | .imported .. | .module .. => []

/-- The modifiers of the methods and constructors of several items. -/
def allMemberModifiers : List Item → List Modifiers
  | [] => []
  | item :: items => memberModifiers item ++ allMemberModifiers items

end

/-- What is to be removed from a source. -/
def removals (noise : List String) (content : Bytes) : List Span :=
  let comments := ((Java.Lexer.pieces content).filter (·.isComment)).map fun p =>
    (⟨p.start, p.stop⟩ : Span)
  comments ++ (allMemberModifiers (Java.Reader.items content)).flatMap (noiseSpans noise content)

/-- The byte that stands for removed text. -/
def mark : UInt8 := 0

/-- The source with each span replaced by the mark. The spans are in order, the source starts at
`position`, and a span that starts before it is passed over. -/
def markSpans (position : Nat) (content : Bytes) : List Span → Bytes
  | [] => content
  | s :: rest =>
    if s.start < position then markSpans position content rest
    else
      content.take (s.start - position) ++
        mark :: markSpans s.stop (content.drop (s.stop - position)) rest

/-- The lines of a source, without the line feeds between them. -/
def byteLines : Bytes → List Bytes
  | [] => [[]]
  | b :: rest =>
    if b = 10 then [] :: byteLines rest
    else
      match byteLines rest with
      | [] => [[b]]
      | line :: below => (b :: line) :: below

/-- An ASCII blank. -/
def isAsciiBlank (b : UInt8) : Bool := b = 32 || (9 ≤ b && b ≤ 13)

/-- A line without its marks, or nothing if it had marks and only blanks beside them. -/
def unmark (line : Bytes) : Option Bytes :=
  if mark ∈ line then
    let kept := line.filter (· ≠ mark)
    if kept.all isAsciiBlank then none else some kept
  else some line

/-- The order of spans in a source. -/
def spanLe (a b : Span) : Bool := a.start < b.start || (a.start = b.start && a.stop ≤ b.stop)

/-- The source without comments and without noise annotations. -/
def clean (noise : List String) (content : Bytes) : Bytes :=
  let marked := markSpans 0 content ((removals noise content).mergeSort spanLe)
  List.intercalate [10] ((byteLines marked).filterMap unmark)

end Clean

end Apidoc.Sample
