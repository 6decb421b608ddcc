import Apidoc.Html.Entity
import Apidoc.Text.Letter

/-!
# `Apidoc.Html.Event`: reading HTML as events

A page is a run of start tags, end tags and pieces of text. Names are in small letters, and character
references are expanded. Comments and declarations leave no event. The reader is lenient: what is not
complete is text. Only a marked section with a keyword that it does not know makes it give up.
-/

set_option autoImplicit false

namespace Apidoc.Html

open Apidoc.Text

/-- An attribute. Its value is missing if there is no equals sign. -/
structure Attribute where
  name : List Char
  value : Option (List Char)
  deriving DecidableEq, Repr

/-- What a page is made of. -/
inductive Event where
  | start (name : List Char) (attributes : List Attribute)
  | finish (name : List Char)
  | text (content : List Char)
  deriving DecidableEq, Repr

namespace Event

/-! ### Start tags -/

/-- An ASCII letter starts the name of a tag. -/
def startsName (cs : List Char) : Bool := cs.head?.any Char.isAlpha

/-- A character of the name of a tag. -/
def isTagNameChar (c : Char) : Bool :=
  c ≠ '\t' && c ≠ '\n' && c ≠ '\r' && c ≠ '\x0c' && c ≠ ' ' && c ≠ '/' && c ≠ '>' && c ≠ '\x00'

/-- A character of the name of an attribute. -/
def isAttributeNameChar (c : Char) : Bool := !isBlank c && c ≠ '/' && c ≠ '=' && c ≠ '>'

/-- A character of a value without quotes. -/
def isBareValueChar (c : Char) : Bool := !isBlank c && c ≠ '>'

/-- The number of blanks and slashes at the front. A slash before `>` does not count. -/
def separators : List Char → Nat
  | [] => 0
  | c :: rest =>
    if isBlank c || (c = '/' && rest.head? ≠ some '>') then 1 + separators rest else 0

/-- The text up to the first closing quote, if there is one. -/
def quotedValue? (quote : Char) (cs : List Char) : Option (List Char) :=
  match cutAt quote cs with
  | (value, some _) => some value
  | (_, none) => none

/-- The value after the name of an attribute, and the number of characters up to its end. A quote that
is never closed starts no value; then the value is empty, or the second of two equals signs. -/
def value (cs : List Char) : Option (List Char) × Nat :=
  let blanks := (cs.takeWhile isBlank).length
  let signs := ((cs.drop blanks).takeWhile (· = '=')).length
  let moreBlanks := ((cs.drop (blanks + signs)).takeWhile isBlank).length
  let n := blanks + signs + moreBlanks
  let bare (from_ : Nat) : Option (List Char) × Nat :=
    let v := (cs.drop from_).takeWhile isBareValueChar
    (some v, from_ + v.length)
  if signs = 0 then (none, 0)
  else
    match cs.drop n with
    | c :: rest =>
      if c = '\'' ∨ c = '"' then
        match quotedValue? c rest with
        | some v => (some v, n + v.length + 2)
        | none =>
          if moreBlanks ≠ 0 then (some [], n - 1)
          else if 2 ≤ signs then bare (n - 1)
          else (none, 0)
      else bare n
    | [] => (some [], n)

/-- The attribute at the front and its length with the separators after it, or a length of zero if
there is none. An attribute stands after a blank, a slash or a quote. -/
def attributeAt (before : Option Char) (cs : List Char) : Attribute × Nat :=
  match before, cs with
  | some b, c :: rest =>
    if (isBlank b || b = '/' || b = '\'' || b = '"') && !isBlank c && c ≠ '/' && c ≠ '>' then
      let name := c :: rest.takeWhile isAttributeNameChar
      let (v, n) := value (cs.drop name.length)
      let m := name.length + n
      (⟨name, v⟩, m + separators (cs.drop m))
    else (⟨[], none⟩, 0)
  | _, _ => (⟨[], none⟩, 0)

/-- The attributes at the front of a text and their lengths, as long as less than `limit` characters
have been read. -/
def attributes (before : Option Char) (limit : Nat) (cs : List Char) : List (Attribute × Nat) :=
  let found := attributeAt before cs
  if _h : 0 < limit ∧ 0 < found.2 ∧ found.2 ≤ cs.length then
    found :: attributes ((cs.take found.2).getLast?) (limit - found.2) (cs.drop found.2)
  else []
termination_by cs.length
decreasing_by
  have : 0 < (attributeAt before cs).2 ∧ (attributeAt before cs).2 ≤ cs.length := _h.2
  simp only [List.length_drop]
  omega

/-- The number of characters that several attributes take. -/
def total : List (Attribute × Nat) → Nat
  | [] => 0
  | first :: rest => first.2 + total rest

/-- The length of what follows the name in a start tag, or nothing if the tag is not complete. `last`
is the last character of the name. -/
def tagLength? (last : Option Char) (cs : List Char) : Option Nat :=
  let lead := (cs.takeWhile fun c => isBlank c || c = '/').length
  let before := if lead = 0 then last else (cs.take lead).getLast?
  let n := lead + total (attributes before (cs.length + 1) (cs.drop lead))
  let m := n + ((cs.drop n).takeWhile isBlank).length
  match cs.drop m with
  | [] => none
  | '>' :: _ => some (m + 1)
  | '/' :: '>' :: _ => some (m + 2)
  | c :: _ => if c.isAlpha || c = '=' || c = '/' then none else some m

/-- The attribute with its name in small letters and its value expanded. -/
def readAttribute (a : Attribute) : Attribute := ⟨lowercase a.name, a.value.map Entity.expand⟩

/-- The elements whose content is text up to their end tag. -/
def rawElements : List (List Char) := ["script".toList, "style".toList]

/-- What one step of the reader finds: events, the number of characters read, and the element whose
content is text from there on. -/
structure Step where
  events : List Event
  length : Nat
  raw : Option (List Char)

/-- Reads a start tag. `cs` starts after the `<`. The length counts the `<` too. -/
def startTag? (cs : List Char) : Option Step := do
  let name := cs.takeWhile isTagNameChar
  let rest := cs.drop name.length
  let n ← tagLength? name.getLast? rest
  let lead := separators rest
  let before := if lead = 0 then name.getLast? else (rest.take lead).getLast?
  let found := attributes before (n - lead) (rest.drop lead)
  let k := lead + total found
  let tail := trim ((rest.take n).drop k)
  let length := 1 + name.length + n
  let tag := lowercase name
  let start : Event := .start tag (found.map fun a => readAttribute a.1)
  if tail = ['>'] then return ⟨[start], length, if rawElements.contains tag then some tag else none⟩
  else if tail = ['/', '>'] then return ⟨[start, .finish tag], length, none⟩
  else return ⟨[.text ('<' :: cs.take (name.length + n))], length, none⟩

/-! ### End tags -/

/-- A character of a well-formed name in an end tag. -/
def isEndNameChar (c : Char) : Bool :=
  c.isAlphanum || c = '-' || c = '.' || c = ':' || c = '_'

/-- The name in a well-formed end tag. `cs` starts after the `</`. -/
def endName? (cs : List Char) : Option (List Char) :=
  let body := cs.dropWhile isBlank
  let name := body.takeWhile isEndNameChar
  if startsName body && ((body.drop name.length).dropWhile isBlank).head? = some '>' then
    some (lowercase name)
  else none

/-- The number of characters up to and including the first `>`, if there is one. -/
def throughAngle? (cs : List Char) : Option Nat :=
  match cutAt '>' cs with
  | (inner, some _) => some (inner.length + 1)
  | (_, none) => none

/-- Reads an end tag. `cs` starts after the `</`. The length counts these two characters too. -/
def endTag? (raw : Option (List Char)) (cs : List Char) : Option Step := do
  let n ← throughAngle? cs
  let asText : Step := ⟨[.text ('<' :: '/' :: cs.take n)], n + 2, raw⟩
  match endName? cs, raw with
  | none, some _ => return asText
  | none, none =>
    if startsName cs then return ⟨[.finish (lowercase (cs.takeWhile isTagNameChar))], n + 2, none⟩
    else return ⟨[], n + 2, none⟩
  | some name, some element =>
    if name = element then return ⟨[.finish name], n + 2, none⟩ else return asText
  | some name, none => return ⟨[.finish name], n + 2, none⟩

/-! ### Comments and declarations -/

/-- The rest of a text after a mark that closes something: characters in order, with blanks allowed
before those but the first, or before the last only. -/
def afterMark? (blanksBefore : Bool) : List Char → List Char → Option (List Char)
  | [], cs => some cs
  | m :: mark, cs =>
    let cs' := if blanksBefore || mark = [] then cs.dropWhile isBlank else cs
    match cs' with
    | c :: rest => if c = m then afterMark? blanksBefore mark rest else none
    | [] => none

/-- The number of characters up to and including the first closing mark, if there is one. The mark
starts with `first`. -/
def throughMark? (blanksBefore : Bool) (first : Char) (mark : List Char) : List Char → Option Nat
  | [] => none
  | c :: rest =>
    match if c = first then afterMark? blanksBefore mark rest else none with
    | some after => some (1 + (rest.length - after.length))
    | none => (throughMark? blanksBefore first mark rest).map (· + 1)

/-- A character of the keyword of a marked section. -/
def isKeywordChar (c : Char) : Bool := c.isAlphanum || c = '-' || c = '_' || c = '.'

/-- Reads a marked section. `cs` starts after `<![`. The length counts these three characters too. No
answer at all means that the keyword is not known. -/
def markedSection (cs : List Char) : Option (Option Step) :=
  let name := cs.takeWhile isKeywordChar
  let after := (cs.drop name.length).dropWhile isBlank
  let close (n : Option Nat) : Option (Option Step) := some (n.map fun k => ⟨[], k + 3, none⟩)
  if cs = [] then some none
  else if !startsName cs then none
  else if after = [] then some none
  else
    match String.ofList (lowercase name) with
    | "temp" | "cdata" | "ignore" | "include" | "rcdata" =>
      close (throughMark? true ']' [']', '>'] cs)
    | "if" | "else" | "endif" => close (throughMark? true ']' ['>'] cs)
    | _ => none

/-! ### The reader -/

/-- Reads the construct at the front of a text. `cs` starts after the `<`. -/
def construct (raw : Option (List Char)) (cs : List Char) : Option (Option Step) :=
  let skip (lead : Nat) (n : Option Nat) : Option (Option Step) :=
    some (n.map fun k => ⟨[], lead + k, raw⟩)
  if startsName cs then some (startTag? cs)
  else
    match cs with
    | '/' :: rest => some (endTag? raw rest)
    | '!' :: '-' :: '-' :: rest => skip 4 (throughMark? false '-' ['-', '>'] rest)
    | '?' :: rest => skip 2 (throughAngle? rest)
    | '!' :: '[' :: rest => markedSection rest
    | '!' :: rest =>
      if lowercase (rest.take 7) = "doctype".toList then
        skip 9 (throughAngle? (rest.drop 7))
      else skip 2 (throughAngle? rest)
    | [] => some none
    | _ => some (some ⟨[.text ['<']], 1, raw⟩)

/-- The number of characters of an incomplete construct that are text: up to the next `>`, or else up to
the next `<`, or else the `<` alone. `cs` starts after the `<`. -/
def incompleteLength (cs : List Char) : Nat :=
  match throughAngle? cs with
  | some n => n + 1
  | none => if '<' ∈ cs then 1 + (cs.takeWhile (· ≠ '<')).length else 1

/-- The number of characters in front of the end tag of an element whose content is text. -/
def rawLength? (element : List Char) : List Char → Option Nat
  | [] => none
  | '<' :: '/' :: rest =>
    let body := rest.dropWhile isBlank
    if lowercase (body.take element.length) = element &&
        ((body.drop element.length).dropWhile isBlank).head? = some '>' then some 0
    else (rawLength? element ('/' :: rest)).map (· + 1)
  | _ :: rest => (rawLength? element rest).map (· + 1)

/-- A text as an event, or no event if it is empty. -/
def textEvent (cs : List Char) : List Event := if cs = [] then [] else [.text cs]

/-- The events of a page. `raw` is the element whose content is text. Text of such an element that is
never closed is dropped. -/
def readFrom (raw : Option (List Char)) (cs : List Char) : Option (List Event) :=
  if cs = [] then some []
  else
    let lead? := match raw with
      | none => some (cs.takeWhile (· ≠ '<')).length
      | some element => rawLength? element cs
    match lead? with
    | none => some []
    | some lead =>
      let text := cs.take lead
      let front := textEvent (if raw.isNone then Entity.expand text else text)
      match h : cs.drop lead with
      | [] => some front
      | _ :: rest =>
        have : rest.length < cs.length := by
          have := congrArg List.length h
          simp at this
          omega
        match construct raw rest with
        | none => none
        | some (some step) =>
          (readFrom step.raw (rest.drop (step.length - 1))).map (front ++ step.events ++ ·)
        | some none =>
          let n := incompleteLength rest
          let piece := '<' :: rest.take (n - 1)
          let text := if raw.isNone then Entity.expand piece else piece
          (readFrom raw (rest.drop (n - 1))).map (front ++ .text text :: ·)
termination_by cs.length
decreasing_by all_goals (simp; omega)

/-- The events of a page, unless it has a marked section that cannot be read. -/
def read? (page : List Char) : Option (List Event) := readFrom none page

end Event

end Apidoc.Html
