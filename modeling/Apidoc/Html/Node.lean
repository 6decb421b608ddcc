/-!
# `Apidoc.Html.Node`: pieces of HTML

A fragment is a list of nodes. Text and attribute values are escaped when a fragment is written, so
only a raw node can hold markup of its own.
-/

set_option autoImplicit false

namespace Apidoc.Html

/-- The form of a character that stands for itself in text and in attribute values. -/
def escapeChar : Char → List Char
  | '&' => "&amp;".toList
  | '<' => "&lt;".toList
  | '>' => "&gt;".toList
  | '"' => "&quot;".toList
  | '\'' => "&#x27;".toList
  | c => [c]

/-- A text in which no character is markup. -/
def escape (s : String) : String := String.ofList (s.toList.flatMap escapeChar)

/-- A node of a fragment. -/
inductive Node where
  /-- Text as it is in the output. -/
  | raw (s : String)
  /-- Text to be escaped. -/
  | text (s : String)
  | element (tag : String) (attributes : List (String × String)) (children : List Node)
  deriving Repr

/-- An attribute with a blank in front. -/
def attributeText (a : String × String) : String := " " ++ a.1 ++ "=\"" ++ escape a.2 ++ "\""

mutual

/-- The text of a node. -/
def Node.render : Node → String
  | .raw s => s
  | .text s => escape s
  | .element tag attributes children =>
    "<" ++ tag ++ String.join (attributes.map attributeText) ++ ">" ++ renderAll children ++
      "</" ++ tag ++ ">"

/-- The text of a fragment. -/
def renderAll : List Node → String
  | [] => ""
  | node :: nodes => node.render ++ renderAll nodes

end

/-- The code of a text. -/
def code (s : String) : Node := .element "code" [] [.text s]

end Apidoc.Html
