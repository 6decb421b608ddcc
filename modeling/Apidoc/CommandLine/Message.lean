/-!
# `Apidoc.CommandLine.Message`: what the program prints

Messages carry a label in brackets. The text is printed as it is, without colours.
-/

set_option autoImplicit false

namespace Apidoc.CommandLine

/-- The kinds of messages. -/
inductive MessageKind where
  | info
  | success
  | warning
  | error
  | debug
  deriving DecidableEq, Repr

namespace MessageKind

/-- The label of a kind. -/
def label : MessageKind → String
  | info => "[INFO]"
  | success => "[SUCCESS]"
  | warning => "[WARN]"
  | error => "[ERROR]"
  | debug => "[DEBUG]"

/-- The colour of a kind, which shows only where a message has no text. -/
def colour : MessageKind → String
  | info => "blue"
  | success => "green"
  | warning => "yellow"
  | error => "red"
  | debug => "cyan"

/-- The label as coloured text. -/
def coloured (k : MessageKind) : String := s!"[{k.colour}]{k.label}[/{k.colour}] "

/-- A message on a line of its own. -/
def line (k : MessageKind) (text : String) : String :=
  let shown := if text = "" then k.coloured else text
  s!"{k.label} {shown}\n"

end MessageKind

/-- A heading with empty lines around it. -/
def heading (title : String) : String := s!"\n=== {title} ===\n\n"

/-- A title after an empty line, and names with values below it. -/
def box (title : String) (rows : List (String × String)) : String :=
  s!"\n{title}\n" ++ String.join (rows.map fun row => s!"  {row.1}: {row.2}\n")

end Apidoc.CommandLine
