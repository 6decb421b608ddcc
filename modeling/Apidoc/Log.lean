/-!
# `Apidoc.Log`: what a run reports on its way

An entry is a level and a message. Entries below the level that a reader asks for are not shown.
-/

set_option autoImplicit false

namespace Apidoc.Log

/-- How serious an entry is. -/
inductive Level where
  | debug
  | info
  | warning
  | error
  | critical
  deriving DecidableEq, Repr

namespace Level

/-- Every level, the least serious first. -/
def all : List Level := [debug, info, warning, error, critical]

/-- The name of a level. -/
def text : Level → String
  | debug => "DEBUG"
  | info => "INFO"
  | warning => "WARNING"
  | error => "ERROR"
  | critical => "CRITICAL"

/-- The rank of a level. -/
def rank : Level → Nat
  | debug => 0
  | info => 1
  | warning => 2
  | error => 3
  | critical => 4

/-- Whether an entry of this level is shown where the other one is the least serious. -/
def reaches (level least : Level) : Bool := least.rank ≤ level.rank

/-- The level with the given name. -/
def ofText? (s : String) : Option Level := all.find? fun level => level.text = s

end Level

/-- A reported message. -/
structure Entry where
  level : Level
  message : String
  deriving DecidableEq, Repr

namespace Entry

/-- An entry about the normal course of things. -/
def info (message : String) : Entry := ⟨.info, message⟩

/-- An entry about something that may be wrong. -/
def warning (message : String) : Entry := ⟨.warning, message⟩

/-- The level and the message. -/
def text (e : Entry) : String := e.level.text ++ " " ++ e.message

/-- The width of the column of levels. -/
def levelWidth : Nat := 8

/-- The line that a console shows at a time of day. -/
def line (e : Entry) (clock : String) : String :=
  let name := e.level.text
  let column := name.pushn ' ' (levelWidth - name.length)
  s!"{clock} | {column} | {e.message}"

end Entry

/-- The entries that are shown where a level is the least serious. -/
def shownFrom (least : Level) (entries : List Entry) : List Entry :=
  entries.filter (·.level.reaches least)

end Apidoc.Log
