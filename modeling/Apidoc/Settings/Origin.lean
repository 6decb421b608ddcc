import Apidoc.Json.Reader
import Apidoc.Settings.Build
import Apidoc.Text.Lines

/-!
# `Apidoc.Settings.Origin`: where settings come from

Values come from a file, from environment variables and from the command line. A value from the
command line counts before one from a variable, and that before one from the file.
-/

set_option autoImplicit false

namespace Apidoc.Settings

open Apidoc.Files (Path Tree)

/-- The values of `base` with the newer ones in their place or after them. -/
def Values.update (base newer : Values) : Values :=
  newer.foldl (fun values entry => Json.setMember values entry.1 entry.2) base

/-- A value that may be given. -/
def given {α : Type} (name : String) (encode : α → Json) (x : Option α) : Values :=
  x.toList.map fun x => (name, encode x)

/-- The value of a path. -/
def pathValue (p : Path) : Json := .string p.toString

/-! ### Files -/

/-- The values in a settings file, which is one JSON object. -/
def fileValues (files : Tree) (p : Path) : Except Failure Values := do
  let content ← (files.read p).mapError fun e =>
    if e.fault = .nullCharacter then .file e else .settings (.unreadableFile p e.message)
  match (Text.decode? content).map Text.unifyBreaks with
  | none => throw .encoding
  | some document =>
    match Json.read document with
    | .error e =>
      match e.problem with
      | .integerTooLong digits => throw (.integerTooLong digits)
      | _ => throw (.settings (.unreadableFile p (e.message document)))
    | .ok (.object values) => return values
    | .ok _ => throw (.settings (.notAnObject p))

/-! ### Environment variables -/

/-- Environment variables by name. -/
abbrev Variables := List (String × String)

namespace Variables

/-- What the names of variables with settings begin with. -/
def lead : String := "JDOCSITE_"

/-- The value of a variable with a setting. An empty one counts as none. -/
def value? (v : Variables) (name : String) : Option String :=
  ((v.reverse.find? (·.1 = lead ++ name)).map (·.2)).filter (· ≠ "")

/-- The parts of a value between separators. -/
def parts (sep : Char) (s : String) : List String :=
  (Text.splitOn (· = sep) s.toList).map String.ofList

/-- The time limit that a variable gives, if it gives one that is a number. -/
def timeout? (v : Variables) : Option Float := do
  Decimal.typed? (← v.value? "FETCH_TIMEOUT").toList

/-- The values that variables give. -/
def values (v : Variables) : Values :=
  let sources (s : String) : Json :=
    .array (((parts ':' s).filter (· ≠ "")).map fun p => pathValue (.ofString p))
  let addresses (s : String) : Json :=
    .array (((parts ',' s).filter fun a => !Text.allBlank a.toList).map .string)
  given "sources" sources (v.value? "SOURCES") ++
    given "sample" (fun s => pathValue (.ofString s)) (v.value? "SAMPLE") ++
    given "output" (fun s => pathValue (.ofString s)) (v.value? "OUTPUT") ++
    given "external_docs" addresses (v.value? "EXTERNAL_DOCS") ++
    given "repository" .string (v.value? "REPOSITORY") ++
    given "fetch_timeout" .float v.timeout?

/-- A warning if the time limit is no number. -/
def warnings (v : Variables) : List Log.Entry :=
  match v.value? "FETCH_TIMEOUT", v.timeout? with
  | some s, none => [.warning s!"Ignoring invalid {lead}FETCH_TIMEOUT: {s}"]
  | _, _ => []

end Variables

/-! ### All of them -/

/-- The values from a file if there is one, with those of variables and of the command line over
them. -/
def allValues (files : Tree) (file : Option Path) (v : Variables) (commandLine : Values) :
    Except Failure Values := do
  let base ←
    match file with
    | some p => fileValues files p
    | none => pure []
  return (Values.update base v.values).update commandLine

/-- The settings of a build, and warnings that stand even if there are none. -/
def Build.gather (files : Tree) (file : Option Path) (v : Variables) (commandLine : Values) :
    Except Failure Build × List Log.Entry :=
  match allValues files file v commandLine with
  | .error failure => (.error failure, [])
  | .ok values =>
    ((Build.ofValues values).toExcept (.invalid Build.groupName ·),
      v.warnings ++ Build.warnings values)

end Apidoc.Settings
