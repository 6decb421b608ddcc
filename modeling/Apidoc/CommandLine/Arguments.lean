import Apidoc.CommandLine.Grammar
import Apidoc.CommandLine.Help
import Apidoc.Settings.Logging
import Apidoc.Settings.Origin

/-!
# `Apidoc.CommandLine.Arguments`: what the command line asks for

The program has one command, which builds a site. Its options give settings, and its plain words the
source directories. A request for help or the version counts as soon as it is met, and so does the
first fault.
-/

set_option autoImplicit false

namespace Apidoc.CommandLine

open Apidoc.Files (Path)
open Apidoc.Log (Level)
open Apidoc.Settings (Values given pathValue)

/-! ### Options -/

/-- The options of the program itself. -/
inductive ProgramOption where
  | help
  | version
  deriving DecidableEq, Repr

/-- The options of the build command. -/
inductive BuildOption where
  | help
  | output
  | sample
  | externalDoc
  | useJdkDoc
  | product
  | project
  | version
  | repository
  | fetchTimeout
  | verbose
  | config
  | logFile
  | logLevel
  deriving DecidableEq, Repr

/-- The options of the program itself, by name. -/
def programSwitches : Switches ProgramOption :=
  [⟨.help, ["-h", "--help"], false⟩, ⟨.version, ["--version"], false⟩]

/-- The options of the build command, by name. -/
def buildSwitches : Switches BuildOption :=
  [⟨.help, ["-h", "--help"], false⟩,
    ⟨.output, ["--out-dir"], true⟩,
    ⟨.sample, ["--sample"], true⟩,
    ⟨.externalDoc, ["--external-doc"], true⟩,
    ⟨.useJdkDoc, ["--use-jdk-doc"], false⟩,
    ⟨.product, ["--product"], true⟩,
    ⟨.project, ["--project"], true⟩,
    ⟨.version, ["--product-version"], true⟩,
    ⟨.repository, ["--repository"], true⟩,
    ⟨.fetchTimeout, ["--fetch-timeout"], true⟩,
    ⟨.verbose, ["--verbose", "-v"], false⟩,
    ⟨.config, ["--config"], true⟩,
    ⟨.logFile, ["--log-file"], true⟩,
    ⟨.logLevel, ["--log-level"], true⟩]

/-! ### Arguments -/

/-- What is asked of the build command. -/
structure Arguments where
  sources : List Path
  output : Option Path
  sample : Option Path
  /-- The addresses that were given, in order. -/
  externalDocs : Option (List String)
  useJdkDoc : Bool
  product : Option String
  project : Option String
  version : Option String
  repository : Option String
  fetchTimeout : Option Float
  isVerbose : Bool
  config : Option Path
  logFile : Option String
  logLevel : Option Level

namespace Arguments

/-- Nothing but the command. -/
def bare : Arguments where
  sources := []
  output := none
  sample := none
  externalDocs := none
  useJdkDoc := false
  product := none
  project := none
  version := none
  repository := none
  fetchTimeout := none
  isVerbose := false
  config := none
  logFile := none
  logLevel := none

end Arguments

/-- Why the command line ends a run before it has begun. -/
inductive Stop where
  | help (text : String)
  | version
  /-- The command line is wrong. `command` is the one whose words are wrong. -/
  | fault (command : String) (f : Fault)
  deriving DecidableEq, Repr

namespace Stop

/-- The last line of the message about a fault. -/
def complaint (command : String) (f : Fault) : String := s!"{command}: error: {f.message}"

end Stop

/-! ### The build command -/

namespace Arguments

/-- The build command as messages call it. -/
def title : String := programName ++ " " ++ buildName

/-- Notes an option without a value. -/
def setFlag (a : Arguments) : BuildOption → Except Stop Arguments
  | .help => .error (.help buildHelp)
  | .useJdkDoc => .ok { a with useJdkDoc := true }
  | .verbose => .ok { a with isVerbose := true }
  | _ => .ok a

/-- Notes an option with its value. -/
def setValue (a : Arguments) (s : Switch BuildOption) (text : String) : Except Stop Arguments :=
  match s.key with
  | .output => .ok { a with output := some (.ofString text) }
  | .sample => .ok { a with sample := some (.ofString text) }
  | .externalDoc => .ok { a with externalDocs := some (a.externalDocs.getD [] ++ [text]) }
  | .product => .ok { a with product := some text }
  | .project => .ok { a with project := some text }
  | .version => .ok { a with version := some text }
  | .repository => .ok { a with repository := some text }
  | .fetchTimeout =>
    match Decimal.typed? text.toList with
    | some x => .ok { a with fetchTimeout := some x }
    | none => .error (.fault title (.notANumber s.title text))
  | .config => .ok { a with config := some (.ofString text) }
  | .logFile => .ok { a with logFile := some text }
  | .logLevel =>
    match Level.ofText? text with
    | some level => .ok { a with logLevel := some level }
    | none => .error (.fault title (.notAChoice s.title text (Level.all.map Level.text)))
  | _ => .ok a

/-- Notes what the command line is read as. Words without a use are collected. -/
def note (state : Arguments × List String) :
    Event BuildOption → Except Stop (Arguments × List String)
  | .flag key => return (← state.1.setFlag key, state.2)
  | .value s text => return (← state.1.setValue s text, state.2)
  | .plain words =>
    return ({ state.1 with sources := (words.erase separatorText).map Path.ofString }, state.2)
  | .extra word => return (state.1, state.2 ++ [word])
  | .fault f => throw (.fault title f)

/-- Reads the words after the command. The second part are the words without a use. -/
def ofWords (words : List String) : Except Stop (Arguments × List String) :=
  (Event.read buildSwitches .takesRun words).foldlM note (bare, [])

/-! ### The program -/

/-- What is known while the words of the program are read: the arguments of the command if it has
come, and the words without a use, those of the program before those of the command. -/
structure Progress where
  arguments : Option Arguments
  extras : List String
  commandExtras : List String

/-- Notes what the command line of the program is read as. -/
def noteProgram (state : Progress) : Event ProgramOption → Except Stop Progress
  | .flag .help => throw (.help programHelp)
  | .flag .version => throw .version
  | .plain (command :: words) => do
    if command = buildName then
      let (arguments, extras) ← ofWords words
      return { state with arguments := some arguments, commandExtras := extras }
    else throw (.fault programName (.notAChoice "command" command [buildName]))
  | .plain [] | .value .. => return state
  | .extra word => return { state with extras := state.extras ++ [word] }
  | .fault f => throw (.fault programName f)

/-- Reads a command line. Without a command there are no arguments. -/
def read (words : List String) : Except Stop (Option Arguments) := do
  let state ← (Event.read programSwitches .takesRest words).foldlM noteProgram ⟨none, [], []⟩
  match state.extras ++ state.commandExtras with
  | [] => return state.arguments
  | extras => throw (.fault programName (.unrecognized extras))

/-! ### Settings -/

/-- The values that the arguments give for the settings of a build. -/
def values (a : Arguments) : Values :=
  (if a.sources.isEmpty then [] else [("sources", .array (a.sources.map pathValue))]) ++
    given "sample" pathValue a.sample ++
    given "output" pathValue a.output ++
    given "external_docs" (fun addresses => .array (addresses.map .string)) a.externalDocs ++
    given "product" .string a.product ++
    given "project" .string a.project ++
    given "version" .string a.version ++
    given "repository" .string a.repository ++
    given "fetch_timeout" .float a.fetchTimeout ++
    (if a.useJdkDoc then [("use_jdk_doc", .bool true)] else [])

/-- The values that the arguments give for the settings of the log file. -/
def logFileValues (a : Arguments) : Values :=
  (match a.logFile.filter (· ≠ "") with
    | some path => [("enabled", .bool true), ("path", .string path)]
    | none => []) ++
    given "level" (fun level => .string level.text) a.logLevel

/-- The values that the arguments give for the settings of the log. -/
def logValues (a : Arguments) : Values :=
  match a.logFileValues with
  | [] => []
  | values => [("file", .object values)]

/-- The settings of the log. -/
def logging (a : Arguments) : Settings.Checked Settings.Logging := Settings.Logging.ofValues a.logValues

end Arguments

end Apidoc.CommandLine
