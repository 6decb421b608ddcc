import Apidoc.Build.Session
import Apidoc.CommandLine.Arguments
import Apidoc.CommandLine.Message

/-!
# `Apidoc.CommandLine.Program`: a run of the program

A run reads its command line, opens the log file, gathers the settings, builds the site and prints a
summary. It ends with an exit code: 0 if all went well, 1 if there was no command or the build failed,
2 if the command line or the settings are wrong. Failures outside of these end it without one.
-/

set_option autoImplicit false

namespace Apidoc.CommandLine

open Apidoc.Files (Action Path Tree)
open Apidoc.Build (Session)

/-- How a run ends. -/
inductive Ending where
  | exit (code : Nat)
  /-- A failure that the program does not handle. -/
  | escape (failure : Failure)
  deriving DecidableEq, Repr

/-- What goes to the error stream besides the log. -/
inductive Complaint where
  /-- The command line is wrong. -/
  | usage (line : String)
  /-- The build failed. -/
  | failure (f : Failure)
  deriving DecidableEq, Repr

/-- The state of a run. -/
structure Run where
  files : Tree
  network : External.Network
  output : String
  complaint : Option Complaint
  log : List Log.Entry
  /-- The least serious log entries that the console shows. -/
  consoleLevel : Log.Level

namespace Run

/-- A step of a run, which may end it. -/
abbrev Step (α : Type) := ExceptT Ending (StateM Run) α

/-- Prints a text. -/
def print (text : String) : Step Unit := modify fun r => { r with output := r.output ++ text }

/-- Prints a message. -/
def tell (k : MessageKind) (text : String) : Step Unit := print (k.line text)

/-- Complains on the error stream. -/
def complain (c : Complaint) : Step Unit := modify fun r => { r with complaint := some c }

/-- Takes over log entries. -/
def report (entries : List Log.Entry) : Step Unit :=
  modify fun r => { r with log := r.log ++ entries }

/-- Ends the run. -/
def exit {α : Type} (code : Nat) : Step α := throw (.exit code)

/-- Ends the run because the settings are wrong. -/
def refuse {α : Type} (text : String) : Step α := do
  tell .error text
  exit 2

/-- A result whose failure is not handled. -/
def orEscape {α : Type} : Except Failure α → Step α
  | .ok x => return x
  | .error f => throw (.escape f)

/-- A result for which wrong settings are refused. Other failures are not handled. -/
def orRefuse {α : Type} : Except Failure α → Step α
  | .ok x => return x
  | .error f =>
    match f with
    | .settings fault => refuse fault.message
    | .invalid .. => refuse s!"Invalid build configuration: {f.message}"
    | _ => throw (.escape f)

/-! ### The log -/

/-- Opens a log file, with the directories above it. A file that is there is kept. -/
def openLog (path : String) : Action Unit := do
  let files ← get
  let location := Files.resolve files.workingDirectory (.ofString path)
  let absolute : Path := ⟨.slash, location⟩
  Action.makeDirectories absolute.parent
  unless ← Action.ask fun t => t.isFile absolute do Action.write absolute ""

/-- The path that the text for a log file means, or why it means none. The text may have places in it
that are filled in, such as the time. -/
abbrev LogNames := String → Except String String

/-- Sets up the log. -/
def setUpLog (names : LogNames) (isVerbose : Bool) (settings : Settings.Logging) : Step Unit := do
  modify fun r => { r with consoleLevel := Settings.Logging.consoleThreshold isVerbose settings }
  match Settings.Logging.file? settings with
  | none => return
  | some (text, _) =>
    let path ← orEscape ((names text).mapError (.logName text))
    let (result, files) := (openLog path).exec (← get).files
    modify fun r => { r with files }
    orEscape result

/-! ### The build command -/

/-- The settings of the build, checked, and where the site goes. -/
def loadSettings (v : Settings.Variables) (a : Arguments) : Step (Settings.Build × Path) := do
  let files := (← get).files
  let (result, warnings) := Settings.Build.gather files a.config v a.values
  report warnings
  let settings ← orRefuse result
  orRefuse (settings.checkPaths files)
  match settings.output with
  | some output => return (settings, output)
  | none => refuse "Missing output directory: pass --out-dir or set JDOCSITE_OUTPUT."

/-- Prints what is going to be built. -/
def announce (isVerbose : Bool) (settings : Settings.Build) : Step Unit := do
  print (heading s!"{programName} {buildName}")
  if isVerbose then
    let sources := ", ".intercalate (settings.sources.map Path.toString)
    tell .debug s!"Sources: {sources}"
    settings.sample.toList.forM fun p => tell .debug s!"Samples: {p}"
    settings.sites.forM fun address => tell .debug s!"External documentation: {address}"

/-- The summary of a build. -/
def summary (graph : Graph.Symbols) (samples : Nat) (output : Path) : String :=
  box "Build summary"
    [("Types", toString graph.types.length),
      ("Packages", toString graph.packages.length),
      ("Samples", toString samples),
      ("Output", output.toString)]

/-- Builds the site. -/
def build (v : Settings.Variables) (a : Arguments) : Step Unit := do
  let (settings, output) ← loadSettings v a
  announce a.isVerbose settings
  let r ← get
  let session ← orEscape (Session.new settings r.files r.network)
  let (result, built) := session.build
  let session := built.close
  modify fun r => { r with files := session.files, network := session.externals.network }
  report session.log
  match result with
  | .ok graph =>
    let samples := (session.context.map fun c => c.samples.size).getD 0
    print (summary graph samples output)
    tell .success "Documentation site written."
  | .error f =>
    report [⟨.error, "Documentation build failed"⟩]
    complain (.failure f)
    tell .error f.message
    exit 1

/-! ### The program -/

/-- The steps of a run with the given words on its command line. -/
def steps (names : LogNames) (v : Settings.Variables) (words : List String) : Step Unit := do
  match Arguments.read words with
  | .error (.help text) =>
    print text
    exit 0
  | .error .version =>
    print versionText
    exit 0
  | .error (.fault command f) =>
    complain (.usage (Stop.complaint command f))
    exit 2
  | .ok none =>
    print programHelp
    exit 1
  | .ok (some a) =>
    let settings ← orEscape (a.logging.toExcept (.invalid Settings.Logging.groupName ·))
    setUpLog names a.isVerbose settings
    build v a

/-- Runs the program. Unless `names` says otherwise, the text for a log file is its path. -/
def ofWords (v : Settings.Variables) (words : List String) (files : Tree)
    (network : External.Network) (names : LogNames := .ok) : Ending × Run :=
  let (result, r) := (steps names v words).run.run ⟨files, network, "", none, [], .info⟩
  match result with
  | .ok () => (.exit 0, r)
  | .error ending => (ending, r)

end Run

end Apidoc.CommandLine
