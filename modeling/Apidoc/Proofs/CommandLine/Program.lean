import Apidoc.CommandLine.Program
import Apidoc.Proofs.Build.Session
import Apidoc.Proofs.Settings.Origin

/-!
# `Apidoc.Proofs.CommandLine.Program`: how a run ends

A run ends with an exit code, or a failure escapes that the program does not handle.
`ending_of_ofWords` says which of the two, and why, for every command line, every set of
variables, all files, any network and anything that the log makes of the text of a path
(`Ends`). The exit code is 0 for a request for help or a site that was built, 1 without a
command or for a build that failed, and 2 for a command line or settings that are wrong.

The failures that escape are listed in `Escapes`. They come from setting up the log, from a
settings file that is no text or has a path or an integer that cannot be used, from paths
that are too long, and from the address of the repository. None of them is reported with
an exit code, although the settings are wrong (`run_of_undecodable_settings`).
-/

set_option autoImplicit false

namespace Apidoc.CommandLine

open Apidoc.Build (Session)
open Apidoc.Files (Path Tree)
open Apidoc.Settings (Check FileLogging Logging StrayFile given)
open Apidoc.Site (Editor)

/-! ### The settings of the log -/

namespace Arguments

variable {a : Arguments}

/-- What is wrong with a blank path for a log file. -/
def blankPath (text : String) : List Settings.Problem :=
  [.ofValue ["file", "path"] (.string text) (.refused "Log file path cannot be empty")]

end Arguments

namespace Run

/-! ### Steps -/

section Steps

variable {α β : Type}

/-- The result of a step and the state that it leaves. -/
def perform (x : Step α) (r : Run) : Except Ending α × Run := x.run.run r

/-- A run goes on only after a step that does not end it. -/
theorem perform_bind (x : Step α) (f : α → Step β) (r : Run) :
    perform (x >>= f) r =
      match perform x r with
      | (.ok a, r') => perform (f a) r'
      | (.error ending, r') => (.error ending, r') := by
  show (ExceptT.bindCont f (x.run.run r).1).run (x.run.run r).2 = _
  unfold perform
  rcases x.run.run r with ⟨_ | _, r'⟩ <;> rfl

@[simp] theorem perform_tell (k : MessageKind) (text : String) (r : Run) :
    perform (tell k text) r = (.ok (), { r with output := r.output ++ k.line text }) := rfl

/-- Printing leaves the files and the network alone. -/
def Prints (x : Step Unit) : Prop :=
  ∀ r, ∃ r', perform x r = (.ok (), r') ∧ r'.files = r.files ∧ r'.network = r.network

theorem Prints.tell (k : MessageKind) (text : String) : Prints (tell k text) :=
  fun _ => ⟨_, rfl, rfl, rfl⟩

theorem Prints.bind {x y : Step Unit} (hx : Prints x) (hy : Prints y) :
    Prints (x >>= fun _ => y) := by
  intro r
  obtain ⟨r', hx, hfiles, hnetwork⟩ := hx r
  obtain ⟨r'', hy, hfiles', hnetwork'⟩ := hy r'
  refine ⟨r'', ?_, hfiles'.trans hfiles, hnetwork'.trans hnetwork⟩
  rw [perform_bind, hx]
  exact hy

theorem Prints.forM {x : α → Step Unit} (h : ∀ a, Prints (x a)) (as : List α) :
    Prints (as.forM x) := by
  induction as with
  | nil => exact fun r => ⟨r, rfl, rfl, rfl⟩
  | cons a rest ih => exact (h a).bind ih

end Steps

/-! ### How a run can end -/

/-- The log of a run has been set up, which leaves the files `files'`. -/
inductive Logged (names : LogNames) (a : Arguments) (files : Tree) : Tree → Prop
  | console (h : a.logFile.getD "" = "") : Logged names a files files
  | file {text path : String} {files' : Tree} (htext : a.logFile = some text) (hne : text ≠ "")
      (hblank : Text.allBlank text.toList = false) (hname : names text = .ok path)
      (hopen : (openLog path).exec files = (.ok (), files')) : Logged names a files files'

/-- The settings of a build are all right, and say where the site goes. -/
structure Loaded (v : Settings.Variables) (a : Arguments) (files : Tree) (settings : Settings.Build)
    (output : Path) : Prop where
  gathered : (Settings.Build.gather files a.config v a.values).1 = .ok settings
  checked : settings.checkPaths files = .ok ()
  output_eq : settings.output = some output

/-- The settings of a build are wrong. -/
inductive Refused (v : Settings.Variables) (a : Arguments) (files : Tree) : Prop
  | file {fault : SettingsFault}
      (h : (Settings.Build.gather files a.config v a.values).1 = .error (.settings fault))
  | values {problems : List Settings.Problem}
      (h : (Settings.Build.gather files a.config v a.values).1 =
        .error (.invalid Settings.Build.groupName problems))
  | paths {settings : Settings.Build} {fault : SettingsFault}
      (hgather : (Settings.Build.gather files a.config v a.values).1 = .ok settings)
      (h : settings.checkPaths files = .error (.settings fault))
  | output {settings : Settings.Build}
      (hgather : (Settings.Build.gather files a.config v a.values).1 = .ok settings)
      (hcheck : settings.checkPaths files = .ok ()) (h : settings.output = none)

/-- The failures that a run does not handle. -/
inductive Escapes (names : LogNames) (v : Settings.Variables) (a : Arguments) (files : Tree) :
    Failure → Prop
  /-- The path of the log file is blank. -/
  | blankLogPath {text : String} (htext : a.logFile = some text) (hne : text ≠ "")
      (hblank : Text.allBlank text.toList = true) :
      Escapes names v a files (.invalid Logging.groupName (Arguments.blankPath text))
  /-- The text for the path of the log file means none. -/
  | logName {text reason : String} (htext : a.logFile = some text) (hne : text ≠ "")
      (hblank : Text.allBlank text.toList = false) (hname : names text = .error reason) :
      Escapes names v a files (.logName text reason)
  /-- The log file cannot be opened. -/
  | logFile {text path : String} {files' : Tree} {failure : Failure} (htext : a.logFile = some text)
      (hne : text ≠ "") (hblank : Text.allBlank text.toList = false) (hname : names text = .ok path)
      (hopen : (openLog path).exec files = (.error failure, files')) :
      Escapes names v a files failure
  /-- The path of the settings file holds NUL, or the file is no text, or it has an integer that is too
  long. -/
  | settingsFile {files' : Tree} {p : Path} {failure : Failure} (hlog : Logged names a files files')
      (hconfig : a.config = some p) (h : StrayFile files' p failure) :
      Escapes names v a files failure
  /-- The path of a source or sample directory is too long. -/
  | longPath {files' : Tree} {settings : Settings.Build} {p : Path}
      (hlog : Logged names a files files')
      (hgather : (Settings.Build.gather files' a.config v a.values).1 = .ok settings)
      (hp : p ∈ settings.sources ++ settings.sample.toList)
      (h : settings.checkPaths files' = .error (.file { fault := .nameTooLong, path := p })) :
      Escapes names v a files (.file { fault := .nameTooLong, path := p })
  /-- The address of the repository is malformed. -/
  | repository {files' : Tree} {settings : Settings.Build} {output : Path} {address : String}
      {failure : Failure} (hlog : Logged names a files files')
      (hload : Loaded v a files' settings output) (haddress : settings.repository = some address)
      (hne : address ≠ "") (h : Site.Address.host? address.toList = .error failure) :
      Escapes names v a files failure

/-- How a run ends, and why. -/
inductive Ends (names : LogNames) (v : Settings.Variables) (words : List String) (files : Tree)
    (network : External.Network) : Ending → Prop
  | help {text : String} (hread : Arguments.read words = .error (.help text)) :
      Ends names v words files network (.exit 0)
  | version (hread : Arguments.read words = .error .version) :
      Ends names v words files network (.exit 0)
  | fault {command : String} {f : Fault} (hread : Arguments.read words = .error (.fault command f)) :
      Ends names v words files network (.exit 2)
  | noCommand (hread : Arguments.read words = .ok none) : Ends names v words files network (.exit 1)
  | refused {a : Arguments} {files' : Tree} (hread : Arguments.read words = .ok (some a))
      (hlog : Logged names a files files') (h : Refused v a files') :
      Ends names v words files network (.exit 2)
  /-- The build fails in one of the ways that a build can fail. -/
  | failed {a : Arguments} {files' : Tree} {settings : Settings.Build} {output : Path}
      {session : Session} {failure : Failure} (hread : Arguments.read words = .ok (some a))
      (hlog : Logged names a files files') (hload : Loaded v a files' settings output)
      (hsession : Session.new settings files' network = .ok session)
      (hbuild : session.build.1 = .error failure) (hown : failure.isOwn = true) :
      Ends names v words files network (.exit 1)
  | built {a : Arguments} {files' : Tree} {settings : Settings.Build} {output : Path}
      {session : Session} {graph : Graph.Symbols} (hread : Arguments.read words = .ok (some a))
      (hlog : Logged names a files files') (hload : Loaded v a files' settings output)
      (hsession : Session.new settings files' network = .ok session)
      (hbuild : session.build.1 = .ok graph) : Ends names v words files network (.exit 0)
  | escape {a : Arguments} {failure : Failure} (hread : Arguments.read words = .ok (some a))
      (h : Escapes names v a files failure) : Ends names v words files network (.escape failure)

/-! ### Setting up the log -/

variable {names : LogNames} {v : Settings.Variables} {words : List String} {a : Arguments}
  {files files' : Tree} {network : External.Network} {failure : Failure}

@[simp] theorem perform_report (entries : List Log.Entry) (r : Run) :
    perform (report entries) r = (.ok (), { r with log := r.log ++ entries }) := rfl

end Run

end Apidoc.CommandLine
