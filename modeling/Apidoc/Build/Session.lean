import Apidoc.Build.Context
import Apidoc.Decimal.Text
import Apidoc.External.Index
import Apidoc.Files.Search
import Apidoc.Sample.Library
import Apidoc.Settings.Build
import Apidoc.Site.Writer

/-!
# `Apidoc.Build.Session`: building a site

A build goes through its phases in order: the sample pass if there are samples, the main pass, and the
end, in which the graph is connected and the site written. It stops at the first failure, and in either
case it is idle again afterwards. Builds of one session share the sites that were asked.
-/

set_option autoImplicit false

namespace Apidoc.Build

open Apidoc.Files (Action Path Tree)
open Apidoc.Graph (Symbols)
open Apidoc.Site (Editor Press)

/-- The phases of a build. -/
inductive Phase where
  | idle
  | samplePass
  | mainPass
  | finalizing
  | rendered
  deriving DecidableEq, Repr

namespace Phase

/-- The name of a phase in failures. -/
def name : Phase → String
  | idle => "idle"
  | samplePass => "sample_pass"
  | mainPass => "main_pass"
  | finalizing => "finalizing"
  | rendered => "rendered"

/-- The name of a phase in reports. -/
def title (p : Phase) : String := p.name.map Char.toUpper

end Phase

/-- What builds with the same settings share. -/
structure Session where
  settings : Settings.Build
  editor : Option Editor
  files : Tree
  externals : External.Index
  /-- What the last build collected. -/
  context : Option Context
  /-- The phases of the last build. -/
  history : List Phase
  log : List Log.Entry

namespace Session

/-- A session before its first build. -/
def new (settings : Settings.Build) (files : Tree) (network : External.Network) :
    Except Failure Session := do
  let editor ← Editor.forRepository settings.repository none files.workingDirectory
  let policy : External.Policy :=
    ⟨settings.fetchRetryAttempts, Decimal.floatString settings.fetchRetryDelay⟩
  return ⟨settings, editor, files, .initial policy network, none, [], []⟩

/-- The phase that the session is in. -/
def phase (s : Session) : Phase := s.history.getLastD .idle

/-- Adds an entry to the log. -/
def report (s : Session) (e : Log.Entry) : Session := { s with log := s.log ++ [e] }

/-- Enters a phase. -/
def enter (s : Session) (p : Phase) : Session :=
  { s with history := s.history ++ [p] }.report (.info s!"Build phase: {p.title}")

/-- The graph of the last build. -/
def graph (s : Session) : Symbols := (s.context.map (·.graph)).getD .empty

/-- What comments are rendered against, with the files as they are in `files`. -/
def rendererOn (s : Session) (c : Context) (files : Tree) : Comment.Renderer :=
  let library : Sample.Library :=
    ⟨s.settings.sample.toList ++ s.settings.sources, Sample.noiseAnnotations⟩
  { resolver := ⟨c.index, c.internals, s.externals.lookup, none⟩
    samples := some (library.find files)
    root := "../" }

/-- What comments are rendered against after the last build. -/
def renderer (s : Session) : Comment.Renderer :=
  s.rendererOn (s.context.getD (.initial [])) s.files

/-- An operation of a session. -/
abbrev Work (α : Type) := ExceptT Failure (StateM Session) α

/-- A result that may be a failure. -/
def lift {α : Type} (r : Except Failure α) : Work α :=
  match r with
  | .ok x => return x
  | .error failure => throw failure

/-- Takes over the log of the sites that were asked. -/
def setExternals (i : External.Index) : Work Unit :=
  modify fun s => { s with externals := { i with log := [] }, log := s.log ++ i.log }

/-- Takes over a context and its log. -/
def setContext (c : Context) : Work Unit :=
  modify fun s => { s with context := some { c with log := [] }, log := s.log ++ c.log }

/-- The context of the running build. -/
def current : Work Context := return (← get).context.getD (.initial [])

/-- Runs an operation on the files. What it changed before a failure stays changed. -/
def onFiles {α : Type} (a : Action α) : Work α := do
  let s ← get
  let (result, files) := a.exec s.files
  set { s with files }
  lift result

/-- Runs a pass on the context of the running build. -/
def pass (mode : Mode) (paths : List Path) (specified : Option (List Path)) : Work Unit := do
  let (result, c) := Collector.runPass (← get).files mode paths specified (← current)
  setContext c
  discard (lift result)

/-- Closes the samples of the running build. -/
def sealSamples : Work Unit := do
  let c ← current
  setContext { c with samples := c.samples.close }

/-- Collects the samples. The sources take part in finding names, but are not visited. The samples are
closed afterwards, whether or not the pass fails. -/
def samplePass (sources : List Path) : Work Unit := do
  let s ← get
  match s.settings.sample with
  | none => throw (.build "sample_pass" "No sample directory is configured")
  | some root =>
    let samples ← lift (s.files.filesBelow root s.settings.sampleSuffix)
    tryFinally (pass .sampling (samples ++ sources).eraseDups (some samples)) sealSamples
    let size := (← current).samples.size
    modify fun s =>
      s.report (.info s!"Collected {size} samples from {samples.length} files")

/-- Waits for the other sites, then sorts and connects the graph. -/
def finalize : Work Unit := do
  let s ← get
  let timeout := (s.settings.fetchTimeout.map Decimal.floatString).getD "None"
  let (externals, settled) := s.externals.wait timeout
  setExternals externals
  if !settled then
    modify fun s =>
      s.report (.warning "Continuing without the unfinished external documentation")
  let c ← current
  setContext { c with graph := c.graph.sort.connect }

/-- What pages are made with. -/
def press (s : Session) (c : Context) (files : Tree) : Press where
  site := ⟨s.settings.product, s.settings.project, s.settings.version⟩
  renderer := s.rendererOn c files
  samples := some c.samples
  editor := s.editor

/-- Writes the site. -/
def render (output : Path) : Work Unit := do
  let s ← get
  let c ← current
  let site : Site.Info := ⟨s.settings.product, s.settings.project, s.settings.version⟩
  let written ← onFiles (Site.writeSite output c.graph site (s.press c))
  modify fun s => s.report (.info s!"Wrote {written.length} type pages to {output}")

/-- The source files, root by root. -/
def sourceFiles (s : Session) : Except Failure (List Path) := do
  return (← s.settings.sources.mapM fun root =>
    s.files.filesBelow root Sample.Library.sourceExtension).flatten

/-- The steps of a build. -/
def steps : Work Symbols := do
  let s ← get
  let internals ← lift (s.settings.sources.mapM s.files.packagesBelow)
  setContext (.initial internals.flatten.eraseDups)
  setExternals (s.externals.register s.settings.sites)
  let sources ← lift s.sourceFiles
  if s.settings.sample.isSome then
    modify fun s => s.enter .samplePass
    samplePass sources
  modify fun s => s.enter .mainPass
  pass .documenting sources none
  modify fun s => s.enter .finalizing
  finalize
  match s.settings.output with
  | some output => render output
  | none => pure ()
  modify fun s => s.enter .rendered
  return (← current).graph

/-- A failure as a build passes it on: one of its own kind unchanged, any other one as a failure of the
phase. -/
def escaping (p : Phase) (f : Failure) : Failure :=
  if f.isOwn then f else .build p.name f.message

/-- Runs a build. -/
def build (s : Session) : Except Failure Symbols × Session :=
  let (result, s') := steps.run.run { s with history := [] }
  (result.mapError (escaping s'.phase), s'.enter .idle)

/-- Gives up the sites that have not answered. -/
def close (s : Session) : Session := { s with externals := s.externals.close }

end Session

end Apidoc.Build
