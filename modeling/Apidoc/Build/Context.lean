import Apidoc.Build.Environment
import Apidoc.Graph.Symbols
import Apidoc.Log
import Apidoc.Sample.Cache
import Apidoc.Sample.Listing

/-!
# `Apidoc.Build.Context`: what the passes of a build collect

The main pass makes a record of each published type. The sample pass makes no record: each method that
refers to something gives its own source as a sample for it.
-/

set_option autoImplicit false

namespace Apidoc.Build

open Apidoc.Files (Path Tree)
open Apidoc.Graph (Member Record Symbols)
open Apidoc.Model (Index Located)
open Apidoc.Text (Bytes)

/-- What a build has collected. -/
structure Context where
  graph : Symbols
  samples : Sample.Cache
  /-- The packages that have pages. -/
  internals : List String
  index : Index
  log : List Log.Entry

namespace Context

/-- A context without anything but the packages found among the directories. -/
def initial (internals : List String) : Context := ⟨.empty, .empty, internals, .empty, []⟩

/-- Adds a record, or reports that its name is taken. -/
def addRecord (c : Context) (r : Record) : Context :=
  if c.graph.contains r.qualifiedName then
    { c with
      log := c.log ++ [.warning s!"Duplicate type record ignored: {r.qualifiedName}"] }
  else { c with graph := c.graph.add r }

end Context

/-- What a pass is for. -/
inductive Mode where
  | documenting
  | sampling
  deriving DecidableEq, Repr

/-- The state of a pass: what is collected, and the index once the pass has begun. -/
structure Collector where
  context : Context
  index : Option Index

namespace Collector

/-- A collector before its pass. -/
def initial (c : Context) : Collector := ⟨c, none⟩

/-- Takes the environment of a pass. Only the main pass leaves its index and packages to the
build. -/
def prepare (mode : Mode) (e : Environment) : Visit Collector Unit := do
  let s ← get
  let c := s.context
  let internals := (c.internals ++ e.packages.filter (· ≠ "")).eraseDups
  set (⟨if mode = .documenting then { c with index := e.index, internals } else c, some e.index⟩ :
    Collector)

/-- The samples that a method gives: one for each of its references. -/
def samplesOf (content : Bytes) (m : Member) : List (String × Sample.Excerpt) :=
  let code := Sample.Listing.tidy Sample.noiseAnnotations (m.declaration.sourceCode content)
  let origin : Sample.Origin := ⟨m.scope.source.path.toString, m.declarationLines.1⟩
  m.references.map fun r => (r.key, ⟨origin, String.ofList code⟩)

/-- Offers a sample to the cache. -/
def offer (entry : String × Sample.Excerpt) : Visit Collector Unit := do
  let s ← get
  match s.context.samples.put entry.1 entry.2 with
  | .ok samples => set { s with context := { s.context with samples } }
  | .error failure => throw failure

/-- Visits a type and its nested types. -/
def visit (files : Tree) (mode : Mode) (l : Located) : Visit Collector Unit := do
  match (← get).index with
  | none => throw (.build "visit" "initialize() must run before visit()")
  | some index =>
    match files.read l.source.path with
    | .error e => throw (.ofRead e)
    | .ok content =>
      let records := Record.ofLocated index content l
      match mode with
      | .documenting =>
        modify fun s => { s with context := records.foldl Context.addRecord s.context }
      | .sampling => (records.flatMap fun r => r.methods.flatMap (samplesOf content)).forM offer

/-- The visitor of a pass. Modules and packages have no records. -/
def visitor (files : Tree) (mode : Mode) : Visitor Collector where
  prepare := prepare mode
  process
    | .type l => visit files mode l
    | .module .. | .package _ => return
  complete := return

/-- Runs a pass on a context. -/
def runPass (files : Tree) (mode : Mode) (paths : List Path) (specified : Option (List Path))
    (c : Context) : Except Failure Environment × Context :=
  let (result, s) := (((visitor files mode).run files paths specified).run).run (initial c)
  (result, s.context)

end Collector

end Apidoc.Build
