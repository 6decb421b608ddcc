import Apidoc.Build.Session
import Apidoc.Proofs.Build.Pass
import Mathlib.Logic.Relation

/-!
# `Apidoc.Proofs.Build.Circumstances`: a build, whatever happens around it

A build may fail in more ways than its own steps can. Others change the files while it
runs, so that a file that was found is gone. The passes break off at some type. A step
fails for a reason that has nothing to do with what it does. `Circumstances` says what
happens of all this, and `buildAmid` is a build to which it happens. If nothing happens it
is the build itself (`buildAmid_undisturbed`).

Passes are made by a driver. A driver may do what it likes and fail when it likes, as long
as it gathers by the steps of a pass (`Gathers`), in any number and any order. The passes
of a build themselves are such (`gathered_runPass`), and so are those passes when they are
broken off at any point.
-/

set_option autoImplicit false

namespace Apidoc.Build

open Apidoc.Files (Path Tree)
open Apidoc.Graph (Record Symbols)
open Apidoc.Proofs (Preserves exec exec_bind_ok exec_get)

/-! ### What is gathered in a pass -/

namespace Collector

variable {mode : Mode} {c c' : Context}

/-- A step of a pass on what is collected. -/
inductive Gathers : Mode → Context → Context → Prop where
  /-- The main pass takes over an environment. -/
  | prepare (e : Environment) (c : Context) : Gathers .documenting c (prepared .documenting e c)
  /-- The main pass adds a record. -/
  | record (r : Record) (c : Context) : Gathers .documenting c (c.addRecord r)
  /-- The sample pass offers a sample that is taken. -/
  | sample {c : Context} {entry : String × Sample.Excerpt} {samples : Sample.Cache}
      (h : c.samples.put entry.1 entry.2 = .ok samples) :
      Gathers .sampling c { c with samples }

/-- Any number of steps of a pass. -/
def Gathered (mode : Mode) : Context → Context → Prop := Relation.ReflTransGen (Gathers mode)

/-- No step of a main pass touches the samples. -/
theorem samples_of_gathered (h : Gathered .documenting c c') : c'.samples = c.samples := by
  induction h with
  | refl => rfl
  | tail _ hstep ih =>
    cases hstep with
    | prepare => exact ih
    | record r c =>
      rw [← ih]
      unfold Context.addRecord
      split <;> rfl

/-- Taking over an environment is a step of the main pass, and nothing to the sample pass. -/
theorem preserves_gathered_prepare (start : Context) (e : Environment) :
    Preserves (fun s : Collector => Gathered mode start s.context) (prepare mode e) := by
  intro s hs
  cases mode with
  | documenting => exact hs.tail (.prepare e s.context)
  | sampling => exact hs

/-- Offering a sample is a step of the sample pass, unless it fails. -/
theorem preserves_gathered_offer (start : Context) (entry : String × Sample.Excerpt) :
    Preserves (fun s : Collector => Gathered .sampling start s.context) (offer entry) := by
  intro s hs
  unfold offer
  rw [exec_bind_ok (exec_get s)]
  cases hput : s.context.samples.put entry.1 entry.2 with
  | ok samples => exact hs.tail (.sample hput)
  | error failure => exact hs

/-- Visiting a type takes steps of the pass, whether or not it fails. -/
theorem preserves_gathered_visit (files : Tree) (start : Context) (l : Model.Located) :
    Preserves (fun s : Collector => Gathered mode start s.context) (visit files mode l) := by
  intro s hs
  unfold visit
  rw [exec_bind_ok (exec_get s)]
  cases s.index with
  | none => exact hs
  | some index =>
    dsimp only
    cases files.read l.source.path with
    | error e => exact hs
    | ok content =>
      cases mode with
      | sampling => exact Preserves.forM (fun entry _ => preserves_gathered_offer start entry) s hs
      | documenting =>
        show Gathered .documenting start
          ((Record.ofLocated index content l).foldl Context.addRecord s.context)
        generalize s.context = c at hs
        induction Record.ofLocated index content l generalizing c with
        | nil => exact hs
        | cons r rest ih => exact ih _ (hs.tail (.record r c))

/-- A pass gathers by its own steps, whether or not it fails. -/
theorem gathered_runPass (files : Tree) (mode : Mode) (paths : List Path)
    (specified : Option (List Path)) (c : Context) :
    Gathered mode c (runPass files mode paths specified c).2 := by
  have hrun : Preserves (fun s : Collector => Gathered mode c s.context)
      ((visitor files mode).run files paths specified) := by
    cases hread : Environment.read files paths specified with
    | error failure =>
      rw [Visitor.run_of_unread _ hread]
      exact fun _ => id
    | ok e =>
      rw [Visitor.run_of_read _ hread]
      refine (preserves_gathered_prepare c e).bind fun _ => Preserves.bind ?_ fun _ => fun _ => id
      refine Preserves.forM fun v _ => ?_
      cases v with
      | type l => exact preserves_gathered_visit files c l
      | module name source => exact fun _ => id
      | package source => exact fun _ => id
  rw [runPass_eq_exec]
  exact hrun (initial c) .refl

end Collector

/-! ### What happens around a build -/

/-- What makes the passes of a build. -/
structure Driver where
  run : Tree → Mode → List Path → Option (List Path) → Context →
    Except Failure Environment × Context
  /-- Whatever becomes of a pass, it gathers by the steps of a pass. -/
  gathered : ∀ files mode paths specified c,
    Collector.Gathered mode c (run files mode paths specified c).2

/-- What happens around a build. -/
structure Circumstances where
  /-- What others do to the files while the build enters a phase. -/
  others : Phase → Tree → Tree
  /-- Why the build fails in a phase after so many pieces of work, if it does. -/
  mishap : Phase → Nat → Session → Option Failure
  driver : Driver

namespace Circumstances

open Apidoc.Build.Session (Work current finalize lift render sealSamples setContext setExternals)

/-- Nothing happens, and the passes are those of the build. -/
def undisturbed : Circumstances where
  others := fun _ files => files
  mishap := fun _ _ _ => none
  driver := ⟨Collector.runPass, Collector.gathered_runPass⟩

variable (w : Circumstances)

/-- Enters a phase, while others do something to the files. -/
def enter (p : Phase) : Work Unit :=
  modify fun s => { s.enter p with files := w.others p s.files }

/-- Fails if there is a mishap after so many pieces of work in a phase. -/
def guard (p : Phase) (done : Nat) : Work Unit := do
  match w.mishap p done (← get) with
  | some failure => throw failure
  | none => pure ()

/-- Lets the driver make a pass on the context of the running build. -/
def pass (mode : Mode) (paths : List Path) (specified : Option (List Path)) : Work Unit := do
  let (result, c) := w.driver.run (← get).files mode paths specified (← current)
  setContext c
  discard (lift result)

/-- Collects the samples. They are closed afterwards, whatever the driver does. -/
def samplePass (sources : List Path) : Work Unit := do
  let s ← get
  match s.settings.sample with
  | none => throw (.build "sample_pass" "No sample directory is configured")
  | some root =>
    let samples ← lift (s.files.filesBelow root s.settings.sampleSuffix)
    tryFinally (w.pass .sampling (samples ++ sources).eraseDups (some samples)) sealSamples
    let size := (← current).samples.size
    modify fun s => s.report (.info s!"Collected {size} samples from {samples.length} files")

/-- The first part of a build, which enters no phase. It finds the source files. -/
def opening (s : Session) : Work (List Path) := do
  w.guard .idle 0
  let internals ← lift (s.settings.sources.mapM s.files.packagesBelow)
  setContext (.initial internals.flatten.eraseDups)
  w.guard .idle 1
  setExternals (s.externals.register s.settings.sites)
  w.guard .idle 2
  let sources ← lift s.sourceFiles
  w.guard .idle 3
  return sources

/-- The steps of a build up to where it writes. -/
def collecting (s : Session) : Work Unit := do
  let sources ← w.opening s
  if s.settings.sample.isSome then
    w.enter .samplePass
    w.guard .samplePass 0
    w.samplePass sources
    w.guard .samplePass 1
  w.enter .mainPass
  w.guard .mainPass 0
  w.pass .documenting sources none
  w.guard .mainPass 1
  w.enter .finalizing
  w.guard .finalizing 0
  finalize
  w.guard .finalizing 1

/-- The steps of a build from where it writes. -/
def writing (s : Session) : Work Symbols := do
  match s.settings.output with
  | some output => render output
  | none => pure ()
  w.guard .finalizing 2
  w.enter .rendered
  return (← current).graph

/-! ### An undisturbed build -/

@[simp] theorem enter_undisturbed (p : Phase) :
    undisturbed.enter p = (modify (·.enter p) : Work Unit) := rfl

@[simp] theorem guard_undisturbed (p : Phase) (done : Nat) : undisturbed.guard p done = pure () := rfl

@[simp] theorem pass_undisturbed (mode : Mode) (paths : List Path) (specified : Option (List Path)) :
    undisturbed.pass mode paths specified = Session.pass mode paths specified := rfl

@[simp] theorem samplePass_undisturbed (sources : List Path) :
    undisturbed.samplePass sources = Session.samplePass sources := rfl

/-- The opening of an undisturbed build. -/
theorem opening_undisturbed (s : Session) : undisturbed.opening s = (do
    let internals ← lift (s.settings.sources.mapM s.files.packagesBelow)
    setContext (.initial internals.flatten.eraseDups)
    setExternals (s.externals.register s.settings.sites)
    lift s.sourceFiles) := by
  simp [opening]

/-- An undisturbed build collects and then writes. -/
theorem exec_steps (s : Session) : exec Session.steps s
    = exec (do undisturbed.collecting s; undisturbed.writing s) s := by
  unfold Session.steps
  rw [exec_bind_ok (exec_get s)]
  cases hsample : s.settings.sample <;> cases houtput : s.settings.output <;>
    simp [collecting, writing, opening_undisturbed, hsample, houtput]

end Circumstances

namespace Session

/-- The session as a build begins with it: no phase is on record. -/
def restarted (s : Session) : Session := { s with history := [] }

/-- The steps of a build in the given circumstances. -/
def stepsAmid (w : Circumstances) (s : Session) : Work Symbols := do
  w.collecting s
  w.writing s

/-- Runs a build in the given circumstances. -/
def buildAmid (w : Circumstances) (s : Session) : Except Failure Symbols × Session :=
  let (result, s') := exec (stepsAmid w s.restarted) s.restarted
  (result.mapError (escaping s'.phase), s'.enter .idle)

/-- A build to which nothing happens is the build. -/
theorem buildAmid_undisturbed (s : Session) : buildAmid .undisturbed s = build s := by
  unfold buildAmid stepsAmid
  rw [← Circumstances.exec_steps]
  rfl

end Session

end Apidoc.Build
