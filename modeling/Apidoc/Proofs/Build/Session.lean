import Apidoc.Proofs.Build.Circumstances
import Mathlib.Data.List.Infix

/-!
# `Apidoc.Proofs.Build.Session`: the phases of a build, and its samples

A build is an opening, a stage for the samples if there are any, and three stages for the
documentation (`stepsAmid_eq`). A stage enters its phase and then does its work, and no
work changes the phases that are on record. So a run of stages enters their phases in
order, up to the stage of which the work fails (`history_of_stages`).

From the main pass on, each step keeps the samples, and the stage for the samples has
closed them. `phases_of_buildAmid` puts the two together. It is about a build in any
circumstances: each piece of work may fail for any reason, and passes may break off
anywhere.
-/

set_option autoImplicit false

namespace Apidoc.Build.Session

open Apidoc.Files (Action Path Tree)
open Apidoc.Graph (Symbols)
open Apidoc.Proofs (Keeps exec exec_bind exec_bind_ok exec_bind_inv exec_get exec_tryFinally
  eq_of_mem_trail getLast?_trail keeps_forM trail)

variable {α γ : Type} {w : Circumstances}

/-- What the running build has collected. -/
def held (s : Session) : Context := s.context.getD (.initial [])

/-- The samples of the running build. -/
def samples (s : Session) : Sample.Cache := s.held.samples

/-- The graph of the last build is the one that is held. -/
theorem graph_eq_held (s : Session) : s.graph = s.held.graph := by
  unfold graph held
  cases s.context <;> rfl

/-! ### What work leaves alone -/

/-- What most work leaves alone: the phases on record, and the samples. -/
def ledger (s : Session) : List Phase × Sample.Cache := (s.history, s.samples)

/-- A result that may be a failure leaves the session as it is. -/
theorem exec_lift (r : Except Failure α) (s : Session) : exec (lift r) s = (r, s) := by
  cases r <;> rfl

/-- A result that may be a failure leaves everything alone. -/
theorem keeps_lift (f : Session → γ) (r : Except Failure α) : Keeps f (lift r) := by
  intro s
  rw [exec_lift]

/-- Work on the files leaves alone what does not depend on the files. -/
theorem keeps_onFiles {f : Session → γ} (h : ∀ s files, f { s with files := files } = f s)
    (a : Action α) : Keeps f (onFiles a) := by
  intro s
  have hrun : exec (onFiles a) s
      = exec (lift (a.exec s.files).1) { s with files := (a.exec s.files).2 } := rfl
  rw [hrun, exec_lift]
  exact h s _

/-- What is left after a context was taken over. -/
def takeOver (s : Session) (c : Context) : Session :=
  { s with context := some { c with log := [] }, log := s.log ++ c.log }

@[simp] theorem ledger_takeOver (s : Session) (c : Context) :
    (s.takeOver c).ledger = (s.history, c.samples) := rfl

/-- A pass runs on what is held, and what it leaves is taken over even if it fails. -/
theorem exec_pass (w : Circumstances) (mode : Mode) (paths : List Path)
    (specified : Option (List Path)) (s : Session) :
    (exec (w.pass mode paths specified) s).2
      = s.takeOver (w.driver.run s.files mode paths specified s.held).2 := by
  have hrun : exec (w.pass mode paths specified) s
      = exec (discard (lift (w.driver.run s.files mode paths specified s.held).1))
          (s.takeOver (w.driver.run s.files mode paths specified s.held).2) := rfl
  rw [hrun]
  cases (w.driver.run s.files mode paths specified s.held).1 <;> rfl

/-- A mishap is a failure and nothing else. -/
theorem keeps_guard (f : Session → γ) (p : Phase) (done : Nat) : Keeps f (w.guard p done) := by
  intro s
  unfold Circumstances.guard
  rw [exec_bind_ok (exec_get s)]
  cases w.mishap p done s <;> rfl

/-- The main pass leaves the phases and the samples alone, whatever the driver does. -/
theorem keeps_ledger_main (w : Circumstances) (paths : List Path) :
    Keeps ledger (w.pass .documenting paths none) := by
  intro s
  rw [exec_pass, ledger_takeOver, Collector.samples_of_gathered (w.driver.gathered ..)]
  rfl

/-- Changing what is held, but for its samples, leaves the phases and the samples alone. -/
theorem keeps_ledger_change {g : Context → Context} (h : ∀ c, (g c).samples = c.samples) :
    Keeps ledger (do setContext (g (← current))) := by
  intro s
  show (s.takeOver (g s.held)).ledger = s.ledger
  rw [ledger_takeOver, h]
  rfl

/-- Finishing the graph leaves the phases and the samples alone. -/
theorem keeps_ledger_finalize : Keeps ledger finalize := by
  unfold finalize
  refine Keeps.bind (fun _ => rfl) fun s => ?_
  dsimp only
  refine Keeps.bind (fun _ => rfl) fun _ => ?_
  have hchange := keeps_ledger_change (g := fun c => { c with graph := c.graph.sort.connect }) fun _ => rfl
  split
  · exact Keeps.bind (fun _ => rfl) fun _ => hchange
  · exact hchange

/-- Writing the site leaves the phases and the samples alone. -/
theorem keeps_ledger_render (output : Path) : Keeps ledger (render output) := by
  unfold render
  refine Keeps.bind (fun _ => rfl) fun s => Keeps.bind (fun _ => rfl) fun c => ?_
  exact Keeps.bind (keeps_onFiles (fun _ _ => rfl) _) fun written => fun _ => rfl

/-- Closing the samples does not fail. -/
theorem exec_sealSamples (s : Session) :
    exec sealSamples s = (.ok (), s.takeOver { s.held with samples := s.samples.close }) := rfl

/-- The sample pass leaves the phases on record alone, whether or not it fails. -/
theorem keeps_history_samplePass (w : Circumstances) (sources : List Path) :
    Keeps history (w.samplePass sources) := by
  unfold Circumstances.samplePass
  refine Keeps.bind (fun _ => rfl) fun s => ?_
  split
  · exact fun _ => rfl
  · rename_i root hroot
    refine Keeps.bind (keeps_lift _ _) fun samples => Keeps.bind (fun t => ?_) fun _ =>
      Keeps.bind (fun _ => rfl) fun _ => fun _ => rfl
    rw [exec_tryFinally (exec_sealSamples _), exec_pass]
    rfl

/-- After a sample pass that succeeds the samples are closed. -/
theorem isSealed_of_samplePass {sources : List Path} {s s' : Session}
    (h : exec (w.samplePass sources) s = (.ok (), s')) : s'.samples.isSealed = true := by
  unfold Circumstances.samplePass at h
  rw [exec_bind_ok (exec_get s)] at h
  split at h
  · cases h
  · rename_i root hroot
    obtain ⟨samples, s₁, -, h⟩ := exec_bind_inv h
    obtain ⟨u, s₂, hpass, h⟩ := exec_bind_inv h
    rw [exec_tryFinally (exec_sealSamples _)] at hpass
    obtain ⟨-, rfl⟩ := Prod.mk.inj hpass
    cases h
    rfl

/-! ### Stages -/

/-- A phase, and the work that is done in it. -/
abbrev Stage := Phase × List (Work Unit)

/-- The steps of stages in turn: each enters its phase and then does its work. -/
def stepsOf (w : Circumstances) (stages : List Stage) : List (Work Unit) :=
  stages.flatMap fun stage => w.enter stage.1 :: stage.2

/-- A run of stages enters their phases in order. It fails if the work of some stage does, and then the
phase of this stage is the last that it enters. -/
theorem history_of_stages {stages : List Stage}
    (h : ∀ stage ∈ stages, ∀ x ∈ stage.2, Keeps history x) (s : Session) :
    (∃ s', exec ((stepsOf w stages).forM id) s = (.ok (), s') ∧
      s'.history = s.history ++ stages.map Prod.fst) ∨
    ∃ before stage after failure s', stages = before ++ stage :: after ∧ stage.2 ≠ [] ∧
      exec ((stepsOf w stages).forM id) s = (.error failure, s') ∧
      s'.history = s.history ++ (before.map Prod.fst ++ [stage.1]) := by
  induction stages generalizing s with
  | nil => exact .inl ⟨s, rfl, (List.append_nil _).symm⟩
  | cons stage rest ih =>
    have hsteps : (stepsOf w (stage :: rest)).forM id
        = (do w.enter stage.1; stage.2.forM id; (stepsOf w rest).forM id : Work Unit) := by
      simp [stepsOf]
    obtain ⟨t, henter, ht⟩ : ∃ t, exec (w.enter stage.1) s = (.ok (), t) ∧
        t.history = s.history ++ [stage.1] := ⟨_, rfl, rfl⟩
    have hhistory := keeps_forM (h stage List.mem_cons_self) t
    rw [hsteps, exec_bind_ok henter, exec_bind]
    rcases hwork : exec (stage.2.forM id) t with ⟨failure | _, s₁⟩
    -- The work of the first stage fails, so there is some.
    · right
      refine ⟨[], stage, rest, failure, s₁, rfl, ?_, rfl, ?_⟩
      · intro hnone
        rw [hnone] at hwork
        cases hwork
      · rw [hwork] at hhistory
        exact hhistory.trans ht
    · rw [hwork] at hhistory
      replace hhistory := hhistory.trans ht
      have hrest : ∀ stage ∈ rest, ∀ x ∈ stage.2, Keeps history x := fun stage' hstage' =>
        h stage' (List.mem_cons_of_mem _ hstage')
      rcases ih hrest s₁ with ⟨s', hrun, hs'⟩ | ⟨before, failing, after, failure, s', hsplit, hsome,
        hrun, hs'⟩
      · left
        refine ⟨s', hrun, ?_⟩
        rw [hs', hhistory]
        exact List.append_assoc ..
      · right
        refine ⟨stage :: before, failing, after, failure, s', ?_, hsome, hrun, ?_⟩
        · rw [hsplit, List.cons_append]
        · rw [hs', hhistory]
          exact List.append_assoc ..

/-- The opening of a build leaves alone what depends neither on what is held nor on other sites. -/
theorem keeps_opening {f : Session → γ} (hcontext : ∀ c, Keeps f (setContext c))
    (hexternals : ∀ i, Keeps f (setExternals i)) (w : Circumstances) (s : Session) :
    Keeps f (w.opening s) :=
  Keeps.bind (keeps_guard _ _ _) fun _ => Keeps.bind (keeps_lift _ _) fun _ =>
    Keeps.bind (hcontext _) fun _ => Keeps.bind (keeps_guard _ _ _) fun _ =>
    Keeps.bind (hexternals _) fun _ => Keeps.bind (keeps_guard _ _ _) fun _ =>
    Keeps.bind (keeps_lift _ _) fun _ => Keeps.bind (keeps_guard _ _ _) fun _ => fun _ => rfl

/-- The opening of a build enters no phase, whether or not it fails. -/
theorem keeps_history_opening (w : Circumstances) (s : Session) : Keeps history (w.opening s) :=
  keeps_opening (fun _ _ => rfl) (fun _ _ => rfl) w s

/-! ### A build as a run of stages -/

/-- The stage that collects the samples, if there are any. -/
def sampling (w : Circumstances) (settings : Settings.Build) (sources : List Path) : List Stage :=
  if settings.sample.isSome then
    [(.samplePass, [w.guard .samplePass 0, w.samplePass sources, w.guard .samplePass 1])]
  else []

/-- The stages from the main pass on. -/
def documenting (w : Circumstances) (settings : Settings.Build) (sources : List Path) :
    List Stage :=
  [(.mainPass, [w.guard .mainPass 0, w.pass .documenting sources none, w.guard .mainPass 1]),
    (.finalizing, [w.guard .finalizing 0, finalize, w.guard .finalizing 1,
      match settings.output with
      | some output => render output
      | none => pure (),
      w.guard .finalizing 2]),
    (.rendered, [])]

/-- A build up to its main pass. -/
def beforeMain (w : Circumstances) (s : Session) : Work (List Path) := do
  let sources ← w.opening s
  (stepsOf w (sampling w s.settings sources)).forM id
  return sources

/-- The steps of a build from its main pass on. -/
def fromMain (w : Circumstances) (settings : Settings.Build) (sources : List Path) :
    List (Work Unit) :=
  stepsOf w (documenting w settings sources)

/-- Giving the graph changes nothing. -/
theorem exec_graph (s : Session) :
    exec (do return (← current).graph) s = (.ok s.held.graph, s) := rfl

/-- A build goes up to its main pass, then takes the steps from there on, and gives the graph. -/
theorem stepsAmid_eq (w : Circumstances) (s : Session) : stepsAmid w s = (do
    let sources ← beforeMain w s
    (fromMain w s.settings sources).forM id
    return (← current).graph) := by
  cases hsample : s.settings.sample <;> cases houtput : s.settings.output <;>
    simp [stepsAmid, Circumstances.collecting, Circumstances.writing, beforeMain, fromMain, sampling,
      documenting, stepsOf, hsample, houtput]

/-- The phases before the main pass. -/
def samplingPhases (settings : Settings.Build) : List Phase :=
  if settings.sample.isSome then [.samplePass] else []

/-- The phases of a build to which nothing happens. -/
def plan (settings : Settings.Build) : List Phase :=
  samplingPhases settings ++ [.mainPass, .finalizing, .rendered]

/-- If a build with samples gets to its main pass, the samples are closed. -/
theorem isSealed_of_beforeMain {s s₁ : Session} {sources : List Path}
    (hsample : s.settings.sample.isSome = true)
    (h : exec (beforeMain w s) s = (.ok sources, s₁)) : s₁.samples.isSealed = true := by
  obtain ⟨found, t, -, h⟩ := exec_bind_inv h
  have hsteps : (stepsOf w (sampling w s.settings found)).forM id
      = (do
        w.enter .samplePass
        w.guard .samplePass 0
        w.samplePass found
        w.guard .samplePass 1 : Work Unit) := by
    simp [sampling, stepsOf, hsample]
  rw [hsteps] at h
  obtain ⟨u, t₁, hstage, h⟩ := exec_bind_inv h
  cases h
  obtain ⟨u₁, t₂, -, hstage⟩ := exec_bind_inv hstage
  obtain ⟨u₂, t₃, -, hstage⟩ := exec_bind_inv hstage
  obtain ⟨u₃, t₄, hpass, hguard⟩ := exec_bind_inv hstage
  -- What comes after the pass can only fail.
  have hsame : (exec (w.guard .samplePass 1) t₄).2 = t₄ := keeps_guard id _ _ t₄
  rw [hguard] at hsame
  obtain rfl : s₁ = t₄ := hsame
  exact isSealed_of_samplePass hpass

/-- The stages of collecting samples are entered under their phases. -/
theorem fst_sampling (w : Circumstances) (settings : Settings.Build) (sources : List Path) :
    (sampling w settings sources).map Prod.fst = samplingPhases settings := by
  unfold sampling samplingPhases
  split <;> rfl

/-- No phase is entered while samples are collected. -/
theorem keeps_history_sampling (w : Circumstances) (settings : Settings.Build)
    (sources : List Path) : ∀ stage ∈ sampling w settings sources, ∀ x ∈ stage.2, Keeps history x := by
  intro stage hstage x hx
  unfold sampling at hstage
  split at hstage
  · rw [List.mem_singleton.mp hstage] at hx
    simp only [List.mem_cons, List.not_mem_nil, or_false] at hx
    rcases hx with rfl | rfl | rfl
    · exact keeps_guard _ _ _
    · exact keeps_history_samplePass w sources
    · exact keeps_guard _ _ _
  · cases hstage

/-- Up to the main pass, a build enters the phases before it, or some of them if it fails. -/
theorem exec_beforeMain (w : Circumstances) (s : Session) :
    (∃ sources s₁, exec (beforeMain w s) s = (.ok sources, s₁) ∧
      s₁.history = s.history ++ samplingPhases s.settings) ∨
    ∃ failure s₁ done, exec (beforeMain w s) s = (.error failure, s₁) ∧
      s₁.history = s.history ++ done ∧ done <+: samplingPhases s.settings := by
  have hfirst := keeps_history_opening w s s
  unfold beforeMain
  rw [exec_bind]
  rcases hrun : exec (w.opening s) s with ⟨failure | sources, s₁⟩
  · rw [hrun] at hfirst
    exact .inr ⟨failure, s₁, [], rfl, hfirst.trans (List.append_nil _).symm, List.nil_prefix⟩
  rw [hrun] at hfirst
  change s₁.history = s.history at hfirst
  -- No phase is entered before the sources are found, so the phases are those of the stages.
  have hphases := fst_sampling w s.settings sources
  have hkeeps := keeps_history_sampling w s.settings sources
  rcases history_of_stages hkeeps s₁ with ⟨s', hrun, hs'⟩ | ⟨before, stage, after, failure, s', hsplit,
    -, hrun, hs'⟩
  · left
    refine ⟨sources, s', ?_, ?_⟩
    · dsimp only
      rw [exec_bind_ok hrun]
      rfl
    · rw [hs', hphases, hfirst]
  · right
    refine ⟨failure, s', before.map Prod.fst ++ [stage.1], ?_, ?_, ?_⟩
    · dsimp only
      rw [exec_bind, hrun]
    · rw [hs', hfirst]
    · refine ⟨after.map Prod.fst, ?_⟩
      rw [← hphases, hsplit, List.map_append, List.map_cons, List.append_assoc]
      rfl

/-- All steps from the main pass on leave the phases alone, but for entering one, and the samples. -/
theorem keeps_ledger_of_mem_documenting {settings : Settings.Build} {sources : List Path} {stage : Stage}
    (hstage : stage ∈ documenting w settings sources) : ∀ x ∈ stage.2, Keeps ledger x := by
  have houtput : Keeps ledger (match settings.output with
      | some output => render output
      | none => pure ()) := by
    split
    · exact keeps_ledger_render _
    · exact fun _ => rfl
  simp only [documenting, List.mem_cons, List.not_mem_nil, or_false] at hstage
  intro x hx
  rcases hstage with rfl | rfl | rfl
  · simp only [List.mem_cons, List.not_mem_nil, or_false] at hx
    rcases hx with rfl | rfl | rfl
    · exact keeps_guard _ _ _
    · exact keeps_ledger_main w sources
    · exact keeps_guard _ _ _
  · simp only [List.mem_cons, List.not_mem_nil, or_false] at hx
    rcases hx with rfl | rfl | rfl | rfl | rfl
    · exact keeps_guard _ _ _
    · exact keeps_ledger_finalize
    · exact keeps_guard _ _ _
    · exact houtput
    · exact keeps_guard _ _ _
  · cases hx

/-- From the main pass on, a build enters the phases that are left. Its last phase is there if and only
if nothing failed. -/
theorem exec_fromMain (w : Circumstances) (settings : Settings.Build) (sources : List Path)
    (s : Session) :
    (∃ s', exec ((fromMain w settings sources).forM id) s = (.ok (), s') ∧
      s'.history = s.history ++ [.mainPass, .finalizing, .rendered]) ∨
    ∃ failure s' done, exec ((fromMain w settings sources).forM id) s = (.error failure, s') ∧
      s'.history = s.history ++ .mainPass :: done ∧ done <+: [.finalizing] := by
  have hkeeps : ∀ stage ∈ documenting w settings sources, ∀ x ∈ stage.2, Keeps history x :=
    fun stage hstage x hx s => congrArg Prod.fst (keeps_ledger_of_mem_documenting hstage x hx s)
  rcases history_of_stages hkeeps s with hall | ⟨before, stage, after, failure, s', hsplit, hsome,
    hrun, hs'⟩
  · exact .inl hall
  · right
    simp only [documenting] at hsplit
    -- Which stage fails: not the last one, because it has no work.
    rcases before with _ | ⟨first, _ | ⟨second, _ | ⟨third, more⟩⟩⟩ <;>
      simp only [List.nil_append, List.cons_append, List.cons.injEq, List.nil_eq, reduceCtorEq,
        List.append_eq_nil_iff, and_false] at hsplit
    · obtain ⟨rfl, -⟩ := hsplit
      exact ⟨failure, s', [], hrun, hs', List.nil_prefix⟩
    · obtain ⟨rfl, rfl, -⟩ := hsplit
      exact ⟨failure, s', [.finalizing], hrun, hs', List.prefix_rfl⟩
    · obtain ⟨-, -, rfl, -⟩ := hsplit
      exact absurd rfl hsome

/-- The samples stay as they are in every state of a run from the main pass on. -/
theorem samples_of_mem_trail {settings : Settings.Build} {sources : List Path} {s t : Session}
    (ht : t ∈ trail (fromMain w settings sources) s) : t.samples = s.samples := by
  refine eq_of_mem_trail (fun x hx => ?_) t ht
  obtain ⟨stage, hstage, hx⟩ := List.mem_flatMap.mp hx
  rcases List.mem_cons.mp hx with rfl | hx
  · exact fun _ => rfl
  · exact fun s => congrArg Prod.snd (keeps_ledger_of_mem_documenting hstage x hx s)

/-! ### A whole build -/

/-- The phase before the main pass is the sample pass. -/
theorem eq_of_mem_samplingPhases {settings : Settings.Build} {p : Phase}
    (h : p ∈ samplingPhases settings) : p = .samplePass := by
  unfold samplingPhases at h
  split at h
  · exact List.mem_singleton.mp h
  · cases h

/-- The phases that a build enters are those of its plan, up to some phase. It enters the main pass if
and only if it gets there, and the last phase if and only if it succeeds. -/
theorem phases_of_stepsAmid (w : Circumstances) {s : Session} (hfresh : s.history = []) :
    (exec (stepsAmid w s) s).2.history <+: plan s.settings ∧
    (.mainPass ∈ (exec (stepsAmid w s) s).2.history ↔
      ∃ sources s₁, exec (beforeMain w s) s = (.ok sources, s₁)) ∧
    (.rendered ∈ (exec (stepsAmid w s) s).2.history ↔ ∃ g, (exec (stepsAmid w s) s).1 = .ok g) := by
  rw [stepsAmid_eq, exec_bind]
  rcases exec_beforeMain w s with ⟨sources, s₁, hrun, hs₁⟩ | ⟨failure, s₁, done, hrun, hs₁, hcut⟩
  · rw [hrun]
    rw [hfresh, List.nil_append] at hs₁
    dsimp only
    rw [exec_bind]
    rcases exec_fromMain w s.settings sources s₁ with ⟨s', hrest, hs'⟩ | ⟨failure, s', done, hrest, hs',
      hcut⟩
    -- Nothing fails, and giving the graph does not fail either.
    · rw [hrest]
      dsimp only
      rw [exec_graph, hs', hs₁]
      refine ⟨List.prefix_rfl, ?_, ?_⟩ <;> simp
    · rw [hrest]
      dsimp only
      rw [hs', hs₁]
      refine ⟨?_, by simp, ?_⟩
      · have htail : done <+: [.finalizing, .rendered] := hcut.trans ⟨[.rendered], rfl⟩
        exact (List.prefix_append_right_inj _).mpr (List.cons_prefix_cons.mpr ⟨rfl, htail⟩)
      · refine iff_of_false (fun hmem => ?_) nofun
        rcases List.mem_append.mp hmem with hmem | hmem
        · cases eq_of_mem_samplingPhases hmem
        rcases List.mem_cons.mp hmem with hmem | hmem
        · cases hmem
        · cases List.mem_singleton.mp (hcut.subset hmem)
  · rw [hrun]
    rw [hfresh, List.nil_append] at hs₁
    dsimp only
    rw [hs₁]
    refine ⟨hcut.trans (List.prefix_append _ _), iff_of_false (fun hmem => ?_) ?_,
      iff_of_false (fun hmem => ?_) ?_⟩
    · cases eq_of_mem_samplingPhases (hcut.subset hmem)
    · rintro ⟨sources, t, hok⟩
      cases hok
    · cases eq_of_mem_samplingPhases (hcut.subset hmem)
    · rintro ⟨g, hok⟩
      cases hok

/-- A build that succeeds gives the graph that it holds. -/
theorem graph_of_stepsAmid {s s' : Session} {g : Symbols}
    (h : exec (stepsAmid w s) s = (.ok g, s')) : g = s'.graph := by
  rw [stepsAmid_eq] at h
  obtain ⟨sources, s₁, -, h⟩ := exec_bind_inv h
  obtain ⟨-, s₂, -, h⟩ := exec_bind_inv h
  cases h
  exact (graph_eq_held _).symm

/-- A build that gets to its main pass leaves the last state that the steps from there on pass
through. -/
theorem last_of_stepsAmid {s s₁ : Session} {sources : List Path}
    (h : exec (beforeMain w s) s = (.ok sources, s₁)) :
    (trail (fromMain w s.settings sources) s₁).getLast? = some (exec (stepsAmid w s) s).2 := by
  rw [stepsAmid_eq, exec_bind_ok h, exec_bind, getLast?_trail]
  rcases exec ((fromMain w s.settings sources).forM id) s₁ with ⟨failure | _, s'⟩
  · rfl
  · dsimp only
    rw [exec_graph]

/-- A failure that a build passes on is one of its own kind. -/
theorem isOwn_escaping (p : Phase) (f : Failure) : (escaping p f).isOwn = true := by
  unfold escaping
  split
  · assumption
  · rfl

/-- The phases of a build, and its samples, for every session and in all circumstances. The phases on
record are those of the plan up to some phase, and then the idle phase. The last phase of the plan is
among them if and only if the build gives the graph. A failure is passed on as it is if it is of the own
kind, and otherwise as a failure of the last phase that was entered. From the main pass on the samples
stay as they are, and they are closed if there was a sample pass. If nothing happens around it, this is
the build itself. -/
theorem phases_of_buildAmid (w : Circumstances) (s : Session) :
    (∃ done, (buildAmid w s).2.history = done ++ [.idle] ∧ (buildAmid w s).2.phase = .idle ∧
      done <+: plan s.settings ∧
      (.rendered ∈ done ↔ ∃ g, (buildAmid w s).1 = .ok g) ∧
      (∀ g, (buildAmid w s).1 = .ok g → g = (buildAmid w s).2.graph) ∧
      (∀ original, (exec (stepsAmid w s.restarted) s.restarted).1 = .error original →
        (buildAmid w s).1 = .error (if original.isOwn then original
          else .build (done.getLastD .idle).name original.message)) ∧
      (∀ failure, (buildAmid w s).1 = .error failure → failure.isOwn = true) ∧
      (.mainPass ∈ done ↔
        ∃ sources s₁, exec (beforeMain w s.restarted) s.restarted = (.ok sources, s₁)) ∧
      ∀ sources s₁, exec (beforeMain w s.restarted) s.restarted = (.ok sources, s₁) →
        (s.settings.sample.isSome = true → s₁.samples.isSealed = true) ∧
        (∃ last, (trail (fromMain w s.settings sources) s₁).getLast? = some last ∧
          (buildAmid w s).2 = last.enter .idle) ∧
        ∀ t ∈ trail (fromMain w s.settings sources) s₁, t.samples = s₁.samples) ∧
    buildAmid .undisturbed s = build s := by
  refine ⟨?_, buildAmid_undisturbed s⟩
  obtain ⟨hplan, hmain, hrendered⟩ := phases_of_stepsAmid w (s := s.restarted) rfl
  rcases hrun : exec (stepsAmid w s.restarted) s.restarted with ⟨result, s'⟩
  rw [hrun] at hplan hmain hrendered
  -- Whatever the steps end with in `s'`, a failure is passed on and the idle phase is entered.
  have hbuild : buildAmid w s = (result.mapError (escaping s'.phase), s'.enter .idle) := by
    unfold buildAmid
    rw [hrun]
  rw [hbuild]
  refine ⟨s'.history, rfl, ?_, hplan, ?_, ?_, ?_, ?_, hmain, ?_⟩
  · show (s'.history ++ [Phase.idle]).getLastD Phase.idle = Phase.idle
    rw [List.getLastD_concat]
  · rw [hrendered]
    cases result <;> simp [Except.mapError]
  · intro g hg
    cases result with
    | error failure => cases hg
    | ok g' =>
      cases hg
      show g = s'.graph
      exact graph_of_stepsAmid hrun
  · intro original horiginal
    cases horiginal
    rfl
  · intro failure hfailure
    cases result with
    | error original =>
      cases hfailure
      exact isOwn_escaping _ _
    | ok g => cases hfailure
  · intro sources s₁ hfirst
    have hlast := last_of_stepsAmid hfirst
    rw [hrun] at hlast
    exact ⟨fun hsample => isSealed_of_beforeMain (s := s.restarted) hsample hfirst, ⟨s', hlast, rfl⟩,
      fun t ht => samples_of_mem_trail ht⟩

/-- A session that is to write its site to where there is a file. -/
def blockedOutput : Session where
  settings := { Settings.Build.default with output := some (.ofString "site"), fetchTimeout := none }
  editor := none
  files := ⟨[(["site"], .file [])], []⟩
  externals := .initial ⟨0, ""⟩ .unreachable
  context := none
  history := []
  log := []

-- The refusal of the system is passed on as a failure of the phase in which the site is written.
example :
    (build blockedOutput).2.history = [.mainPass, .finalizing, .idle] ∧
      (match (build blockedOutput).1 with
        | .error (.build phase _) => phase
        | _ => "") = "finalizing" := by decide +kernel

/-- A driver that makes no passes. -/
def unwilling : Driver where
  run := fun _ _ _ _ c => (.error .markup, c)
  gathered := fun _ _ _ _ _ => .refl

-- Its failure is none of a build, so it is passed on as a failure of the main pass.
example :
    let (result, s) := buildAmid { Circumstances.undisturbed with driver := unwilling } blockedOutput
    s.history = [.mainPass, .idle] ∧
      (match result with
        | .error (.build phase reason) => (phase, reason)
        | _ => ("", "")) = ("main_pass", Failure.markup.message) := by decide +kernel

end Apidoc.Build.Session
