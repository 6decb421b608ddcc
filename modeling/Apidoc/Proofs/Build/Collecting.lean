import Apidoc.Proofs.Build.Session

/-!
# `Apidoc.Proofs.Build.Collecting`: what a build does before it writes

A build first collects: it finds the packages and the sources, goes through its passes
and finishes the graph (`collecting`). Then it writes the site, if it has an output
directory. Collecting reads the files and never changes them, whatever state its steps
start from.

A step of collecting fails if a file is gone that an earlier step has found, or for a
reason that has nothing to do with files. So the statements are about a build in any
circumstances, in which others may do anything to the files whenever the build enters a
phase. If collecting fails, nothing has happened to the files but what others did
(`files_of_failed_collecting`).
-/

set_option autoImplicit false

namespace Apidoc.Build.Session

open Apidoc.Files (Path Tree)
open Apidoc.Graph (Symbols)
open Apidoc.Proofs (Keeps Preserves exec exec_bind exec_bind_ok exec_get exec_tryFinally)

/-! ### Reading only -/

/-- The opening of a build leaves the files alone. -/
theorem keeps_files_opening (w : Circumstances) (s : Session) : Keeps files (w.opening s) :=
  keeps_opening (fun _ _ => rfl) (fun _ _ => rfl) w s

/-- A pass leaves the files alone, whatever it is for and whoever makes it. -/
theorem keeps_files_pass (w : Circumstances) (mode : Mode) (paths : List Path)
    (specified : Option (List Path)) : Keeps files (w.pass mode paths specified) := by
  intro s
  rw [exec_pass]
  rfl

/-- The sample pass leaves the files alone. -/
theorem keeps_files_samplePass (w : Circumstances) (sources : List Path) :
    Keeps files (w.samplePass sources) := by
  unfold Circumstances.samplePass
  refine Keeps.bind (fun _ => rfl) fun s => ?_
  split
  · exact fun _ => rfl
  · refine Keeps.bind (keeps_lift _ _) fun samples => Keeps.bind (fun t => ?_) fun _ =>
      Keeps.bind (fun _ => rfl) fun _ => fun _ => rfl
    rw [exec_tryFinally (exec_sealSamples _)]
    exact keeps_files_pass w _ _ _ t

/-- Finishing the graph leaves the files alone. -/
theorem keeps_files_finalize : Keeps files finalize := by
  unfold finalize
  refine Keeps.bind (fun _ => rfl) fun s => ?_
  dsimp only
  refine Keeps.bind (fun _ => rfl) fun _ => ?_
  split
  · exact Keeps.bind (fun _ => rfl) fun _ => Keeps.bind (fun _ => rfl) fun _ => fun _ => rfl
  · exact Keeps.bind (fun _ => rfl) fun _ => fun _ => rfl

/-! ### Amid others -/

/-- The files after what others did while the phases on record were entered, in their order. -/
def amended (w : Circumstances) (files : Tree) (phases : List Phase) : Tree :=
  phases.foldl (fun files p => w.others p files) files

/-- If others do nothing, the files stay as they are. -/
theorem amended_eq_self {w : Circumstances} (h : ∀ p files, w.others p files = files) (files : Tree)
    (phases : List Phase) : amended w files phases = files := by
  induction phases with
  | nil => rfl
  | cons p rest ih =>
    show amended w (w.others p files) rest = files
    rw [h, ih]

/-- The files are those at the start, but for what others did. -/
def OnlyOthers (w : Circumstances) (start : Tree) (s : Session) : Prop :=
  s.files = amended w start s.history

/-- A step that leaves the files and the phases on record alone adds nothing to what others did. -/
theorem preserves_onlyOthers {α : Type} {x : Work α} (w : Circumstances) (start : Tree)
    (hfiles : Keeps files x) (hhistory : Keeps history x) :
    Preserves (OnlyOthers w start) x := by
  intro s hs
  unfold OnlyOthers at hs ⊢
  rw [hfiles s, hhistory s, hs]

/-- While a phase is entered, others do something, and nobody else. -/
theorem preserves_onlyOthers_enter (w : Circumstances) (start : Tree) (p : Phase) :
    Preserves (OnlyOthers w start) (w.enter p) := by
  intro s hs
  show w.others p s.files = amended w start (s.history ++ [p])
  rw [hs, amended, amended, List.foldl_append]
  rfl

/-- A stage of a build adds to the files what others do while its phase is entered, if its work leaves
the files and the phases on record alone. -/
theorem preserves_onlyOthers_stage {α : Type} {rest : Work α} (w : Circumstances) (start : Tree)
    (p : Phase) {x : Work Unit} (hfiles : Keeps files x) (hhistory : Keeps history x)
    (hrest : Preserves (OnlyOthers w start) rest) :
    Preserves (OnlyOthers w start) (do w.enter p; w.guard p 0; x; w.guard p 1; rest) := by
  have hguard (done : Nat) : Preserves (OnlyOthers w start) (w.guard p done) :=
    preserves_onlyOthers w start (keeps_guard _ _ _) (keeps_guard _ _ _)
  exact Preserves.bind (preserves_onlyOthers_enter w start p) fun _ =>
    Preserves.bind (hguard 0) fun _ =>
    Preserves.bind (preserves_onlyOthers w start hfiles hhistory) fun _ =>
    Preserves.bind (hguard 1) fun _ => hrest

/-- Whether or not collecting fails, nothing happens to the files but what others do. -/
theorem preserves_onlyOthers_collecting (w : Circumstances) (start : Tree) (s : Session) :
    Preserves (OnlyOthers w start) (w.collecting s) := by
  have hledger {x : Work Unit} (h : Keeps ledger x) : Keeps history x :=
    fun t => congrArg Prod.fst (h t)
  have hmain (sources : List Path) : Preserves (OnlyOthers w start) (do
      w.enter .mainPass
      w.guard .mainPass 0
      w.pass .documenting sources none
      w.guard .mainPass 1
      w.enter .finalizing
      w.guard .finalizing 0
      finalize
      w.guard .finalizing 1) := by
    refine preserves_onlyOthers_stage w start _ (keeps_files_pass w _ _ _)
      (hledger (keeps_ledger_main w sources)) ?_
    have hend : Preserves (OnlyOthers w start) (pure () : Work Unit) := fun _ => id
    have hlast := preserves_onlyOthers_stage w start .finalizing keeps_files_finalize
      (hledger keeps_ledger_finalize) hend
    simpa only [bind_pure_unit] using hlast
  unfold Circumstances.collecting
  refine Preserves.bind
    (preserves_onlyOthers w start (keeps_files_opening w s) (keeps_history_opening w s))
    fun sources => ?_
  split
  · exact preserves_onlyOthers_stage w start _ (keeps_files_samplePass w sources)
      (keeps_history_samplePass w sources) (hmain sources)
  · exact hmain sources

/-- If collecting fails, for whatever reason, so does the build, and nothing has happened to any file or
directory but what others did to the files while the build entered its phases. If others did nothing,
all files are as they were. So it is with the build itself. -/
theorem files_of_failed_collecting (w : Circumstances) (s : Session) {failure : Failure}
    (h : (exec (w.collecting s.restarted) s.restarted).1 = .error failure) :
    (∃ p, (buildAmid w s).1 = .error (escaping p failure)) ∧
    (∃ phases, (buildAmid w s).2.history = phases ++ [.idle] ∧
      (buildAmid w s).2.files = amended w s.files phases) ∧
    ((∀ p files, w.others p files = files) → (buildAmid w s).2.files = s.files) ∧
    buildAmid .undisturbed s = build s := by
  rcases hrun : exec (w.collecting s.restarted) s.restarted with ⟨result, s'⟩
  have hfiles : s'.files = amended w s.files s'.history := by
    have hall := preserves_onlyOthers_collecting w s.files s.restarted s.restarted rfl
    rw [hrun] at hall
    exact hall
  rw [hrun] at h
  dsimp only at h
  subst h
  have hbuild : buildAmid w s = (.error (escaping s'.phase failure), s'.enter .idle) := by
    unfold buildAmid stepsAmid
    rw [exec_bind, hrun]
    rfl
  rw [hbuild]
  exact ⟨⟨s'.phase, rfl⟩, ⟨s'.history, rfl, hfiles⟩,
    fun hnobody => hfiles.trans (amended_eq_self hnobody _ _), buildAmid_undisturbed s⟩

/-- A session with one source, which has written no site yet. -/
def oneSource : Session where
  settings := { Settings.Build.default with
    sources := [.ofString "src"], output := some (.ofString "site"), fetchTimeout := none }
  editor := none
  files := ⟨[(["src"], .directory), (["src", "C.java"], .file (Text.encode "class C {}")),
    (["site"], .directory), (["site", "index.html"], .file [])], []⟩
  externals := .initial ⟨0, ""⟩ .unreachable
  context := none
  history := []
  log := []

/-- Others take the source away when the main pass begins. -/
def theft : Circumstances :=
  { Circumstances.undisturbed with
    others := fun p files => if p = .mainPass then files.prune ["src", "C.java"] else files }

/-- The source is found, and then it is gone. The build fails in its main pass, and the old site is all
there. -/
theorem files_of_failed_collecting_theft :
    (∃ path cause, (exec (theft.collecting oneSource.restarted) oneSource.restarted).1
      = .error (.unreadable path cause)) ∧
    (∃ phases, (buildAmid theft oneSource).2.history = phases ++ [.idle] ∧
      (buildAmid theft oneSource).2.files = amended theft oneSource.files phases) := by
  have hfails : (exec (theft.collecting oneSource.restarted) oneSource.restarted).1
      = .error (.unreadable (.ofString "src/C.java")
          (some "[Errno 2] No such file or directory: 'src/C.java'")) := by decide +kernel
  exact ⟨⟨_, _, hfails⟩, (files_of_failed_collecting theft oneSource hfails).2.1⟩

end Apidoc.Build.Session
