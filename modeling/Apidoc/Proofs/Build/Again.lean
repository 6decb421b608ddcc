import Apidoc.Proofs.Build.Collecting
import Apidoc.Proofs.Build.MainPass
import Apidoc.Proofs.Build.SamplePass
import Apidoc.Proofs.External.Index
import Apidoc.Proofs.Model.Name
import Apidoc.Proofs.Sample.Library
import Apidoc.Proofs.Site.Again

/-!
# `Apidoc.Proofs.Build.Again`: building twice

A session keeps state from one build to the next: the sites that were asked, the context of
the last build, and the files, which hold the site that was written. None of it shows in the
next build. What a build collects is a function of the settings and of the files below its
roots (`collected`), and the context of the build before is dropped. Sites that were
registered are not asked again, so the names are those that the first build ended with. And
a site that is written over itself leaves every location as it is.

So a build that succeeds twice in a session leaves the same files (`files_of_rebuild`), if
its roots are apart from the output and samples are searched downwards only. Without that a
root may be missing until the first build makes a directory on its way, and then the second
build finds more sources than the first one (`files_of_rebuild_wandering`).
-/

set_option autoImplicit false

namespace Apidoc.Build.Session

open Apidoc.Files (Path Tree resolve)
open Apidoc.Files.Tree (Agree Kept)
open Apidoc.Graph (Record Symbols)
open Apidoc.Proofs (bind_inv eq_of_mapM exec exec_bind_inv exec_bind_ok exec_get exec_tryFinally
  exists_of_mem_mapM)
open Apidoc.Site (Apart Editor Press Written fixedFiles pageOf writeSite)

variable {s s' : Session} {files files' : Tree} {settings : Settings.Build}

/-! ### What a build collects -/

/-- The context after the sample pass, if there is one. -/
def sampled (settings : Settings.Build) (files : Tree) (sources : List Path) (c : Context) :
    Except Failure Context :=
  match settings.sample with
  | none => return c
  | some root => do
    let samples ← files.filesBelow root settings.sampleSuffix
    let (result, c') :=
      Collector.runPass files .sampling (samples ++ sources).eraseDups (some samples) c
    discard result
    return { c' with samples := c'.samples.close, log := [] }

/-- The context after the main pass, with its graph sorted and connected. -/
def documented (files : Tree) (sources : List Path) (c : Context) : Except Failure Context := do
  let (result, c') := Collector.runPass files .documenting sources none c
  discard result
  return { c' with graph := c'.graph.sort.connect, log := [] }

/-- What a build collects from the files before it writes. The state of the session has no part in
it. -/
def collected (settings : Settings.Build) (files : Tree) : Except Failure Context := do
  let packages ← settings.sources.mapM files.packagesBelow
  let found ← settings.sources.mapM fun root =>
    files.filesBelow root Sample.Library.sourceExtension
  let c ← sampled settings files found.flatten (.initial packages.flatten.eraseDups)
  documented files found.flatten c

/-- What is collected of samples is the same from files that hold the same below the root. -/
theorem sampled_of_kept {sources : List Path} {c d d' : Context}
    (hroot : ∀ root ∈ settings.sample, Kept root files files' ∧
      ".." ∉ (Path.ofString ("*" ++ settings.sampleSuffix)).names)
    (hsources : ∀ path ∈ sources, files'.read path = files.read path)
    (h : sampled settings files sources c = .ok d)
    (h' : sampled settings files' sources c = .ok d') : d' = d := by
  unfold sampled at h h'
  cases hsample : settings.sample with
  | none =>
    rw [hsample] at h h'
    cases h
    cases h'
    rfl
  | some root =>
    simp only [hsample] at h h'
    obtain ⟨hkept, hsuffix⟩ := hroot root hsample
    obtain ⟨samples, hsamples, h⟩ := bind_inv h
    obtain ⟨samples', hsamples', h'⟩ := bind_inv h'
    have hsame := hkept.filesBelow_eq hsuffix hsamples hsamples'
    subst hsame
    have hread : ∀ path ∈ (samples' ++ sources).eraseDups, files'.read path = files.read path := by
      intro path hpath
      rcases List.mem_append.mp (List.mem_eraseDups.mp hpath) with hpath | hpath
      · exact hkept.read_of_mem_filesBelow hsuffix hsamples hpath
      · exact hsources path hpath
    rw [Collector.runPass_congr hread] at h'
    rw [h] at h'
    cases h'
    rfl

/-- What a build collects is the same from files that hold the same below its roots. -/
theorem collected_of_kept {c c' : Context}
    (hsources : ∀ root ∈ settings.sources, Kept root files files')
    (hsample : ∀ root ∈ settings.sample, Kept root files files' ∧
      ".." ∉ (Path.ofString ("*" ++ settings.sampleSuffix)).names)
    (h : collected settings files = .ok c) (h' : collected settings files' = .ok c') : c' = c := by
  obtain ⟨packages, hpackages, h⟩ := bind_inv h
  obtain ⟨packages', hpackages', h'⟩ := bind_inv h'
  obtain ⟨found, hfound, h⟩ := bind_inv h
  obtain ⟨found', hfound', h'⟩ := bind_inv h'
  obtain ⟨d, hsampled, hdocumented⟩ := bind_inv h
  obtain ⟨d', hsampled', hdocumented'⟩ := bind_inv h'
  have hextension : ".." ∉ (Path.ofString ("*" ++ Sample.Library.sourceExtension)).names := by
    decide
  have hsamePackages : packages' = packages :=
    eq_of_mapM (fun root hroot names names' => (hsources root hroot).packagesBelow_eq)
      hpackages hpackages'
  have hsameFound : found' = found :=
    eq_of_mapM (fun root hroot ps ps' => (hsources root hroot).filesBelow_eq hextension)
      hfound hfound'
  subst hsamePackages hsameFound
  have hread : ∀ path ∈ found'.flatten, files'.read path = files.read path := by
    intro path hpath
    obtain ⟨ps, hps, hpath⟩ := List.mem_flatten.mp hpath
    obtain ⟨root, hroot, hbelow⟩ := exists_of_mem_mapM hfound hps
    exact (hsources root hroot).read_of_mem_filesBelow hextension hbelow hpath
  have hsame := sampled_of_kept hsample hread hsampled hsampled'
  subst hsame
  unfold documented at hdocumented hdocumented'
  rw [Collector.runPass_congr hread] at hdocumented'
  rw [hdocumented] at hdocumented'
  cases hdocumented'
  rfl

/-- Collecting samples makes no records. -/
theorem graph_of_sampled {sources : List Path} {internals : List String} {d : Context}
    (h : sampled settings files sources (.initial internals) = .ok d) : d.graph = .empty := by
  unfold sampled at h
  cases hsample : settings.sample with
  | none =>
    rw [hsample] at h
    cases h
    rfl
  | some root =>
    simp only [hsample] at h
    obtain ⟨samples, -, h⟩ := bind_inv h
    rcases hrun : Collector.runPass files .sampling (samples ++ sources).eraseDups (some samples)
      (.initial internals) with ⟨result, c⟩
    rw [hrun] at h
    cases result with
    | error failure => cases h
    | ok e =>
      cases h
      obtain ⟨e', hsucceeds⟩ := Collector.runPass_sampling_of_readable
        (Collector.readable_of_runPass hrun) (some samples) (c := .initial internals) rfl
      rw [hsucceeds] at hrun
      cases hrun
      rfl

/-- The names of the records that are collected begin as names. -/
theorem beginsName_of_collected {c : Context} (h : collected settings files = .ok c) :
    ∀ r ∈ c.graph.types, BeginsName r.qualifiedName.toList := by
  obtain ⟨packages, -, h⟩ := bind_inv h
  obtain ⟨found, -, h⟩ := bind_inv h
  obtain ⟨d, hsampled, hdocumented⟩ := bind_inv h
  unfold documented at hdocumented
  rcases hrun : Collector.runPass files .documenting found.flatten none d with ⟨result, c'⟩
  rw [hrun] at hdocumented
  cases result with
  | error failure => cases hdocumented
  | ok e =>
    cases hdocumented
    intro r hr
    exact (Collector.name_of_mem_finished hrun (graph_of_sampled hsampled) hr).2

/-- What the steps of a build leave alone while they collect. -/
def ground (s : Session) :
    Settings.Build × Option Editor × Tree × List (String × String) × List String :=
  (s.settings, s.editor, s.files, s.externals.names, s.externals.registered)

theorem settings_of_ground (h : s'.ground = s.ground) : s'.settings = s.settings :=
  congrArg (·.1) h

theorem editor_of_ground (h : s'.ground = s.ground) : s'.editor = s.editor :=
  congrArg (·.2.1) h

theorem files_of_ground (h : s'.ground = s.ground) : s'.files = s.files :=
  congrArg (·.2.2.1) h

theorem names_of_ground (h : s'.ground = s.ground) : s'.externals.names = s.externals.names :=
  congrArg (·.2.2.2.1) h

theorem registered_of_ground (h : s'.ground = s.ground) :
    s'.externals.registered = s.externals.registered :=
  congrArg (·.2.2.2.2) h

/-- A result that is there was there, and the session is as before. -/
theorem lift_inv {α : Type} {r : Except Failure α} {a : α} (h : exec (lift r) s = (.ok a, s')) :
    r = .ok a ∧ s' = s := by
  rw [exec_lift] at h
  exact ⟨congrArg Prod.fst h, (congrArg Prod.snd h).symm⟩

/-- A pass that succeeds holds what it has collected. -/
theorem pass_inv {mode : Mode} {paths : List Path} {specified : Option (List Path)}
    (h : exec (pass mode paths specified) s = (.ok (), s')) :
    ∃ e c, Collector.runPass s.files mode paths specified s.held = (.ok e, c) ∧
      s' = s.takeOver c := by
  have hstate : (exec (pass mode paths specified) s).2
      = s.takeOver (Collector.runPass s.files mode paths specified s.held).2 :=
    exec_pass .undisturbed mode paths specified s
  rw [h] at hstate
  rcases hrun : Collector.runPass s.files mode paths specified s.held with ⟨result, c⟩
  rw [hrun] at hstate
  cases result with
  | ok e => exact ⟨e, c, rfl, hstate⟩
  | error failure =>
    have hfails : exec (pass mode paths specified) s =
        exec (discard (lift (Collector.runPass s.files mode paths specified s.held).1))
          (s.takeOver (Collector.runPass s.files mode paths specified s.held).2) := rfl
    rw [hfails, hrun] at h
    cases h

/-- A sample pass that succeeds holds the context that it has collected, and nothing else of the
session changes. -/
theorem samplePass_inv {sources : List Path} (hsome : s.settings.sample.isSome = true)
    (h : exec (samplePass sources) s = (.ok (), s')) :
    sampled s.settings s.files sources s.held = .ok s'.held ∧ s'.ground = s.ground := by
  obtain ⟨root, hroot⟩ := Option.isSome_iff_exists.mp hsome
  unfold samplePass at h
  rw [exec_bind_ok (exec_get s)] at h
  simp only [hroot] at h
  obtain ⟨samples, s₁, hsamples, hrest⟩ := exec_bind_inv h
  obtain ⟨hfound, rfl⟩ := lift_inv hsamples
  obtain ⟨u, s₂, hpass, hreport⟩ := exec_bind_inv hrest
  rw [exec_tryFinally (exec_sealSamples _)] at hpass
  cases hreport
  obtain ⟨hresult, rfl⟩ := Prod.mk.inj hpass
  rcases hrun : exec (pass .sampling (samples ++ sources).eraseDups (some samples)) s₁ with
    ⟨result, s₃⟩
  rw [hrun] at hresult
  cases hresult
  obtain ⟨e, c, hcollected, rfl⟩ := pass_inv hrun
  refine ⟨?_, rfl⟩
  unfold sampled
  simp only [hroot]
  rw [hfound]
  show (do
    let (result, c') := Collector.runPass s₁.files .sampling (samples ++ sources).eraseDups
      (some samples) s₁.held
    discard result
    return { c' with samples := c'.samples.close, log := [] } : Except Failure Context) = _
  rw [hcollected]
  rfl

/-- Waiting for other sites leaves their names alone. -/
theorem names_wait (i : External.Index) (timeout : String) :
    (i.wait timeout).1.names = i.names ∧ (i.wait timeout).1.registered = i.registered := by
  unfold External.Index.wait
  split
  · exact ⟨rfl, rfl⟩
  · exact ⟨rfl, rfl⟩

/-- Finishing connects the graph, and leaves the names of other sites alone. -/
theorem finalize_inv (h : exec finalize s = (.ok (), s')) :
    s'.held = { s.held with graph := s.held.graph.sort.connect, log := [] } ∧
      s'.ground = s.ground := by
  unfold finalize at h
  rw [exec_bind_ok (exec_get s)] at h
  obtain ⟨hnames, hregistered⟩ :=
    names_wait s.externals ((s.settings.fetchTimeout.map Decimal.floatString).getD "None")
  dsimp only at h
  generalize s.externals.wait ((s.settings.fetchTimeout.map Decimal.floatString).getD "None") =
    waited at h hnames hregistered
  have hground : s'.held = { s.held with graph := s.held.graph.sort.connect, log := [] } ∧
      s'.ground = (s.settings, s.editor, s.files, waited.1.names, waited.1.registered) := by
    split at h
    · cases h
      exact ⟨rfl, rfl⟩
    · cases h
      exact ⟨rfl, rfl⟩
  rw [hnames, hregistered] at hground
  exact hground

/-- The opening finds the packages and the sources, and asks the sites that are new. -/
theorem opening_inv {sources : List Path}
    (h : exec (Circumstances.undisturbed.opening s) s = (.ok sources, s')) :
    ∃ packages found, s.settings.sources.mapM s.files.packagesBelow = .ok packages ∧
      (s.settings.sources.mapM fun root =>
        s.files.filesBelow root Sample.Library.sourceExtension) = .ok found ∧
      sources = found.flatten ∧ s'.held = .initial packages.flatten.eraseDups ∧
      s'.ground = { s with externals := s.externals.register s.settings.sites }.ground := by
  rw [Circumstances.opening_undisturbed] at h
  obtain ⟨packages, s₁, hpackages, hrest⟩ := exec_bind_inv h
  obtain ⟨hfirst, rfl⟩ := lift_inv hpackages
  obtain ⟨u, s₂, hcontext, hrest⟩ := exec_bind_inv hrest
  obtain ⟨v, s₃, hexternals, hrest⟩ := exec_bind_inv hrest
  obtain ⟨hsources, rfl⟩ := lift_inv hrest
  unfold sourceFiles at hsources
  obtain ⟨found, hfound, hflat⟩ := bind_inv hsources
  cases hflat
  cases hcontext
  cases hexternals
  exact ⟨packages, found, hfirst, hfound, rfl, rfl, rfl⟩

/-- To enter a phase changes neither what is held nor what the steps leave alone. -/
theorem enter_inv {p : Phase} (h : exec (modify (·.enter p) : Work Unit) s = (.ok (), s')) :
    s'.held = s.held ∧ s'.ground = s.ground := by
  cases h
  exact ⟨rfl, rfl⟩

/-- The main pass and what follows it hold the finished context. -/
theorem documented_of_steps {sources : List Path}
    (h : exec (do
      modify (·.enter .mainPass)
      pass .documenting sources none
      modify (·.enter .finalizing)
      finalize) s = (.ok (), s')) :
    documented s.files sources s.held = .ok s'.held ∧ s'.ground = s.ground := by
  obtain ⟨u₁, s₁, henter, hrest⟩ := exec_bind_inv h
  obtain ⟨u₂, s₂, hpass, hrest⟩ := exec_bind_inv hrest
  obtain ⟨u₃, s₃, hagain, hfinalize⟩ := exec_bind_inv hrest
  obtain ⟨hheld, hground⟩ := enter_inv henter
  obtain ⟨e, c, hrun, rfl⟩ := pass_inv hpass
  obtain ⟨hheld', hground'⟩ := enter_inv hagain
  obtain ⟨hfinished, hkept⟩ := finalize_inv hfinalize
  have hfiles : s₁.files = s.files := files_of_ground hground
  refine ⟨?_, ?_⟩
  · rw [hheld, hfiles] at hrun
    unfold documented
    rw [hrun, hfinished, hheld']
    rfl
  · rw [hkept, hground', ← hground]
    rfl

/-- A build that has collected holds what there is to collect. Of the sites it only knows more. -/
theorem collected_of_collecting (h : exec (Circumstances.undisturbed.collecting s) s = (.ok (), s')) :
    collected s.settings s.files = .ok s'.held ∧
      s'.ground = { s with externals := s.externals.register s.settings.sites }.ground := by
  unfold Circumstances.collecting at h
  simp only [Circumstances.enter_undisturbed, Circumstances.guard_undisturbed,
    Circumstances.pass_undisturbed, Circumstances.samplePass_undisturbed, pure_bind,
    bind_pure_unit] at h
  obtain ⟨sources, s₁, hopening, hrest⟩ := exec_bind_inv h
  obtain ⟨packages, found, hpackages, hfound, rfl, hheld, hground⟩ := opening_inv hopening
  have hsettings : s₁.settings = s.settings := (settings_of_ground hground :)
  have hfiles : s₁.files = s.files := (files_of_ground hground :)
  have hcollected : collected s.settings s.files = (do
      let c ← sampled s₁.settings s₁.files found.flatten s₁.held
      documented s₁.files found.flatten c) := by
    unfold collected
    rw [hpackages, hfound, hsettings, hfiles, hheld]
    rfl
  rw [hcollected]
  split at hrest
  -- With samples, their pass comes first.
  · rename_i hsome
    obtain ⟨u, s₂, henter, hrest⟩ := exec_bind_inv hrest
    obtain ⟨v, s₃, hpass, hmain⟩ := exec_bind_inv hrest
    obtain ⟨hentered, hsame⟩ := enter_inv henter
    have hsettings' : s₂.settings = s₁.settings := settings_of_ground hsame
    obtain ⟨hsampled, hkept⟩ := samplePass_inv (by rw [hsettings', hsettings]; exact hsome) hpass
    obtain ⟨hdocumented, hlast⟩ := documented_of_steps hmain
    have hfiles' : s₂.files = s₁.files := files_of_ground hsame
    have hfiles'' : s₃.files = s₁.files := (files_of_ground hkept).trans hfiles'
    rw [hsettings', hfiles', hentered] at hsampled
    rw [hfiles''] at hdocumented
    refine ⟨?_, ?_⟩
    · rw [hsampled]
      exact hdocumented
    · rw [hlast, hkept, hsame, hground]
  · rename_i hnone
    obtain ⟨hdocumented, hlast⟩ := documented_of_steps hrest
    have hsample : s₁.settings.sample = none := by
      rw [hsettings]
      simpa using hnone
    refine ⟨?_, ?_⟩
    · unfold sampled
      rw [hsample]
      exact hdocumented
    · rw [hlast, hground]

/-! ### What a build leaves -/

/-- What the site of a build is about. -/
def siteOf (settings : Settings.Build) : Site.Info :=
  ⟨settings.product, settings.project, settings.version⟩

/-- What pages are made with depends on the settings, the editor and the names of other sites. -/
theorem press_eq_of_ground (c : Context) (h : s'.settings = s.settings) (heditor : s'.editor = s.editor)
    (hnames : s'.externals.names = s.externals.names) : s'.press c = s.press c := by
  have hlookup : s'.externals.lookup = s.externals.lookup := by
    funext name
    rw [External.Index.lookup, External.Index.lookup, hnames]
  funext files
  rw [press, press, rendererOn, rendererOn, h, heditor, hlookup]

/-- A build in `s` that collected `c` and left `s'`. -/
structure Built (s : Session) (c : Context) (s' : Session) : Prop where
  collected : collected s.settings s.files = .ok c
  settings : s'.settings = s.settings
  editor : s'.editor = s.editor
  names : s'.externals.names = (s.externals.register s.settings.sites).names
  registered : s'.externals.registered = (s.externals.register s.settings.sites).registered
  written : ∀ output, s.settings.output = some output → ∃ pages,
    exec (writeSite output c.graph (siteOf s.settings) (s'.press c)) s.files = (.ok pages, s'.files)

/-- A site that was written by a build. -/
theorem render_inv {output : Path} (h : exec (render output) s = (.ok (), s')) :
    (∃ pages, exec (writeSite output s.held.graph (siteOf s.settings) (s.press s.held)) s.files =
      (.ok pages, s'.files)) ∧
    s'.held = s.held ∧ s'.settings = s.settings ∧ s'.editor = s.editor ∧
      s'.externals = s.externals := by
  unfold render at h
  rw [exec_bind_ok (exec_get s)] at h
  obtain ⟨c, s₁, hcurrent, hrest⟩ := exec_bind_inv h
  cases hcurrent
  obtain ⟨pages, s₂, hwritten, hreport⟩ := exec_bind_inv hrest
  cases hreport
  rcases hrun : exec (writeSite output s.held.graph (siteOf s.settings) (s.press s.held)) s.files
    with ⟨result, files⟩
  have hlift : exec (lift result) { s with files } = (.ok pages, s₂) := by
    have hsplit : exec (onFiles (writeSite output s.held.graph (siteOf s.settings)
        (s.press s.held))) s = exec (lift (exec (writeSite output s.held.graph (siteOf s.settings)
          (s.press s.held)) s.files).1) { s with files := (exec (writeSite output s.held.graph
            (siteOf s.settings) (s.press s.held)) s.files).2 } := rfl
    rw [hrun] at hsplit
    rw [← hsplit]
    exact hwritten
  obtain ⟨rfl, rfl⟩ := lift_inv hlift
  exact ⟨⟨pages, rfl⟩, rfl, rfl, rfl, rfl⟩

/-- Writing that succeeds gives the graph that is held, and has written its site if there is an
output. -/
theorem writing_inv {t : Session} {g : Symbols}
    (h : exec (Circumstances.undisturbed.writing t) s = (.ok g, s')) :
    g = s.held.graph ∧ s'.settings = s.settings ∧ s'.editor = s.editor ∧
      s'.externals = s.externals ∧ ∀ output, t.settings.output = some output → ∃ pages,
        exec (writeSite output s.held.graph (siteOf s.settings) (s.press s.held)) s.files =
          (.ok pages, s'.files) := by
  unfold Circumstances.writing at h
  cases houtput : t.settings.output with
  | none =>
    simp only [houtput] at h
    cases h
    exact ⟨rfl, rfl, rfl, rfl, nofun⟩
  | some output =>
    simp only [houtput] at h
    obtain ⟨w, s₁, hrender, hlast⟩ := exec_bind_inv h
    cases hlast
    obtain ⟨hwritten, hheld, hsettings, heditor, hexternals⟩ := render_inv hrender
    refine ⟨congrArg Context.graph hheld, hsettings, heditor, hexternals, ?_⟩
    rintro _ ⟨⟩
    exact hwritten

/-- A build that succeeds gives the graph that it collected, and has written it. -/
theorem built_of_build {g : Symbols} (h : build s = (.ok g, s')) :
    ∃ c, Built s c s' ∧ g = c.graph := by
  rw [← buildAmid_undisturbed] at h
  unfold buildAmid at h
  rcases hrun : exec (stepsAmid .undisturbed s.restarted) s.restarted with ⟨result, u⟩
  rw [hrun] at h
  cases result with
  | error failure => cases h
  | ok graph =>
    cases h
    obtain ⟨v, s₁, hcollecting, hwriting⟩ := exec_bind_inv hrun
    obtain ⟨hcollected, hground⟩ := collected_of_collecting hcollecting
    obtain ⟨hgraph, hsettings, heditor, hexternals, hwritten⟩ := writing_inv hwriting
    have hpress : u.press s₁.held = s₁.press s₁.held :=
      press_eq_of_ground _ hsettings heditor (by rw [hexternals])
    have hsettings' : s₁.settings = s.settings := (settings_of_ground hground :)
    have heditor' : s₁.editor = s.editor := (editor_of_ground hground :)
    have hfiles : s₁.files = s.files := (files_of_ground hground :)
    refine ⟨s₁.held, {
      collected := hcollected
      settings := hsettings.trans hsettings'
      editor := heditor.trans heditor'
      names := (congrArg (·.names) hexternals).trans (names_of_ground hground)
      registered := (congrArg (·.registered) hexternals).trans (registered_of_ground hground)
      written := fun output houtput => ?_ }, hgraph⟩
    obtain ⟨pages, hpages⟩ := hwritten output houtput
    rw [hfiles, hsettings', ← hpress] at hpages
    exact ⟨pages, hpages⟩

/-! ### The second build -/

/-- The site of a build in its stages. -/
theorem Built.exists_written {c : Context} {output : Path} (h : Built s c s')
    (hsound : s.files.get? (Site.typesAt s.files.workingDirectory output) = none → s.files.IsSound)
    (houtput : s.settings.output = some output) :
    ∃ t, Written output c.graph (siteOf s.settings) (s'.press c) s.files t s'.files := by
  obtain ⟨pages, hwritten⟩ := h.written output houtput
  exact Site.written_of_writeSite (beginsName_of_collected h.collected) hsound hwritten

/-- A second build of a session has the names of other sites that the first one had. -/
theorem Built.names_again {c c' : Context} {s'' : Session} (h : Built s c s')
    (h' : Built s' c' s'') : s''.externals.names = s'.externals.names := by
  have hregistered : ∀ base ∈ s'.settings.sites, base ∈ s'.externals.registered := by
    intro base hbase
    rw [h.settings] at hbase
    rw [h.registered]
    exact External.Index.mem_registered_register _ hbase
  rw [h'.names, External.Index.register_of_registered hregistered]

/-- A second build makes its pages as the first one did, from trees that hold the same. -/
theorem press_again {c c' : Context} {s'' : Session} (h : Built s c s') (h' : Built s' c' s'')
    {a b : Tree} (hagree : Agree a b) : s''.press c b = s'.press c a := by
  rw [press_eq_of_ground c h'.settings h'.editor (h.names_again h')]
  unfold press rendererOn
  dsimp only
  rw [Sample.Library.find_of_agree hagree]

/-- Two builds that succeed, one after the other. -/
theorem exists_rebuild (hfirst : (build s).1.isOk = true)
    (hsecond : (build (build s).2).1.isOk = true) :
    ∃ g₁ g₂, build s = (.ok g₁, (build s).2) ∧
      build (build s).2 = (.ok g₂, (build (build s).2).2) := by
  rcases hone : build s with ⟨result, s₁⟩
  rw [hone] at hfirst hsecond
  rcases htwo : build s₁ with ⟨result', s₂⟩
  rw [htwo] at hsecond
  cases result with
  | error failure => cases hfirst
  | ok g₁ =>
    cases result' with
    | error failure => cases hsecond
    | ok g₂ => exact ⟨g₁, g₂, rfl, rfl⟩

/-- Building twice is the same as building once.

Take any session, whatever its files are and whatever it has built before, in which each root of
sources and samples is apart from the output, and the suffix of samples does not lead up. If a
build and then another one succeed, both give the same graph, and the second one leaves every
location as the first one did, in the output as elsewhere. So every path that is read gives the
same bytes, among them the fixed files of the site and the pages of all types, which are there. -/
theorem files_of_rebuild {s₁ s₂ : Session} {g₁ g₂ : Symbols} {output : Path}
    (hsound : s.files.IsSound) (houtput : s.settings.output = some output)
    (hsources : ∀ root ∈ s.settings.sources, Apart s.files output root)
    (hsample : ∀ root ∈ s.settings.sample, Apart s.files output root ∧
      ".." ∉ (Path.ofString ("*" ++ s.settings.sampleSuffix)).names)
    (hfirst : build s = (.ok g₁, s₁)) (hsecond : build s₁ = (.ok g₂, s₂)) :
    g₂ = g₁ ∧ (∀ l, s₂.files.get? l = s₁.files.get? l) ∧
      (∀ p, s₂.files.read p = s₁.files.read p) ∧
      (∀ f ∈ fixedFiles g₁ (siteOf s.settings),
        s₁.files.get? (resolve s.files.workingDirectory output ++ [f.1]) =
          some (.file (Text.encode f.2))) ∧
      ∀ r ∈ g₁.types, s₁.files.isFile (pageOf output r.qualifiedName) = .ok true := by
  obtain ⟨c₁, hbuilt, rfl⟩ := built_of_build hfirst
  obtain ⟨c₂, hbuilt', rfl⟩ := built_of_build hsecond
  obtain ⟨t, hwritten⟩ := hbuilt.exists_written (fun _ => hsound) houtput
  -- Both builds collect the same, because the site is written outside all roots.
  have hcollected := hbuilt'.collected
  rw [hbuilt.settings] at hcollected
  have hsame : c₂ = c₁ := collected_of_kept (fun root hroot => (hsources root hroot).kept hsound hwritten)
    (fun root hroot => ⟨(hsample root hroot).1.kept hsound hwritten, (hsample root hroot).2⟩)
    hbuilt.collected hcollected
  subst hsame
  -- The second site is written over the first one.
  have houtput' : s₁.settings.output = some output := by
    rw [hbuilt.settings, houtput]
  have htypes : s₁.files.get? (Site.typesAt s₁.files.workingDirectory output) = none →
      s₁.files.IsSound := by
    rw [hwritten.workingDirectory_eq, hwritten.types]
    nofun
  obtain ⟨t', hwritten'⟩ := hbuilt'.exists_written htypes houtput'
  rw [hbuilt.settings] at hwritten'
  have hagree : Agree s₁.files s₂.files :=
    Site.agree_of_writeSite_again (fun a b hab => press_again hbuilt hbuilt' hab) hwritten hwritten'
  refine ⟨rfl, hagree.get?_eq, hagree.read_eq, fun f hf => hwritten.fixed hf, ?_⟩
  · obtain ⟨pages, hpages⟩ := hbuilt.written output houtput
    exact fun r hr => (Site.isFile_page_of_writeSite hpages hr).2

/-- A session with a source and a sample, over a site that has the page of a type that is gone. -/
def overOldSite : Session :=
  { oneSource with
    settings := { oneSource.settings with sample := some (.ofString "smp") }
    files := ⟨[(["src"], .directory),
      (["src", "C.java"], .file (Text.encode "class C \x7b public void m() \x7b\x7d \x7d")),
      (["smp"], .directory),
      (["smp", "CTest.java"], .file (Text.encode
        "class CTest \x7b /** @see C#m() */ void t() \x7b m(); \x7d \x7d")),
      (["site"], .directory), (["site", "types"], .directory),
      (["site", "types", "Old.html"], .file [])], []⟩ }

/-- The old page goes with the first build, and the second one changes nothing. -/
theorem files_of_rebuild_overOldSite :
    ∃ g s₁ s₂, build overOldSite = (.ok g, s₁) ∧ build s₁ = (.ok g, s₂) ∧
      s₁.files.get? ["site", "types", "Old.html"] = none ∧
      (s₁.files.get? ["site", "types", "C.html"]).isSome ∧
      ∀ l, s₂.files.get? l = s₁.files.get? l := by
  obtain ⟨g₁, g₂, hfirst, hsecond⟩ :=
    exists_rebuild (s := overOldSite) (by decide +kernel) (by decide +kernel)
  have hsound : overOldSite.files.IsSound :=
    ⟨by decide +kernel, by decide +kernel, by decide +kernel⟩
  have hapart : ∀ root ∈ [Path.ofString "smp", .ofString "src"],
      Apart overOldSite.files (.ofString "site") root := by
    have hstraight : ∀ root ∈ [Path.ofString "smp", .ofString "src"], ".." ∉ root.names ∧
        ¬ resolve [] (.ofString "site") <+: resolve [] root ∧
        ¬ resolve [] root <+: resolve [] (.ofString "site") := by decide +kernel
    intro root hroot
    obtain ⟨hnames, houtside, hinside⟩ := hstraight root hroot
    exact Site.apart_of_straight (by decide +kernel) hnames houtside hinside
  have hsample : ∀ root ∈ overOldSite.settings.sample,
      Apart overOldSite.files (.ofString "site") root ∧
        ".." ∉ (Path.ofString ("*" ++ overOldSite.settings.sampleSuffix)).names := by
    rintro root ⟨⟩
    exact ⟨hapart _ List.mem_cons_self, by decide +kernel⟩
  obtain ⟨rfl, hsame, -⟩ := files_of_rebuild hsound rfl
    (fun root hroot => hapart root (List.mem_cons_of_mem _ hroot)) hsample hfirst hsecond
  exact ⟨g₂, _, _, hfirst, hsecond, by decide +kernel, by decide +kernel, hsame⟩

/-! ### Roots that a build moves -/

/-- A session that writes the site `out` from the given sources and files. -/
def toOut (sources : List String) (entries : List (Files.Location × Files.Entry)) : Session :=
  { oneSource with
    settings := { oneSource.settings with
      sources := sources.map .ofString, output := some (.ofString "out") }
    files := ⟨entries, []⟩ }

/-- The way to the source leaves the output, which is not there before the first build. -/
def leavesOutput : Session :=
  toOut ["out/../src"]
    [(["src"], .directory), (["src", "C.java"], .file (Text.encode "class C \x7b\x7d"))]

/-- The way to the source leaves a directory that the first build removes with the old pages. -/
def leavesOldPages : Session :=
  toOut ["out/types/old/../../../src"]
    [(["src"], .directory), (["src", "C.java"], .file (Text.encode "class C \x7b\x7d")),
      (["out"], .directory), (["out", "types"], .directory), (["out", "types", "old"], .directory),
      (["out", "types", "old", "Old.html"], .file [])]

/-- The way to the output leaves a directory in the second source. The first build makes it, and so
the second one takes it for a package. -/
def leavesSource : Session :=
  { toOut ["src", "r"]
      [(["src"], .directory),
        (["src", "C.java"], .file (Text.encode "class C extends nx.D \x7b\x7d"))]
    with settings := { (toOut ["src", "r"] []).settings with
      output := some (.ofString "r/nx/../../out") } }

/-- The suffix leads from the samples through the output to other samples. -/
def leavesSamples : Session :=
  { toOut ["src"]
      [(["src"], .directory),
        (["src", "C.java"], .file (Text.encode "class C \x7b public void m() \x7b\x7d \x7d")),
        (["smp"], .directory), (["smp", "sub"], .directory), (["smp", "sub", "S.java"], .file []),
        (["extra"], .directory),
        (["extra", "S.java"], .file (Text.encode
          "class S \x7b /** @see C#m() */ void t() \x7b m(); \x7d \x7d"))]
    with settings := { (toOut ["src"] []).settings with
      sample := some (.ofString "smp"), sampleSuffix := "/../../out/../extra/*.java" } }

/-- The second of two builds leaves another page of `C` than the first one, although all is in order:
neither does the output lie in a root nor a root in the output, no other site is asked, both builds
succeed, and no file outside of the output changes. -/
def Wanders (s : Session) (output : Path) : Prop :=
  s.settings.output = some output ∧ s.settings.sites = [] ∧
  (∀ root ∈ s.settings.sources ++ s.settings.sample.toList,
    ¬ resolve s.files.workingDirectory output <+: resolve s.files.workingDirectory root ∧
    ¬ resolve s.files.workingDirectory root <+: resolve s.files.workingDirectory output) ∧
  ∃ g₁ s₁ g₂ s₂, build s = (.ok g₁, s₁) ∧ build s₁ = (.ok g₂, s₂) ∧
    (∀ e ∈ s.files.entries, ¬ resolve s.files.workingDirectory output <+: e.1 →
      s₁.files.get? e.1 = some e.2) ∧
    s₂.files.get? ["out", "types", "C.html"] ≠ s₁.files.get? ["out", "types", "C.html"]

/-- A session wanders if its two builds do when they are run. -/
theorem wanders_of_run {output : Path} (houtput : s.settings.output = some output)
    (hsites : s.settings.sites = [])
    (hapart : ∀ root ∈ s.settings.sources ++ s.settings.sample.toList,
      ¬ resolve s.files.workingDirectory output <+: resolve s.files.workingDirectory root ∧
      ¬ resolve s.files.workingDirectory root <+: resolve s.files.workingDirectory output)
    (hruns : (build s).1.isOk = true ∧ (build (build s).2).1.isOk = true ∧
      (∀ e ∈ s.files.entries, ¬ resolve s.files.workingDirectory output <+: e.1 →
        (build s).2.files.get? e.1 = some e.2) ∧
      (build (build s).2).2.files.get? ["out", "types", "C.html"] ≠
        (build s).2.files.get? ["out", "types", "C.html"]) : Wanders s output := by
  obtain ⟨hbuilds, hbuilds', hkept, hchanges⟩ := hruns
  obtain ⟨g₁, g₂, hfirst, hsecond⟩ := exists_rebuild hbuilds hbuilds'
  exact ⟨houtput, hsites, hapart, g₁, _, g₂, _, hfirst, hsecond, hkept, hchanges⟩

/-- Each of the four sessions wanders. -/
theorem files_of_rebuild_wandering :
    Wanders leavesOutput (.ofString "out") ∧ Wanders leavesOldPages (.ofString "out") ∧
      Wanders leavesSource (.ofString "r/nx/../../out") ∧ Wanders leavesSamples (.ofString "out") := by
  refine ⟨?_, ?_, ?_, ?_⟩
  · exact wanders_of_run rfl rfl (by decide +kernel) (by decide +kernel)
  · exact wanders_of_run rfl rfl (by decide +kernel) (by decide +kernel)
  · exact wanders_of_run rfl rfl (by decide +kernel) (by decide +kernel)
  · exact wanders_of_run rfl rfl (by decide +kernel) (by decide +kernel)

end Apidoc.Build.Session
