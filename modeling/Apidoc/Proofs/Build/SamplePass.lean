import Apidoc.Proofs.Build.Pass
import Apidoc.Proofs.Graph.Record
import Apidoc.Proofs.Sample.Cache

/-!
# `Apidoc.Proofs.Build.SamplePass`: which samples a sample pass collects

A sample pass visits the methods of the exposed types of the wanted files, in file order
(`sampleMethods`). Each method gives its own source as a sample for each of its
references. If every file can be read and the cache is open, the pass succeeds and offers
all of these samples to the cache (`runPass_sampling_of_readable`). It changes nothing
else.

For a key, the sample that stays is the one of the first method with the smallest origin
among those that refer to the key (`find?_of_runPass_sampling`).
-/

set_option autoImplicit false

namespace Apidoc.Build.Collector

open Apidoc.Build.Environment
open Apidoc.Files (Path Tree)
open Apidoc.Graph (CrossReference Member Record)
open Apidoc.Model (CompilationUnit Index Located)
open Apidoc.Proofs (exec exec_bind_ok exec_forM_of_step)
open Apidoc.Sample (Cache)

variable {files : Tree} {paths : List Path} {specified : Option (List Path)}

/-! ### Methods and their samples -/

/-- The sample that a method gives for each of its references. -/
def sampleOf (files : Tree) (m : Member) : Sample.Excerpt where
  origin := ⟨m.scope.source.path.toString, m.declarationLines.1⟩
  code := String.ofList (Sample.Listing.tidy Sample.noiseAnnotations
    (m.declaration.sourceCode (contentOf files m.scope.source.path)))

/-- The keys of the references of a method. -/
def keysOf (m : Member) : List String := m.references.map CrossReference.key

/-- A method gives one sample for all of its references. -/
theorem samplesOf_eq (files : Tree) (m : Member) :
    samplesOf (contentOf files m.scope.source.path) m
      = (keysOf m).map fun key => (key, sampleOf files m) := by
  rw [keysOf, List.map_map]
  rfl

/-- The methods of a type. -/
def methodsOf (files : Tree) (index : Index) (l : Located) : List Member :=
  (Record.ofType index (contentOf files l.source.path) l).methods

/-- The methods that are visited in several files: those of the exposed types. -/
def sampleMethods (files : Tree) (index : Index) (paths : List Path) : List Member :=
  ((declaredTypes files paths).filter (Record.IsExposed ·)).flatMap (methodsOf files index)

/-- The samples that a type at the top of a file gives. -/
def offersOf (files : Tree) (index : Index) (l : Located) : List (String × Sample.Excerpt) :=
  (Record.ofLocated index (contentOf files l.source.path) l).flatMap fun r =>
    r.methods.flatMap (samplesOf (contentOf files l.source.path))

/-- What is offered are the samples of the methods that are visited. -/
theorem flatMap_offersOf (index : Index) (paths : List Path) :
    (topTypes files paths).flatMap (offersOf files index)
      = (sampleMethods files index paths).flatMap fun m =>
          (keysOf m).map fun key => (key, sampleOf files m) := by
  rw [sampleMethods, declaredTypes, List.filter_flatMap, List.flatMap_assoc, List.flatMap_assoc]
  refine List.flatMap_congr fun top htop => ?_
  obtain ⟨howners, htype⟩ := top_of_mem_topTypes htop
  have hexposed : (Index.typesOf top).filter (Record.isReached 1)
      = (Index.typesOf top).filter (Record.IsExposed ·) := by
    refine List.filter_congr fun l hl => ?_
    rw [Bool.eq_iff_iff, Record.isReached_one_iff
      (isType_of_mem_declaredTypes (List.mem_flatMap.mpr ⟨top, htop, hl⟩)), decide_eq_true_eq]
  rw [offersOf, Record.ofLocated_eq_map _ _ htype, howners, List.length_nil, Nat.zero_add, hexposed,
    List.flatMap_map]
  refine List.flatMap_congr fun l hl => ?_
  have hinside := (List.mem_filter.mp hl).1
  rw [Index.typesOf, if_pos htype] at hinside
  -- A nested type is in the file of the type at the top, and so are its methods.
  have hsource : l.source = top.source :=
    Located.source_of_mem_flatten (List.mem_filter.mp hinside).1
  rw [methodsOf, hsource]
  refine List.flatMap_congr fun m hm => ?_
  have hmember : m.scope.source = top.source :=
    (Record.scope_of_mem_members (List.mem_append_right _ hm)).2.1.trans hsource
  rw [← samplesOf_eq, hmember]

/-! ### The pass -/

/-- The context after a sample was offered to its cache. -/
def takeSample (c : Context) (entry : String × Sample.Excerpt) : Context :=
  { c with samples := c.samples.keep entry }

/-- Samples that are offered in turn change the cache only. -/
theorem foldl_takeSample (entries : List (String × Sample.Excerpt)) (c : Context) :
    entries.foldl takeSample c = { c with samples := entries.foldl Cache.keep c.samples } := by
  induction entries generalizing c with
  | nil => rfl
  | cons entry rest ih => rw [List.foldl_cons, ih, List.foldl_cons, takeSample]

/-- An open cache takes the samples of a type that is visited. -/
theorem exec_visit_sampling {index : Index} {l : Located}
    (hread : files.read l.source.path = .ok (contentOf files l.source.path)) {s : Collector}
    (hindex : s.index = some index) (hopen : s.context.samples.isSealed = false) :
    exec (visit files .sampling l) s
      = (.ok (), { s with context := (offersOf files index l).foldl takeSample s.context }) := by
  have hoffer (entry : String × Sample.Excerpt) (t : Collector)
      (ht : t.context.samples.isSealed = false) :
      exec (offer entry) t = (.ok (), { t with context := takeSample t.context entry }) := by
    unfold offer
    rw [exec_bind_ok (Proofs.exec_get t), Cache.put_of_open ht]
    rfl
  have hrun := exec_forM_of_step (fun t : Collector => t.context.samples.isSealed = false)
    (fun t entry => { t with context := takeSample t.context entry }) (x := offer)
    (offersOf files index l)
    (fun entry _ t ht => ⟨hoffer entry t ht, (Cache.isSealed_keep _ _).trans ht⟩) s hopen
  rw [foldl_take] at hrun
  rw [← hrun]
  unfold visit
  rw [exec_bind_ok (Proofs.exec_get s)]
  simp only [hindex, hread]
  rfl

/-- If every file can be read, a sample pass with an open cache succeeds and offers the samples of all
methods that it visits to the cache. -/
theorem runPass_sampling_of_readable (h : Readable files paths) (specified : Option (List Path))
    {c : Context} (hopen : c.samples.isSealed = false) :
    ∃ e, runPass files .sampling paths specified c
      = (.ok e, { c with samples :=
          ((sampleMethods files (indexOf files paths) (wantedPaths paths specified)).flatMap
            fun m => (keysOf m).map fun key => (key, sampleOf files m)).foldl Cache.keep c.samples }) := by
  obtain ⟨e, hrun, -⟩ := runPass_of_items (offersOf files) takeSample
    (fun c => c.samples.isSealed = false) (fun c a hc => (Cache.isSealed_keep _ _).trans hc)
    (fun _ _ hread _ hindex hs => exec_visit_sampling hread hindex hs) h specified (c := c)
    fun _ => hopen
  rw [flatMap_offersOf, foldl_takeSample] at hrun
  exact ⟨e, hrun⟩

/-- The method refers to what the key stands for. -/
def RefersTo (key : String) (m : Member) : Bool := key ∈ keysOf m

/-- Of the samples of several methods, those of the methods that refer to a key are offered for it. -/
theorem find?_foldl_keep_methods (files : Tree) (ms : List Member) (cache : Cache) (key : String) :
    ((ms.flatMap fun m => (keysOf m).map fun k => (k, sampleOf files m)).foldl Cache.keep
        cache).find? key
      = (ms.filter (RefersTo key)).foldl
          (fun kept m => some (Cache.better kept (sampleOf files m))) (cache.find? key) := by
  induction ms generalizing cache with
  | nil => rfl
  | cons m rest ih =>
    rw [List.flatMap_cons, List.foldl_append, ih, Cache.find?_foldl_keep_same]
    by_cases hrefers : key ∈ keysOf m
    · rw [if_pos hrefers, List.filter_cons_of_pos (by simpa [RefersTo] using hrefers),
        List.foldl_cons]
    · rw [if_neg hrefers, List.filter_cons_of_neg (by simpa [RefersTo] using hrefers)]

/-- After a sample pass that began with an empty cache, the sample for a key is that of the first method
with the smallest origin among those that refer to the key, if there are any. -/
theorem find?_of_runPass_sampling {c c' : Context} {e : Environment}
    (hrun : runPass files .sampling paths specified c = (.ok e, c')) (hempty : c.samples = .empty)
    {key : String} {ms : List Member}
    (hms : ms = (sampleMethods files (indexOf files paths) (wantedPaths paths specified)).filter
      (RefersTo key)) (hrefers : ms ≠ []) :
    c'.graph = c.graph ∧ ∃ best, c'.samples.find? key = some (sampleOf files best) ∧
      Cache.FirstSmallest (fun m => (sampleOf files m).origin) ms best := by
  have hopen : c.samples.isSealed = false := by
    rw [hempty]
    rfl
  obtain ⟨e', hsucceeds⟩ := runPass_sampling_of_readable (readable_of_runPass hrun) specified
    hopen
  rw [hsucceeds] at hrun
  cases hrun
  refine ⟨rfl, ?_⟩
  obtain ⟨best, hbest, hsmallest⟩ := Cache.exists_firstSmallest (sampleOf files) hrefers
  refine ⟨best, ?_, hsmallest⟩
  rw [find?_foldl_keep_methods, ← hms, hempty]
  exact hbest

end Apidoc.Build.Collector
