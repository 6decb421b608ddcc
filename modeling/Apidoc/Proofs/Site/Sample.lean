import Apidoc.Proofs.Build.MainPass
import Apidoc.Proofs.Build.SamplePass
import Apidoc.Proofs.Site.Page

/-!
# `Apidoc.Proofs.Site.Sample`: samples on the pages of what they refer to

The sample pass keeps one sample for each key, closes the cache, and the main pass leaves
the cache alone. The page of a type looks up two keys for each member: one with its
signature, and one with its name. So the section of a member has the sample of the first
method with the smallest origin, for either key (`sample_on_page`).

A private type at the top of a file takes part like any other: only nested types are left
out for being private (`private_top_sample_on_page`).
-/

set_option autoImplicit false

namespace Apidoc.Site.Press

open Apidoc.Graph (Member Record)
open Apidoc.Html (escape)
open Apidoc.Sample (Cache)

/-- The part of a page that shows a sample. -/
def sampleLine (code : String) : String :=
  s!"<pre class=\"sample\"><code class=\"language-java\">{escape code}</code></pre>"

/-- The samples of a member are shown in turn. -/
theorem sampleBlocks_of_some {p : Press} {cache : Cache} (h : p.samples = some cache) (r : Record)
    (m : Member) : p.sampleBlocks r m
      = (cache.samplesFor r.qualifiedName m.declaration.name m.id).map sampleLine := by
  unfold sampleBlocks
  rw [h]
  rfl

/-- A listing that is kept for the signature or for the name of a member is one of its samples. -/
theorem mem_samplesFor {cache : Cache} {type name signature s : String} {sample : Sample.Excerpt}
    (hs : s = signature ∨ s = name) (h : cache.find? (type ++ "#" ++ s) = some sample) :
    sample.code ∈ cache.samplesFor type name signature := by
  have hget : cache.get? (type ++ "#" ++ s) = some sample.code := by
    rw [Cache.get?, h]
    rfl
  rw [Cache.samplesFor, List.mem_eraseDups, List.mem_filterMap]
  refine ⟨_, ?_, hget⟩
  rcases hs with rfl | rfl
  · exact List.mem_cons_self
  · exact List.mem_cons_of_mem _ List.mem_cons_self

/-- The section of a member has the sample that is kept for its signature or its name. -/
theorem sampleLine_of_typePage {p : Press} {cache : Cache} (h : p.samples = some cache) {r : Record}
    {m : Member} (hm : m ∈ r.visibleMembers) {s : String} (hs : s = m.id ∨ s = m.declaration.name)
    {sample : Sample.Excerpt} (hfind : cache.find? (r.qualifiedName ++ "#" ++ s) = some sample)
    {text : String} (htext : p.typePage r = .ok text) :
    ∃ ls, p.memberSection r m = .ok ls ∧ HasLines p text ls ∧ sampleLine sample.code ∈ ls := by
  obtain ⟨ls, hls, hlines⟩ := hasLines_of_typePage htext hm
  obtain ⟨header, comment, -, hparts⟩ := memberSection_inv hls
  have hblock : sampleLine sample.code ∈ p.sampleBlocks r m := by
    rw [sampleBlocks_of_some h]
    exact List.mem_map_of_mem (mem_samplesFor hs hfind)
  refine ⟨ls, hls, hlines, ?_⟩
  rw [hparts]
  simp only [List.mem_cons, List.mem_append, hblock, true_or, or_true]

end Apidoc.Site.Press

namespace Apidoc.Build.Collector

open Apidoc.Build.Environment
open Apidoc.Files (Path Tree)
open Apidoc.Graph (Member Record)
open Apidoc.Sample (Cache)
open Apidoc.Site (Press)

variable {files files' : Tree} {paths sources : List Path} {specified : Option (List Path)}
  {c c₁ c₂ c₃ : Context} {e e' : Environment}

/-- Samples reach their page. Take a sample pass that begins with an empty cache, close its cache, and
run a main pass that begins with it. For a visible member of a record, let some method that the sample
pass visits refer to the type of the record and to the signature or the name of the member. Then there
is a first method with the smallest origin among those, and the section of the member on the page of the
type shows its source. -/
theorem sample_on_page (hempty : c.samples = .empty)
    (hsampling : runPass files .sampling paths specified c = (.ok e, c₁))
    (hclosed : c₂.samples = c₁.samples.close)
    (hmain : runPass files' .documenting sources none c₂ = (.ok e', c₃))
    (t : Record) {m : Member} (hm : m ∈ t.visibleMembers) {s : String}
    (hs : s = m.id ∨ s = m.declaration.name)
    (hrefers : ∃ method ∈ sampleMethods files (indexOf files paths) (wantedPaths paths specified),
      ∃ r ∈ method.references, r.key = t.qualifiedName ++ "#" ++ s) :
    ∃ best, Cache.FirstSmallest (fun method => (sampleOf files method).origin)
        ((sampleMethods files (indexOf files paths) (wantedPaths paths specified)).filter
          (RefersTo (t.qualifiedName ++ "#" ++ s))) best ∧
      ∀ p : Press, p.samples = some c₃.samples →
        (p.renderer.FindsSamples → ∃ text, p.typePage t = .ok text) ∧
        ∀ text, p.typePage t = .ok text → ∃ ls, p.memberSection t m = .ok ls ∧ p.HasLines text ls ∧
          Press.sampleLine (sampleOf files best).code ∈ ls := by
  have hms : (sampleMethods files (indexOf files paths) (wantedPaths paths specified)).filter
      (RefersTo (t.qualifiedName ++ "#" ++ s)) ≠ [] := by
    obtain ⟨method, hmethod, r, hr, hkey⟩ := hrefers
    refine List.ne_nil_of_mem (List.mem_filter.mpr ⟨hmethod, ?_⟩)
    exact decide_eq_true (List.mem_map.mpr ⟨r, hr, hkey⟩)
  obtain ⟨-, best, hfind, hsmallest⟩ := find?_of_runPass_sampling hsampling hempty rfl hms
  -- Closing the cache and the main pass leave what it holds.
  have hsame : c₃.samples = c₁.samples.close := by
    have hsame := samples_runPass files' sources c₂
    rw [hmain] at hsame
    exact hsame.trans hclosed
  have hkept : c₃.samples.find? (t.qualifiedName ++ "#" ++ s) = some (sampleOf files best) := by
    rw [hsame]
    exact hfind
  refine ⟨best, hsmallest, fun p hp => ⟨fun h => Press.typePage_ok h t, fun text htext => ?_⟩⟩
  exact Press.sampleLine_of_typePage hp hm hs hkept htext

/-- Two classes with a method that refers to the same method, and the class of that method. The first
class stands at the top of its file and is private. -/
def twoSamples : Tree where
  entries :=
    [(["A.java"], .file (Text.encode
        "private class A \x7b\n/** @see Q#m() */\nvoid first() \x7b\x7d\n\x7d")),
      (["B.java"], .file (Text.encode
        "class B \x7b\n/** @see Q#m() */\nvoid second() \x7b\x7d\n\x7d")),
      (["Q.java"], .file (Text.encode "class Q \x7b public void m() \x7b\x7d \x7d"))]
  workingDirectory := []

/-- The files of the two classes with samples. -/
def samplePaths : List Path := [.ofString "A.java", .ofString "B.java"]

/-- The file of the class with the method that they refer to. -/
def sourcePaths : List Path := [.ofString "Q.java"]

/-- The methods that the sample pass visits. -/
def twoSamplesMethods : List Member :=
  sampleMethods twoSamples (indexOf twoSamples (samplePaths ++ sourcePaths))
    (wantedPaths (samplePaths ++ sourcePaths) (some samplePaths))

/-- The samples that stay. -/
def twoSamplesKept : Cache :=
  (twoSamplesMethods.flatMap fun m => (keysOf m).map fun key => (key, sampleOf twoSamples m)).foldl
    Cache.keep .empty

/-- The passes succeed one after the other. The class with the method that is referred to has a
record. -/
theorem runPass_twoSamples :
    ∃ e c₁ e' c₂, runPass twoSamples .sampling (samplePaths ++ sourcePaths) (some samplePaths)
        (.initial []) = (.ok e, c₁) ∧
      c₁.samples = twoSamplesKept ∧
      runPass twoSamples .documenting sourcePaths none { c₁ with samples := c₁.samples.close }
        = (.ok e', c₂) ∧
      ∃ t ∈ c₂.graph.sort.connect.types, t.qualifiedName = "Q" ∧
        t.visibleMembers.map (fun m => (m.id, m.declaration.name)) = [("m()", "m")] := by
  obtain ⟨e, c₁, hsampling, hsamples, hfresh⟩ : ∃ e c₁, runPass twoSamples .sampling
      (samplePaths ++ sourcePaths) (some samplePaths) (.initial []) = (.ok e, c₁) ∧
      c₁.samples = twoSamplesKept ∧
      c₁.graph = .empty := by
    have hread : Readable twoSamples (samplePaths ++ sourcePaths) := by decide +kernel
    obtain ⟨e, hsampling⟩ := runPass_sampling_of_readable hread (some samplePaths)
      (c := .initial []) rfl
    exact ⟨e, _, hsampling, rfl, rfl⟩
  have hsources : Readable twoSamples sourcePaths := by decide +kernel
  have hrecord : (mainRecords twoSamples sourcePaths).map (fun t => (t.qualifiedName,
      t.visibleMembers.map fun m => (m.id, m.declaration.name))) = [("Q", [("m()", "m")])] := by
    decide +kernel
  obtain ⟨r, hrecords, hr⟩ := List.map_eq_singleton_iff.mp hrecord
  obtain ⟨e', hmain, -⟩ := runPass_of_readable hsources
    { c₁ with samples := c₁.samples.close }
  obtain ⟨names, ht⟩ := exists_withSubtypes_mem_finished_of_one hmain hfresh hrecords
  exact ⟨e, c₁, e', _, hsampling, hsamples, hmain, _, ht, congrArg Prod.fst hr,
    congrArg Prod.snd hr⟩

/-- What a page is made with after the passes. -/
def pressOf (c : Context) : Press := { Press.ofIndex c.index with samples := some c.samples }

/-- The method that is referred to has a sample on its page. -/
theorem sample_on_page_of_two :
    ∃ e c₁ e' c₂, runPass twoSamples .sampling (samplePaths ++ sourcePaths) (some samplePaths)
        (.initial []) = (.ok e, c₁) ∧
      runPass twoSamples .documenting sourcePaths none { c₁ with samples := c₁.samples.close }
        = (.ok e', c₂) ∧
      (∃ method ∈ twoSamplesMethods, ∃ r ∈ method.references, r.key = "Q#m()") ∧
      ∃ t ∈ c₂.graph.sort.connect.types, t.qualifiedName = "Q" ∧
        ∃ m ∈ t.visibleMembers, m.id = "m()" ∧
          ∃ best, Cache.FirstSmallest (fun method => (sampleOf twoSamples method).origin)
              (twoSamplesMethods.filter (RefersTo "Q#m()")) best ∧
            ∃ text ls, (pressOf c₂).typePage t = .ok text ∧ (pressOf c₂).HasLines text ls ∧
              Press.sampleLine (sampleOf twoSamples best).code ∈ ls := by
  obtain ⟨e, c₁, e', c₂, hsampling, -, hmain, t, ht, hname, hmembers⟩ := runPass_twoSamples
  obtain ⟨m, hmembers, hm⟩ := List.map_eq_singleton_iff.mp hmembers
  have hid : m.id = "m()" := congrArg Prod.fst hm
  have hvisible : m ∈ t.visibleMembers := hmembers ▸ List.mem_singleton_self m
  have hrefers : ∃ method ∈ twoSamplesMethods, ∃ r ∈ method.references, r.key = "Q#m()" := by
    decide +kernel
  obtain ⟨best, hbest, hpage⟩ := sample_on_page rfl hsampling rfl hmain t hvisible (s := "m()")
    (.inl hid.symm) (by rw [hname]; exact hrefers)
  rw [hname] at hbest
  obtain ⟨hpages, hsection⟩ := hpage (pressOf c₂) rfl
  obtain ⟨text, htext⟩ := hpages nofun
  obtain ⟨ls, -, hls, hsample⟩ := hsection text htext
  exact ⟨e, c₁, e', c₂, hsampling, hmain, hrefers, t, ht, hname, m, hvisible, hid, best, hbest,
    text, ls, htext, hls, hsample⟩

/-- A private class at the top of a file gives samples too. Of the two methods, the one in the class that
is not private gives no sample, because the file of the private class comes first. -/
theorem private_top_sample_on_page :
    ∃ e c₁ e' c₂, runPass twoSamples .sampling (samplePaths ++ sourcePaths) (some samplePaths)
        (.initial []) = (.ok e, c₁) ∧
      runPass twoSamples .documenting sourcePaths none { c₁ with samples := c₁.samples.close }
        = (.ok e', c₂) ∧
      (twoSamplesMethods.filter (RefersTo "Q#m()")).map
          (fun method => (method.scope.chain.map (·.modifiers), (sampleOf twoSamples method).code))
        = [([[], [.privateAccess]], "void first() \x7b\x7d"),
          ([[], []], "void second() \x7b\x7d")] ∧
      ∃ t ∈ c₂.graph.sort.connect.types, t.qualifiedName = "Q" ∧
        ∃ m ∈ t.visibleMembers, m.id = "m()" ∧
          (pressOf c₂).sampleBlocks t m = [Press.sampleLine "void first() \x7b\x7d"] := by
  obtain ⟨e, c₁, e', c₂, hsampling, hsamples, hmain, t, ht, hname, hmembers⟩ := runPass_twoSamples
  obtain ⟨m, hmembers, hm⟩ := List.map_eq_singleton_iff.mp hmembers
  have hid : m.id = "m()" := congrArg Prod.fst hm
  refine ⟨e, c₁, e', c₂, hsampling, hmain, by decide +kernel, t, ht, hname, m,
    hmembers ▸ List.mem_singleton_self m, hid, ?_⟩
  have hsamples : c₂.samples = twoSamplesKept.close := by
    have hsame := samples_runPass twoSamples sourcePaths { c₁ with samples := c₁.samples.close }
    rw [hmain] at hsame
    exact hsame.trans (congrArg Cache.close hsamples)
  have hkept : twoSamplesKept.close.samplesFor "Q" "m" "m()" = ["void first() \x7b\x7d"] := by
    decide +kernel
  have hdeclared : m.declaration.name = "m" := congrArg Prod.snd hm
  rw [Press.sampleBlocks_of_some rfl, hname, hid, hdeclared, hsamples, hkept]
  rfl

end Apidoc.Build.Collector
