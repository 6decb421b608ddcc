import Apidoc.Proofs.Build.MainPass
import Apidoc.Proofs.Json.Printed
import Apidoc.Proofs.Site.Again
import Apidoc.Site.Navigation

/-!
# `Apidoc.Proofs.Site.Navigation`: entries of navigation lead to pages

The page of a type is named after its qualified name. An entry of navigation has the package and the
rest of the name instead, and puts the two together again (`Record.lead_append_name`). What a browser
reads is the graph, because the script of a graph is read as it was printed (`root?_script`). So the
links are the names of the pages, in graph order, and the files have these names
(`links_open_pages`).
-/

set_option autoImplicit false

namespace Apidoc

open Apidoc.Build (Collector Context Environment)
open Apidoc.Files (Location Path Tree resolve resolve_child)
open Apidoc.Graph (Record Symbols)
open Apidoc.Model.CompilationUnit (lead)
open Apidoc.Proofs (exec mapM_congr)

namespace Graph

/-- The lead of the package is what was taken from the name. -/
theorem Record.lead_append_name {r : Record}
    (h : (lead r.package).toList <+: r.qualifiedName.toList) :
    lead r.package ++ r.name = r.qualifiedName := by
  unfold lead Record.name at *
  by_cases hpackage : r.package = ""
  · rw [if_pos hpackage, if_pos hpackage, String.empty_append]
  · rw [if_neg hpackage] at h
    rw [if_neg hpackage, if_neg hpackage]
    obtain ⟨rest, hrest⟩ := h
    have hlength : (r.package ++ ".").toList.length = r.package.length + 1 := by
      rw [String.toList_append, List.length_append, String.length_toList]
      rfl
    rw [← String.toList_inj, String.toList_append, String.toList_ofList, ← hrest,
      List.drop_left' hlength]

/-- What navigation sees of a record. -/
def Record.entry (r : Record) : Json :=
  .object
    [("name", .string r.name), ("packageName", .string r.package), ("type", .string r.label.text),
      ("modifiers", .array
        ((Symbols.inOrder (r.declaration.modifiers.map (·.text))).map .string))]

/-- A graph has no numbers, and its objects have distinct names. -/
theorem Symbols.isPlain_toJson (g : Symbols) : g.toJson.IsPlain := by
  have hstrings : ∀ names : List String, (Json.array (names.map .string)).IsPlain := fun names =>
    Json.isPlain_map fun name _ => Json.isPlain_string name
  have hentries : (Json.array (g.types.map Record.entry)).IsPlain := by
    refine Json.isPlain_map fun r _ => ?_
    rw [Record.entry, Json.IsPlain, Json.havePlain_iff]
    refine ⟨by simp, ?_⟩
    simp only [List.forall_mem_cons]
    exact ⟨Json.isPlain_string _, Json.isPlain_string _, Json.isPlain_string _, hstrings _,
      List.forall_mem_nil _⟩
  rw [toJson, Json.IsPlain, Json.havePlain_iff]
  refine ⟨by simp, ?_⟩
  simp only [List.forall_mem_cons]
  exact ⟨hstrings _, hstrings _, hstrings _, hentries, List.forall_mem_nil _⟩

/-- Navigation sees the records in graph order. -/
theorem Symbols.types_toJson (g : Symbols) :
    g.toJson.member? "types" = some (.array (g.types.map Record.entry)) := rfl

end Graph

namespace Site.Navigation

/-- The script of a graph sets the graph. -/
theorem root?_script (g : Symbols) : root? g.script = some g.toJson := by
  have htext : g.script.toList =
      "const root = ".toList ++ (g.toJson.print.toList ++ ";\n".toList) := by
    show ("const root = " ++ g.toJson.print ++ ";\n").toList = _
    simp only [String.toList_append, List.append_assoc]
  have htail : (g.toJson.print.toList ++ ";\n".toList).reverse =
      "\n;".toList ++ g.toJson.print.toList.reverse := by
    rw [List.reverse_append]
    rfl
  have hread : Json.read g.toJson.print.toList.reverse.reverse = .ok g.toJson := by
    rw [List.reverse_reverse, Json.read_print g.isPlain_toJson]
  rw [root?, Text.dropLead?_eq_some_iff.mpr htext, Option.bind_eq_bind, Option.bind_some,
    Text.dropLead?_eq_some_iff.mpr htail, Option.bind_some, hread]
  rfl

/-- The entry of a record leads to the page of the record, if the name begins with the lead of the
package. -/
theorem pageName?_entry {r : Record} (h : (lead r.package).toList <+: r.qualifiedName.toList) :
    pageName? r.entry = some (r.qualifiedName ++ ".html") := by
  rw [← r.lead_append_name h]
  rfl

/-- The entries of a graph lead to the pages of its records. -/
theorem links?_script {g : Symbols}
    (h : ∀ r ∈ g.types, (lead r.package).toList <+: r.qualifiedName.toList) (base : String) :
    links? base g.script =
      some (g.types.map fun r => base ++ "types/" ++ (r.qualifiedName ++ ".html")) := by
  have hlinks : (g.types.mapM fun r => do return base ++ "types/" ++ (← pageName? r.entry)) =
      g.types.mapM (m := Option) fun r =>
        pure (base ++ "types/" ++ (r.qualifiedName ++ ".html")) := by
    refine mapM_congr fun r hr => ?_
    rw [pageName?_entry (h r hr)]
    rfl
  rw [links?, root?_script, Option.bind_eq_bind, Option.bind_some, g.types_toJson]
  dsimp only
  rw [List.mapM_map]
  exact hlinks.trans List.mapM_pure

/-- The links to different pages are different. -/
theorem links_nodup {names : List String} (h : names.Nodup) (base : String) :
    (names.map fun name => base ++ "types/" ++ (name ++ ".html")).Nodup := by
  refine h.map fun name other heq => ?_
  rw [← String.toList_inj] at heq
  simp only [String.toList_append] at heq
  exact String.toList_inj.mp (List.append_cancel_right (List.append_cancel_left heq))

section Written

variable {g : Symbols} {output : Path} {site : Info} {press : Tree → Press} {t t' : Tree}
  {written : List Path}

/-- In a written site the script of the graph is read as it was made. -/
theorem read_script (hfiles : SiteFiles output g site press t t')
    (h : exec (writeSite output g site press) t = (.ok written, t')) :
    t'.read (output.child "root.js") = .ok (Text.encode g.script) := by
  refine Tree.read_of_isFile (isFile_script_of_writeSite h) ?_
  rw [hfiles.workingDirectory, resolve_child _ _ (by decide)]
  exact hfiles.fixed ("root.js", g.script) (by simp [fixedFiles])

/-- In a written site the page of a record is read as it was made. -/
theorem read_page (hfiles : SiteFiles output g site press t t')
    (h : exec (writeSite output g site press) t = (.ok written, t')) {r : Record}
    (hr : r ∈ g.types) (hslash : '/' ∉ r.qualifiedName.toList) :
    ∃ moment text, (press moment).typePage r = .ok text ∧
      t'.read (pageOf output r.qualifiedName) = .ok (Text.encode text) := by
  obtain ⟨before, after, hsplit⟩ := List.append_of_mem hr
  obtain ⟨moment, text, htext, hfile, -, -⟩ := hfiles.page before r after hsplit
  refine ⟨moment, text, htext, Tree.read_of_isFile (isFile_page_of_writeSite h hr).2 ?_⟩
  rw [hfiles.workingDirectory, resolve_page _ _ hslash]
  exact hfile

end Written

/-- Every entry of navigation opens its page.

Take the graph of a main pass over any files. What a browser reads in the script of the graph are
links, one for each record in graph order, to the page of that name in the directory `types`. No two
links are the same. If a site is written for the graph, to a sound file system, the pages that are
written have these names, `root.js` has the script, and the file that an entry leads to is the page of
its record. -/
theorem links_open_pages {files : Tree} {paths : List Path} {c c' : Context} {e : Environment}
    (hrun : Collector.runPass files .documenting paths none c = (.ok e, c'))
    (fresh : c.graph = .empty) (base : String) :
    let g := c'.graph.sort.connect
    links? base g.script =
      some (g.types.map fun r => base ++ "types/" ++ (r.qualifiedName ++ ".html")) ∧
    (g.types.map fun r => base ++ "types/" ++ (r.qualifiedName ++ ".html")).Nodup ∧
    ∀ (output : Path) (site : Info) (press : Tree → Press) (t t' : Tree) (written : List Path),
      t.IsSound → (writeSite output g site press).exec t = (.ok written, t') →
      written = g.types.map (fun r => (typesDirectory output).child (r.qualifiedName ++ ".html")) ∧
      t'.read (output.child "root.js") = .ok (Text.encode g.script) ∧
      ∀ r ∈ g.types, ∃ moment text, (press moment).typePage r = .ok text ∧
        t'.read ((typesDirectory output).child (r.qualifiedName ++ ".html")) =
          .ok (Text.encode text) := by
  intro g
  have hnames := fun r hr => Collector.name_of_mem_finished hrun fresh (r := r) hr
  have hdistinct := Collector.distinct_finished hrun fresh
  refine ⟨links?_script (fun r hr => (hnames r hr).1) base, ?_, ?_⟩
  · have hlinks := links_nodup hdistinct base
    rw [List.map_map] at hlinks
    exact hlinks
  · intro output site press t t' written hsound hwrite
    -- A page whose name has a slash is not written, so there is none.
    obtain ⟨s, hprepared, -, hpages⟩ := writeSite_stages (fun _ => hsound) hwrite
    have hslash := not_mem_slash_of_pages (fun r hr => (hnames r hr).2) (isFlat_putFiles hprepared)
      hpages
    obtain ⟨hwritten, hfiles⟩ := siteFiles_of_writeSite hsound hslash hdistinct hwrite
    have hpath : ∀ r ∈ g.types, pageOf output r.qualifiedName =
        (typesDirectory output).child (r.qualifiedName ++ ".html") := by
      intro r hr
      rw [pageOf, ofString_page (hslash r hr)]
      rfl
    refine ⟨hwritten.trans (List.map_congr_left hpath), read_script hfiles hwrite, fun r hr => ?_⟩
    rw [← hpath r hr]
    exact read_page hfiles hwrite hr (hslash r hr)

/-- A type in no package, and a type in a package with another one inside. -/
def outsideAndInside : Tree where
  entries :=
    [(["D.java"], .file (Text.encode "class D \x7b\x7d")),
      (["P.java"], .file (Text.encode "package a.b; class P \x7b class Q \x7b\x7d \x7d"))]
  workingDirectory := []

/-- The files of the types. -/
def outsideAndInsidePaths : List Path := [.ofString "D.java", .ofString "P.java"]

/-- The graph of the types. -/
def outsideAndInsideGraph : Symbols :=
  (Collector.mainRecords outsideAndInside outsideAndInsidePaths).foldl Symbols.add .empty

/-- The types come in order, and none is below another one. -/
theorem isFinished_outsideAndInside : outsideAndInsideGraph.IsFinished where
  modules := by decide +kernel
  packages := by decide +kernel
  types := by decide +kernel
  connected := by decide +kernel

/-- The main pass over the files finds these types, and a site can be written for them. -/
theorem runPass_outsideAndInside : ∃ e c' written t',
    Collector.runPass outsideAndInside .documenting outsideAndInsidePaths none (.initial []) =
      (.ok e, c') ∧
    c'.graph.sort.connect.types.map Record.qualifiedName = ["D", "a.b.P", "a.b.P.Q"] ∧
    (writeSite (.ofString "out") c'.graph.sort.connect barePress.site fun _ => barePress).exec
      outsideAndInside = (.ok written, t') := by
  have hread : Environment.Readable outsideAndInside outsideAndInsidePaths := by decide +kernel
  obtain ⟨e, hrun, -⟩ := Collector.runPass_of_readable hread (.initial [])
  have hok : ((writeSite (.ofString "out") outsideAndInsideGraph barePress.site
      fun _ => barePress).exec outsideAndInside).1.isOk = true := by decide +kernel
  rcases hwrite : (writeSite (.ofString "out") outsideAndInsideGraph barePress.site
      fun _ => barePress).exec outsideAndInside with ⟨result, t'⟩
  rw [hwrite] at hok
  cases result with
  | error failure => cases hok
  | ok written =>
    refine ⟨e, _, written, t', hrun, ?_⟩
    -- Sorting and connecting have nothing to do.
    have hgraph : ∀ g, g = outsideAndInsideGraph → g.sort.connect = outsideAndInsideGraph := by
      rintro g rfl
      rw [isFinished_outsideAndInside.sort_eq, isFinished_outsideAndInside.connect_eq]
    rw [hgraph _ (Collector.context_of_runPass hrun).2]
    exact ⟨by decide +kernel, hwrite⟩

/-- The links of the three types lead to the three pages of a written site, one of them to the page of
the inner type. -/
theorem links_open_pages_outsideAndInside :
    ∃ e c' written t', Collector.runPass outsideAndInside .documenting outsideAndInsidePaths none
        (.initial []) = (.ok e, c') ∧
      outsideAndInside.IsSound ∧
      (writeSite (.ofString "out") c'.graph.sort.connect barePress.site fun _ => barePress).exec
        outsideAndInside = (.ok written, t') ∧
      links? "../" c'.graph.sort.connect.script =
        some ["../types/D.html", "../types/a.b.P.html", "../types/a.b.P.Q.html"] ∧
      written = [.ofString "out/types/D.html", .ofString "out/types/a.b.P.html",
        .ofString "out/types/a.b.P.Q.html"] ∧
      ∃ r ∈ c'.graph.sort.connect.types, r.qualifiedName = "a.b.P.Q" ∧
        ∃ text, barePress.typePage r = .ok text ∧
          t'.read (.ofString "out/types/a.b.P.Q.html") = .ok (Text.encode text) := by
  obtain ⟨e, c', written, t', hrun, hnames, hwrite⟩ := runPass_outsideAndInside
  have hsound : outsideAndInside.IsSound := ⟨by decide, rfl, by decide⟩
  obtain ⟨hlinks, -, hsite⟩ := links_open_pages hrun rfl "../"
  obtain ⟨hwritten, -, hpages⟩ := hsite _ _ _ _ _ _ hsound hwrite
  -- The names of the types say what the links and the pages are.
  have hmap : ∀ {α : Type} (f : String → α), (c'.graph.sort.connect.types.map fun r =>
      f r.qualifiedName) = [f "D", f "a.b.P", f "a.b.P.Q"] := by
    intro α f
    exact List.map_map.symm.trans (congrArg (List.map f) hnames)
  have hinner : "a.b.P.Q" ∈ c'.graph.sort.connect.types.map Record.qualifiedName := by
    rw [hnames]
    decide
  obtain ⟨r, hr, hname⟩ := List.mem_map.mp hinner
  obtain ⟨moment, text, htext, hread⟩ := hpages r hr
  rw [hname] at hread
  refine ⟨e, c', written, t', hrun, hsound, hwrite, ?_, ?_, r, hr, hname, text, htext, hread⟩
  · exact hlinks.trans (congrArg some (hmap fun name => "../" ++ "types/" ++ (name ++ ".html")))
  · exact hwritten.trans (hmap fun name => (typesDirectory (.ofString "out")).child (name ++ ".html"))

end Site.Navigation

end Apidoc
