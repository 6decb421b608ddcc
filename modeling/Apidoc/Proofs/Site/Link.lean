import Apidoc.Model.Reference
import Apidoc.Proofs.Build.MainPass
import Apidoc.Proofs.Site.Writer

/-!
# `Apidoc.Proofs.Site.Link`: which links to scanned types lead to a page

A name leads to a page of this site if the index of the main pass knows it, and the index
knows every declared type. The graph has records for some of them only: a private type
inside another one has none, and neither has what lies in it. The index and the graph
come from the same declarations (`contains_index_iff`, `contains_finished_iff`), which
tells the links that lead to a page from those that do not (`page_of_link_iff_exposed`).
-/

set_option autoImplicit false

namespace Apidoc.Build.Collector

open Apidoc.Build.Environment
open Apidoc.Files (Path Tree)
open Apidoc.Graph (Record Symbols)
open Apidoc.Model (Resolver Scope)
open Apidoc.Site (pageOf writeSite)

variable {files : Tree} {paths : List Path} {c c' : Context} {e : Environment}

/-- The index of the main pass knows the names of all declared types. -/
theorem contains_index_iff (hrun : runPass files .documenting paths none c = (.ok e, c'))
    (name : String) : c'.index.contains name = true ↔
      ∃ l ∈ declaredTypes files paths, l.declaration.qualifiedName = name := by
  rw [(context_of_runPass hrun).1]
  exact Model.Index.contains_addAll (topTypes files paths) name

/-- The finished graph has the names of all declared types that are exposed. -/
theorem contains_finished_iff (hrun : runPass files .documenting paths none c = (.ok e, c'))
    (fresh : c.graph = .empty) (name : String) : c'.graph.sort.connect.contains name = true ↔
      ∃ l ∈ declaredTypes files paths,
        l.declaration.qualifiedName = name ∧ Record.IsExposed l := by
  rw [Symbols.contains_connect_sort, (context_of_runPass hrun).2, fresh,
    Symbols.contains_foldl_add, exists_mem_mainRecords_iff]
  exact or_iff_right Bool.false_ne_true

/-- The main pass over the two files succeeds, with the index of their types. -/
theorem runPass_dogFirst : ∃ e c', runPass dogAndAnimal .documenting dogFirst none (.initial [])
    = (.ok e, c') ∧ c'.index = indexOf dogAndAnimal dogFirst := by
  have hread : Readable dogAndAnimal dogFirst := by
    intro path hpath
    rcases List.mem_cons.mp hpath with rfl | hpath
    · exact ⟨_, rfl⟩
    · rw [List.mem_singleton.mp hpath]
      exact ⟨_, rfl⟩
  obtain ⟨e, hrun, -⟩ := runPass_of_readable hread (.initial [])
  exact ⟨e, _, hrun, (context_of_runPass hrun).1⟩

/-- A link to a scanned type leads to its page exactly if a type of that name is declared of which no
level is private, the top level left out. Take a name that a resolver finds in the index of the main
pass. It belongs to a declared type, and the graph has a record of that name if one such type is
exposed. Then a site that was written has the page that the link leads to. -/
theorem page_of_link_iff_exposed (fresh : c.graph = .empty)
    (hrun : runPass files .documenting paths none c = (.ok e, c')) (r : Resolver)
    (hindex : r.index = c'.index) {written name : String} {scope : Option Scope}
    (hlink : r.classify written scope = ⟨.internal, name⟩) (hknown : r.index.contains name = true) :
    (∀ root, (r.classify written scope).href none root = some (root ++ "types/" ++ name ++ ".html")) ∧
    (∃ l ∈ declaredTypes files paths, l.declaration.qualifiedName = name) ∧
    (c'.graph.sort.connect.contains name = true ↔
      ∃ l ∈ declaredTypes files paths, l.declaration.qualifiedName = name ∧ Record.IsExposed l) ∧
    (c'.graph.sort.connect.contains name = true →
      ∀ output site press t pages t',
        (writeSite output c'.graph.sort.connect site press).exec t = (.ok pages, t') →
        pageOf output name ∈ pages ∧ t'.isFile (pageOf output name) = .ok true) := by
  refine ⟨fun root => ?_, ?_, contains_finished_iff hrun fresh name, fun hrecord => ?_⟩
  -- Without a member the fragment is empty.
  · rw [hlink]
    exact congrArg some (String.append_empty ..)
  -- The index knows declared types only.
  · rw [hindex] at hknown
    exact (contains_index_iff hrun name).mp hknown
  -- The page of the record is one of those that were written.
  · intro output site press t pages t' hsite
    obtain ⟨record, hmem, rfl⟩ := Symbols.contains_iff.mp hrecord
    exact Site.isFile_page_of_writeSite hsite hmem

/-- A link to the class that is extended leads to its page. -/
theorem page_of_link_iff_exposed_animal :
    ∃ e c', runPass dogAndAnimal .documenting dogFirst none (.initial []) = (.ok e, c') ∧
      Resolver.classify ⟨c'.index, [], fun _ => none, none⟩ "Animal" none = ⟨.internal, "Animal"⟩ ∧
      c'.index.contains "Animal" = true ∧ c'.graph.sort.connect.contains "Animal" = true := by
  obtain ⟨e, c', hrun, hindex⟩ := runPass_dogFirst
  have hlink : Resolver.classify ⟨c'.index, [], fun _ => none, none⟩ "Animal" none
      = ⟨.internal, "Animal"⟩ := by
    rw [hindex]
    decide +kernel
  have hknown : c'.index.contains "Animal" = true := by
    rw [hindex]
    decide +kernel
  have hexposed : ∃ l ∈ declaredTypes dogAndAnimal dogFirst,
      l.declaration.qualifiedName = "Animal" ∧ Record.IsExposed l := by decide +kernel
  obtain ⟨-, -, hrecord, -⟩ := page_of_link_iff_exposed rfl hrun
    ⟨c'.index, [], fun _ => none, none⟩ rfl hlink hknown
  exact ⟨e, c', hrun, hlink, hknown, hrecord.mpr hexposed⟩

/-- A link to the private class inside leads nowhere: the index knows it, and the graph has no record
of it. -/
theorem private_link_without_record :
    ∃ e c', runPass dogAndAnimal .documenting dogFirst none (.initial []) = (.ok e, c') ∧
      Resolver.classify ⟨c'.index, [], fun _ => none, none⟩ "Dog.Tail" none
        = ⟨.internal, "Dog.Tail"⟩ ∧
      c'.index.contains "Dog.Tail" = true ∧
      ¬ c'.graph.sort.connect.contains "Dog.Tail" = true := by
  obtain ⟨e, c', hrun, hindex⟩ := runPass_dogFirst
  refine ⟨e, c', hrun, ?_, ?_, ?_⟩
  · rw [hindex]
    decide +kernel
  · rw [hindex]
    decide +kernel
  -- The only declaration of that name is private.
  · rw [contains_finished_iff hrun rfl]
    decide +kernel

end Apidoc.Build.Collector
