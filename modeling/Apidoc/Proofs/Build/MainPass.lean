import Apidoc.Proofs.Build.Pass
import Apidoc.Proofs.Graph.Symbols
import Apidoc.Proofs.Model.Name

/-!
# `Apidoc.Proofs.Build.MainPass`: what the main pass leaves behind

If every file can be read, the main pass succeeds, and it adds the records of the types
at the top of the files, one after the other (`runPass_of_readable`). It leaves the
samples alone (`samples_runPass`).

The order in which the files are given decides the order in which the records are added,
and nothing else. Sorting takes that away too, so the finished graph does not depend on
it (`finished_graph_eq_of_perm`).
-/

set_option autoImplicit false

namespace Apidoc.Build

open Apidoc.Build.Environment
open Apidoc.Files (Path Tree)
open Apidoc.Graph (Record Symbols)
open Apidoc.Model (CompilationUnit Index Located)
open Apidoc.Proofs (exec exec_bind_ok)

/-! ### Adding records -/

namespace Context

/-- Adding a record adds it to the graph. A duplicate is added to neither. -/
theorem graph_addRecord (c : Context) (r : Record) : (c.addRecord r).graph = c.graph.add r := by
  unfold addRecord Symbols.add
  split <;> rfl

/-- Adding records adds them to the graph. -/
theorem graph_foldl_addRecord (rs : List Record) (c : Context) :
    (rs.foldl addRecord c).graph = rs.foldl Symbols.add c.graph := by
  induction rs generalizing c with
  | nil => rfl
  | cons r rest ih => rw [List.foldl_cons, List.foldl_cons, ih, graph_addRecord]

/-- Adding records leaves the index as it is. -/
theorem index_foldl_addRecord (rs : List Record) (c : Context) :
    (rs.foldl addRecord c).index = c.index := by
  induction rs generalizing c with
  | nil => rfl
  | cons r rest ih =>
    rw [List.foldl_cons, ih, addRecord]
    split <;> rfl

/-- Adding records leaves the samples as they are. -/
theorem samples_foldl_addRecord (rs : List Record) (c : Context) :
    (rs.foldl addRecord c).samples = c.samples := by
  induction rs generalizing c with
  | nil => rfl
  | cons r rest ih =>
    rw [List.foldl_cons, ih, addRecord]
    split <;> rfl

end Context

/-! ### The pass -/

/-- The records of a type with its file as it is. -/
def recordsOf (files : Tree) (index : Index) (l : Located) : List Record :=
  Record.ofLocated index (contentOf files l.source.path) l

namespace Collector

variable {files : Tree}

/-- The records that the main pass over several files adds, in the order in which it does. -/
def mainRecords (files : Tree) (paths : List Path) : List Record :=
  (topTypes files paths).flatMap (recordsOf files (indexOf files paths))

/-- Visiting a type adds its records. -/
theorem exec_visit_documenting {index : Index} {l : Located}
    (hread : files.read l.source.path = .ok (contentOf files l.source.path)) {s : Collector}
    (hindex : s.index = some index) :
    exec (visit files .documenting l) s
      = (.ok (), { s with context := (recordsOf files index l).foldl Context.addRecord s.context }) := by
  obtain ⟨c, known⟩ := s
  cases hindex
  unfold visit
  rw [exec_bind_ok (Proofs.exec_get _)]
  simp only [hread]
  rfl

/-- If every file can be read, the main pass succeeds and adds the records of the types at the top of
the files. -/
theorem runPass_of_readable {paths : List Path} (h : Readable files paths) (c : Context) :
    ∃ e, runPass files .documenting paths none c
      = (.ok e, (mainRecords files paths).foldl Context.addRecord (prepared .documenting e c)) ∧
      e.index = indexOf files paths := by
  obtain ⟨e, hrun, hindex⟩ := runPass_of_items (recordsOf files) Context.addRecord
    (fun _ => True) (fun _ _ _ => trivial)
    (fun _ _ hread _ hindex _ => exec_visit_documenting hread hindex) h none (c := c)
    fun _ => trivial
  rw [wantedPaths_none] at hrun
  exact ⟨e, hrun, hindex⟩

/-- A main pass that succeeds adds the records of the types at the top of the files, under the index
of all declared types. -/
theorem context_of_runPass {paths : List Path} {c c' : Context} {e : Environment}
    (hrun : runPass files .documenting paths none c = (.ok e, c')) :
    c'.index = indexOf files paths ∧
    c'.graph = (mainRecords files paths).foldl Symbols.add c.graph := by
  obtain ⟨e', hsucceeds, hindex⟩ := runPass_of_readable (readable_of_runPass hrun) c
  rw [hsucceeds] at hrun
  cases hrun
  exact ⟨(Context.index_foldl_addRecord _ _).trans hindex, Context.graph_foldl_addRecord _ _⟩

/-- A main pass leaves the samples as they are, whether or not it fails. -/
theorem samples_runPass (files : Tree) (paths : List Path) (c : Context) :
    (runPass files .documenting paths none c).2.samples = c.samples := by
  by_cases hread : Readable files paths
  · obtain ⟨e, hrun, -⟩ := runPass_of_readable hread c
    rw [hrun]
    exact Context.samples_foldl_addRecord _ _
  · obtain ⟨failure, hrun⟩ := runPass_of_unreadable hread .documenting none c
    rw [hrun]

/-! ### The order of the files -/

/-- The names of the records that are added are those of the declared types that are reached. -/
theorem names_mainRecords (paths : List Path) :
    (mainRecords files paths).map Record.qualifiedName
      = ((declaredTypes files paths).filter (Record.isReached 1)).map
          (·.declaration.qualifiedName) := by
  rw [mainRecords, declaredTypes, List.map_flatMap, List.filter_flatMap, List.map_flatMap]
  refine List.flatMap_congr fun l hl => ?_
  obtain ⟨howners, htype⟩ := top_of_mem_topTypes hl
  rw [recordsOf, Record.names_ofLocated _ _ htype, howners]
  rfl

/-- The names of the records that are added are among those of the declared types. -/
theorem names_mainRecords_sublist (paths : List Path) :
    ((mainRecords files paths).map Record.qualifiedName).Sublist
      ((declaredTypes files paths).map (·.declaration.qualifiedName)) := by
  rw [names_mainRecords]
  exact List.filter_sublist.map _

/-- Every record that is added is made of a declared type. -/
theorem exists_ofType_of_mem_mainRecords {paths : List Path} {r : Record}
    (h : r ∈ mainRecords files paths) : ∃ l ∈ declaredTypes files paths,
      ∃ content, r = Record.ofType (indexOf files paths) content l := by
  obtain ⟨top, htop, hr⟩ := List.mem_flatMap.mp h
  rw [recordsOf, Record.ofLocated_eq_map _ _ (top_of_mem_topTypes htop).2] at hr
  obtain ⟨l, hl, rfl⟩ := List.mem_map.mp hr
  exact ⟨l, List.mem_flatMap.mpr ⟨top, htop, (List.mem_filter.mp hl).1⟩, _, rfl⟩

/-- Every record of a finished graph is made of a declared type, but for its subtypes. -/
theorem exists_ofType_of_mem_finished {paths : List Path} {c c' : Context} {e : Environment}
    (hrun : runPass files .documenting paths none c = (.ok e, c')) (fresh : c.graph = .empty)
    {r : Record} (h : r ∈ c'.graph.sort.connect.types) : ∃ l ∈ declaredTypes files paths,
      ∃ content names, r = (Record.ofType c'.index content l).withSubtypes names := by
  obtain ⟨hindex, hgraph⟩ := context_of_runPass hrun
  obtain ⟨s, hs, names, rfl⟩ := Symbols.mem_types_connect_sort h
  rw [hgraph, fresh] at hs
  have hadded := (Symbols.mem_types_foldl_add hs).resolve_left List.not_mem_nil
  obtain ⟨l, hl, content, rfl⟩ := exists_ofType_of_mem_mainRecords hadded
  exact ⟨l, hl, content, names, by rw [hindex]⟩

/-- The name of a record in a finished graph begins with the lead of its package, and as a name. -/
theorem name_of_mem_finished {paths : List Path} {c c' : Context} {e : Environment}
    (hrun : runPass files .documenting paths none c = (.ok e, c')) (fresh : c.graph = .empty)
    {r : Record} (h : r ∈ c'.graph.sort.connect.types) :
    (CompilationUnit.lead r.package).toList <+: r.qualifiedName.toList ∧
    BeginsName r.qualifiedName.toList := by
  obtain ⟨l, hl, content, names, rfl⟩ := exists_ofType_of_mem_finished hrun fresh h
  obtain ⟨-, path, top, htop, hinside⟩ := exists_located_of_mem_declaredTypes hl
  exact ⟨CompilationUnit.lead_prefix_of_mem_flatten htop hinside,
    CompilationUnit.beginsName_of_mem_flatten htop hinside⟩

/-- The records of a finished graph have distinct names. -/
theorem distinct_finished {paths : List Path} {c c' : Context} {e : Environment}
    (hrun : runPass files .documenting paths none c = (.ok e, c')) (fresh : c.graph = .empty) :
    (c'.graph.sort.connect.types.map Record.qualifiedName).Nodup := by
  have hadded : (c'.graph.types.map Record.qualifiedName).Nodup := by
    rw [(context_of_runPass hrun).2, fresh]
    exact (Symbols.isFilled_empty.foldl_add _).names
  rw [Symbols.names_connect]
  exact (c'.graph.types_sort_perm.map _).nodup_iff.mpr hadded

/-- If the records that are added have distinct names, all of them are in the finished graph, but for
their subtypes. -/
theorem exists_withSubtypes_mem_finished {paths : List Path} {c c' : Context} {e : Environment}
    (hrun : runPass files .documenting paths none c = (.ok e, c')) (fresh : c.graph = .empty)
    (distinct : ((mainRecords files paths).map Record.qualifiedName).Nodup) {r : Record}
    (h : r ∈ mainRecords files paths) :
    ∃ names, r.withSubtypes names ∈ c'.graph.sort.connect.types := by
  have hgraph : c'.graph.types = mainRecords files paths := by
    rw [(context_of_runPass hrun).2, fresh]
    exact Symbols.types_foldl_add_of_empty rfl distinct
  rw [← hgraph] at h
  exact Symbols.exists_withSubtypes_mem_connect_sort h

/-- If one record is added, it is in the finished graph, but for its subtypes. -/
theorem exists_withSubtypes_mem_finished_of_one {paths : List Path} {c c' : Context} {e : Environment}
    (hrun : runPass files .documenting paths none c = (.ok e, c')) (fresh : c.graph = .empty)
    {r : Record} (h : mainRecords files paths = [r]) :
    ∃ names, r.withSubtypes names ∈ c'.graph.sort.connect.types := by
  have distinct : ((mainRecords files paths).map Record.qualifiedName).Nodup := by
    rw [h]
    exact List.nodup_singleton _
  exact exists_withSubtypes_mem_finished hrun fresh distinct (h ▸ List.mem_singleton_self r)

/-- A record of some name is added if and only if a type of that name is declared and exposed. -/
theorem exists_mem_mainRecords_iff (paths : List Path) (name : String) :
    (∃ r ∈ mainRecords files paths, r.qualifiedName = name) ↔
      ∃ l ∈ declaredTypes files paths, l.declaration.qualifiedName = name ∧ Record.IsExposed l := by
  rw [← List.mem_map, names_mainRecords, List.mem_map]
  refine exists_congr fun l => ?_
  rw [List.mem_filter, and_assoc]
  refine and_congr_right fun hl => ?_
  rw [Record.isReached_one_iff (isType_of_mem_declaredTypes hl), and_comm]

/-- Files whose types have distinct names may be given in any order: the same records are added. -/
theorem mainRecords_perm {paths paths' : List Path} (h : paths.Perm paths')
    (distinct : ((declaredTypes files paths).map (·.declaration.qualifiedName)).Nodup) :
    (mainRecords files paths).Perm (mainRecords files paths') := by
  have htypes : (topTypes files paths).Perm (topTypes files paths') := h.flatMap_right _
  -- The two indexes may hold the types in different orders, but lookups give the same.
  have hagrees : (indexOf files paths).Agrees (indexOf files paths') :=
    Index.agrees_addAll_of_perm htypes distinct
  have hrecords : recordsOf files (indexOf files paths) = recordsOf files (indexOf files paths') := by
    funext l
    rw [recordsOf, recordsOf, Record.ofLocated_eq_of_agrees hagrees]
  rw [mainRecords, mainRecords, hrecords]
  exact htypes.flatMap_right _

/-- The finished graph does not depend on the order of the files. If the types that the files declare,
at every nesting level, have distinct names, then main passes over two orders of the files both
succeed or both fail, and after sorting and connecting their graphs are the same: the packages, the
records in their order with their supertypes, interfaces and subtypes, and so the script. -/
theorem finished_graph_eq_of_perm (files : Tree) {paths paths' : List Path}
    (h : paths.Perm paths') (internals : List String)
    (distinct : ((declaredTypes files paths).map (·.declaration.qualifiedName)).Nodup) :
    ((∃ e, (runPass files .documenting paths none (.initial internals)).1 = .ok e) ↔
      ∃ e, (runPass files .documenting paths' none (.initial internals)).1 = .ok e) ∧
    (runPass files .documenting paths none (.initial internals)).2.graph.sort.connect
      = (runPass files .documenting paths' none (.initial internals)).2.graph.sort.connect := by
  by_cases hread : Readable files paths
  · have hread' : Readable files paths' := fun p hp => hread p (h.mem_iff.mpr hp)
    obtain ⟨e, hrun, -⟩ := runPass_of_readable hread (.initial internals)
    obtain ⟨e', hrun', -⟩ := runPass_of_readable hread' (.initial internals)
    refine ⟨⟨fun _ => ⟨e', by rw [hrun']⟩, fun _ => ⟨e, by rw [hrun]⟩⟩, ?_⟩
    have hgraph := (context_of_runPass hrun).2
    have hgraph' := (context_of_runPass hrun').2
    rw [hrun, hrun']
    simp only [hgraph, hgraph']
    -- Sorting alone makes the graphs equal, so connecting them is not looked at.
    congr 1
    have hperm := mainRecords_perm h distinct
    have hnodup := (names_mainRecords_sublist paths).nodup distinct
    have hnodup' := (hperm.map Record.qualifiedName).nodup_iff.mp hnodup
    refine Symbols.sort_eq_of_perm (Symbols.isFilled_empty.foldl_add _)
      (Symbols.isFilled_empty.foldl_add _) ?_ ?_ ?_
    · rw [Symbols.types_foldl_add_of_empty rfl hnodup, Symbols.types_foldl_add_of_empty rfl hnodup']
      exact hperm
    · rw [(Symbols.texts_foldl_add _ _).1, (Symbols.texts_foldl_add _ _).1]
    · rw [(Symbols.texts_foldl_add _ _).2, (Symbols.texts_foldl_add _ _).2]
  · have hread' : ¬ Readable files paths' := fun hr => hread fun p hp => hr p (h.mem_iff.mp hp)
    obtain ⟨f, hrun⟩ := runPass_of_unreadable hread .documenting none (.initial internals)
    obtain ⟨f', hrun'⟩ := runPass_of_unreadable hread' .documenting none (.initial internals)
    rw [hrun, hrun']
    exact ⟨⟨nofun, nofun⟩, rfl⟩

/-- Two files: a class with a private class inside, and the class that it extends. -/
def dogAndAnimal : Tree where
  entries :=
    [(["Dog.java"], .file (Text.encode "class Dog extends Animal \x7b private class Tail \x7b\x7d \x7d")),
      (["Animal.java"], .file (Text.encode "class Animal \x7b\x7d"))]
  workingDirectory := []

/-- The two files, with the class before the one that it extends. -/
def dogFirst : List Path := [.ofString "Dog.java", .ofString "Animal.java"]

/-- A class and the one that it extends may come in either order. -/
theorem finished_graph_eq_of_perm_dogAndAnimal :
    dogFirst.Perm dogFirst.reverse ∧
    (declaredTypes dogAndAnimal dogFirst).map (·.declaration.qualifiedName)
      = ["Dog", "Dog.Tail", "Animal"] ∧
    ((declaredTypes dogAndAnimal dogFirst).map (·.declaration.qualifiedName)).Nodup ∧
    (runPass dogAndAnimal .documenting dogFirst none (.initial [])).2.graph.sort.connect
      = (runPass dogAndAnimal .documenting dogFirst.reverse none
          (.initial [])).2.graph.sort.connect := by
  have hperm : dogFirst.Perm dogFirst.reverse := (List.reverse_perm dogFirst).symm
  have hnames : (declaredTypes dogAndAnimal dogFirst).map (·.declaration.qualifiedName)
      = ["Dog", "Dog.Tail", "Animal"] := by decide +kernel
  have hdistinct : ((declaredTypes dogAndAnimal dogFirst).map
      (·.declaration.qualifiedName)).Nodup := by
    rw [hnames]
    decide
  exact ⟨hperm, hnames, hdistinct, (finished_graph_eq_of_perm dogAndAnimal hperm [] hdistinct).2⟩

end Collector

end Apidoc.Build
