import Apidoc.Build.Context
import Apidoc.Proofs.Build.Environment
import Apidoc.Proofs.Run
import Mathlib.Data.List.Flatten

/-!
# `Apidoc.Proofs.Build.Pass`: what a pass does, whatever it is for

A pass takes over its environment and then visits the types at the top of the wanted
files. If the visit of a type takes some items one after the other, the pass takes the
items of all of these types, in file order (`runPass_of_items`). If some file cannot be
read, the pass fails and changes nothing (`runPass_of_unreadable`). Of the tree it sees
nothing but the files that it is given (`runPass_congr`).
-/

set_option autoImplicit false

namespace Apidoc.Build.Collector

open Apidoc.Build.Environment
open Apidoc.Files (Path Tree)
open Apidoc.Model (CompilationUnit Index Located)
open Apidoc.Proofs (exec exec_bind_ok exec_forM_of_step forM_congr)

variable {files : Tree} {mode : Mode} {paths : List Path} {specified : Option (List Path)}
  {α : Type}

/-! ### What is visited -/

/-- The index of a pass over several files. -/
def indexOf (files : Tree) (paths : List Path) : Index := Index.empty.addAll (topTypes files paths)

/-- The files of which the types are visited: those that are specified, or else all. -/
def wantedPaths (paths : List Path) (specified : Option (List Path)) : List Path :=
  paths.filter fun path => (specified.getD paths).contains path

/-- Without a specification all files are wanted. -/
theorem wantedPaths_none (paths : List Path) : wantedPaths paths none = paths :=
  List.filter_eq_self.mpr fun _ hpath => List.contains_iff_mem.mpr hpath

/-- What is visited of several files. -/
def visitsOf (files : Tree) (paths : List Path) : List Visited :=
  paths.flatMap fun path => visitedOf path (unitOf files path)

/-- The items of what is visited. Modules and packages have none. -/
def itemsOf (items : Located → List α) : Visited → List α
  | .type l => items l
  | .module .. | .package _ => []

/-- The items of what is visited are those of the types at the top. -/
theorem flatMap_visitsOf (items : Located → List α) (paths : List Path) :
    (visitsOf files paths).flatMap (itemsOf items) = (topTypes files paths).flatMap items := by
  rw [visitsOf, topTypes, List.flatMap_assoc, List.flatMap_assoc]
  refine List.flatMap_congr fun path _ => ?_
  have htypes : ((unitOf files path).located.map Visited.type).flatMap (itemsOf items)
      = (unitOf files path).located.flatMap items := by
    rw [List.flatMap_map]
    rfl
  unfold visitedOf
  rw [List.flatMap_append, htypes, List.append_left_eq_self]
  -- A module and a package have no items.
  split
  · rfl
  · split <;> rfl

/-- A type that is visited stands at the top of one of the files. -/
theorem mem_topTypes_of_mem_visitsOf {l : Located} (h : .type l ∈ visitsOf files paths) :
    l ∈ topTypes files paths := by
  have hitems : l ∈ (visitsOf files paths).flatMap (itemsOf fun l => [l]) :=
    List.mem_flatMap.mpr ⟨_, h, List.mem_singleton_self l⟩
  rw [flatMap_visitsOf, List.flatMap_singleton'] at hitems
  exact hitems

/-- A type at the top of a file is a type with nothing around it. -/
theorem top_of_mem_topTypes {l : Located} (h : l ∈ topTypes files paths) :
    l.owners = [] ∧ l.declaration.kind.isType = true := by
  obtain ⟨path, -, hl⟩ := List.mem_flatMap.mp h
  exact CompilationUnit.top_of_mem_located hl

/-- A declared type is a type, and it is part of one at the top of some file. -/
theorem exists_located_of_mem_declaredTypes {l : Located} (h : l ∈ declaredTypes files paths) :
    l.declaration.kind.isType = true ∧
      ∃ path, ∃ top ∈ (unitOf files path).located, l ∈ top.flatten := by
  obtain ⟨top, htop, hl⟩ := List.mem_flatMap.mp h
  obtain ⟨path, -, hlocated⟩ := List.mem_flatMap.mp htop
  rw [Index.typesOf, if_pos (top_of_mem_topTypes htop).2] at hl
  obtain ⟨hinside, htype⟩ := List.mem_filter.mp hl
  exact ⟨htype, path, top, hlocated, hinside⟩

/-- A declared type is declared in the unit of some file. -/
theorem exists_mem_flatten_of_mem_declaredTypes {l : Located} (h : l ∈ declaredTypes files paths) :
    l.declaration.kind.isType = true ∧ ∃ path, l ∈ (unitOf files path).flatten := by
  obtain ⟨htype, path, top, hlocated, hinside⟩ := exists_located_of_mem_declaredTypes h
  exact ⟨htype, path, CompilationUnit.mem_flatten_of_located hlocated hinside⟩

/-- A declared type is a type, and so is whatever is around it. -/
theorem isType_of_mem_declaredTypes {l : Located}
    (h : l ∈ declaredTypes files paths) : ∀ d ∈ l.scope.chain, d.kind.isType = true := by
  obtain ⟨htype, path, top, hlocated, hinside⟩ := exists_located_of_mem_declaredTypes h
  intro d hd
  rcases List.mem_cons.mp hd with rfl | howner
  · exact htype
  · exact CompilationUnit.owners_isType_of_mem_flatten hlocated hinside d howner

/-- The file of a type at the top of a readable file can be read. -/
theorem read_of_mem_topTypes (hread : Readable files paths) {l : Located}
    (h : l ∈ topTypes files paths) :
    files.read l.source.path = .ok (contentOf files l.source.path) := by
  obtain ⟨path, hpath, hl⟩ := List.mem_flatMap.mp h
  obtain ⟨e, -, rfl⟩ := List.mem_map.mp hl
  obtain ⟨content, hcontent⟩ := hread path hpath
  exact read_eq_contentOf hcontent

/-! ### The pass -/

/-- What a pass has taken over from its environment before it visits anything. -/
def prepared (mode : Mode) (e : Environment) (c : Context) : Context :=
  if mode = .documenting then
    { c with index := e.index, internals := (c.internals ++ e.packages.filter (· ≠ "")).eraseDups }
  else c

/-- A pass is run on a fresh collector, of which the context is kept. -/
theorem runPass_eq_exec (mode : Mode) (paths : List Path) (specified : Option (List Path))
    (c : Context) : runPass files mode paths specified c
      = ((exec ((visitor files mode).run files paths specified) (initial c)).1,
        (exec ((visitor files mode).run files paths specified) (initial c)).2.context) := rfl

/-- Taking items one after the other changes the context only. -/
theorem foldl_take (take : Context → α → Context) (as : List α) (s : Collector) :
    as.foldl (fun t a => { t with context := take t.context a }) s
      = { s with context := as.foldl take s.context } := by
  induction as generalizing s with
  | nil => rfl
  | cons a rest ih => rw [List.foldl_cons, ih, List.foldl_cons]

/-- Visiting in turn takes the items of what is visited, if visiting a type takes its items as long
as `Inv` holds, which taking an item keeps. -/
theorem exec_forM_process (mode : Mode) {index : Index} (items : Located → List α)
    (take : Context → α → Context) (Inv : Context → Prop) (hinv : ∀ c a, Inv c → Inv (take c a))
    (vs : List Visited)
    (hvisit : ∀ l, .type l ∈ vs → ∀ s : Collector, s.index = some index → Inv s.context →
      exec (visit files mode l) s
        = (.ok (), { s with context := (items l).foldl take s.context }))
    {s : Collector} (hindex : s.index = some index) (hs : Inv s.context) :
    exec (vs.forM (visitor files mode).process) s
      = (.ok (), { s with context := (vs.flatMap (itemsOf items)).foldl take s.context }) := by
  have hfold (as : List α) (c : Context) (hc : Inv c) : Inv (as.foldl take c) := by
    induction as generalizing c with
    | nil => exact hc
    | cons a rest ih => exact ih (take c a) (hinv c a hc)
  have hrun := exec_forM_of_step (fun t : Collector => t.index = some index ∧ Inv t.context)
    (fun t v => { t with context := (itemsOf items v).foldl take t.context })
    (x := (visitor files mode).process) vs (fun v hv t ht => by
      refine ⟨?_, ht.1, hfold _ _ ht.2⟩
      cases v with
      | module name source => rfl
      | package source => rfl
      | type l => exact hvisit l hv t ht.1 ht.2) s ⟨hindex, hs⟩
  rw [hrun]
  congr 1
  clear hrun hvisit hindex hs
  induction vs generalizing s with
  | nil => rfl
  | cons v rest ih => rw [List.foldl_cons, ih, List.flatMap_cons, List.foldl_append]

/-- If every file can be read, a pass succeeds and takes the items of the types at the top of the wanted
files, if visiting a type takes its items. -/
theorem runPass_of_items (items : Index → Located → List α) (take : Context → α → Context)
    (Inv : Context → Prop) (hinv : ∀ c a, Inv c → Inv (take c a))
    (hvisit : ∀ (index : Index) (l : Located),
      files.read l.source.path = .ok (contentOf files l.source.path) →
      ∀ s : Collector, s.index = some index → Inv s.context →
        exec (visit files mode l) s
          = (.ok (), { s with context := (items index l).foldl take s.context }))
    (hread : Readable files paths) (specified : Option (List Path)) {c : Context}
    (hc : ∀ e, Inv (prepared mode e c)) :
    ∃ e, runPass files mode paths specified c
      = (.ok e, ((topTypes files (wantedPaths paths specified)).flatMap
          (items (indexOf files paths))).foldl take (prepared mode e c)) ∧
      e.index = indexOf files paths := by
  have henvironment := read_of_readable hread specified
  obtain ⟨e, he⟩ : ∃ e, e = ofPaths files
    (fun path => (specified.getD paths).contains path) paths .empty := ⟨_, rfl⟩
  have hindex : e.index = indexOf files paths := by
    rw [he]
    exact index_ofPaths _ paths .empty
  have hspecified : e.specified = visitsOf files (wantedPaths paths specified) := by
    rw [he, specified_ofPaths]
    exact List.nil_append _
  refine ⟨e, ?_, hindex⟩
  have hwanted : Readable files (wantedPaths paths specified) :=
    fun path hpath => hread path (List.mem_filter.mp hpath).1
  -- The index is there before the first visit, and visits leave it alone.
  have hprepare : exec ((visitor files mode).prepare e) (initial c)
      = (.ok (), ⟨prepared mode e c, some e.index⟩) := rfl
  have hprocess := exec_forM_process mode (items e.index) take Inv hinv e.specified
    (fun l hl s hs hinvs => hvisit e.index l
      (read_of_mem_topTypes hwanted (mem_topTypes_of_mem_visitsOf (hspecified ▸ hl))) s hs hinvs)
    (s := ⟨prepared mode e c, some e.index⟩) rfl (hc e)
  have hrun : exec ((visitor files mode).run files paths specified) (initial c)
      = (.ok e, ⟨(e.specified.flatMap (itemsOf (items e.index))).foldl take (prepared mode e c),
          some e.index⟩) := by
    rw [Visitor.run_of_read _ henvironment, ← he, exec_bind_ok hprepare, exec_bind_ok hprocess]
    rfl
  rw [runPass_eq_exec, hrun, hspecified, flatMap_visitsOf, hindex]

/-- If some file cannot be read, a pass fails and changes nothing. -/
theorem runPass_of_unreadable (h : ¬ Readable files paths) (mode : Mode)
    (specified : Option (List Path)) (c : Context) :
    ∃ failure, runPass files mode paths specified c = (.error failure, c) := by
  obtain ⟨failure, hread⟩ := read_of_unreadable h specified
  refine ⟨failure, ?_⟩
  rw [runPass_eq_exec, Visitor.run_of_unread _ hread]
  rfl

/-- The files of a pass that succeeds can be read. -/
theorem readable_of_runPass {c c' : Context} {e : Environment}
    (hrun : runPass files mode paths specified c = (.ok e, c')) : Readable files paths := by
  by_contra hunread
  obtain ⟨failure, hfails⟩ := runPass_of_unreadable hunread mode specified c
  rw [hfails] at hrun
  cases hrun

/-! ### What a pass reads -/

/-- The path of a type that is visited is one of those that were read. -/
theorem path_mem_of_mem_visitsOf {l : Located} (h : .type l ∈ visitsOf files paths) :
    l.source.path ∈ paths := by
  obtain ⟨path, hpath, hl⟩ := List.mem_flatMap.mp (mem_topTypes_of_mem_visitsOf h)
  obtain ⟨e, -, rfl⟩ := List.mem_map.mp hl
  exact hpath

/-- Reading files from another tree gives the same, if it holds the same at these paths. -/
theorem read_congr {files' : Tree} (h : ∀ path ∈ paths, files'.read path = files.read path)
    (specified : Option (List Path)) :
    Environment.read files' paths specified = Environment.read files paths specified := by
  unfold Environment.read
  generalize (specified.getD paths) = wanted
  generalize Environment.empty = e
  induction paths generalizing e with
  | nil => rfl
  | cons path rest ih =>
    have hunit : readUnit files' path = readUnit files path := by
      rw [readUnit, readUnit, h path List.mem_cons_self]
    rw [List.foldlM_cons, List.foldlM_cons, hunit]
    exact congrArg _ (funext fun e' => ih (fun p hp => h p (List.mem_cons_of_mem _ hp)) e')

/-- A pass over other files is the same, if they hold the same at the paths of the pass. -/
theorem runPass_congr {files' : Tree} (h : ∀ path ∈ paths, files'.read path = files.read path)
    (mode : Mode) (specified : Option (List Path)) (c : Context) :
    runPass files' mode paths specified c = runPass files mode paths specified c := by
  have hrun : (visitor files' mode).run files' paths specified =
      (visitor files mode).run files paths specified := by
    have hread' := read_congr h specified
    cases hread : Environment.read files paths specified with
    | error failure =>
      rw [Visitor.run_of_unread _ hread, Visitor.run_of_unread _ (hread'.trans hread)]
    | ok e =>
      -- The passes are told the same, and read each visited file once more.
      have hpaths : ∀ l, .type l ∈ e.specified → l.source.path ∈ paths := by
        intro l hl
        have hreadable : Readable files paths := by
          by_contra hunread
          obtain ⟨failure, hfails⟩ := read_of_unreadable hunread specified
          rw [hfails] at hread
          cases hread
        rw [read_of_readable hreadable specified] at hread
        cases hread
        rw [specified_ofPaths] at hl
        exact (List.mem_filter.mp (path_mem_of_mem_visitsOf hl)).1
      have hprocess : e.specified.forM (visitor files' mode).process =
          e.specified.forM (visitor files mode).process := by
        refine forM_congr fun v hv => ?_
        cases v with
        | module name source => rfl
        | package source => rfl
        | type l =>
          show visit files' mode l = visit files mode l
          rw [visit, visit, h _ (hpaths l hv)]
      rw [Visitor.run_of_read _ hread, Visitor.run_of_read _ (hread'.trans hread), hprocess]
      rfl
  rw [runPass_eq_exec, runPass_eq_exec, hrun]

end Apidoc.Build.Collector
