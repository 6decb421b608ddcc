import Apidoc.Build.Environment
import Apidoc.Proofs.Model.Index
import Apidoc.Proofs.Model.Unit

/-!
# `Apidoc.Proofs.Build.Environment`: what a pass reads

A pass reads all of its files or nothing. If every file can be read, its environment is
that of the units one after the other (`read_of_readable`), so that the index holds the
types of every file, and what is visited are the types at the top of the wanted ones.
If some file cannot be read there is no environment (`read_of_unreadable`).
-/

set_option autoImplicit false

namespace Apidoc.Build

open Apidoc.Files (FileError Path Tree)
open Apidoc.Model (CompilationUnit Index Located)
open Apidoc.Text (Bytes)

namespace Environment

/-- Every one of the files can be read. -/
def Readable (files : Tree) (paths : List Path) : Prop :=
  ∀ path ∈ paths, ∃ content, files.read path = .ok content

instance (files : Tree) (paths : List Path) : Decidable (Readable files paths) :=
  decidable_of_iff (paths.all (fun path => (files.read path).isOk) = true) (by
    rw [List.all_eq_true]
    refine forall₂_congr fun path _ => ?_
    cases files.read path <;> simp [Except.isOk, Except.toBool])

/-- The contents of a file, and nothing if it cannot be read. -/
def contentOf (files : Tree) (path : Path) : Bytes := (files.read path).toOption.getD []

/-- The unit that the contents of a file make up. -/
def unitOf (files : Tree) (path : Path) : CompilationUnit :=
  CompilationUnit.read path (contentOf files path)

/-- The types at the top of several files, in file order. -/
def topTypes (files : Tree) (paths : List Path) : List Located :=
  paths.flatMap fun path => (unitOf files path).located

/-- The types that several files declare, at every nesting level. -/
def declaredTypes (files : Tree) (paths : List Path) : List Located :=
  (topTypes files paths).flatMap Index.typesOf

/-- The environment of units that are added one after the other. -/
def ofPaths (files : Tree) (wanted : Path → Bool) (paths : List Path) (e : Environment) :
    Environment :=
  paths.foldl (fun e path => e.add path (wanted path) (unitOf files path)) e

variable {files : Tree}

/-- The first unit is added before the others. -/
theorem ofPaths_cons (wanted : Path → Bool) (path : Path) (rest : List Path) (e : Environment) :
    ofPaths files wanted (path :: rest) e
      = ofPaths files wanted rest (e.add path (wanted path) (unitOf files path)) := by
  rw [ofPaths, List.foldl_cons]
  rfl

/-- The contents of a file that can be read are what is read. -/
theorem read_eq_contentOf {path : Path} {content : Bytes} (h : files.read path = .ok content) :
    files.read path = .ok (contentOf files path) := by
  rw [contentOf, h]
  rfl

/-- If every file can be read, the environment is that of all units. -/
theorem read_of_readable {paths : List Path} (h : Readable files paths)
    (specified : Option (List Path)) :
    read files paths specified
      = .ok (ofPaths files (fun path => (specified.getD paths).contains path) paths empty) := by
  unfold read ofPaths
  generalize (specified.getD paths) = wanted
  generalize empty = e
  induction paths generalizing e with
  | nil => rfl
  | cons path rest ih =>
    obtain ⟨content, hcontent⟩ := h path List.mem_cons_self
    have hunit : readUnit files path = .ok (unitOf files path) := by
      rw [readUnit, read_eq_contentOf hcontent]
      rfl
    rw [List.foldlM_cons, List.foldl_cons, hunit]
    exact ih (fun p hp => h p (List.mem_cons_of_mem _ hp)) _

/-- Reading several files fails at the first one that cannot be read. -/
theorem read_of_first_unreadable {front back : List Path} {path : Path} {error : FileError}
    (hfront : Readable files front) (h : files.read path = .error error)
    (specified : Option (List Path)) :
    read files (front ++ path :: back) specified = .error (.ofRead error) := by
  unfold read
  generalize specified.getD (front ++ path :: back) = wanted
  generalize empty = e
  -- What the files in front add to the environment does not matter.
  induction front generalizing e with
  | nil =>
    rw [List.nil_append, List.foldlM_cons, readUnit, h]
    rfl
  | cons first rest ih =>
    obtain ⟨content, hcontent⟩ := hfront first List.mem_cons_self
    rw [List.cons_append, List.foldlM_cons, readUnit, hcontent]
    exact ih (fun p hp => hfront p (List.mem_cons_of_mem _ hp)) _

/-- Of files that cannot all be read, there is a first one that cannot. -/
theorem exists_first_unreadable {paths : List Path} (h : ¬ Readable files paths) :
    ∃ front path back error, paths = front ++ path :: back ∧ Readable files front ∧
      files.read path = .error error := by
  induction paths with
  | nil => exact absurd (fun _ hp => absurd hp List.not_mem_nil) h
  | cons first rest ih =>
    rcases hfirst : files.read first with error | content
    · exact ⟨[], first, rest, error, rfl, fun _ hp => absurd hp List.not_mem_nil, hfirst⟩
    · have hreads {ps : List Path} (hps : Readable files ps) : Readable files (first :: ps) :=
        fun p hp => by
          rcases List.mem_cons.mp hp with rfl | hp
          · exact ⟨content, hfirst⟩
          · exact hps p hp
      obtain ⟨front, path, back, error, rfl, hfront, hpath⟩ := ih fun hrest => h (hreads hrest)
      exact ⟨first :: front, path, back, error, rfl, hreads hfront, hpath⟩

/-- If some file cannot be read, there is no environment. -/
theorem read_of_unreadable {paths : List Path} (h : ¬ Readable files paths)
    (specified : Option (List Path)) :
    ∃ failure, read files paths specified = .error failure := by
  obtain ⟨front, path, back, error, rfl, hfront, hpath⟩ := exists_first_unreadable h
  exact ⟨_, read_of_first_unreadable hfront hpath specified⟩

/-- The index holds the types of all units. -/
theorem index_ofPaths (wanted : Path → Bool) (paths : List Path) (e : Environment) :
    (ofPaths files wanted paths e).index = e.index.addAll (topTypes files paths) := by
  induction paths generalizing e with
  | nil => rfl
  | cons path rest ih =>
    have hadd : (e.add path (wanted path) (unitOf files path)).index
        = e.index.addAll (unitOf files path).located := rfl
    rw [ofPaths_cons, ih, hadd, topTypes, topTypes, List.flatMap_cons, Index.addAll, Index.addAll,
      Index.addAll, List.foldl_append]

/-- What is visited are the wanted units in file order. -/
theorem specified_ofPaths (wanted : Path → Bool) (paths : List Path) (e : Environment) :
    (ofPaths files wanted paths e).specified
      = e.specified ++ (paths.filter wanted).flatMap fun path =>
          visitedOf path (unitOf files path) := by
  induction paths generalizing e with
  | nil => simp [ofPaths]
  | cons path rest ih =>
    rw [ofPaths_cons, ih]
    by_cases hwanted : wanted path = true
    · rw [List.filter_cons_of_pos hwanted, List.flatMap_cons, ← List.append_assoc]
      simp [add, hwanted]
    · rw [List.filter_cons_of_neg hwanted]
      simp [add, hwanted]

end Environment

/-! ### Passes -/

namespace Visitor

variable {σ : Type} {files : Tree} {paths : List Path} {specified : Option (List Path)}

/-- After reading, a pass tells the visitor the environment, then each thing to visit, then the end. -/
theorem run_of_read {e : Environment} (v : Visitor σ)
    (h : Environment.read files paths specified = .ok e) :
    v.run files paths specified = (do
      v.prepare e
      e.specified.forM v.process
      v.complete
      return e) := by
  unfold run
  rw [h]

/-- Without an environment a pass does not call the visitor. -/
theorem run_of_unread {failure : Failure} (v : Visitor σ)
    (h : Environment.read files paths specified = .error failure) :
    v.run files paths specified = throw failure := by
  unfold run
  rw [h]

end Visitor

end Apidoc.Build
