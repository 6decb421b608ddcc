import Apidoc.Files.Tree
import Mathlib.Data.List.Infix
import Mathlib.Data.List.Induction

/-!
# `Apidoc.Proofs.Files.Walk`: the way that a path takes

A path is followed name by name, and each name is looked up in the directory that has been
reached. These directories are the way of the path (`wayOf`). A path leads to its location
exactly if its whole way is there (`locate_eq_ok_iff`), so a tree that grows keeps every
path that it had (`locate_of_directories`).

A path without `..` goes straight down. With `..` it also leaves directories again
(`leaving`), which have to be there although the location is not below them. All others on
the way are above the location (`above_or_leaving_of_mem_way`).
-/

set_option autoImplicit false

namespace Apidoc.Files

/-- The locations in which names are looked up, one after another from `l` on. -/
def way (l : Location) : List String → List Location
  | [] => []
  | name :: names => l :: way (move l name) names

/-- The locations that names leave by `..`. -/
def leaving (l : Location) : List String → List Location
  | [] => []
  | name :: names => if name = ".." then l :: leaving (move l name) names else leaving (move l name) names

/-- The locations in which the names of a path are looked up. -/
def wayOf (workingDirectory : Location) (p : Path) : List Location :=
  way (startOf workingDirectory p) p.names

/-- The way of a path and its end: where something may have to be made for it. -/
def onWay (workingDirectory : Location) (p : Path) : List Location :=
  wayOf workingDirectory p ++ [resolve workingDirectory p]

/-- The way of more names goes on where the way of the first ones ends. -/
theorem way_append (l : Location) (names more : List String) :
    way l (names ++ more) = way l names ++ way (names.foldl move l) more := by
  induction names generalizing l with
  | nil => rfl
  | cons name names ih =>
    show l :: way (move l name) (names ++ more) = l :: (way (move l name) names ++ _)
    rw [ih]
    rfl

/-- The way of a path to an entry is that to the directory, and the directory. -/
theorem wayOf_child (workingDirectory : Location) (p : Path) (name : String) :
    wayOf workingDirectory (p.child name) =
      wayOf workingDirectory p ++ [resolve workingDirectory p] :=
  way_append _ p.names [name]

/-- An entry of a directory lies in it, unless its name is `..`. -/
theorem resolve_child (workingDirectory : Location) (p : Path) {name : String} (h : name ≠ "..") :
    resolve workingDirectory (p.child name) = resolve workingDirectory p ++ [name] := by
  show (p.names ++ [name]).foldl move _ = _
  rw [List.foldl_append]
  exact if_neg h

/-- The name `..` leads to the directory above. -/
theorem resolve_child_up (workingDirectory : Location) (p : Path) :
    resolve workingDirectory (p.child "..") = (resolve workingDirectory p).dropLast := by
  show (p.names ++ [".."]).foldl move _ = _
  rw [List.foldl_append]
  show move _ ".." = _
  exact if_pos rfl

/-- A location above the one that has been reached stays above it, unless it is left. -/
theorem above_or_leaving (d : Location) (names : List String) {l : Location} (h : d <+: l) :
    d <+: names.foldl move l ∨ d ∈ leaving l names := by
  induction names generalizing l with
  | nil => exact Or.inl h
  | cons name names ih =>
    by_cases hup : name = ".."
    · by_cases hsame : d = l
      · refine Or.inr ?_
        simp [leaving, hup, hsame]
      · -- What is properly above a location is above its directory too.
        have habove : d <+: move l name := by
          obtain ⟨rest, rfl⟩ := h
          have hne : rest ≠ [] := by
            rintro rfl
            exact hsame (List.append_nil d).symm
          rw [move, if_pos hup, List.dropLast_append_of_ne_nil hne]
          exact List.prefix_append ..
        rcases ih habove with hend | hleft
        · exact Or.inl hend
        · refine Or.inr ?_
          simp [leaving, hup, show d ∈ leaving (move l "..") names from hup ▸ hleft]
    · have habove : d <+: move l name := by
        rw [move, if_neg hup]
        exact h.trans (List.prefix_append ..)
      rcases ih habove with hend | hleft
      · exact Or.inl hend
      · refine Or.inr ?_
        simpa [leaving, hup] using hleft

/-- Each location on a way is above the end of the way, unless the way leaves it. -/
theorem above_or_leaving_of_mem_way {d l : Location} {names : List String}
    (h : d ∈ way l names) : d <+: names.foldl move l ∨ d ∈ leaving l names := by
  induction names generalizing l with
  | nil => cases h
  | cons name names ih =>
    rcases List.mem_cons.mp h with rfl | hrest
    · exact above_or_leaving d (name :: names) List.prefix_rfl
    · rcases ih hrest with hend | hleft
      · exact Or.inl hend
      · refine Or.inr ?_
        unfold leaving
        split
        · exact List.mem_cons_of_mem _ hleft
        · exact hleft

/-- Names without `..` leave no location. -/
theorem leaving_eq_nil {names : List String} (h : ".." ∉ names) (l : Location) :
    leaving l names = [] := by
  induction names generalizing l with
  | nil => rfl
  | cons name names ih =>
    rw [List.mem_cons, not_or] at h
    rw [leaving, if_neg (Ne.symm h.1)]
    exact ih h.2 _

/-- Each location on the way of a path is above the location of the path, unless the path
leaves it. -/
theorem above_or_leaving_of_mem_onWay {workingDirectory d : Location} {p : Path}
    (h : d ∈ onWay workingDirectory p) :
    d <+: resolve workingDirectory p ∨ d ∈ leaving (startOf workingDirectory p) p.names := by
  rcases List.mem_append.mp h with hway | hend
  · exact above_or_leaving_of_mem_way hway
  · exact Or.inl (by rw [List.mem_singleton.mp hend])

/-- Names look something up in each location that they leave. -/
theorem mem_way_of_mem_leaving {d l : Location} {names : List String}
    (h : d ∈ leaving l names) : d ∈ way l names := by
  induction names generalizing l with
  | nil => cases h
  | cons name names ih =>
    unfold leaving at h
    split at h
    · rcases List.mem_cons.mp h with rfl | hrest
      · exact List.mem_cons_self
      · exact List.mem_cons_of_mem _ (ih hrest)
    · exact List.mem_cons_of_mem _ (ih h)

namespace Tree

variable {t t' : Tree} {p : Path} {l k : Location}

/-- A name that can be looked up. -/
def IsShort (name : String) : Prop := name = ".." ∨ name.utf8ByteSize ≤ longestName

/-- The system takes the text of the path and each of its names. -/
structure IsNameable (p : Path) : Prop where
  text : '\x00' ∉ p.toString.toList
  length : p.toString.utf8ByteSize ≤ longestPath
  names : ∀ name ∈ p.names, IsShort name

/-- A name leads on from a directory. -/
theorem enter_eq_ok_iff {name : String} : t.enter l name = .ok k ↔
    t.get? l = some .directory ∧ IsShort name ∧ k = move l name := by
  unfold enter IsShort
  cases hentry : t.get? l with
  | none => simp
  | some entry =>
    cases entry with
    | file content => simp
    | directory =>
      by_cases hlong : name ≠ ".." ∧ longestName < name.utf8ByteSize
      · simp only [if_pos hlong, true_and, reduceCtorEq, false_iff]
        rintro ⟨hshort, -⟩
        rcases hshort with hup | hsize
        · exact hlong.1 hup
        · exact absurd hlong.2 (Nat.not_lt.mpr hsize)
      · have hshort : name = ".." ∨ name.utf8ByteSize ≤ longestName := by
          by_cases hup : name = ".."
          · exact Or.inl hup
          · exact Or.inr (Nat.not_lt.mp fun hsize => hlong ⟨hup, hsize⟩)
        simp only [if_neg hlong, hshort, true_and, Except.ok.injEq]
        exact eq_comm

/-- Names lead to a location if all directories in which they are looked up are there. -/
theorem foldlM_enter_eq_ok_iff (names : List String) : names.foldlM t.enter l = .ok k ↔
    (∀ d ∈ way l names, t.get? d = some .directory) ∧ (∀ name ∈ names, IsShort name) ∧
      k = names.foldl move l := by
  induction names generalizing l with
  | nil =>
    simp only [List.foldlM_nil, way, List.not_mem_nil, List.foldl_nil]
    constructor
    · intro h
      cases h
      exact ⟨nofun, nofun, rfl⟩
    · rintro ⟨-, -, rfl⟩
      rfl
  | cons name names ih =>
    rw [List.foldlM_cons]
    constructor
    · intro h
      cases henter : t.enter l name with
      | error fault =>
        rw [henter] at h
        cases h
      | ok next =>
        rw [henter] at h
        obtain ⟨hdirectory, hshort, rfl⟩ := enter_eq_ok_iff.mp henter
        obtain ⟨hway, hnames, hend⟩ := ih.mp h
        refine ⟨?_, ?_, hend⟩
        · intro d hd
          rcases List.mem_cons.mp hd with rfl | hrest
          · exact hdirectory
          · exact hway d hrest
        · intro other hother
          rcases List.mem_cons.mp hother with rfl | hrest
          · exact hshort
          · exact hnames other hrest
    · rintro ⟨hway, hnames, hend⟩
      have henter : t.enter l name = .ok (move l name) :=
        enter_eq_ok_iff.mpr ⟨hway l List.mem_cons_self, hnames name List.mem_cons_self, rfl⟩
      rw [henter]
      exact ih.mpr ⟨fun d hd => hway d (List.mem_cons_of_mem _ hd),
        fun other hother => hnames other (List.mem_cons_of_mem _ hother), hend⟩

/-- A path leads to its location if its whole way is there. -/
theorem locate_eq_ok_iff : t.locate p = .ok l ↔
    IsNameable p ∧ (∀ d ∈ wayOf t.workingDirectory p, t.get? d = some .directory) ∧
      l = resolve t.workingDirectory p := by
  unfold locate
  simp only
  split
  · rename_i hnull
    exact ⟨nofun, fun h => absurd hnull h.1.text⟩
  · rename_i hnull
    split
    · rename_i hlong
      exact ⟨nofun, fun h => absurd hlong (Nat.not_lt.mpr h.1.length)⟩
    · rename_i hlong
      rw [foldlM_enter_eq_ok_iff]
      constructor
      · rintro ⟨hway, hnames, hend⟩
        exact ⟨⟨hnull, Nat.not_lt.mp hlong, hnames⟩, hway, hend⟩
      · rintro ⟨hnameable, hway, hend⟩
        exact ⟨hway, hnameable.names, hend⟩

/-- A path that leads somewhere leads to its location. -/
theorem eq_resolve_of_locate (h : t.locate p = .ok l) : l = resolve t.workingDirectory p :=
  (locate_eq_ok_iff.mp h).2.2

/-- A path that leads somewhere does so in every tree that has the directories on its way. -/
theorem locate_of_directories (h : t.locate p = .ok l)
    (hsame : t'.workingDirectory = t.workingDirectory)
    (hway : ∀ d ∈ wayOf t.workingDirectory p, t'.get? d = some .directory) :
    t'.locate p = .ok l := by
  obtain ⟨hnameable, -, hend⟩ := locate_eq_ok_iff.mp h
  refine locate_eq_ok_iff.mpr ⟨hnameable, ?_, ?_⟩
  · rw [hsame]
    exact hway
  · rw [hsame]
    exact hend

end Tree

end Apidoc.Files
