import Apidoc.Proofs.Files.Search

/-!
# `Apidoc.Proofs.Files.Under`: two trees with the same under a root

Two trees hold the same under a root if it leads to directories with the same contents, or to no
directory in either of them (`SameUnder`). The directories may stand at different locations, and
everything else may differ. A path that goes down from the root then leads to the same in both
(`SameUnder.find?_eq`), and if that is a file it can be read (`read_of_find?`).

Where the root is missing, its own names have to be short. Otherwise it depends on the directories
above it whether a question about it is refused.
-/

set_option autoImplicit false

namespace Apidoc.Files.Tree

open Apidoc.Text (Bytes)

variable {t t' : Tree} {root p : Path} {l l' : Location} {names : List String} {content : Bytes}

/-- The location that the names of a path lead to, however long its text is. -/
def follow (t : Tree) (p : Path) : Except Fault Location :=
  p.names.foldlM t.enter (startOf t.workingDirectory p)

/-- Under the root both trees hold the same. -/
inductive SameUnder (root : Path) (t t' : Tree) : Prop
  /-- The root leads to a location in both trees, and from there on they hold the same. -/
  | held {l l' : Location} (h : t.follow root = .ok l) (h' : t'.follow root = .ok l')
      (same : ∀ names, ".." ∉ names → t'.get? (l' ++ names) = t.get? (l ++ names))
  /-- The root leads to a directory in neither tree. -/
  | missing (hshort : ∀ name ∈ root.names, IsShort name)
      (h : ∀ l, t.follow root = .ok l → t.get? l ≠ some .directory)
      (h' : ∀ l, t'.follow root = .ok l → t'.get? l ≠ some .directory)

/-- A path goes on where its directory leads to. -/
theorem follow_append (t : Tree) (root : Path) (names : List String) :
    t.follow ⟨root.root, root.names ++ names⟩ =
      t.follow root >>= fun l => names.foldlM t.enter l :=
  List.foldlM_append

/-- The answer to a question about a path, from what its names lead to. -/
def answer (p : Path) : Except Fault (Option Entry) → Except FileError (Option Entry)
  | .ok found => .ok found
  | .error .nameTooLong => .error { fault := .nameTooLong, path := p }
  | .error _ => .ok none

/-- A fault other than a name that is too long means that there is nothing. -/
theorem answer_error {fault : Fault} (h : fault ≠ .nameTooLong) (p : Path) :
    answer p (.error fault) = .ok none := by
  cases fault
  case nameTooLong => exact absurd rfl h
  all_goals rfl

/-- Unless its text is no path for the system, a path is answered by where its names lead. -/
theorem find?_eq_answer (t : Tree) (p : Path) :
    t.find? p =
      if '\x00' ∈ p.toString.toList then .ok none
      else if longestPath < p.toString.utf8ByteSize then .error { fault := .nameTooLong, path := p }
      else answer p ((t.follow p).map t.get?) := by
  have hlocate : t.locate p =
      if '\x00' ∈ p.toString.toList then .error .nullCharacter
      else if longestPath < p.toString.utf8ByteSize then .error .nameTooLong
      else t.follow p := rfl
  rw [find?, hlocate]
  by_cases hnull : '\x00' ∈ p.toString.toList
  · rw [if_pos hnull, if_pos hnull]
  rw [if_neg hnull, if_neg hnull]
  by_cases hlong : longestPath < p.toString.utf8ByteSize
  · rw [if_pos hlong, if_pos hlong]
  rw [if_neg hlong, if_neg hlong]
  cases t.follow p with
  | ok l => rfl
  | error fault => cases fault <;> rfl

/-- A path is answered alike in two trees if what its names lead to is. -/
theorem find?_eq_of_answer
    (h : answer p ((t'.follow p).map t'.get?) = answer p ((t.follow p).map t.get?)) :
    t'.find? p = t.find? p := by
  rw [find?_eq_answer, find?_eq_answer, h]

/-- Names that lead down are followed alike from locations with the same below them. -/
theorem foldlM_enter_of_same
    (same : ∀ names, ".." ∉ names → t'.get? (l' ++ names) = t.get? (l ++ names))
    (hnames : ".." ∉ names) :
    (names.foldlM t'.enter l').map t'.get? = (names.foldlM t.enter l).map t.get? := by
  have hhere : t'.get? l' = t.get? l := by
    have hnone := same [] List.not_mem_nil
    rwa [List.append_nil, List.append_nil] at hnone
  induction names generalizing l l' with
  | nil => exact congrArg Except.ok hhere
  | cons name names ih =>
    rw [List.mem_cons, not_or] at hnames
    have hdown : ∀ k : Location, move k name = k ++ [name] := fun _ => if_neg (Ne.symm hnames.1)
    have hbelow : ∀ more, ".." ∉ more →
        t'.get? (l' ++ [name] ++ more) = t.get? (l ++ [name] ++ more) := by
      intro more hmore
      rw [List.append_assoc, List.append_assoc]
      exact same (name :: more) fun hmem => (List.mem_cons.mp hmem).elim hnames.1 hmore
    rw [List.foldlM_cons, List.foldlM_cons, enter, enter, hhere, hdown, hdown]
    split
    · rfl
    · rfl
    · split
      · rfl
      · exact ih hbelow hnames.2 (same [name] (mt List.mem_singleton.mp hnames.1))

/-- Short names are never refused for their length. -/
theorem foldlM_enter_ne_tooLong (hshort : ∀ name ∈ names, IsShort name) :
    names.foldlM t.enter l ≠ .error .nameTooLong := by
  induction names generalizing l with
  | nil => nofun
  | cons name names ih =>
    rw [List.foldlM_cons]
    cases henter : t.enter l name with
    | ok next => exact ih fun other hother => hshort other (List.mem_cons_of_mem _ hother)
    | error fault =>
      rintro ⟨⟩
      unfold enter at henter
      split at henter
      · cases henter
      · cases henter
      · split at henter
        · rename_i hlong
          rcases hshort name List.mem_cons_self with hup | hsize
          · exact hlong.1 hup
          · exact absurd hlong.2 (Nat.not_lt.mpr hsize)
        · cases henter

/-- Below a root that is missing there is nothing, and no question is refused. -/
theorem follow_below_missing (hshort : ∀ name ∈ root.names, IsShort name)
    (h : ∀ l, t.follow root = .ok l → t.get? l ≠ some .directory) (hne : names ≠ []) :
    ∃ fault, t.follow ⟨root.root, root.names ++ names⟩ = .error fault ∧ fault ≠ .nameTooLong := by
  rw [follow_append]
  cases hfollow : t.follow root with
  | error fault =>
    refine ⟨fault, rfl, ?_⟩
    rintro rfl
    exact foldlM_enter_ne_tooLong hshort hfollow
  | ok l =>
    obtain ⟨name, more, rfl⟩ := List.exists_cons_of_ne_nil hne
    show ∃ fault, (name :: more).foldlM t.enter l = .error fault ∧ fault ≠ .nameTooLong
    rw [List.foldlM_cons, enter]
    split
    · exact ⟨_, rfl, by decide⟩
    · exact ⟨_, rfl, by decide⟩
    · exact absurd ‹_› (h l hfollow)

/-- A path that goes down from the root leads to the same in both trees. -/
theorem SameUnder.find?_eq (h : SameUnder root t t') (hnames : ".." ∉ names) (hne : names ≠ []) :
    t'.find? ⟨root.root, root.names ++ names⟩ = t.find? ⟨root.root, root.names ++ names⟩ := by
  refine find?_eq_of_answer ?_
  cases h with
  | held h h' same =>
    rw [follow_append, follow_append, h, h']
    exact congrArg _ (foldlM_enter_of_same same hnames)
  | missing hshort h h' =>
    obtain ⟨fault, hfault, hlong⟩ := follow_below_missing hshort h hne
    obtain ⟨fault', hfault', hlong'⟩ := follow_below_missing hshort h' hne
    rw [hfault, hfault']
    exact (answer_error hlong' _).trans (answer_error hlong _).symm

/-- A file that a path leads to can be read. -/
theorem read_of_find? (h : t.find? p = .ok (some (.file content))) : t.read p = .ok content := by
  obtain ⟨l, hlocate, hentry⟩ := find?_eq_some_iff.mp h
  unfold read
  simp only [hlocate, hentry]

end Apidoc.Files.Tree
