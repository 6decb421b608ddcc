import Apidoc.Proofs.Files.Walk

/-!
# `Apidoc.Proofs.Files.Tree`: what changes of a tree leave alone

A change touches some locations, and everywhere else the tree holds the same as before, in
the same order (`SameOn`). Searches see the order of the entries, all else sees them one by
one (`SameOn.get?_eq`). So paths lead to the same in trees that hold the same at every
location, in whatever order (`Agree`).

A file that was written is there (`isFile_write`). Writing never replaces a directory,
so every path that led to a location still does (`locate_put_of_not_directory`), and a
file that was there is still a file (`isFile_write_of_isFile`).

A file that cannot be read is reported under its path, and a path that holds NUL is the
only one with that fault (`read_error`). What can be asked about and is a file can be read
(`isFile_cases`).
-/

set_option autoImplicit false

namespace Apidoc.Files.Tree

open Apidoc.Text (Bytes)

variable {t t' t'' : Tree} {p q : Path} {l k : Location} {content : Bytes}

/-! ### Entries -/

/-- A location other than the top that holds something is one of the entries. -/
theorem mem_entries_of_get? {e : Entry} (h : t.get? l = some e) :
    l = [] ∨ (l, e) ∈ t.entries := by
  unfold get? at h
  split at h
  · exact Or.inl ‹_›
  · obtain ⟨⟨k, e'⟩, hfind, rfl⟩ := Option.map_eq_some_iff.mp h
    have hlocation : k = l := by simpa using List.find?_some hfind
    subst hlocation
    exact Or.inr (List.mem_of_find?_eq_some hfind)

/-- A location that holds nothing is not the top. -/
theorem ne_top_of_get?_eq_none (h : t.get? l = none) : l ≠ [] := by
  rintro rfl
  cases h

/-- A location without a directory is not the top. -/
theorem ne_top_of_not_directory (h : t.get? l ≠ some .directory) : l ≠ [] := by
  rintro rfl
  exact h rfl

/-- The two trees hold the same, in the same order, at the locations where `S` holds. -/
structure SameOn (S : Location → Bool) (t t' : Tree) : Prop where
  workingDirectory : t'.workingDirectory = t.workingDirectory
  entries : (t'.entries.filter fun e => S e.1) = t.entries.filter fun e => S e.1

/-- A tree holds the same as itself. -/
theorem SameOn.refl (S : Location → Bool) (t : Tree) : SameOn S t t := ⟨rfl, rfl⟩

/-- What stays the same in two steps stays the same. -/
theorem SameOn.trans {S : Location → Bool} (h : SameOn S t t') (h' : SameOn S t' t'') :
    SameOn S t t'' :=
  ⟨h'.workingDirectory.trans h.workingDirectory, h'.entries.trans h.entries⟩

/-- What one location holds depends only on the entries at this location. -/
theorem find?_filter_of_holds {S : Location → Bool} (h : S l = true) :
    ((t.entries.filter fun e => S e.1).find? fun e => e.1 = l) =
      t.entries.find? fun e => e.1 = l := by
  rw [List.find?_filter]
  congr 1
  funext e
  by_cases he : e.1 = l
  · simp [he, h]
  · simp [he]

/-- Where the trees are the same, they hold the same. -/
theorem SameOn.get?_eq {S : Location → Bool} (hsame : SameOn S t t') (h : S l = true) :
    t'.get? l = t.get? l := by
  unfold get?
  split
  · rfl
  · rw [← find?_filter_of_holds h, hsame.entries, find?_filter_of_holds h]

/-- If two trees differ only at locations with a property, a location without it holds the same
in both. -/
theorem get?_eq_of_sameOn (P : Location → Prop)
    (h : ∀ S : Location → Bool, (∀ l, P l → S l = false) → SameOn S t t') (hk : ¬ P k) :
    t'.get? k = t.get? k := by
  have hone : SameOn (fun l => decide (l = k)) t t' :=
    h _ fun l hl => decide_eq_false fun heq => hk (heq ▸ hl)
  exact hone.get?_eq (decide_eq_true rfl)

/-- Putting an entry touches its location only. -/
theorem sameOn_put {S : Location → Bool} (t : Tree) (e : Entry) (h : S l = false) :
    SameOn S t (t.put l e) where
  workingDirectory := rfl
  entries := by
    show ((l, e) :: t.entries.filter fun other => other.1 ≠ l).filter (fun e => S e.1) = _
    rw [List.filter_cons_of_neg (by simp [h]), List.filter_filter]
    refine List.filter_congr fun other _ => ?_
    by_cases hother : other.1 = l
    · simp [hother, h]
    · simp [hother]

/-- Entries that a filter drops are not missed where it drops nothing. -/
theorem sameOn_filter {S drop : Location → Bool} (t : Tree)
    (h : ∀ k, drop k = true → S k = false) :
    SameOn S t { t with entries := t.entries.filter fun e => !drop e.1 } where
  workingDirectory := rfl
  entries := by
    show ((t.entries.filter fun e => !drop e.1).filter fun e => S e.1) = _
    rw [List.filter_filter]
    refine List.filter_congr fun e _ => ?_
    cases hdrop : drop e.1 with
    | true => simp [h _ hdrop]
    | false => simp

/-- Removing a location touches what lies at it and below. -/
theorem sameOn_prune {S : Location → Bool} (t : Tree) (h : ∀ k, l <+: k → S k = false) :
    SameOn S t (t.prune l) :=
  sameOn_filter t fun k hk => h k (List.isPrefixOf_iff_prefix.mp hk)

/-- What lay at a removed location or below is gone. -/
theorem get?_prune_of_prefix (t : Tree) (h : l <+: k) (hk : k ≠ []) :
    (t.prune l).get? k = none := by
  have hnone : (t.prune l).entries.find? (fun e => e.1 = k) = none := by
    rw [List.find?_eq_none]
    intro e he
    have hkept : (!l.isPrefixOf e.1) = true := (List.mem_filter.mp he).2
    simp only [decide_eq_true_eq]
    rintro rfl
    rw [List.isPrefixOf_iff_prefix.mpr h] at hkept
    cases hkept
  rw [get?, if_neg hk, hnone]
  rfl

/-- A location is not touched by the removal of one that is not above it. -/
theorem get?_prune_of_not_prefix (t : Tree) (h : ¬ l <+: k) : (t.prune l).get? k = t.get? k :=
  get?_eq_of_sameOn (l <+: ·) (fun _ hS => sameOn_prune t hS) h

/-- What lay below a location that was cleared is gone. -/
theorem get?_clear_of_below (t : Tree) (h : l <+: k) (hne : k ≠ l) :
    (t.clear l).get? k = none := by
  have hk : k ≠ [] := by
    rintro rfl
    exact hne (List.prefix_nil.mp h).symm
  have hnone : (t.clear l).entries.find? (fun e => e.1 = k) = none := by
    rw [List.find?_eq_none]
    intro e he
    have hkept : (!(l.isPrefixOf e.1 && l ≠ e.1)) = true := (List.mem_filter.mp he).2
    simp only [decide_eq_true_eq]
    rintro rfl
    simp [List.isPrefixOf_iff_prefix.mpr h, Ne.symm hne] at hkept
  rw [get?, if_neg hk, hnone]
  rfl

/-- Removing what lies in a directory is part of removing the directory. -/
theorem prune_clear (t : Tree) (l : Location) : (t.clear l).prune l = t.prune l := by
  unfold clear prune
  simp only [Tree.mk.injEq, and_true, List.filter_filter]
  refine List.filter_congr fun e _ => ?_
  cases l.isPrefixOf e.1 <;> simp

/-! ### Trees that hold the same everywhere -/

/-- The two trees hold the same at every location, in whatever order their entries are. -/
structure Agree (t t' : Tree) : Prop where
  workingDirectory : t'.workingDirectory = t.workingDirectory
  get?_eq : ∀ l, t'.get? l = t.get? l

/-- Every path leads to the same location. -/
theorem Agree.locate_eq (h : Agree t t') (p : Path) : t'.locate p = t.locate p := by
  have henter : t'.enter = t.enter := by
    funext l name
    rw [enter, enter, h.get?_eq]
  rw [locate, locate, henter, h.workingDirectory]

/-- Every path leads to the same thing. -/
theorem Agree.find?_eq (h : Agree t t') (p : Path) : t'.find? p = t.find? p := by
  unfold find?
  rw [h.locate_eq p]
  simp only [h.get?_eq]

/-- The same paths lead to files. -/
theorem Agree.isFile_eq (h : Agree t t') (p : Path) : t'.isFile p = t.isFile p := by
  rw [isFile, isFile, h.find?_eq]

/-- Every file has the same contents. -/
theorem Agree.read_eq (h : Agree t t') (p : Path) : t'.read p = t.read p := by
  unfold read
  rw [h.locate_eq p]
  simp only [h.get?_eq]

/-- The same entry put at the same location keeps the trees alike. -/
theorem Agree.put (h : Agree t t') (l : Location) (e : Entry) : Agree (t.put l e) (t'.put l e) where
  workingDirectory := h.workingDirectory
  get?_eq := by
    intro k
    by_cases hk : k = l
    · subst hk
      by_cases htop : k = []
      · subst htop
        rfl
      · rw [get?_put_self t' k e htop, get?_put_self t k e htop]
    · rw [get?_put_of_ne t' e hk, get?_put_of_ne t e hk, h.get?_eq]

/-! ### Sound trees -/

/-- Every entry lies in a directory, the working directory is there, and no name is `..`. -/
structure IsSound (t : Tree) : Prop where
  above : ∀ e ∈ t.entries, t.get? e.1.dropLast = some .directory
  start : t.get? t.workingDirectory = some .directory
  names : ∀ e ∈ t.entries, ".." ∉ e.1

/-- In a sound tree there is a directory above every location that holds something. -/
theorem IsSound.get?_dropLast (h : t.IsSound) {e : Entry} (hl : t.get? l = some e) :
    t.get? l.dropLast = some .directory := by
  rcases mem_entries_of_get? hl with rfl | hmem
  · rfl
  · exact h.above _ hmem

/-- In a sound tree what is there is named without `..`. -/
theorem IsSound.not_mem_up (h : t.IsSound) {e : Entry} (hl : t.get? l = some e) : ".." ∉ l := by
  rcases mem_entries_of_get? hl with rfl | hmem
  · exact List.not_mem_nil
  · exact h.names _ hmem

/-- In a sound tree the location at which a path starts is there. -/
theorem IsSound.get?_startOf (h : t.IsSound) (p : Path) :
    t.get? (startOf t.workingDirectory p) = some .directory := by
  unfold startOf
  split
  · rfl
  · exact h.start

/-- In a sound tree everything above a location that holds something is a directory. -/
theorem IsSound.directory_above (h : t.IsSound) {d : Location} (hd : d <+: l) (hne : d ≠ l)
    (hl : t.get? l ≠ none) : t.get? d = some .directory := by
  induction l using List.reverseRecOn with
  | nil => exact absurd (List.prefix_nil.mp hd) hne
  | append_singleton l name ih =>
    obtain ⟨e, he⟩ := Option.ne_none_iff_exists'.mp hl
    have hdirectory : t.get? l = some .directory := by
      have habove := h.get?_dropLast he
      rwa [List.dropLast_concat] at habove
    rcases List.prefix_concat_iff.mp hd with hsame | hprefix
    · exact absurd hsame hne
    · by_cases hl : d = l
      · rw [hl]
        exact hdirectory
      · exact ih hprefix hl (by rw [hdirectory]; nofun)

/-! ### Files -/

/-- A path leads to an entry if it leads to a location that holds it. -/
theorem find?_eq_some_iff {entry : Entry} : t.find? p = .ok (some entry) ↔
    ∃ l, t.locate p = .ok l ∧ t.get? l = some entry := by
  unfold find?
  cases hlocate : t.locate p with
  | error fault =>
    refine ⟨fun h => ?_, fun ⟨l, hl, _⟩ => nomatch hl⟩
    cases fault <;> cases h
  | ok l =>
    refine ⟨fun h => ⟨l, rfl, Except.ok.inj h⟩, ?_⟩
    rintro ⟨_, ⟨⟩, hentry⟩
    exact congrArg Except.ok hentry

/-- A path leads to a file if it leads to a location that holds one. -/
theorem isFile_iff : t.isFile p = .ok true ↔
    ∃ l content, t.locate p = .ok l ∧ t.get? l = some (.file content) := by
  have hfind : t.isFile p = .ok true ↔ ∃ content, t.find? p = .ok (some (.file content)) := by
    unfold isFile
    rcases t.find? p with error | _ | ⟨_ | content⟩ <;> simp [bind, Except.bind, pure, Except.pure]
  rw [hfind]
  simp only [find?_eq_some_iff]
  exact exists_comm

/-- A file is read as what its location holds. -/
theorem read_of_isFile {content : Text.Bytes} (h : t.isFile p = .ok true)
    (hcontent : t.get? (resolve t.workingDirectory p) = some (.file content)) :
    t.read p = .ok content := by
  obtain ⟨l, held, hlocate, -⟩ := isFile_iff.mp h
  rw [← eq_resolve_of_locate hlocate] at hcontent
  unfold read
  simp only [hlocate, hcontent]

/-- A path leads to a directory if it leads to a location that holds one. -/
theorem isDirectory_iff : t.isDirectory p = .ok true ↔
    ∃ l, t.locate p = .ok l ∧ t.get? l = some .directory := by
  rw [← find?_eq_some_iff]
  unfold isDirectory
  rcases t.find? p with error | _ | ⟨_ | content⟩ <;> simp [bind, Except.bind, pure, Except.pure]

/-- A path that is written leads to a location without a directory, which then holds the file. -/
theorem write_eq_ok_iff : t.write p content = .ok t' ↔
    ∃ l, t.locate p = .ok l ∧ t.get? l ≠ some .directory ∧ t' = t.put l (.file content) := by
  unfold write
  cases t.locate p with
  | error fault => exact ⟨nofun, fun ⟨_, hl, _⟩ => nomatch hl⟩
  | ok l =>
    show (if t.get? l = some .directory then _ else _) = _ ↔ _
    split
    · rename_i hdirectory
      refine ⟨nofun, ?_⟩
      rintro ⟨k, hk, hne, -⟩
      cases hk
      exact absurd hdirectory hne
    · rename_i hentry
      constructor
      · intro h
        cases h
        exact ⟨l, rfl, hentry, rfl⟩
      · rintro ⟨k, hk, -, rfl⟩
        cases hk
        rfl

/-- A path that leads to a location still does when a file is put in place of no directory. -/
theorem locate_put_of_not_directory (h : t.get? l ≠ some .directory)
    (hlocate : t.locate p = .ok k) : (t.put l (.file content)).locate p = .ok k := by
  refine locate_of_directories hlocate rfl fun d hd => ?_
  have hdirectory : t.get? d = some .directory := (locate_eq_ok_iff.mp hlocate).2.1 d hd
  have hne : d ≠ l := by
    rintro rfl
    exact h hdirectory
  rw [get?_put_of_ne t (.file content) hne, hdirectory]

/-- A file that was written is there. -/
theorem isFile_write (h : t.write p content = .ok t') : t'.isFile p = .ok true := by
  obtain ⟨l, hlocate, hentry, rfl⟩ := write_eq_ok_iff.mp h
  exact isFile_iff.mpr ⟨l, content, locate_put_of_not_directory hentry hlocate,
    get?_put_self t l (.file content) (ne_top_of_not_directory hentry)⟩

/-- A file that is there stays one when another, or the same, is written. -/
theorem isFile_write_of_isFile (h : t.write p content = .ok t') (hfile : t.isFile q = .ok true) :
    t'.isFile q = .ok true := by
  obtain ⟨l, -, hentry, rfl⟩ := write_eq_ok_iff.mp h
  obtain ⟨k, old, hlocate, hold⟩ := isFile_iff.mp hfile
  have hlocate' : (t.put l (.file content)).locate q = .ok k :=
    locate_put_of_not_directory hentry hlocate
  by_cases hsame : k = l
  · subst hsame
    exact isFile_iff.mpr ⟨k, content, hlocate',
      get?_put_self t k (.file content) (ne_top_of_not_directory hentry)⟩
  · exact isFile_iff.mpr ⟨k, old, hlocate',
      (get?_put_of_ne t (.file content) hsame).trans hold⟩

/-! ### Refusals -/

/-- Following names never comes upon the character NUL. -/
theorem ne_null_of_foldlM_enter {names : List String} {fault : Fault}
    (h : names.foldlM t.enter l = .error fault) : fault ≠ .nullCharacter := by
  induction names generalizing l with
  | nil => cases h
  | cons name rest ih =>
    rw [List.foldlM_cons] at h
    rcases hname : t.enter l name with other | next
    · rw [hname] at h
      cases h
      rintro rfl
      unfold enter at hname
      grind
    · rw [hname] at h
      exact ih h

/-- A file that cannot be read is reported under its path. The path holds NUL if and only if the
report says so. -/
theorem read_error {e : FileError} (h : t.read p = .error e) :
    e = { fault := e.fault, path := p } ∧ (e.fault = .nullCharacter ↔ '\x00' ∈ p.toString.toList) := by
  unfold read locate at h
  have hnames := @ne_null_of_foldlM_enter t (startOf t.workingDirectory p) p.names
  grind

/-- Only a path that is too long cannot be asked about. Anything else is a file that can be read, or
no file. -/
theorem isFile_cases (t : Tree) (p : Path) :
    (t.locate p = .error .nameTooLong ∧
      t.isFile p = .error { fault := .nameTooLong, path := p }) ∨
    (t.locate p ≠ .error .nameTooLong ∧
      (t.isFile p = .ok false ∨ ∃ content, t.isFile p = .ok true ∧ t.read p = .ok content)) := by
  unfold isFile read find?
  rcases t.locate p with fault | l
  · cases fault
    case nameTooLong => exact .inl ⟨rfl, rfl⟩
    all_goals exact .inr ⟨nofun, .inl rfl⟩
  · rcases hentry : t.get? l with _ | _ | content
    · exact .inr ⟨nofun, .inl (by simp only [hentry]; rfl)⟩
    · exact .inr ⟨nofun, .inl (by simp only [hentry]; rfl)⟩
    · exact .inr ⟨nofun, .inr ⟨content, by simp only [hentry]; rfl, by simp only [hentry]⟩⟩

end Apidoc.Files.Tree
