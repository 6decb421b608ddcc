import Apidoc.Files.Action
import Apidoc.Proofs.Files.Tree
import Apidoc.Proofs.Run

/-!
# `Apidoc.Proofs.Files.Action`: what actions do to a tree

An action that succeeds did what it is for, and its statement here says so for the tree as
a whole. To make a directory adds directories on the way of its path where nothing was, and
nothing else (`Makes`). To remove one takes away what lies at its location and below
(`removeDirectory_inv`). It fails if its path leads through what it takes away.
-/

set_option autoImplicit false

namespace Apidoc.Files

open Apidoc.Proofs (Preserves exec exec_bind_ok exec_bind_inv exec_get)

open Apidoc.Files.Tree (SameOn IsSound IsNameable locate_eq_ok_iff locate_of_directories)

variable {t t' t'' : Tree} {p : Path} {u : Unit}

/-- A change that succeeds leaves the changed tree. -/
theorem exec_change_inv {f : Tree → Except FileError Tree}
    (h : exec (Action.change f) t = (.ok u, t')) : f t = .ok t' := by
  unfold Action.change at h
  rw [exec_bind_ok (exec_get t)] at h
  cases hchange : f t with
  | error e =>
    rw [hchange] at h
    cases h
  | ok changed =>
    rw [hchange] at h
    cases h
    rfl

/-- A question that is answered leaves the tree as it is. -/
theorem ask_inv {α : Type} {question : Tree → Except FileError α} {answer : α}
    (h : exec (Action.ask question) t = (.ok answer, t')) :
    question t = .ok answer ∧ t' = t := by
  unfold Action.ask at h
  rw [exec_bind_ok (exec_get t)] at h
  cases hanswer : question t with
  | error e =>
    rw [hanswer] at h
    cases h
  | ok given =>
    rw [hanswer] at h
    cases h
    exact ⟨rfl, rfl⟩

/-- A text that was written is at the location of its path. -/
theorem write_inv {text : String} (h : exec (Action.write p text) t = (.ok u, t')) :
    t.locate p = .ok (resolve t.workingDirectory p) ∧
      t.get? (resolve t.workingDirectory p) ≠ some .directory ∧
      t' = t.put (resolve t.workingDirectory p) (.file (Text.encode text)) := by
  obtain ⟨l, hlocate, hentry, hput⟩ := Tree.write_eq_ok_iff.mp (exec_change_inv h)
  have hl := Tree.eq_resolve_of_locate hlocate
  subst hl
  exact ⟨hlocate, hentry, hput⟩

/-- To put something where there is no directory leaves every directory where it is. -/
theorem get?_put_of_directory {l d : Location} (e : Entry) (hl : t.get? l ≠ some .directory)
    (hd : t.get? d = some .directory) : (t.put l e).get? d = some .directory := by
  have hne : d ≠ l := by
    rintro rfl
    exact hl hd
  rw [Tree.get?_put_of_ne t e hne, hd]

/-- Writing a text leaves every directory where it is, whether or not it succeeds. -/
theorem preserves_directory_write (d : Location) (p : Path) (text : String) :
    Preserves (fun t => t.get? d = some .directory) (Action.write p text) := by
  intro t ht
  unfold Action.write Action.change
  rw [exec_bind_ok (exec_get t)]
  dsimp only
  cases hwrite : t.write p (Text.encode text) with
  | error e => exact ht
  | ok t' =>
    obtain ⟨l, -, hentry, rfl⟩ := Tree.write_eq_ok_iff.mp hwrite
    exact get?_put_of_directory _ hentry ht

/-! ### Removing a directory -/

/-- Something of a directory is removed if the path leads to a directory. -/
theorem remove_eq_ok_iff {gone : Location → Tree} : t.remove p gone = .ok t' ↔
    ∃ l, t.locate p = .ok l ∧ t.get? l = some .directory ∧ t' = gone l := by
  unfold Tree.remove
  cases t.locate p with
  | error fault => exact ⟨nofun, fun ⟨_, hl, _⟩ => nomatch hl⟩
  | ok l =>
    constructor
    · intro h
      refine ⟨l, rfl, ?_⟩
      cases hentry : t.get? l with
      | none =>
        simp only [hentry] at h
        cases h
      | some entry =>
        cases entry with
        | file content =>
          simp only [hentry] at h
          cases h
        | directory =>
          simp only [hentry] at h
          cases h
          exact ⟨rfl, rfl⟩
    · rintro ⟨k, hk, hdirectory, rfl⟩
      cases hk
      simp only [hdirectory]

/-- A directory that was removed is gone with all that was below it. The way of its path did
not lead through anything below it. -/
theorem removeDirectory_inv (h : exec (Action.removeDirectory p) t = (.ok u, t')) :
    t.locate p = .ok (resolve t.workingDirectory p) ∧
      t.get? (resolve t.workingDirectory p) = some .directory ∧
      (∀ d ∈ wayOf t.workingDirectory p, resolve t.workingDirectory p <+: d →
        d = resolve t.workingDirectory p) ∧
      t' = t.prune (resolve t.workingDirectory p) := by
  obtain ⟨v, cleared, hclear, hremove⟩ := exec_bind_inv h
  obtain ⟨l, hlocate, hdirectory, rfl⟩ := remove_eq_ok_iff.mp (exec_change_inv hclear)
  obtain ⟨k, hagain, -, rfl⟩ := remove_eq_ok_iff.mp (exec_change_inv hremove)
  have hl := Tree.eq_resolve_of_locate hlocate
  have hk := Tree.eq_resolve_of_locate hagain
  subst hl hk
  refine ⟨hlocate, hdirectory, ?_, Tree.prune_clear t _⟩
  intro d hd hbelow
  by_contra hne
  -- The second time the way leads through what was just removed.
  have hgone := Tree.get?_clear_of_below t hbelow hne
  have hthere := (locate_eq_ok_iff.mp hagain).2.1 d hd
  rw [hgone] at hthere
  cases hthere

/-! ### Making directories -/

/-- The directory of a path was made: it is there, directories were put on the way where
nothing was, and everywhere else the tree is the same. -/
structure Makes (p : Path) (t t' : Tree) : Prop where
  location : t'.locate p = .ok (resolve t.workingDirectory p)
  directory : t'.get? (resolve t.workingDirectory p) = some .directory
  same : ∀ S : Location → Bool,
    (∀ l ∈ onWay t.workingDirectory p, t.get? l = none → S l = false) → SameOn S t t'
  fresh : ∀ l, t'.get? l = t.get? l ∨ t'.get? l = some .directory
  sound : t.IsSound → t'.IsSound

/-- The working directory stays. -/
theorem Makes.workingDirectory_eq (h : Makes p t t') :
    t'.workingDirectory = t.workingDirectory :=
  (h.same (fun _ => false) fun _ _ _ => rfl).workingDirectory

/-- What was there stays as it was. -/
theorem Makes.get?_eq_of_some (h : Makes p t t') {l : Location} {e : Entry}
    (hl : t.get? l = some e) : t'.get? l = some e := by
  have hsome : ¬ t.get? l = none := by
    rw [hl]
    nofun
  rw [Tree.get?_eq_of_sameOn (fun k => t.get? k = none)
    (fun S hS => h.same S fun k _ hnone => hS k hnone) hsome, hl]

/-- What is new is a directory on the way. -/
theorem Makes.get?_cases (h : Makes p t t') (l : Location) : t'.get? l = t.get? l ∨
    (t.get? l = none ∧ t'.get? l = some .directory ∧ l ∈ onWay t.workingDirectory p) := by
  by_cases hnew : t.get? l = none ∧ l ∈ onWay t.workingDirectory p
  · rcases h.fresh l with hsame | hdirectory
    · exact Or.inl hsame
    · exact Or.inr ⟨hnew.1, hdirectory, hnew.2⟩
  · refine Or.inl (Tree.get?_eq_of_sameOn
      (fun k => t.get? k = none ∧ k ∈ onWay t.workingDirectory p) ?_ hnew)
    exact fun S hS => h.same S fun k hk hnone => hS k ⟨hnone, hk⟩

/-- If everything on the way was there, nothing was made. -/
theorem Makes.eq_of_there (h : Makes p t t')
    (hway : ∀ l ∈ onWay t.workingDirectory p, t.get? l ≠ none) : t' = t := by
  have hsame := h.same (fun _ => true) fun l hl hnone => absurd hnone (hway l hl)
  have hentries : t'.entries = t.entries := by simpa using hsame.entries
  calc t' = ⟨t'.entries, t'.workingDirectory⟩ := rfl
    _ = ⟨t.entries, t.workingDirectory⟩ := by rw [hentries, hsame.workingDirectory]
    _ = t := rfl

/-- A new directory in a sound tree leaves it sound if it lies in a directory. -/
theorem isSound_put_directory {l : Location} (h : t.IsSound)
    (habove : t.get? l.dropLast = some .directory) (hnew : t.get? l = none) (hnames : ".." ∉ l) :
    (t.put l .directory).IsSound := by
  have hkept : ∀ k, t.get? k = some .directory → (t.put l .directory).get? k = some .directory :=
    fun k hk => get?_put_of_directory _ (by simp [hnew]) hk
  refine ⟨fun e he => ?_, hkept _ h.start, fun e he => ?_⟩
  · rcases List.mem_cons.mp he with rfl | hold
    · exact hkept _ habove
    · exact hkept _ (h.above e (List.mem_filter.mp hold).1)
  · rcases List.mem_cons.mp he with rfl | hold
    · exact hnames
    · exact h.names e (List.mem_filter.mp hold).1

/-- A path without names is a bare root, and any other one is that of an entry. -/
theorem names_eq_nil_or_child (p : Path) :
    p.names = [] ∨ ∃ (parent : Path) (name : String), p = parent.child name := by
  rcases List.eq_nil_or_concat p.names with hnil | ⟨above, name, hconcat⟩
  · exact Or.inl hnil
  · refine Or.inr ⟨⟨p.root, above⟩, name, ?_⟩
    rw [Path.child, ← List.concat_eq_append, ← hconcat]

/-- In a sound tree a path that leads to nothing ends with an entry that a directory lacks. -/
theorem parent_of_missing (h : t.IsSound) {l : Location} (hlocate : t.locate p = .ok l)
    (hnone : t.get? l = none) : t.get? l.dropLast = some .directory ∧ ".." ∉ l := by
  obtain ⟨-, hway, rfl⟩ := locate_eq_ok_iff.mp hlocate
  have hmissing : t.get? (resolve t.workingDirectory p) ≠ some .directory := by simp [hnone]
  rcases names_eq_nil_or_child p with hnil | ⟨parent, name, rfl⟩
  · have hstart : resolve t.workingDirectory p = startOf t.workingDirectory p := by
      rw [resolve, hnil]
      rfl
    exact absurd (hstart ▸ h.get?_startOf p) hmissing
  have hparent : t.get? (resolve t.workingDirectory parent) = some .directory := by
    refine hway _ ?_
    rw [wayOf_child]
    exact List.mem_append_right _ (List.mem_singleton_self _)
  -- What is above a directory is there, so the path does not end with `..`.
  have hup : name ≠ ".." := by
    rintro rfl
    rw [resolve_child_up] at hmissing
    exact hmissing (h.get?_dropLast hparent)
  rw [resolve_child _ _ hup, List.dropLast_concat]
  refine ⟨hparent, ?_⟩
  rw [List.mem_append, List.mem_singleton, not_or]
  exact ⟨h.not_mem_up hparent, Ne.symm hup⟩

/-- A directory that is made is put where nothing is, or it is there already. -/
theorem makeDirectory_inv (h : t.makeDirectory p = .ok t') :
    t.locate p = .ok (resolve t.workingDirectory p) ∧
      (t.get? (resolve t.workingDirectory p) = none ∧
          t' = t.put (resolve t.workingDirectory p) .directory ∨
        t.get? (resolve t.workingDirectory p) = some .directory ∧ t' = t) := by
  unfold Tree.makeDirectory at h
  cases hlocate : t.locate p with
  | error fault =>
    rw [hlocate] at h
    cases h
  | ok l =>
    obtain rfl := Tree.eq_resolve_of_locate hlocate
    rw [hlocate] at h
    refine ⟨rfl, ?_⟩
    rcases hentry : t.get? (resolve t.workingDirectory p) with _ | content | _
    all_goals
      simp only [hentry] at h
      cases h
    · exact Or.inl ⟨rfl, rfl⟩
    · exact Or.inr ⟨rfl, rfl⟩

/-- A directory was put where nothing was. -/
theorem makes_of_put (hlocate : t.locate p = .ok (resolve t.workingDirectory p))
    (hnone : t.get? (resolve t.workingDirectory p) = none) :
    Makes p t (t.put (resolve t.workingDirectory p) .directory) := by
  have hself := Tree.get?_put_self t _ .directory (Tree.ne_top_of_get?_eq_none hnone)
  exact {
    location := locate_of_directories hlocate rfl fun d hd =>
      get?_put_of_directory _ (by simp [hnone]) ((locate_eq_ok_iff.mp hlocate).2.1 d hd)
    directory := hself
    same := fun S hS => Tree.sameOn_put t .directory
      (hS _ (List.mem_append_right _ (List.mem_singleton_self _)) hnone)
    fresh := by
      intro l
      by_cases hl : l = resolve t.workingDirectory p
      · exact Or.inr (hl ▸ hself)
      · exact Or.inl (Tree.get?_put_of_ne t .directory hl)
    sound := by
      intro hsound
      obtain ⟨habove, hnames⟩ := parent_of_missing hsound hlocate hnone
      exact isSound_put_directory hsound habove hnone hnames }

/-- One directory was made, or was there. -/
theorem makes_of_makeDirectory (h : t.makeDirectory p = .ok t') : Makes p t t' := by
  obtain ⟨hlocate, ⟨hnone, rfl⟩ | ⟨hthere, rfl⟩⟩ := makeDirectory_inv h
  · exact makes_of_put hlocate hnone
  · exact ⟨hlocate, hthere, fun S _ => SameOn.refl S _, fun _ => Or.inl rfl, id⟩

/-- A directory was made in one that had been made before. -/
theorem Makes.trans_child {name : String} (h : Makes p t t') (h' : Makes (p.child name) t' t'') :
    Makes (p.child name) t t'' := by
  have hworking := h.workingDirectory_eq
  have hway : onWay t.workingDirectory (p.child name) =
      onWay t.workingDirectory p ++ [resolve t.workingDirectory (p.child name)] := by
    rw [onWay, wayOf_child, onWay]
  exact {
    location := by
      rw [← hworking]
      exact h'.location
    directory := by
      rw [← hworking]
      exact h'.directory
    same := by
      intro S hS
      refine (h.same S fun l hl hnone => hS l ?_ hnone).trans (h'.same S fun l hl hnone => ?_)
      · rw [hway]
        exact List.mem_append_left _ hl
      · rw [hworking] at hl
        refine hS l hl ?_
        -- What is not there in between was not there at first.
        cases hfirst : t.get? l with
        | none => rfl
        | some e =>
          rw [h.get?_eq_of_some hfirst] at hnone
          cases hnone
    fresh := by
      intro l
      rcases h'.fresh l with hsame | hdirectory
      · rw [hsame]
        exact h.fresh l
      · exact Or.inr hdirectory
    sound := fun hsound => h'.sound (h.sound hsound) }

/-- Directories from the first that is missing on were made. -/
theorem makes_of_makeDirectoriesFrom {root : Root} (reversed : List String)
    (h : exec (Action.makeDirectoriesFrom root reversed) t = (.ok u, t')) :
    Makes ⟨root, reversed.reverse⟩ t t' := by
  induction reversed generalizing t t' u with
  | nil => exact makes_of_makeDirectory (exec_change_inv h)
  | cons name above ih =>
    have hchild : (⟨root, (name :: above).reverse⟩ : Path) =
        (⟨root, above.reverse⟩ : Path).child name := by
      rw [List.reverse_cons, Path.child]
    unfold Action.makeDirectoriesFrom at h
    rw [exec_bind_ok (exec_get t)] at h
    cases hmake : t.makeDirectory ⟨root, (name :: above).reverse⟩ with
    | ok made =>
      rw [hmake] at h
      cases h
      exact makes_of_makeDirectory hmake
    | error e =>
      simp only [hmake] at h
      split at h
      · obtain ⟨v, between, hbefore, hlast⟩ := exec_bind_inv h
        have hlast := makes_of_makeDirectory (exec_change_inv hlast)
        rw [hchild] at hlast ⊢
        exact (ih hbefore).trans_child hlast
      · cases h

/-- A directory that was made with those above it is there, and all else is the same. -/
theorem makeDirectories_inv (h : exec (Action.makeDirectories p) t = (.ok u, t')) :
    Makes p t t' := by
  have hmakes := makes_of_makeDirectoriesFrom p.names.reverse h
  rwa [List.reverse_reverse] at hmakes

end Apidoc.Files
