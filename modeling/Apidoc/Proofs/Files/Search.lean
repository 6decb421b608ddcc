import Apidoc.Files.Search
import Apidoc.Proofs.Files.Tree
import Apidoc.Proofs.Run

/-!
# `Apidoc.Proofs.Files.Search`: what a search sees of a tree

A search starts in a directory and goes down. So it sees the way of its root and what lies
below it, and nothing else of the tree. Two trees in which the root leads to the same
location, and which hold the same from there on, give the same results (`SameBelow`). They
need not agree anywhere else.

Going down means that no name is `..`. Entries of a tree are never called that, but the
pattern of a search may say so, and then it leaves its root again. The lemmas therefore ask
for patterns without `..`.

A root that is no directory has nothing below it. `Kept` covers both cases, so that two
searches that succeed find the same (`Kept.filesBelow_eq`, `Kept.packagesBelow_eq`).
-/

set_option autoImplicit false

namespace Apidoc.Files

open Apidoc.Proofs (bind_inv exists_of_mem_mapM filterM_congr mapM_congr mem_of_mem_filterM)

/-! ### Going down -/

/-- The path goes on from `root`, and only downwards. -/
def IsBelow (root p : Path) : Prop :=
  ∃ names, ".." ∉ names ∧ p = ⟨root.root, root.names ++ names⟩

/-- A directory is below itself. -/
theorem isBelow_self (root : Path) : IsBelow root root :=
  ⟨[], List.not_mem_nil, by rw [List.append_nil]⟩

/-- An entry of a directory below another one is below that one. -/
theorem IsBelow.child {root p : Path} (h : IsBelow root p) {name : String} (hname : name ≠ "..") :
    IsBelow root (p.child name) := by
  obtain ⟨names, hnames, rfl⟩ := h
  refine ⟨names ++ [name], ?_, ?_⟩
  · rw [List.mem_append, List.mem_singleton, not_or]
    exact ⟨hnames, hname.symm⟩
  · rw [Path.child, List.append_assoc]

/-- What lies deeper in a directory below another one is below that one. -/
theorem IsBelow.join {root p : Path} (h : IsBelow root p) {more : List String}
    (hmore : ".." ∉ more) : IsBelow root (p.join ⟨.workingDirectory, more⟩) := by
  obtain ⟨names, hnames, rfl⟩ := h
  refine ⟨names ++ more, ?_, ?_⟩
  · rw [List.mem_append, not_or]
    exact ⟨hnames, hmore⟩
  · rw [Path.join, if_pos rfl, List.append_assoc]

/-- Names without `..` lead straight down. -/
theorem foldl_move {names : List String} (h : ".." ∉ names) (l : Location) :
    names.foldl move l = l ++ names := by
  induction names generalizing l with
  | nil => exact (List.append_nil l).symm
  | cons name names ih =>
    rw [List.mem_cons, not_or] at h
    rw [List.foldl_cons, ih h.2, move, if_neg (Ne.symm h.1), List.append_assoc]
    rfl

/-- What is below a directory lies below its location. -/
theorem resolve_of_isBelow (workingDirectory : Location) {root p : Path} (h : IsBelow root p) :
    resolve workingDirectory root <+: resolve workingDirectory p := by
  obtain ⟨names, hnames, rfl⟩ := h
  have hend : resolve workingDirectory ⟨root.root, root.names ++ names⟩ =
      resolve workingDirectory root ++ names := by
    show (root.names ++ names).foldl move (startOf workingDirectory root) = _
    rw [List.foldl_append, foldl_move hnames]
    rfl
  rw [hend]
  exact List.prefix_append ..

namespace Tree

variable {t t' : Tree} {root p : Path}

/-- The root leads to the same location in both trees, and from there on they hold the same. -/
structure SameBelow (root : Path) (t t' : Tree) : Prop where
  before : t.locate root = .ok (resolve t.workingDirectory root)
  after : t'.locate root = .ok (resolve t.workingDirectory root)
  same : SameOn (resolve t.workingDirectory root).isPrefixOf t t'
  names : ∀ e ∈ t.entries, ".." ∉ e.1

/-- Both trees hold the same at and below the location of the root. -/
theorem SameBelow.get?_eq (h : SameBelow root t t') {l : Location}
    (hl : resolve t.workingDirectory root <+: l) : t'.get? l = t.get? l :=
  h.same.get?_eq (List.isPrefixOf_iff_prefix.mpr hl)

/-- Names that lead down are followed in the same way. -/
theorem SameBelow.foldlM_enter_eq (h : SameBelow root t t') {names : List String}
    (hnames : ".." ∉ names) {l : Location} (hl : resolve t.workingDirectory root <+: l) :
    names.foldlM t'.enter l = names.foldlM t.enter l := by
  induction names generalizing l with
  | nil => rfl
  | cons name names ih =>
    rw [List.mem_cons, not_or] at hnames
    have henter : t'.enter l name = t.enter l name := by
      rw [enter, enter, h.get?_eq hl]
    rw [List.foldlM_cons, List.foldlM_cons, henter]
    cases hnext : t.enter l name with
    | error fault => rfl
    | ok next =>
      -- The next location is one name further down.
      obtain ⟨-, -, rfl⟩ := enter_eq_ok_iff.mp hnext
      refine ih hnames.2 ?_
      rw [move, if_neg (Ne.symm hnames.1)]
      exact hl.trans (List.prefix_append ..)

/-- A root that leads to its location does so name by name. -/
theorem foldlM_enter_of_locate {l : Location} (h : t.locate root = .ok l) :
    root.names.foldlM t.enter (startOf t.workingDirectory root) = .ok l := by
  obtain ⟨hnameable, hway, hl⟩ := locate_eq_ok_iff.mp h
  exact (foldlM_enter_eq_ok_iff root.names).mpr ⟨hway, hnameable.names, hl⟩

/-- A path below the root leads to the same location in both trees, or to none in both. -/
theorem SameBelow.locate_eq (h : SameBelow root t t') (hp : IsBelow root p) :
    t'.locate p = t.locate p := by
  obtain ⟨names, hnames, rfl⟩ := hp
  have hbefore := foldlM_enter_of_locate h.before
  have hafter := foldlM_enter_of_locate h.after
  rw [h.same.workingDirectory] at hafter
  have hfollow : (root.names ++ names).foldlM t'.enter (startOf t'.workingDirectory root) =
      (root.names ++ names).foldlM t.enter (startOf t.workingDirectory root) := by
    rw [List.foldlM_append, List.foldlM_append, h.same.workingDirectory, hafter, hbefore]
    exact h.foldlM_enter_eq hnames List.prefix_rfl
  unfold locate
  simp only
  split
  · rfl
  · split
    · rfl
    · exact hfollow

/-- A path below the root leads to a location below that of the root. -/
theorem prefix_of_locate {l : Location} (hp : IsBelow root p) (h : t.locate p = .ok l) :
    resolve t.workingDirectory root <+: l := by
  rw [eq_resolve_of_locate h]
  exact resolve_of_isBelow t.workingDirectory hp

/-! ### Questions about what is below -/

/-- What a path below the root leads to is the same. -/
theorem SameBelow.find?_eq (h : SameBelow root t t') (hp : IsBelow root p) :
    t'.find? p = t.find? p := by
  unfold find?
  rw [h.locate_eq hp]
  cases hlocate : t.locate p with
  | error fault => cases fault <;> rfl
  | ok l =>
    dsimp only
    rw [h.get?_eq (prefix_of_locate hp hlocate)]

/-- A path below the root leads to a file in both trees, or in neither. -/
theorem SameBelow.isFile_eq (h : SameBelow root t t') (hp : IsBelow root p) :
    t'.isFile p = t.isFile p := by
  rw [isFile, isFile, h.find?_eq hp]

/-- A path below the root leads to a directory in both trees, or in neither. -/
theorem SameBelow.isDirectory_eq (h : SameBelow root t t') (hp : IsBelow root p) :
    t'.isDirectory p = t.isDirectory p := by
  rw [isDirectory, isDirectory, h.find?_eq hp]

/-- A file below the root has the same contents. -/
theorem SameBelow.read_eq (h : SameBelow root t t') (hp : IsBelow root p) :
    t'.read p = t.read p := by
  unfold read
  rw [h.locate_eq hp]
  cases hlocate : t.locate p with
  | error fault => rfl
  | ok l =>
    dsimp only
    rw [h.get?_eq (prefix_of_locate hp hlocate)]

/-- What is picked from the entries where the trees are the same is the same. -/
theorem SameOn.filterMap_entries {β : Type} {S : Location → Bool} (h : SameOn S t t')
    {pick : Location × Entry → Option β} (hpick : ∀ e, S e.1 = false → pick e = none) :
    t'.entries.filterMap pick = t.entries.filterMap pick := by
  have hfiltered : ∀ entries : List (Location × Entry),
      entries.filterMap pick = (entries.filter fun e => S e.1).filterMap pick := by
    intro entries
    rw [List.filterMap_filter]
    refine List.filterMap_congr fun e _ => ?_
    cases hS : S e.1 with
    | true => rfl
    | false => exact hpick e hS
  rw [hfiltered, hfiltered t.entries, h.entries]

/-- A directory below the root lists the same. -/
theorem SameBelow.listing_eq (h : SameBelow root t t') (hp : IsBelow root p) :
    t'.listing p = t.listing p := by
  unfold listing
  rw [h.locate_eq hp]
  cases hlocate : t.locate p with
  | error fault => rfl
  | ok l =>
    have hl := prefix_of_locate hp hlocate
    refine h.same.filterMap_entries fun e he => ?_
    obtain ⟨m, entry⟩ := e
    show (if m.dropLast = l then _ else _) = none
    split
    · rename_i habove
      -- An entry of the directory lies below it, so only the top could be missed.
      have hbelow : resolve t.workingDirectory root <+: m :=
        hl.trans (habove ▸ List.dropLast_prefix m)
      rw [List.isPrefixOf_iff_prefix.mpr hbelow] at he
      cases he
    · rfl

/-- The directories from one below the root on are the same. -/
theorem SameBelow.directoriesFrom_eq (h : SameBelow root t t') (hp : IsBelow root p) :
    t'.directoriesFrom p = t.directoriesFrom p := by
  unfold directoriesFrom
  rw [h.locate_eq hp]
  cases hlocate : t.locate p with
  | error fault => rfl
  | ok l =>
    have hl := prefix_of_locate hp hlocate
    refine congrArg (p :: ·) (h.same.filterMap_entries fun e he => ?_)
    obtain ⟨m, entry⟩ := e
    show (if entry = .directory ∧ l.isPrefixOf m ∧ m ≠ l then _ else _) = none
    split
    · rename_i hbelow
      have hm := hl.trans (List.isPrefixOf_iff_prefix.mp hbelow.2.1)
      rw [List.isPrefixOf_iff_prefix.mpr hm] at he
      cases he
    · rfl

/-- No name in a listing is `..`. -/
theorem ne_up_of_mem_listing (h : ∀ e ∈ t.entries, ".." ∉ e.1) {entry : String × Entry}
    (hentry : entry ∈ t.listing p) : entry.1 ≠ ".." := by
  unfold listing at hentry
  cases hlocate : t.locate p with
  | error fault =>
    rw [hlocate] at hentry
    cases hentry
  | ok l =>
    rw [hlocate] at hentry
    obtain ⟨⟨m, e⟩, hm, hpick⟩ := List.mem_filterMap.mp hentry
    dsimp only at hpick
    split at hpick
    · obtain ⟨name, hname, rfl⟩ := Option.map_eq_some_iff.mp hpick
      rintro rfl
      exact h _ hm (List.mem_of_getLast? hname)
    · cases hpick

/-- The directories from one below the root on are below the root. -/
theorem isBelow_of_mem_directoriesFrom (h : ∀ e ∈ t.entries, ".." ∉ e.1) (hp : IsBelow root p)
    {q : Path} (hq : q ∈ t.directoriesFrom p) : IsBelow root q := by
  unfold directoriesFrom at hq
  cases hlocate : t.locate p with
  | error fault =>
    rw [hlocate] at hq
    cases hq
  | ok l =>
    rw [hlocate] at hq
    rcases List.mem_cons.mp hq with rfl | hq
    · exact hp
    · obtain ⟨⟨m, e⟩, hm, hpick⟩ := List.mem_filterMap.mp hq
      dsimp only at hpick
      split at hpick
      · cases hpick
        exact hp.join fun hmem => h _ hm (List.mem_of_mem_drop hmem)
      · cases hpick

/-! ### Searches -/

/-- The parts of a pattern never lead up. -/
def StaysBelow (parts : List PathPart) : Prop := ∀ name, .exact name ∈ parts → name ≠ ".."

/-- What is picked below the root is below the root. -/
theorem isBelow_of_mem_select (h : ∀ e ∈ t.entries, ".." ∉ e.1) {parts : List PathPart}
    (hparts : StaysBelow parts) (hp : IsBelow root p) {qs : List Path}
    (hqs : t.select parts p = .ok qs) : ∀ q ∈ qs, IsBelow root q := by
  intro q hq
  -- The search recurses on the pattern, each time from paths further down.
  induction parts generalizing p qs with
  | nil =>
    cases hqs
    rw [List.mem_singleton.mp hq]
    exact hp
  | cons part rest ih =>
    have hrest : StaysBelow rest := fun name hname => hparts name (List.mem_cons_of_mem _ hname)
    cases part with
    | directoryOnly =>
      cases hqs
      rw [List.mem_singleton.mp hq]
      exact hp
    | exact name =>
      have hchild : IsBelow root (p.child name) := hp.child (hparts name List.mem_cons_self)
      rw [select] at hqs
      obtain ⟨found, -, hqs⟩ := bind_inv hqs
      cases found with
      | none =>
        cases hqs
        cases hq
      | some e =>
        dsimp only at hqs
        split at hqs
        · exact ih hrest hchild hqs hq
        · cases hqs
          cases hq
    | matching pattern =>
      rw [select] at hqs
      obtain ⟨found, hfound, hqs⟩ := bind_inv hqs
      cases hqs
      obtain ⟨picked, hpicked, hq⟩ := List.mem_flatten.mp hq
      obtain ⟨entry, hentry, hpick⟩ := exists_of_mem_mapM hfound hpicked
      dsimp only at hpick
      split at hpick
      · exact ih hrest (hp.child (ne_up_of_mem_listing h hentry)) hpick hq
      · cases hpick
        cases hq
    | anyDirectories =>
      rw [select] at hqs
      obtain ⟨found, hfound, hqs⟩ := bind_inv hqs
      cases hqs
      obtain ⟨picked, hpicked, hq⟩ := List.mem_flatten.mp hq
      obtain ⟨d, hd, hpick⟩ := exists_of_mem_mapM hfound hpicked
      exact ih hrest (isBelow_of_mem_directoriesFrom h hp hd) hpick hq

/-- A search below the root picks the same in both trees. -/
theorem SameBelow.select_eq (h : SameBelow root t t') {parts : List PathPart}
    (hparts : StaysBelow parts) (hp : IsBelow root p) :
    t'.select parts p = t.select parts p := by
  induction parts generalizing p with
  | nil => rfl
  | cons part rest ih =>
    have hrest : StaysBelow rest := fun name hname => hparts name (List.mem_cons_of_mem _ hname)
    cases part with
    | directoryOnly => rfl
    | exact name =>
      have hchild : IsBelow root (p.child name) := hp.child (hparts name List.mem_cons_self)
      rw [select, select, h.find?_eq hchild, ih hrest hchild]
    | matching pattern =>
      rw [select, select, h.listing_eq hp]
      refine congrArg (· >>= _) (mapM_congr fun entry hentry => ?_)
      have hsame := ih hrest (hp.child (ne_up_of_mem_listing h.names hentry))
      obtain ⟨name, e⟩ := entry
      dsimp only at hsame ⊢
      rw [hsame]
    | anyDirectories =>
      rw [select, select, h.directoriesFrom_eq hp]
      exact congrArg (· >>= _) (mapM_congr fun d hd =>
        ih hrest (isBelow_of_mem_directoriesFrom h.names hp hd))

/-- A part that stands for one name was read from it. -/
theorem eq_of_read?_exact {name written : String}
    (h : PathPart.read? written = some (.exact name)) : name = written := by
  unfold PathPart.read? at h
  dsimp only at h
  split at h
  · cases h
  · split at h
    · cases h
    · split at h <;> cases h
      rfl

/-- The names that parts of a pattern stand for are among those that were read. -/
theorem mem_of_exact_mem {written : List String} {parts : List PathPart}
    (h : written.mapM PathPart.read? = some parts) {name : String} (hname : .exact name ∈ parts) :
    name ∈ written := by
  induction written generalizing parts with
  | nil =>
    cases h
    cases hname
  | cons first rest ih =>
    rw [List.mapM_cons] at h
    obtain ⟨part, hpart, h⟩ := Option.bind_eq_some_iff.mp h
    obtain ⟨others, hothers, h⟩ := Option.bind_eq_some_iff.mp h
    cases h
    rcases List.mem_cons.mp hname with hfirst | hrest
    · rw [← hfirst] at hpart
      rw [eq_of_read?_exact hpart]
      exact List.mem_cons_self
    · exact List.mem_cons_of_mem _ (ih hothers hrest)

/-- A pattern without `..` has only parts that never lead up. -/
theorem staysBelow_of_readAll? {pattern : String} {parts : List PathPart}
    (h : ".." ∉ (Path.ofString pattern).names) (hread : PathPart.readAll? pattern = some parts) :
    StaysBelow (.anyDirectories :: parts) := by
  unfold PathPart.readAll? at hread
  obtain ⟨named, hnamed, hread⟩ := Option.bind_eq_some_iff.mp hread
  cases hread
  rintro name hmem rfl
  have hexact : .exact ".." ∈ named := by
    rcases List.mem_cons.mp hmem with hmem | hmem
    · cases hmem
    rcases List.mem_append.mp hmem with hmem | hmem
    · exact hmem
    · split at hmem
      · cases List.mem_singleton.mp hmem
      · cases hmem
  exact h (mem_of_exact_mem hnamed hexact)

/-- Putting paths in order adds none. -/
theorem mem_of_mem_inOrder {ps : List Path} {p : Path} (h : p ∈ inOrder ps) : p ∈ ps :=
  List.mem_mergeSort.mp (List.mem_eraseDups.mp h)

/-- A search that succeeds has picked paths below a directory, or there is no directory and it has
found nothing. -/
theorem search_inv {pattern : String} {ps : List Path} (h : t.search root pattern = .ok ps) :
    (t.isDirectory root = .ok false ∧ ps = []) ∨
      (t.isDirectory root = .ok true ∧ ∃ parts qs, PathPart.readAll? pattern = some parts ∧
        t.select (.anyDirectories :: parts) root = .ok qs ∧ ps = inOrder qs) := by
  unfold search at h
  cases hread : PathPart.readAll? pattern with
  | none =>
    rw [hread] at h
    cases h
  | some parts =>
    rw [hread] at h
    cases hdirectory : t.isDirectory root with
    | error e =>
      simp only [hdirectory] at h
      cases h
    | ok isThere =>
      cases isThere with
      | false =>
        simp only [hdirectory] at h
        cases h
        exact .inl ⟨rfl, rfl⟩
      | true =>
        simp only [hdirectory] at h
        cases hselect : t.select (.anyDirectories :: parts) root with
        | error e =>
          rw [hselect] at h
          cases h
        | ok qs =>
          rw [hselect] at h
          cases h
          exact .inr ⟨rfl, parts, qs, rfl, hselect, rfl⟩

/-- What a search finds is below its root. -/
theorem isBelow_of_mem_search (h : ∀ e ∈ t.entries, ".." ∉ e.1) {pattern : String}
    (hpattern : ".." ∉ (Path.ofString pattern).names) {ps : List Path}
    (hps : t.search root pattern = .ok ps) (hp : p ∈ ps) : IsBelow root p := by
  rcases search_inv hps with ⟨-, rfl⟩ | ⟨-, parts, qs, hread, hselect, rfl⟩
  · cases hp
  · have hstays := staysBelow_of_readAll? hpattern hread
    exact isBelow_of_mem_select h hstays (isBelow_self root) hselect p (mem_of_mem_inOrder hp)

/-- A search finds the same in both trees. -/
theorem SameBelow.search_eq (h : SameBelow root t t') {pattern : String}
    (hpattern : ".." ∉ (Path.ofString pattern).names) :
    t'.search root pattern = t.search root pattern := by
  unfold search
  cases hread : PathPart.readAll? pattern with
  | none => rfl
  | some parts =>
    have hstays := staysBelow_of_readAll? hpattern hread
    dsimp only
    rw [h.isDirectory_eq (isBelow_self root), h.select_eq hstays (isBelow_self root)]

/-- A search below a root that is no directory finds nothing. -/
theorem eq_nil_of_search (h : t.isDirectory root ≠ .ok true) {pattern : String} {ps : List Path}
    (hps : t.search root pattern = .ok ps) : ps = [] := by
  rcases search_inv hps with ⟨-, hnil⟩ | ⟨hdirectory, -⟩
  · exact hnil
  · exact absurd hdirectory h

/-! ### Roots that are kept -/

/-- Searches below the root see no difference between the trees: it is a directory with the same
below it in both, or it is a directory in neither. -/
def Kept (root : Path) (t t' : Tree) : Prop :=
  SameBelow root t t' ∨ (t.isDirectory root ≠ .ok true ∧ t'.isDirectory root ≠ .ok true)

/-- What a search below a root that is kept finds leads to the same in both trees. -/
theorem Kept.same_of_mem_search (h : Kept root t t') {pattern : String}
    (hpattern : ".." ∉ (Path.ofString pattern).names) {ps : List Path}
    (hps : t.search root pattern = .ok ps) (hp : p ∈ ps) :
    t'.isFile p = t.isFile p ∧ t'.isDirectory p = t.isDirectory p ∧ t'.read p = t.read p := by
  rcases h with hsame | ⟨hbefore, -⟩
  · have hbelow := isBelow_of_mem_search hsame.names hpattern hps hp
    exact ⟨hsame.isFile_eq hbelow, hsame.isDirectory_eq hbelow, hsame.read_eq hbelow⟩
  · rw [eq_nil_of_search hbefore hps] at hp
    cases hp

/-- Two searches below a root that is kept find the same paths, if they succeed. -/
theorem Kept.search_eq (h : Kept root t t') {pattern : String}
    (hpattern : ".." ∉ (Path.ofString pattern).names) {ps ps' : List Path}
    (hps : t.search root pattern = .ok ps) (hps' : t'.search root pattern = .ok ps') : ps' = ps := by
  rcases h with hsame | ⟨hbefore, hafter⟩
  · rw [hsame.search_eq hpattern, hps] at hps'
    cases hps'
    rfl
  · rw [eq_nil_of_search hbefore hps, eq_nil_of_search hafter hps']

/-- The files below a root that is kept are the same. -/
theorem Kept.filesBelow_eq (h : Kept root t t') {suffix : String}
    (hsuffix : ".." ∉ (Path.ofString ("*" ++ suffix)).names) {ps ps' : List Path}
    (hps : t.filesBelow root suffix = .ok ps) (hps' : t'.filesBelow root suffix = .ok ps') :
    ps' = ps := by
  obtain ⟨found, hfound, hfiles⟩ := bind_inv hps
  obtain ⟨found', hfound', hfiles'⟩ := bind_inv hps'
  have hsame := h.search_eq hsuffix hfound hfound'
  subst hsame
  have hkept : (found'.filterM fun p => (t'.isFile p).mapError Failure.file) =
      found'.filterM fun p => (t.isFile p).mapError Failure.file :=
    filterM_congr fun p hp => by rw [(h.same_of_mem_search hsuffix hfound hp).1]
  rw [hkept, hfiles] at hfiles'
  cases hfiles'
  rfl

/-- The files below a root that is kept have the same contents. -/
theorem Kept.read_of_mem_filesBelow (h : Kept root t t') {suffix : String}
    (hsuffix : ".." ∉ (Path.ofString ("*" ++ suffix)).names) {ps : List Path}
    (hps : t.filesBelow root suffix = .ok ps) (hp : p ∈ ps) : t'.read p = t.read p := by
  obtain ⟨found, hfound, hfiles⟩ := bind_inv hps
  exact (h.same_of_mem_search hsuffix hfound (mem_of_mem_filterM hfiles p hp)).2.2

/-- The packages below a root that is kept are the same. -/
theorem Kept.packagesBelow_eq (h : Kept root t t') {names names' : List String}
    (hnames : t.packagesBelow root = .ok names) (hnames' : t'.packagesBelow root = .ok names') :
    names' = names := by
  obtain ⟨found, hfound, hrest⟩ := bind_inv hnames
  obtain ⟨found', hfound', hrest'⟩ := bind_inv hnames'
  obtain ⟨directories, hdirectories, hdotted⟩ := bind_inv hrest
  obtain ⟨directories', hdirectories', hdotted'⟩ := bind_inv hrest'
  have hpattern : ".." ∉ (Path.ofString "*").names := by decide
  have hsame := h.search_eq hpattern hfound hfound'
  subst hsame
  have hkept : (found'.filterM fun p => (t'.isDirectory p).mapError Failure.file) =
      found'.filterM fun p => (t.isDirectory p).mapError Failure.file :=
    filterM_congr fun p hp => by rw [(h.same_of_mem_search hpattern hfound hp).2.1]
  rw [hkept, hdirectories] at hdirectories'
  cases hdirectories'
  cases hdotted
  cases hdotted'
  rfl

end Tree

end Apidoc.Files
