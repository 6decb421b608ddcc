import Apidoc.Proofs.Files.Under
import Apidoc.Proofs.Sample.Miss

/-!
# `Apidoc.Proofs.Sample.Confined`: what lookups of samples see outside of their roots

The segments of a name are joined to a root as paths. A segment that begins with a slash is an
absolute path, so the root is dropped for it (`fileFor_of_absolute`). Any other segment leads down,
because it holds no dot (`fileFor_of_relative`).

So a lookup sees nothing outside of the roots if no segment of its name begins with a slash: trees
with the same under the roots give the same (`find_of_sameUnder`). If the first segment begins with
a slash, the roots do not matter at all (`find_of_absolute`). Such a name shows files from anywhere
in the tree (`find_reads_outside`).
-/

set_option autoImplicit false

namespace Apidoc.Files.Path

variable {s : String}

/-- A text that does not begin with a slash is a path in some directory. -/
theorem rootOf_of_head? {cs : List Char} (h : cs.head? ≠ some '/') :
    rootOf cs = .workingDirectory := by
  unfold rootOf
  split <;> simp_all

/-- A text without dots, and with a character besides slashes, leads down. -/
theorem names_ofString_of_noDot (hs : s.toList.head? ≠ some '/') (hne : s.toList ≠ [])
    (hdot : '.' ∉ s.toList) : (ofString s).names ≠ [] ∧ ".." ∉ (ofString s).names := by
  constructor
  · intro hnames
    obtain ⟨c, cs, hcs⟩ := List.exists_cons_of_ne_nil hne
    have hslash := (names_ofString_eq_nil_iff hdot).mp hnames c (hcs ▸ List.mem_cons_self)
    exact hs (by rw [hcs, hslash]; rfl)
  · intro hup
    obtain ⟨part, hpart, hname⟩ := List.mem_map.mp (List.mem_filter.mp hup).1
    have hlist : part = ['.', '.'] := by
      rw [← @String.toList_ofList part, hname]
      rfl
    exact hdot ((Text.infix_of_mem_splitOn hpart).subset (hlist ▸ List.mem_cons_self))

/-- Texts that are no absolute paths are joined name by name. -/
theorem foldl_join_ofString (root : Path) {segments : List String}
    (h : ∀ s ∈ segments, s.toList.head? ≠ some '/') :
    segments.foldl (fun p s => p.join (ofString s)) root =
      ⟨root.root, root.names ++ segments.flatMap fun s => (ofString s).names⟩ := by
  induction segments generalizing root with
  | nil => rw [List.flatMap_nil, List.append_nil]; rfl
  | cons s rest ih =>
    have hroot : (ofString s).root = .workingDirectory :=
      rootOf_of_head? (h s List.mem_cons_self)
    rw [List.foldl_cons, ih _ fun other hother => h other (List.mem_cons_of_mem _ hother), join,
      if_pos hroot, List.flatMap_cons, List.append_assoc]

/-- A new extension changes the last name only. -/
theorem withExtension?_append {root : Root} {front names : List String} {extension : String}
    {file : Path} (hne : names ≠ [])
    (h : (⟨root, front ++ names⟩ : Path).withExtension? extension = some file) :
    ∃ stem, file = ⟨root, front ++ (names.dropLast ++ [stem ++ extension])⟩ := by
  obtain ⟨name, -, h⟩ := Option.bind_eq_some_iff.mp h
  have hfile := Option.some.inj h
  rw [child, parent, List.dropLast_append_of_ne_nil hne, List.append_assoc] at hfile
  exact ⟨_, hfile.symm⟩

end Apidoc.Files.Path

namespace Apidoc.Sample.Library

open Apidoc.Files (Path Tree)
open Apidoc.Files.Tree (SameUnder)
open Apidoc.Text (Bytes)

variable {l : Library} {files t t' : Tree} {segments : List String} {member : Option String}
  {name : String} {p : Place}

/-! ### Names that lead down -/

/-- No segment of the name begins with a slash. -/
def IsRelative (name : String) : Prop := ∀ s ∈ segmentsOf name, s.toList.head? ≠ some '/'

/-- The file for segments that lead down lies below the root. -/
theorem fileFor_of_relative {root path : Path} (hne : segments ≠ [])
    (h : ∀ s ∈ segments, s.toList.head? ≠ some '/' ∧ s.toList ≠ [] ∧ '.' ∉ s.toList)
    (hpath : fileFor root segments = .ok path) :
    ∃ names, names ≠ [] ∧ ".." ∉ names ∧ path = ⟨root.root, root.names ++ names⟩ := by
  have hdown : ∀ s ∈ segments, (Path.ofString s).names ≠ [] ∧ ".." ∉ (Path.ofString s).names :=
    fun s hs => Path.names_ofString_of_noDot (h s hs).1 (h s hs).2.1 (h s hs).2.2
  have hnames : (segments.flatMap fun s => (Path.ofString s).names) ≠ [] := by
    obtain ⟨s, rest, rfl⟩ := List.exists_cons_of_ne_nil hne
    rw [List.flatMap_cons]
    exact List.append_ne_nil_of_left_ne_nil (hdown s List.mem_cons_self).1 _
  simp only [fileFor] at hpath
  rw [Path.foldl_join_ofString root fun s hs => (h s hs).1] at hpath
  split at hpath
  · rename_i file hext
    cases hpath
    obtain ⟨stem, rfl⟩ := Path.withExtension?_append hnames hext
    refine ⟨_, List.concat_ne_nil _ _, fun hup => ?_, rfl⟩
    rcases List.mem_append.mp hup with hup | hup
    · obtain ⟨s, hs, hup⟩ := List.mem_flatMap.mp (List.mem_of_mem_dropLast hup)
      exact (hdown s hs).2 hup
    · -- A name with the extension does not end with a dot.
      have hlast : some '.' = (stem ++ sourceExtension).toList.getLast? :=
        congrArg (·.toList.getLast?) (List.mem_singleton.mp hup)
      have hjava : sourceExtension.toList.getLast? = some 'a' := by decide
      rw [String.toList_append, List.getLast?_append, hjava] at hlast
      cases hlast
  · cases hpath

/-- A look at a place depends only on what the path of its file leads to. -/
theorem lookAt_congr (h : ∀ path, fileFor p.root (segments.take p.length) = .ok path →
      t'.find? path = t.find? path) :
    l.lookAt t' segments member p = l.lookAt t segments member p := by
  cases hfile : fileFor p.root (segments.take p.length) with
  | error f => rw [lookAt_of_noName hfile, lookAt_of_noName hfile]
  | ok path =>
    have hfound := h path hfile
    have hisFile : t'.isFile path = t.isFile path := by rw [Tree.isFile, Tree.isFile, hfound]
    rw [lookAt, lookAt, hfile]
    show (do if ← (t'.isFile path).mapError Failure.file then _ else _) =
      (do if ← (t.isFile path).mapError Failure.file then _ else _)
    rw [hisFile]
    cases hasked : t.isFile path with
    | error e => rfl
    | ok isFile =>
      cases isFile with
      | false => rfl
      | true =>
        obtain ⟨content, hcontent⟩ : ∃ content, t.find? path = .ok (some (.file content)) := by
          obtain ⟨k, content, hlocate, hentry⟩ := Tree.isFile_iff.mp hasked
          exact ⟨content, by rw [Tree.find?, hlocate, ← hentry]⟩
        have hread := Tree.read_of_find? hcontent
        have hread' := Tree.read_of_find? (hfound.trans hcontent)
        show (do let content ← (t'.read path).mapError Failure.ofRead; _) =
          (do let content ← (t.read path).mapError Failure.ofRead; _)
        rw [hread, hread']

/-- The places are below the roots. -/
theorem root_of_mem_places {roots : List Path} (h : p ∈ places roots segments) :
    p.root ∈ roots := by
  obtain ⟨root, hroot, hp⟩ := List.mem_flatMap.mp h
  have hbelow : ∀ n, p ∈ placesBelow root n → p.root = root := by
    intro n
    induction n with
    | zero => nofun
    | succ n ih =>
      intro hp
      rcases List.mem_cons.mp hp with rfl | hp
      · rfl
      · exact ih hp
  exact hbelow _ hp ▸ hroot

/-- Trees with the same under the roots give the same for a name that leads down. -/
theorem find_of_sameUnder (h : ∀ root ∈ l.roots, SameUnder root t t') (hname : IsRelative name)
    (member : Option String) : l.find t' name member = l.find t name member := by
  have hlook : ∀ p ∈ places l.roots (segmentsOf name),
      l.lookAt t' (segmentsOf name) (memberOf member) p =
        l.lookAt t (segmentsOf name) (memberOf member) p := by
    intro p hp
    refine lookAt_congr fun path hpath => ?_
    obtain ⟨hpos, hle⟩ := length_of_mem_places hp
    have hne : (segmentsOf name).take p.length ≠ [] :=
      List.length_pos_iff.mp (by rw [List.length_take]; omega)
    obtain ⟨names, hnonempty, hup, rfl⟩ := fileFor_of_relative hne
      (fun s hs => ⟨hname s (List.mem_of_mem_take hs), mem_segmentsOf (List.mem_of_mem_take hs)⟩)
      hpath
    exact (h p.root (root_of_mem_places hp)).find?_eq hup hnonempty
  have hfind : ∀ t, l.find t name member =
      (firstOf ((places l.roots (segmentsOf name)).map
        (l.lookAt t (segmentsOf name) (memberOf member)))).map (·.getD "") :=
    fun _ => findAmong_eq l.roots
  rw [hfind, hfind, List.map_congr_left hlook]

/-! ### Names that are absolute -/

/-- No root is taken for segments of which the first one begins with a slash. -/
theorem fileFor_of_absolute {s : String} (hs : s.toList.head? = some '/') (root root' : Path)
    (rest : List String) : fileFor root (s :: rest) = fileFor root' (s :: rest) := by
  obtain ⟨cs, hcs⟩ := List.head?_eq_some_iff.mp hs
  have habsolute : (Path.ofString s).root ≠ .workingDirectory := by
    show Path.rootOf s.toList ≠ _
    rw [hcs]
    exact Path.rootOf_slash cs
  rw [fileFor, fileFor, List.foldl_cons, List.foldl_cons, Path.join, Path.join,
    if_neg habsolute, if_neg habsolute]

/-- Below every root the same is found. -/
theorem findBelow_of_absolute {s : String} (hs : s.toList.head? = some '/') (root root' : Path)
    (rest : List String) (length : Nat) :
    l.findBelow files (s :: rest) member root length =
      l.findBelow files (s :: rest) member root' length := by
  induction length with
  | zero => rfl
  | succ length ih =>
    rw [findBelow, findBelow, List.take_succ_cons, fileFor_of_absolute hs root root', ih]

/-- Where below every root the same is found, one of them is enough. -/
theorem findAmong_of_same {roots : List Path} (hne : roots ≠ [])
    {found : Except Failure (Option String)}
    (h : ∀ root ∈ roots, l.findBelow files segments member root segments.length = found) :
    l.findAmong files segments member roots = found.map (·.getD "") := by
  induction roots with
  | nil => exact absurd rfl hne
  | cons root roots ih =>
    rw [findAmong, h root List.mem_cons_self]
    cases found with
    | error f => rfl
    | ok code =>
      cases code with
      | some code => rfl
      | none =>
        cases roots with
        | nil => rfl
        | cons next more =>
          exact ih (List.cons_ne_nil next more) fun root hroot =>
            h root (List.mem_cons_of_mem _ hroot)

/-- Below a root only the noise matters of a library. -/
theorem findBelow_of_noise {l' : Library} (h : l'.noise = l.noise) (root : Path) (length : Nat) :
    l'.findBelow files segments member root length =
      l.findBelow files segments member root length := by
  have hlook : l'.lookAt files segments member = l.lookAt files segments member := by
    funext p
    rw [lookAt, lookAt, h]
  rw [findBelow_eq, findBelow_eq, hlook]

/-- A name whose first segment begins with a slash is looked up as if any other directory were the
only root. -/
theorem find_of_absolute {s : String} {rest : List String} (hname : segmentsOf name = s :: rest)
    (hs : s.toList.head? = some '/') (hroots : l.roots ≠ []) (member : Option String)
    (root : Path) : l.find files name member = { l with roots := [root] }.find files name member := by
  have hone : ∀ l' : Library, l'.noise = l.noise → l'.roots ≠ [] → l'.find files name member =
      (l.findBelow files (segmentsOf name) (memberOf member) root (segmentsOf name).length).map
        fun found => found.getD "" := by
    intro l' hnoise hroots
    have hfind : l'.find files name member =
        l'.findAmong files (segmentsOf name) (memberOf member) l'.roots := rfl
    rw [hfind]
    refine findAmong_of_same hroots fun other _ => ?_
    rw [findBelow_of_noise hnoise, hname]
    exact findBelow_of_absolute hs other root rest _
  rw [hone l rfl hroots, hone { l with roots := [root] } rfl (List.cons_ne_nil root [])]

/-- A name that begins with a slash and has no dot shows the file of this path, whatever the roots
are. -/
theorem find_reads_outside {s : String} (hs : s.toList.head? = some '/') (hdot : '.' ∉ s.toList)
    {path : Path} (hpath : (Path.ofString s).withExtension? sourceExtension = some path)
    {content : Bytes} (hcontent : files.find? path = .ok (some (.file content)))
    (hroots : l.roots ≠ []) :
    l.find files s none =
      .ok (String.ofList (Listing.tidy l.noise (Text.decode (Clean.clean l.noise content)))) := by
  obtain ⟨cs, hcs⟩ := List.head?_eq_some_iff.mp hs
  have hsegments : segmentsOf s = [s] := by
    rw [segmentsOf, Text.splitOn_of_not_mem hdot, List.filter_cons_of_pos (by simp [hcs])]
    exact congrArg (fun s => [s]) String.ofList_toList
  have hfile : ∀ root, fileFor root [s] = .ok path := by
    intro root
    have habsolute : root.join (Path.ofString s) = Path.ofString s := by
      refine if_neg ?_
      show Path.rootOf s.toList ≠ _
      rw [hcs]
      exact Path.rootOf_slash cs
    simp only [fileFor, List.foldl_cons, List.foldl_nil, habsolute, hpath]
  have hisFile : files.isFile path = .ok true := by
    rw [Tree.isFile, hcontent]
    rfl
  have hlook : ∀ root, l.lookAt files [s] none ⟨root, 1⟩ = .ok (some (String.ofList
      (Listing.tidy l.noise (Text.decode (Clean.clean l.noise content))))) :=
    fun root => lookAt_of_file (hfile root) hisFile (Tree.read_of_find? hcontent)
  have hbelow : ∀ root, l.findBelow files [s] none root 1 = .ok (some (String.ofList
      (Listing.tidy l.noise (Text.decode (Clean.clean l.noise content))))) := by
    intro root
    rw [findBelow_eq]
    show firstOf [l.lookAt files [s] none ⟨root, 1⟩] = _
    rw [hlook]
    rfl
  have hfind : l.find files s none = l.findAmong files (segmentsOf s) none l.roots := rfl
  rw [hfind, hsegments]
  rw [findAmong_of_same hroots fun root _ => hbelow root]
  rfl

/-! ### Lookups and the comments that ask for them -/

/-- Trees with the same under the roots give the same listing for a name of which no segment begins
with a slash, and the same rendering of a comment whose sample tags ask for such names. A name whose
first segment begins with a slash is not looked up under the roots at all. -/
theorem find_confined (h : ∀ root ∈ l.roots, SameUnder root t t') :
    (∀ name member, IsRelative name → l.find t' name member = l.find t name member) ∧
    (∀ (r : Comment.Renderer) (scope : Option Model.Scope) (text : String),
      (∀ body, .tag body ∈ Comment.Inline.parts text.toList →
        String.ofList (Comment.Inline.nameAndText body).1 = "sample" →
          IsRelative (Comment.Renderer.askedFor (Comment.Inline.nameAndText body).2 scope).1) →
      { r with samples := some (l.find t') }.renderInline text scope =
        { r with samples := some (l.find t) }.renderInline text scope) ∧
    ∀ name s rest, segmentsOf name = s :: rest → s.toList.head? = some '/' → l.roots ≠ [] →
      ∀ member root, l.find t name member = { l with roots := [root] }.find t name member := by
  refine ⟨fun name member hname => find_of_sameUnder h hname member, fun r scope text htags => ?_,
    fun name s rest hname hs hroots member root => find_of_absolute hname hs hroots member root⟩
  exact Comment.Renderer.renderInline_eq_of_samples scope text fun body hbody hname =>
    find_of_sameUnder h (htags body hbody hname) _

/-- The directory of samples next to another directory, which is not a root. -/
def namesakesAndOthers : Tree :=
  (namesakesFiles.put ["x"] .directory).put ["x", "D.java"] (.file (Text.encode "class D \x7b\x7d"))

/-- The other directory does not matter under the root. -/
theorem sameUnder_namesakes :
    ∀ root ∈ namesakesLibrary.roots, SameUnder root namesakesFiles namesakesAndOthers := by
  intro root hroot
  rw [List.mem_singleton.mp hroot]
  have hroot : namesakesFiles.follow (Path.ofString "s") = .ok ["s"] := by decide
  have hroot' : namesakesAndOthers.follow (Path.ofString "s") = .ok ["s"] := by decide
  refine .held hroot hroot' fun names _ => ?_
  have hne : ∀ rest : List String, ["s"] ++ names ≠ "x" :: rest := fun rest heq =>
    absurd (List.cons.inj heq).1 (by decide)
  rw [namesakesAndOthers, Tree.get?_put_of_ne _ _ (hne _), Tree.get?_put_of_ne _ _ (hne _)]

/-- A sample of the root is found alike with and without the other directory. -/
theorem find_confined_namesakes :
    (∀ root ∈ namesakesLibrary.roots, SameUnder root namesakesFiles namesakesAndOthers) ∧
      IsRelative "C.A" ∧ namesakesLibrary.find namesakesAndOthers "C.A" none =
        namesakesLibrary.find namesakesFiles "C.A" none := by
  have hname : IsRelative "C.A" := by
    unfold IsRelative
    decide
  exact ⟨sameUnder_namesakes, hname, (find_confined sameUnder_namesakes).1 _ _ hname⟩

/-- A name with a slash in front shows the file of the other directory, which is under no root. -/
theorem find_outside :
    (∀ root ∈ namesakesLibrary.roots, SameUnder root namesakesFiles namesakesAndOthers) ∧
      namesakesLibrary.find namesakesFiles "/x/D" none = .ok "" ∧
      namesakesLibrary.find namesakesAndOthers "/x/D" none = .ok "class D \x7b\x7d" := by
  refine ⟨sameUnder_namesakes, ?_, ?_⟩
  · decide +kernel
  · decide +kernel

end Apidoc.Sample.Library
