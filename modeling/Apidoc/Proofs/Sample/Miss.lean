import Apidoc.Proofs.Comment.Reference
import Apidoc.Proofs.Comment.Renderer
import Apidoc.Proofs.Files.Tree
import Apidoc.Proofs.Sample.Search

/-!
# `Apidoc.Proofs.Sample.Miss`: lookups of samples that fail

A lookup goes through the places where a sample may be, root by root and from the longest name to
the shortest (`places`). It passes a place without the sample, and stops at the first one that it
does not pass (`findAmong_eq`). So it is decided by what is at one place (`lookAt`).

Most places that lead nowhere are passed. Two kinds of them are not (`Fails`): a segment of nothing
but slashes names no file at all, and the system refuses to look for a file whose path is too long.
The lookup fails if it comes to one of these before it finds the sample
(`outcome_find`), and with it fails the comment that asks for the sample (`failures_of_lookup`).
Names whose segments are more than slashes, and short enough, are looked up without failure
(`exists_find_eq_ok`).
-/

set_option autoImplicit false

namespace Apidoc.Files.Path

/-- A text that begins with a slash is an absolute path. -/
theorem rootOf_slash (cs : List Char) : rootOf ('/' :: cs) ≠ .workingDirectory := by
  unfold rootOf
  split <;> simp_all

/-- A text without dots has a name unless it is nothing but slashes. -/
theorem names_ofString_eq_nil_iff {s : String} (hdot : '.' ∉ s.toList) :
    (ofString s).names = [] ↔ ∀ c ∈ s.toList, c = '/' := by
  constructor
  · intro hnames c hc
    rw [← Text.join_splitOn '/' s.toList] at hc
    obtain hslash | ⟨part, hpart, hc⟩ := Text.mem_join hc
    · exact List.mem_singleton.mp hslash
    -- The part with a character would be a name.
    have hname : String.ofList part ∈ (ofString s).names := by
      have hpiece := (Text.infix_of_mem_splitOn hpart).subset
      refine List.mem_filter.mpr ⟨List.mem_map_of_mem hpart, decide_eq_true ⟨?_, ?_⟩⟩
      · rw [ne_eq, String.ofList_eq_empty_iff]
        exact List.ne_nil_of_mem hc
      · intro hname
        have hlist : part = ['.'] := by
          rw [← @String.toList_ofList part, hname]
          rfl
        exact hdot (hpiece (hlist ▸ List.mem_singleton_self '.'))
    rw [hnames] at hname
    exact absurd hname List.not_mem_nil
  · intro hslashes
    refine List.filter_eq_nil_iff.mpr fun n hn => ?_
    obtain ⟨part, hpart, rfl⟩ := List.mem_map.mp hn
    have hempty : part = [] := by
      refine List.eq_nil_iff_forall_not_mem.mpr fun c hc => ?_
      have hslash := hslashes c ((Text.infix_of_mem_splitOn hpart).subset hc)
      exact Text.not_mem_of_mem_splitOn hpart (hslash ▸ hc)
    simp [hempty]

/-- A text of nothing but slashes is a path without a name, also below another path. -/
theorem join_ofString_of_slashes (p : Path) {s : String} (hs : s.toList ≠ [])
    (hslashes : ∀ c ∈ s.toList, c = '/') : p.join (ofString s) = ofString s := by
  obtain ⟨c, cs, hcs⟩ := List.exists_cons_of_ne_nil hs
  have habsolute : (ofString s).root ≠ .workingDirectory := by
    show rootOf s.toList ≠ _
    rw [hcs, hslashes c (hcs ▸ List.mem_cons_self)]
    exact rootOf_slash cs
  rw [join, if_neg habsolute]

/-- Any other text without dots gives a path a name. -/
theorem names_join_ofString_ne_nil (p : Path) {s : String} (hdot : '.' ∉ s.toList)
    (hs : ¬ ∀ c ∈ s.toList, c = '/') : (p.join (ofString s)).names ≠ [] := by
  have hnames : (ofString s).names ≠ [] := fun h => hs ((names_ofString_eq_nil_iff hdot).mp h)
  rw [join]
  split
  · exact List.append_ne_nil_of_right_ne_nil _ hnames
  · exact hnames

/-- A path has an extension if and only if it has a name. -/
theorem withExtension?_eq_none_iff (p : Path) (extension : String) :
    p.withExtension? extension = none ↔ p.names = [] := by
  unfold withExtension? name?
  cases hlast : p.names.getLast? with
  | none => exact ⟨fun _ => List.getLast?_eq_none_iff.mp hlast, fun _ => rfl⟩
  | some name =>
    refine ⟨nofun, fun hnil => ?_⟩
    rw [hnil] at hlast
    cases hlast

end Apidoc.Files.Path

namespace Apidoc.Sample.Library

open Apidoc.Files (Path Tree)
open Apidoc.Text (Bytes)

variable {l : Library} {files : Tree} {segments : List String} {member : Option String}

/-! ### Places -/

/-- A root, and how many segments of a name lead to a file below it. -/
structure Place where
  root : Path
  length : Nat

/-- The places below a root for names up to a length, the longest name first. -/
def placesBelow (root : Path) : Nat → List Place
  | 0 => []
  | length + 1 => ⟨root, length + 1⟩ :: placesBelow root length

/-- The places where a sample may be. -/
def places (roots : List Path) (segments : List String) : List Place :=
  roots.flatMap (placesBelow · segments.length)

/-- Looks at one place. -/
def lookAt (l : Library) (files : Tree) (segments : List String) (member : Option String)
    (p : Place) : Except Failure (Option String) := do
  let path ← fileFor p.root (segments.take p.length)
  if ← (files.isFile path).mapError Failure.file then
    let content ← (files.read path).mapError Failure.ofRead
    return listingIn? l.noise path content (segments.drop p.length) member
  else return none

/-- The search goes on after a look. -/
def goesOn : Except Failure (Option String) → Bool
  | .ok none => true
  | _ => false

/-- The first look after which the search does not go on. -/
def firstOf (looks : List (Except Failure (Option String))) : Except Failure (Option String) :=
  (looks.find? (!goesOn ·)).getD (.ok none)

theorem firstOf_cons (look : Except Failure (Option String))
    (looks : List (Except Failure (Option String))) :
    firstOf (look :: looks) = (do
      match ← look with
      | some code => return some code
      | none => firstOf looks) := by
  match look with
  | .error f => rfl
  | .ok (some code) => rfl
  | .ok none => rfl

theorem firstOf_append (looks more : List (Except Failure (Option String))) :
    firstOf (looks ++ more) = (do
      match ← firstOf looks with
      | some code => return some code
      | none => firstOf more) := by
  induction looks with
  | nil => rfl
  | cons look looks ih =>
    rw [List.cons_append, firstOf_cons, firstOf_cons, ih]
    match look with
    | .error f => rfl
    | .ok (some code) => rfl
    | .ok none => rfl

/-- Below a root the places are looked at one after another. -/
theorem findBelow_eq (root : Path) (length : Nat) :
    l.findBelow files segments member root length =
      firstOf ((placesBelow root length).map (l.lookAt files segments member)) := by
  induction length with
  | zero => rfl
  | succ length ih =>
    rw [placesBelow, List.map_cons, firstOf_cons, ← ih, findBelow, lookAt]
    simp only [bind_assoc]
    congr 1
    funext path
    congr 1
    funext isFile
    cases isFile with
    | false => rfl
    | true =>
      simp only [if_true, bind_assoc]
      rfl

/-- So they are below all roots. -/
theorem findAmong_eq (roots : List Path) :
    l.findAmong files segments member roots =
      (firstOf ((places roots segments).map (l.lookAt files segments member))).map (·.getD "") := by
  induction roots with
  | nil => rfl
  | cons root roots ih =>
    have hplaces : places (root :: roots) segments =
        placesBelow root segments.length ++ places roots segments := List.flatMap_cons
    rw [findAmong, findBelow_eq, ih, hplaces, List.map_append, firstOf_append]
    cases firstOf ((placesBelow root segments.length).map (l.lookAt files segments member)) with
    | error f => rfl
    | ok found =>
      cases found with
      | some code => rfl
      | none => rfl

/-- A search over places takes what is at the first one where it does not go on. -/
theorem firstOf_map {α : Type} (look : α → Except Failure (Option String)) (ps : List α) :
    firstOf (ps.map look) = ((ps.find? fun p => !goesOn (look p)).map look).getD (.ok none) := by
  rw [firstOf, List.find?_map]
  rfl

/-- So it ends with a failure or a listing if there is one at that place. -/
theorem firstOf_map_eq_iff {α : Type} (look : α → Except Failure (Option String)) (ps : List α)
    {r : Except Failure (Option String)} (hr : goesOn r = false) :
    firstOf (ps.map look) = r ↔
      ∃ before p after, ps = before ++ p :: after ∧ (∀ q ∈ before, goesOn (look q) = true) ∧
        look p = r := by
  rw [firstOf_map]
  constructor
  · intro h
    cases hfind : ps.find? fun p => !goesOn (look p) with
    | none =>
      rw [hfind] at h
      rw [← h] at hr
      cases hr
    | some p =>
      rw [hfind] at h
      obtain ⟨-, before, after, hps, hbefore⟩ := List.find?_eq_some_iff_append.mp hfind
      exact ⟨before, p, after, hps, fun q hq => by simpa using hbefore q hq, h⟩
  · rintro ⟨before, p, after, hps, hbefore, rfl⟩
    have hfind : (ps.find? fun p => !goesOn (look p)) = some p :=
      List.find?_eq_some_iff_append.mpr
        ⟨by rw [hr]; rfl, before, after, hps, fun q hq => by simpa using hbefore q hq⟩
    rw [hfind]
    rfl

/-- It ends with nothing if it goes on everywhere. -/
theorem firstOf_map_eq_none_iff {α : Type} (look : α → Except Failure (Option String))
    (ps : List α) : firstOf (ps.map look) = .ok none ↔ ∀ p ∈ ps, goesOn (look p) = true := by
  rw [firstOf_map]
  cases hfind : ps.find? fun p => !goesOn (look p) with
  | none =>
    refine ⟨fun _ p hp => ?_, fun _ => rfl⟩
    simpa using List.find?_eq_none.mp hfind p hp
  | some p =>
    have hstops : goesOn (look p) = false := by simpa using List.find?_some hfind
    constructor
    · intro h
      have h : look p = .ok none := h
      rw [h] at hstops
      cases hstops
    · intro h
      rw [h p (List.mem_of_find?_eq_some hfind)] at hstops
      cases hstops

/-! ### What is at a place -/

/-- At a place the search fails: the last segment leaves no name for a file, or the system refuses to
look for the file. -/
inductive Fails (files : Tree) (segments : List String) (p : Place) : Failure → Prop
  | noName {s : String} (hlast : (segments.take p.length).getLast? = some s)
      (hslashes : ∀ c ∈ s.toList, c = '/') : Fails files segments p (.emptyName (Path.ofString s))
  | tooLong {path : Path} (hpath : fileFor p.root (segments.take p.length) = .ok path)
      (hlong : files.locate path = .error .nameTooLong) :
      Fails files segments p (.file { fault := .nameTooLong, path })

/-- At a place there is a file with what is asked for. -/
def Shows (l : Library) (files : Tree) (segments : List String) (member : Option String) (p : Place)
    (code : String) : Prop :=
  ∃ path content, fileFor p.root (segments.take p.length) = .ok path ∧
    files.isFile path = .ok true ∧ files.read path = .ok content ∧
    listingIn? l.noise path content (segments.drop p.length) member = some code

/-- A look at a place fails, and finds source code, exactly as said of the place. -/
def LooksAsSaid (l : Library) (files : Tree) (segments : List String) (member : Option String)
    (p : Place) : Prop :=
  (∀ f, l.lookAt files segments member p = .error f ↔ Fails files segments p f) ∧
    ∀ code, l.lookAt files segments member p = .ok (some code) ↔
      l.Shows files segments member p code

/-- The segments of a name are not empty and hold no dots. -/
theorem mem_segmentsOf {name s : String} (h : s ∈ segmentsOf name) :
    s.toList ≠ [] ∧ '.' ∉ s.toList := by
  obtain ⟨part, hpart, rfl⟩ := List.mem_map.mp h
  obtain ⟨hpart, hne⟩ := List.mem_filter.mp hpart
  rw [String.toList_ofList]
  exact ⟨of_decide_eq_true hne, Text.not_mem_of_mem_splitOn hpart⟩

/-- A file is asked for unless the last segment is nothing but slashes. -/
theorem fileFor_cases (root : Path) (front : List String) {s : String} (hs : s.toList ≠ [])
    (hdot : '.' ∉ s.toList) :
    ((∀ c ∈ s.toList, c = '/') ∧
      fileFor root (front ++ [s]) = .error (.emptyName (Path.ofString s))) ∨
    ((¬ ∀ c ∈ s.toList, c = '/') ∧ ∃ path, fileFor root (front ++ [s]) = .ok path) := by
  have hfile (p : Path) (hp : (front ++ [s]).foldl (fun p s => p.join (Path.ofString s)) root = p) :
      (∀ file, p.withExtension? sourceExtension = some file →
        fileFor root (front ++ [s]) = .ok file) ∧
      (p.withExtension? sourceExtension = none →
        fileFor root (front ++ [s]) = .error (.emptyName p)) := by
    subst hp
    constructor
    · intro file hext
      simp only [fileFor, hext]
    · intro hext
      simp only [fileFor, hext]
  by_cases hslashes : ∀ c ∈ s.toList, c = '/'
  · refine .inl ⟨hslashes, ?_⟩
    have hnone := ((Path.ofString s).withExtension?_eq_none_iff sourceExtension).mpr
      ((Path.names_ofString_eq_nil_iff hdot).mpr hslashes)
    refine (hfile (Path.ofString s) ?_).2 hnone
    rw [List.foldl_append]
    exact Path.join_ofString_of_slashes _ hs hslashes
  · refine .inr ⟨hslashes, ?_⟩
    let path := (front.foldl (fun p s => p.join (Path.ofString s)) root).join (Path.ofString s)
    have hpath : path.withExtension? sourceExtension ≠ none := by
      rw [ne_eq, Path.withExtension?_eq_none_iff]
      exact Path.names_join_ofString_ne_nil _ hdot hslashes
    obtain ⟨file, hext⟩ := Option.ne_none_iff_exists'.mp hpath
    exact ⟨file, (hfile path List.foldl_append).1 file hext⟩

/-- A place leads to a file below one of the roots for a part of the name that is not empty. -/
theorem length_of_mem_places {roots : List Path} {p : Place} (h : p ∈ places roots segments) :
    0 < p.length ∧ p.length ≤ segments.length := by
  obtain ⟨root, -, hp⟩ := List.mem_flatMap.mp h
  have hbelow : ∀ n, p ∈ placesBelow root n → 0 < p.length ∧ p.length ≤ n := by
    intro n
    induction n with
    | zero => nofun
    | succ n ih =>
      intro hp
      rcases List.mem_cons.mp hp with rfl | hp
      · exact ⟨n.succ_pos, Nat.le_refl _⟩
      · exact ⟨(ih hp).1, Nat.le_succ_of_le (ih hp).2⟩
  exact hbelow _ hp

section Look

variable {p : Place} {path : Path} {f : Failure} {code : String}

/-- Where no file is named the look fails. -/
theorem lookAt_of_noName (h : fileFor p.root (segments.take p.length) = .error f) :
    l.lookAt files segments member p = .error f := by
  rw [lookAt, h]
  rfl

/-- Where the system refuses to look for the file the look fails. -/
theorem lookAt_of_tooLong (hpath : fileFor p.root (segments.take p.length) = .ok path)
    (h : files.isFile path = .error { fault := .nameTooLong, path }) :
    l.lookAt files segments member p = .error (.file { fault := .nameTooLong, path }) := by
  simp [lookAt, hpath, h, Except.mapError, bind, Except.bind]

/-- Where there is no file the look finds nothing. -/
theorem lookAt_of_noFile (hpath : fileFor p.root (segments.take p.length) = .ok path)
    (h : files.isFile path = .ok false) : l.lookAt files segments member p = .ok none := by
  simp [lookAt, hpath, h, Except.mapError, bind, Except.bind, pure, Except.pure]

/-- Where there is a file the look finds what is listed of it. -/
theorem lookAt_of_file {content : Bytes}
    (hpath : fileFor p.root (segments.take p.length) = .ok path)
    (h : files.isFile path = .ok true) (hread : files.read path = .ok content) :
    l.lookAt files segments member p =
      .ok (listingIn? l.noise path content (segments.drop p.length) member) := by
  simp [lookAt, hpath, h, hread, Except.mapError, bind, Except.bind, pure, Except.pure]

/-- Where no file is named that is the failure, and nothing is shown. -/
theorem lookAt_spec_of_noName {s : String} (hlast : (segments.take p.length).getLast? = some s)
    (hslashes : ∀ c ∈ s.toList, c = '/')
    (hfile : fileFor p.root (segments.take p.length) = .error (.emptyName (Path.ofString s))) :
    l.LooksAsSaid files segments member p := by
  rw [LooksAsSaid, lookAt_of_noName hfile]
  refine ⟨fun f => ⟨?_, ?_⟩, fun code => ⟨nofun, ?_⟩⟩
  · rintro ⟨⟩
    exact .noName hlast hslashes
  · rintro (⟨hlast', -⟩ | ⟨hpath, -⟩)
    · rw [hlast] at hlast'
      cases hlast'
      rfl
    · rw [hfile] at hpath
      cases hpath
  · rintro ⟨path, -, hpath, -⟩
    rw [hfile] at hpath
    cases hpath

/-- Where a file is named only a path that is too long is a failure. -/
theorem fails_iff_of_path {s : String} (hlast : (segments.take p.length).getLast? = some s)
    (hslashes : ¬ ∀ c ∈ s.toList, c = '/')
    (hpath : fileFor p.root (segments.take p.length) = .ok path) (f : Failure) :
    Fails files segments p f ↔ files.locate path = .error .nameTooLong ∧
      f = .file { fault := .nameTooLong, path } := by
  constructor
  · rintro (⟨hlast', hslashes'⟩ | ⟨hpath', hlong⟩)
    · rw [hlast] at hlast'
      cases hlast'
      exact absurd hslashes' hslashes
    · rw [hpath] at hpath'
      cases hpath'
      exact ⟨hlong, rfl⟩
  · rintro ⟨hlong, rfl⟩
    exact .tooLong hpath hlong

/-- Where a file is named nothing is shown unless it is by this file. -/
theorem shows_iff_of_path (hpath : fileFor p.root (segments.take p.length) = .ok path)
    (code : String) : l.Shows files segments member p code ↔ ∃ content,
      files.isFile path = .ok true ∧ files.read path = .ok content ∧
        listingIn? l.noise path content (segments.drop p.length) member = some code := by
  constructor
  · rintro ⟨path', content, hpath', h⟩
    rw [hpath] at hpath'
    cases hpath'
    exact ⟨content, h⟩
  · rintro ⟨content, h⟩
    exact ⟨path, content, hpath, h⟩

/-- What a look finds is what is there. -/
theorem lookAt_spec (hsegments : ∀ s ∈ segments, s.toList ≠ [] ∧ '.' ∉ s.toList)
    (hpos : 0 < p.length) (hle : p.length ≤ segments.length) :
    l.LooksAsSaid files segments member p := by
  have hne : segments.take p.length ≠ [] :=
    List.length_pos_iff.mp (by rw [List.length_take]; omega)
  obtain ⟨front, s, htake⟩ : ∃ front s, segments.take p.length = front ++ [s] :=
    ⟨_, _, (List.dropLast_append_getLast hne).symm⟩
  have hlast : (segments.take p.length).getLast? = some s := by
    rw [htake, List.getLast?_concat]
  obtain ⟨hs, hdot⟩ := hsegments s (List.mem_of_mem_take (htake ▸ List.mem_concat_self))
  have hfile := fileFor_cases p.root front hs hdot
  rw [← htake] at hfile
  rcases hfile with ⟨hslashes, hfile⟩ | ⟨hslashes, path, hpath⟩
  · exact lookAt_spec_of_noName hlast hslashes hfile
  · simp only [LooksAsSaid, fails_iff_of_path hlast hslashes hpath, shows_iff_of_path hpath]
    -- The system refuses to look, or there is no file, or there is one that can be read.
    rcases files.isFile_cases path with ⟨hlong, hask⟩ | ⟨hshort, hask | ⟨content, hask, hread⟩⟩
    · rw [lookAt_of_tooLong hpath hask]
      simp [hlong, hask, eq_comm]
    · rw [lookAt_of_noFile hpath hask]
      simp [hshort, hask]
    · rw [lookAt_of_file hpath hask hread]
      simp [hshort, hask, hread]

end Look

/-! ### The result -/

/-- The member that is asked for, without the number signs in front of it. -/
def memberOf (member : Option String) : Option String :=
  member.bind fun m =>
    let bare := m.toList.dropWhile (· = '#')
    if bare.isEmpty then none else some (String.ofList bare)

/-- The places are passed: at none of them the search fails or shows anything. -/
def Passed (l : Library) (files : Tree) (segments : List String) (member : Option String)
    (ps : List Place) : Prop :=
  ∀ p ∈ ps, (∀ f, ¬ Fails files segments p f) ∧ ∀ code, ¬ l.Shows files segments member p code

/-- The search goes on at the places that are passed. -/
theorem goesOn_lookAt_iff {ps : List Place}
    (h : ∀ p ∈ ps, l.LooksAsSaid files segments member p) :
    (∀ p ∈ ps, goesOn (l.lookAt files segments member p) = true) ↔
      l.Passed files segments member ps := by
  refine forall₂_congr fun p hp => ?_
  obtain ⟨hfails, hshows⟩ := h p hp
  simp only [← hfails, ← hshows]
  match l.lookAt files segments member p with
  | .error f => simp [goesOn]
  | .ok (some code) => simp [goesOn]
  | .ok none => simp [goesOn]

/-- A search ends with what is said of a place, if it passes all places before. -/
theorem firstOf_look_eq_iff {ps : List Place}
    (h : ∀ p ∈ ps, l.LooksAsSaid files segments member p) {r : Except Failure (Option String)}
    (hr : goesOn r = false) {R : Place → Prop}
    (hR : ∀ p ∈ ps, l.lookAt files segments member p = r ↔ R p) :
    firstOf (ps.map (l.lookAt files segments member)) = r ↔
      ∃ before p after, ps = before ++ p :: after ∧ l.Passed files segments member before ∧ R p := by
  rw [firstOf_map_eq_iff _ _ hr]
  refine exists_congr fun before => exists_congr fun p => exists_congr fun after => ?_
  refine and_congr_right fun hps => and_congr (goesOn_lookAt_iff fun q hq => ?_) (hR p ?_)
  · exact h q (hps ▸ List.mem_append_left _ hq)
  · exact hps ▸ List.mem_append_cons_self

/-- What a lookup does at its places, one after another. -/
structure Outcome (l : Library) (files : Tree) (segments : List String) (member : Option String)
    (answer : Except Failure String) : Prop where
  /-- It fails if it comes to a place that fails, -/
  error : ∀ f, answer = .error f ↔
    ∃ before p after, places l.roots segments = before ++ p :: after ∧
      l.Passed files segments member before ∧ Fails files segments p f
  /-- and otherwise it gives what is shown at the first place that shows anything. -/
  ok : ∀ code, answer = .ok code ↔
    (∃ before p after, places l.roots segments = before ++ p :: after ∧
      l.Passed files segments member before ∧ l.Shows files segments member p code) ∨
    (l.Passed files segments member (places l.roots segments) ∧ code = "")

/-- The outcome of a lookup. -/
theorem outcome_find (l : Library) (files : Tree) (name : String) (member : Option String) :
    Outcome l files (segmentsOf name) (memberOf member) (l.find files name member) := by
  let segments := segmentsOf name
  let look := l.lookAt files segments (memberOf member)
  have hspec : ∀ p ∈ places l.roots segments, l.LooksAsSaid files segments (memberOf member) p :=
    fun p hp => lookAt_spec (fun s hs => mem_segmentsOf hs) (length_of_mem_places hp).1
      (length_of_mem_places hp).2
  have hfind : l.find files name member =
      (firstOf ((places l.roots segments).map look)).map (·.getD "") := findAmong_eq l.roots
  have hfailed := fun f => firstOf_look_eq_iff hspec rfl fun p hp => (hspec p hp).1 f
  have hshown := fun code => firstOf_look_eq_iff hspec rfl fun p hp => (hspec p hp).2 code
  have hnothing : firstOf ((places l.roots segments).map look) = .ok none ↔
      l.Passed files segments (memberOf member) (places l.roots segments) :=
    (firstOf_map_eq_none_iff look _).trans (goesOn_lookAt_iff hspec)
  refine ⟨fun f => ?_, fun code => ?_⟩
  · rw [hfind, ← hfailed]
    match firstOf ((places l.roots segments).map look) with
    | .error g => simp [Except.map]
    | .ok found => simp [Except.map]
  · rw [hfind, ← hshown, ← hnothing]
    match firstOf ((places l.roots segments).map look) with
    | .error g => simp [Except.map]
    | .ok (some found) => simp [Except.map]
    | .ok none => simp [Except.map, eq_comm]

/-- Where every segment has a character besides slashes and no path is too long, a lookup is no
failure. -/
theorem exists_find_eq_ok {name : String} (member : Option String)
    (hnames : ∀ s ∈ segmentsOf name, ∃ c ∈ s.toList, c ≠ '/')
    (hshort : ∀ p ∈ places l.roots (segmentsOf name), ∀ path,
      fileFor p.root ((segmentsOf name).take p.length) = .ok path →
        files.locate path ≠ .error .nameTooLong) :
    ∃ code, l.find files name member = .ok code := by
  cases hfind : l.find files name member with
  | ok code => exact ⟨code, rfl⟩
  | error f =>
    obtain ⟨before, p, after, hplaces, -, hfails⟩ :=
      ((outcome_find l files name member).error f).mp hfind
    have hp : p ∈ places l.roots (segmentsOf name) := hplaces ▸ List.mem_append_cons_self
    cases hfails with
    | noName hlast hslashes =>
      have hs := List.mem_of_mem_take (List.mem_of_getLast? hlast)
      obtain ⟨c, hc, hne⟩ := hnames _ hs
      exact absurd (hslashes c hc) hne
    | tooLong hpath hlong => exact absurd hlong (hshort p hp _ hpath)

/-- Lookups of samples fail at two kinds of places only, and with them the comments that ask for the
samples.

A lookup goes through its places and fails if it comes to one that fails before it has come to one that
shows something. Otherwise it gives what is shown at the first place that shows anything, and nothing
if no place does. Running text with sample tags is not rendered if and only if the lookup of one of
its tags fails so. -/
theorem failures_of_lookup (l : Library) (files : Tree) :
    (∀ name member,
      Outcome l files (segmentsOf name) (memberOf member) (l.find files name member)) ∧
    ∀ (r : Comment.Renderer) (scope : Option Model.Scope) (text : String),
      r.samples = some (l.find files) →
      ((∃ f, r.renderInline text scope = .error f) ↔
        ∃ body, .tag body ∈ Comment.Inline.parts text.toList ∧
          String.ofList (Comment.Inline.nameAndText body).1 = "sample" ∧
          let asked := Comment.Renderer.askedFor (Comment.Inline.nameAndText body).2 scope
          ∃ f before p after, places l.roots (segmentsOf asked.1) = before ++ p :: after ∧
            l.Passed files (segmentsOf asked.1) (memberOf asked.2) before ∧
            Fails files (segmentsOf asked.1) p f) := by
  refine ⟨outcome_find l files, fun r scope text hsamples => ?_⟩
  rw [Comment.Renderer.renderInline_error_iff scope hsamples]
  simp only [(outcome_find l files _ _).error]

/-- A lookup of a slash is an error although it could only miss, and so is a tag that asks for it. -/
theorem find_slash :
    let find := namesakesLibrary.find namesakesFiles
    find "/" none = .error (.emptyName (Path.ofString "/")) ∧
    ({ Comment.Renderer.ofIndex .empty with samples := some find } : Comment.Renderer).renderInline
      "\x7b@sample /\x7d" none = .error (.emptyName (Path.ofString "/")) := by
  decide +kernel

end Apidoc.Sample.Library
