import Apidoc.Proofs.Sample.Request
import Apidoc.Proofs.Text.Blank

/-!
# `Apidoc.Proofs.Sample.Search`: the method that a name and a signature lead to

A name is shortened until it is that of a file. If nothing was cut off, the signature is looked for
in all of the file, and otherwise in the first type that has the last segment as its name. Either
way the first method with the signature is listed, in the order of the declarations
(`find_method`). It is a type's own method only if none stands before it there, be it in a type
inside or in front of it, or in another one of its name (`find_shows_namesake`).
-/

set_option autoImplicit false

namespace Apidoc.Sample.Library

open Apidoc.Files (Path Tree)
open Apidoc.Model (CompilationUnit Declaration Located)
open Apidoc.Text (Bytes)

variable {l : Library} {files : Tree} {path root : Path} {roots before after : List Path}
  {content : Bytes} {segments : List String} {length : Nat} {member : Option String}
  {code s : String}

/-! ### Meeting a file -/

/-- Below a root the first segments of a name lead to no file. -/
def Misses (files : Tree) (segments : List String) (root : Path) (n : Nat) : Prop :=
  ∃ path, fileFor root (segments.take n) = .ok path ∧ files.isFile path = .ok false

/-- The file below `root` that the first segments of a name lead to is the first one that the search
meets. It looks below the roots `before` earlier, and for longer names first. -/
structure Meets (files : Tree) (segments : List String) (before : List Path) (root : Path)
    (length : Nat) (path : Path) (content : Bytes) : Prop where
  earlier : ∀ r ∈ before, ∀ n, 0 < n → n ≤ segments.length → Misses files segments r n
  longer : ∀ n, length < n → n ≤ segments.length → Misses files segments root n
  positive : 0 < length
  length_le : length ≤ segments.length
  leads : fileFor root (segments.take length) = .ok path
  isFile : files.isFile path = .ok true
  read : files.read path = .ok content

/-- Where there is no file the search goes on with a shorter name. -/
theorem findBelow_of_misses {n : Nat} (h : Misses files segments root (n + 1)) :
    l.findBelow files segments member root (n + 1) = l.findBelow files segments member root n := by
  obtain ⟨path, hpath, hfile⟩ := h
  simp [findBelow, hpath, hfile, Except.mapError, bind, Except.bind]

/-- Below a root without any of the files nothing is found. -/
theorem findBelow_of_misses_all {n : Nat} (h : ∀ k, 0 < k → k ≤ n → Misses files segments root k) :
    l.findBelow files segments member root n = .ok none := by
  induction n with
  | zero => rfl
  | succ n ih =>
    rw [findBelow_of_misses (h (n + 1) (Nat.succ_pos n) (Nat.le_refl _))]
    exact ih fun k hpos hk => h k hpos (Nat.le_succ_of_le hk)

/-- Below its root the file that is met first gives the listing. -/
theorem findBelow_of_meets (h : Meets files segments before root length path content)
    (hcode : listingIn? l.noise path content (segments.drop length) member = some code) {n : Nat}
    (hn : length ≤ n) (hle : n ≤ segments.length) :
    l.findBelow files segments member root n = .ok (some code) := by
  induction n, hn using Nat.le_induction with
  | base =>
    obtain ⟨k, rfl⟩ := Nat.exists_eq_succ_of_ne_zero h.positive.ne'
    simp [findBelow, h.leads, h.isFile, h.read, hcode, Except.mapError, bind, Except.bind, pure,
      Except.pure]
  | succ n hn ih =>
    rw [findBelow_of_misses (h.longer (n + 1) (Nat.lt_succ_of_le hn) hle)]
    exact ih (Nat.le_of_succ_le hle)

/-- The file that is met first gives the listing. -/
theorem findAmong_of_meets (h : Meets files segments before root length path content)
    (hcode : listingIn? l.noise path content (segments.drop length) member = some code) :
    l.findAmong files segments member (before ++ root :: after) = .ok code := by
  induction before with
  | nil =>
    rw [List.nil_append, findAmong, findBelow_of_meets h hcode h.length_le (Nat.le_refl _)]
    rfl
  | cons r before ih =>
    rw [List.cons_append, findAmong, findBelow_of_misses_all (h.earlier r List.mem_cons_self)]
    exact ih { h with earlier := fun r hr => h.earlier r (List.mem_cons_of_mem _ hr) }

/-! ### The method that is asked for -/

/-- A method with the given signature. -/
def isMethod (s : String) (m : Located) : Bool :=
  m.declaration.kind = .method && m.declaration.signature = s

/-- Where there is a method with the signature that is asked for, the first one is selected. -/
theorem findDeclaration?_of_method {candidates : List Located} {found : Located}
    (hnormal : Java.Descriptor.normalized s = s)
    (h : candidates.find? (isMethod s) = some found) :
    findDeclaration? candidates s = some found := by
  rw [findDeclaration?_eq, hnormal]
  show (candidates.find? (isMethod s)).or _ = _
  rw [h]
  rfl

/-- A method is the first one in front of which there is none. -/
theorem find?_append_cons {front back : List Located} {m : Located} (hm : isMethod s m = true) :
    (front ++ m :: back).find? (isMethod s) = some ((front.find? (isMethod s)).getD m) := by
  rw [List.find?_append, List.find?_cons_of_pos hm]
  cases front.find? (isMethod s) <;> rfl

/-- What is declared in the type that is searched is searched. -/
theorem mem_searched {unit : CompilationUnit} {T m : Located} {type : Option String}
    (hT : T ∈ unit.flatten) (hsearched : ∀ name ∈ type, findType? unit.flatten name = some T)
    (hm : m ∈ T.enclosed) : m ∈ searched unit type := by
  have hself : m ∈ m.flatten := m.mem_flatten_self
  have hinside : m ∈ T.enclosed.flatMap Located.flatten := List.mem_flatMap.mpr ⟨m, hm, hself⟩
  cases type with
  | none =>
    refine (CompilationUnit.infix_flatten hT).subset ?_
    rw [Located.flatten_eq_cons]
    exact List.mem_cons_of_mem T hinside
  | some name =>
    rw [searched, hsearched name rfl]
    exact hinside

/-! ### Dotted names -/

/-- The segments of a dotted name. -/
def segmentsOf (name : String) : List String :=
  ((Text.splitOn (· = '.') name.toList).filter (· ≠ [])).map String.ofList

/-- The name of a type is the last segment of its qualified name. -/
theorem getLast?_segmentsOf {T : Located} (hT : T ∈ (CompilationUnit.read path content).flatten)
    (htype : T.declaration.kind.isType = true) :
    (segmentsOf T.declaration.qualifiedName).getLast? = some T.declaration.name := by
  have hstands := CompilationUnit.stands_of_mem_flatten hT
  obtain ⟨hne, hdot, -⟩ := Java.Reader.plain_of_isWordText (hstands.word (.inl htype))
  have hname : (Text.splitOn (· = '.') T.declaration.name.toList).filter (· ≠ []) =
      [T.declaration.name.toList] := by
    rw [Text.splitOn_of_not_mem hdot, List.filter_cons_of_pos (by simpa using hne)]
    rfl
  have hsegments : ∃ front : List (List Char),
      (Text.splitOn (· = '.') T.declaration.qualifiedName.toList).filter (· ≠ []) =
        front ++ [T.declaration.name.toList] := by
    rcases hstands.qualified htype with hself | ⟨front, hfront⟩
    · rw [hself, hname]
      exact ⟨[], rfl⟩
    · have hlist : T.declaration.qualifiedName.toList =
          front.toList ++ '.' :: T.declaration.name.toList := by
        rw [hfront, String.toList_append, String.toList_append, List.append_assoc]
        rfl
      rw [hlist, Text.splitOn_append_cons (decide_eq_true rfl), List.filter_append, hname]
      exact ⟨_, rfl⟩
  obtain ⟨front, hfront⟩ := hsegments
  rw [segmentsOf, hfront, List.map_append, List.map_singleton, List.getLast?_concat,
    String.ofList_toList]

/-- What is left of the segments of a name behind those of a path ends with the last one. -/
theorem getLast?_drop_segments {name : String} (hlast : segments.getLast? = some name) :
    (segments.drop length).getLast? = if segments.length ≤ length then none else some name := by
  rw [List.getLast?_drop, hlast]

/-- A lookup cuts the name into its segments, and leaves a member alone that does not begin with a
number sign. -/
theorem find_eq (name : String) {c : Char} {rest : List Char} (hs : s.toList = c :: rest)
    (hc : c ≠ '#') :
    l.find files name (some s) = l.findAmong files (segmentsOf name) (some s) l.roots := by
  have hbare : s.toList.dropWhile (· = '#') = s.toList := by
    rw [hs]
    exact List.dropWhile_cons_of_neg (by simpa using hc)
  have hdescriptor : ((some s).bind fun m =>
      let bare := m.toList.dropWhile (· = '#')
      if bare.isEmpty then none else some (String.ofList bare)) = some s := by
    show (if (s.toList.dropWhile (· = '#')).isEmpty then none
      else some (String.ofList (s.toList.dropWhile (· = '#')))) = _
    rw [hbare, String.ofList_toList, hs]
    rfl
  rw [find, hdescriptor]
  rfl

/-- The signature of a method of a source begins with the first character of its name. -/
theorem exists_head_of_isMethod {m : Located} (hm : m ∈ (CompilationUnit.read path content).flatten)
    (hmethod : isMethod s m = true) : ∃ c rest, s.toList = c :: rest ∧ c ≠ '#' := by
  rw [isMethod, Bool.and_eq_true, decide_eq_true_eq, decide_eq_true_eq] at hmethod
  have hword := (CompilationUnit.stands_of_mem_flatten hm).word (.inr hmethod.1)
  obtain ⟨hne, -, hsharp⟩ := Java.Reader.plain_of_isWordText hword
  obtain ⟨c, rest, hname⟩ := List.exists_cons_of_ne_nil hne
  rw [hname] at hsharp
  obtain ⟨more, hmore⟩ : ∃ more, s.toList = c :: more := by
    rw [← hmethod.2, Declaration.signature, hmethod.1]
    simp only [String.toList_append, hname, List.cons_append]
    exact ⟨_, rfl⟩
  exact ⟨c, more, hmore, fun hc => hsharp (hc ▸ List.mem_cons_self)⟩

/-! ### The result -/

/-- A lookup of a type's member shows the first method with the signature among the declarations that
are searched: those of all of the file, or inside the first type that is called like the one asked
for, if something of its name is left behind that of the file. What the type declares itself is among
them unless an earlier type of the file is called like it, so that its own method is shown if no
other one with the signature stands in front of it there. -/
theorem find_method {T : Located} (hroots : l.roots = before ++ root :: after)
    (hmeets : Meets files (segmentsOf T.declaration.qualifiedName) before root length path content)
    (hT : T ∈ (CompilationUnit.read path (Clean.clean l.noise content)).flatten)
    (htype : T.declaration.kind.isType = true) (hnormal : Java.Descriptor.normalized s = s) :
    let unit := CompilationUnit.read path (Clean.clean l.noise content)
    let type := if (segmentsOf T.declaration.qualifiedName).length ≤ length then none
      else some T.declaration.name
    (∀ found, (searched unit type).find? (isMethod s) = some found →
      l.find files T.declaration.qualifiedName (some s) =
        .ok (listing l.noise found.declaration (Clean.clean l.noise content))) ∧
    ((∀ name ∈ type, findType? unit.flatten name = some T) →
      ∀ m ∈ T.enclosed, isMethod s m = true →
        ∃ front back, searched unit type = front ++ m :: back ∧
          l.find files T.declaration.qualifiedName (some s) =
            .ok (listing l.noise ((front.find? (isMethod s)).getD m).declaration
              (Clean.clean l.noise content))) := by
  intro unit type
  have hfind : ∀ found, (searched unit type).find? (isMethod s) = some found →
      l.find files T.declaration.qualifiedName (some s) =
        .ok (listing l.noise found.declaration (Clean.clean l.noise content)) := by
    intro found hfound
    have hmem := mem_flatten_of_mem_searched (List.mem_of_find?_eq_some hfound)
    obtain ⟨c, rest, hs, hc⟩ := exists_head_of_isMethod hmem (List.find?_some hfound)
    have hselected : selected? unit ((segmentsOf T.declaration.qualifiedName).drop length)
        (some s) = some found := by
      rw [selected?, getLast?_drop_segments (getLast?_segmentsOf hT htype)]
      exact findDeclaration?_of_method hnormal hfound
    have hlisting : listingIn? l.noise path content
        ((segmentsOf T.declaration.qualifiedName).drop length) (some s) =
          some (listing l.noise found.declaration (Clean.clean l.noise content)) := by
      rw [listingIn?_eq (.inr (Option.some_ne_none s)), hselected]
      rfl
    rw [find_eq _ hs hc, hroots, findAmong_of_meets hmeets hlisting]
  refine ⟨hfind, fun hsearched m hm hmethod => ?_⟩
  -- The type's own method is among those that are searched, so only what is in front can hide it.
  obtain ⟨front, back, hsplit⟩ := List.append_of_mem (mem_searched hT hsearched hm)
  exact ⟨front, back, hsplit, hfind _ (hsplit ▸ find?_append_cons hmethod)⟩

/-- Two types that are both called `T`, one inside another type, and a method that either of them
and the class around them declare. -/
def namesakes : Bytes :=
  Text.encode <| "class C \x7b\n  class A \x7b\n    class T \x7b\n" ++
    "      void m() \x7b a(); \x7d\n    \x7d\n  \x7d\n" ++
    "  class T \x7b\n    void m() \x7b t(); \x7d\n  \x7d\n" ++
    "  void m() \x7b c(); \x7d\n  void f(int @ A [] x) \x7b f(); \x7d\n\x7d"

/-- The unit of these types. -/
def namesakesUnit : CompilationUnit :=
  CompilationUnit.read (Path.ofString "s/C.java") (Clean.clean noiseAnnotations namesakes)

/-- A directory of samples with their file. -/
def namesakesFiles : Tree := ⟨[(["s"], .directory), (["s", "C.java"], .file namesakes)], []⟩

/-- The library of this directory. -/
def namesakesLibrary : Library := ⟨[Path.ofString "s"], noiseAnnotations⟩

/-- Their file is the first one that the name of the inner one leads to. -/
theorem meets_namesakes : Meets namesakesFiles (segmentsOf "C.A.T") [] (Path.ofString "s") 1
    (Path.ofString "s/C.java") namesakes := by
  have hlength : (segmentsOf "C.A.T").length = 3 := by decide
  refine ⟨nofun, fun n hn hle => ?_, Nat.one_pos, by decide, rfl, rfl, rfl⟩
  -- The longer names are those of files in a directory that is not there.
  rw [hlength] at hle
  obtain rfl | rfl : n = 2 ∨ n = 3 := by omega
  · exact ⟨Path.ofString "s/C/A.java", rfl, rfl⟩
  · exact ⟨Path.ofString "s/C/A/T.java", rfl, rfl⟩

/-- The method of the first `T` is shown where its own name asks for it. -/
theorem find_method_firstNamesake :
    ∃ T ∈ namesakesUnit.flatten, T.declaration.kind.isType = true ∧
      T.declaration.qualifiedName = "C.A.T" ∧ Java.Descriptor.normalized "m()" = "m()" ∧
      ∃ m ∈ T.enclosed, namesakesLibrary.find namesakesFiles "C.A.T" (some "m()") =
        .ok (listing noiseAnnotations m.declaration (Clean.clean noiseAnnotations namesakes)) := by
  have hscope : (findType? namesakesUnit.flatten "T").map (fun T =>
      (T.declaration.qualifiedName, T.enclosed.length, T.enclosed.all (isMethod "m()"))) =
        some ("C.A.T", 1, true) := by
    decide +kernel
  have hnormal : Java.Descriptor.normalized "m()" = "m()" := by decide
  obtain ⟨T, hT, hprops⟩ := Option.map_eq_some_iff.mp hscope
  simp only [Prod.mk.injEq] at hprops
  obtain ⟨hqualified, hlength, hmethod⟩ := hprops
  obtain ⟨m, hm⟩ := List.length_eq_one_iff.mp hlength
  have hmem := List.mem_of_find?_eq_some hT
  have htype := List.find?_some hT
  rw [Bool.and_eq_true, decide_eq_true_eq] at htype
  have hfirst : (searched namesakesUnit (some "T")).find? (isMethod "m()") = some m := by
    rw [hm, List.all_cons, Bool.and_eq_true] at hmethod
    rw [searched, hT, Option.map_some, Option.getD_some, hm, List.flatMap_singleton,
      Located.flatten_eq_cons]
    exact List.find?_cons_of_pos hmethod.1
  have hresult := (find_method (l := namesakesLibrary) rfl (hqualified.symm ▸ meets_namesakes) hmem
    htype.1 hnormal).1 m
  rw [hqualified, htype.2] at hresult
  exact ⟨T, hmem, htype.1, hqualified, hnormal, m, hm ▸ List.mem_singleton_self m, hresult hfirst⟩

/-- The method of the first `T` is shown for that of the class and for that of the second `T` too,
and a signature that erasing types once more changes is not found. -/
theorem find_shows_namesake :
    (namesakesUnit.flatten.filter (·.declaration.kind.isType)).map (fun T =>
        (T.declaration.qualifiedName, (T.enclosed.find? (isMethod "m()")).map fun m =>
          listing noiseAnnotations m.declaration (Clean.clean noiseAnnotations namesakes))) =
        [("C", some "void m() \x7b c(); \x7d"), ("C.A", none),
          ("C.A.T", some "void m() \x7b a(); \x7d"), ("C.T", some "void m() \x7b t(); \x7d")] ∧
      (namesakesLibrary.find namesakesFiles "C" (some "m()")).toOption =
        some "void m() \x7b a(); \x7d" ∧
      (namesakesLibrary.find namesakesFiles "C.T" (some "m()")).toOption =
        some "void m() \x7b a(); \x7d" ∧
      (namesakesUnit.flatten.any (isMethod "f(int@A[])")) = true ∧
      (namesakesLibrary.find namesakesFiles "C" (some "f(int@A[])")).toOption = some "" := by
  decide +kernel

end Apidoc.Sample.Library
