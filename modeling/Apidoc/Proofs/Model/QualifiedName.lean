import Apidoc.Model.QualifiedName
import Apidoc.Proofs.Text.Blank

/-!
# `Apidoc.Proofs.Model.QualifiedName`: the segments of a name

A name is cut between two of its segments, and the last one is never part of the package
(`splitSegments_cut`). So a name ends in the same segment with and without its package
(`lastSegment_simple`). Behind the last dot stands the last segment (`lastSegment_eq_iff`).

Where the package really ends is not known from the name. The cut is made there if and only if the
small letters say so (`TellApart`, `split_eq_iff`). It is enough to see one side of the cut: if the rest
of the name is right, so is the package (`simple_eq_iff`).
-/

set_option autoImplicit false

namespace Apidoc.Model.QualifiedName

open Apidoc.Text

/-- The segments are cut in front of the first one that is not of the package, and some segment is
left to the type. -/
theorem splitSegments_cut (segment : List Char) (rest : List (List Char)) :
    (splitSegments (segment :: rest)).1 ++ (splitSegments (segment :: rest)).2 = segment :: rest ∧
      (splitSegments (segment :: rest)).2 ≠ [] := by
  induction rest generalizing segment with
  | nil => exact ⟨rfl, List.cons_ne_nil _ _⟩
  | cons next rest ih =>
    obtain ⟨happend, hne⟩ := ih next
    rw [splitSegments]
    · split
      · exact ⟨congrArg (segment :: ·) happend, hne⟩
      · exact ⟨rfl, List.cons_ne_nil _ _⟩
    · exact List.cons_ne_nil _ _

/-- A name has segments. -/
theorem segments_ne_nil (cs : List Char) : segments cs ≠ [] := by
  rw [segments, splitOn_eq_splitOnP]
  exact List.splitOnP_ne_nil _ _

/-- A name is cut into two rows of segments, and the second one is not empty. -/
theorem cut_segments (name : String) :
    (splitSegments (segments name.toList)).1 ++ (splitSegments (segments name.toList)).2
        = segments name.toList ∧
      (splitSegments (segments name.toList)).2 ≠ [] := by
  obtain ⟨segment, rest, hsegments⟩ := List.exists_cons_of_ne_nil (segments_ne_nil name.toList)
  rw [hsegments]
  exact splitSegments_cut segment rest

/-- The name without its package is made up of the segments behind the cut. -/
theorem toList_simple (name : String) :
    (simple name).toList = join ['.'] (splitSegments (segments name.toList)).2 :=
  String.toList_ofList

/-- The name without its package ends as the name does. -/
theorem lastSegment_simple (name : String) : lastSegment (simple name) = lastSegment name := by
  obtain ⟨happend, hne⟩ := cut_segments name
  have hname : name.toList = join ['.'] (segments name.toList) := (join_splitOn _ _).symm
  rw [lastSegment, lastSegment, onString, onString, toList_simple]
  conv => rhs; rw [hname, ← happend]
  by_cases hpackage : (splitSegments (segments name.toList)).1 = []
  · rw [hpackage, List.nil_append]
  · rw [join_append hpackage hne, List.singleton_append, afterLast_append_cons]

/-- The last segment is the whole name, or a dot is in front of it. -/
theorem lastSegment_eq_iff {name segment : String} (h : '.' ∉ segment.toList) :
    lastSegment name = segment ↔ name = segment ∨ ∃ front, name = front ++ "." ++ segment := by
  rw [lastSegment, onString, ← String.toList_inj, String.toList_ofList, afterLast_eq_iff h,
    String.toList_inj]
  refine or_congr_right ⟨?_, ?_⟩
  · rintro ⟨front, hname⟩
    refine ⟨String.ofList front, String.toList_inj.mp ?_⟩
    rw [hname]
    simp
  · rintro ⟨front, rfl⟩
    exact ⟨front.toList, by simp⟩

/-! ### The cut behind a package -/

/-- The segments of a package. The default package has none. -/
def packageSegments (package : String) : List (List Char) :=
  if package = "" then [] else segments package.toList

/-- Small letters tell the package from the type: each segment of the package starts with one, and the
first segment of the type does not, unless it is the only one. -/
def TellApart (package type : List (List Char)) : Prop :=
  (∀ segment ∈ package, isPackageSegment segment = true) ∧
    (1 < type.length → ∀ segment ∈ type.head?, isPackageSegment segment = false)

instance (package type : List (List Char)) : Decidable (TellApart package type) :=
  inferInstanceAs (Decidable (_ ∧ _))

/-- A segment in front of others belongs to the package if it starts with a small letter. -/
theorem splitSegments_cons {segment : List Char} {rest : List (List Char)} (h : rest ≠ []) :
    splitSegments (segment :: rest) =
      if isPackageSegment segment then
        (segment :: (splitSegments rest).1, (splitSegments rest).2)
      else ([], segment :: rest) := by
  rw [splitSegments]
  exact h

/-- Segments are cut behind the package if and only if small letters tell it from the type. -/
theorem splitSegments_eq_iff {package type : List (List Char)} (h : type ≠ []) :
    splitSegments (package ++ type) = (package, type) ↔ TellApart package type := by
  induction package with
  | nil =>
    cases type with
    | nil => exact absurd rfl h
    | cons segment rest =>
      rw [List.nil_append]
      by_cases hrest : rest = []
      · subst hrest
        simp [splitSegments, TellApart]
      · rw [splitSegments_cons hrest]
        cases hsmall : isPackageSegment segment <;> simp [TellApart, hsmall, hrest]
  | cons segment package ih =>
    have happend : package ++ type ≠ [] := List.append_ne_nil_of_right_ne_nil package h
    rw [List.cons_append, splitSegments_cons happend]
    cases hsmall : isPackageSegment segment with
    | false => simp [TellApart, hsmall]
    | true =>
      rw [Prod.ext_iff] at ih
      simp only [TellApart, if_true, Prod.mk.injEq, List.cons.injEq, true_and, ih,
        List.forall_mem_cons, hsmall]

/-- The segments of the name without its package are those behind the cut. -/
theorem segments_simple (name : String) :
    segments (simple name).toList = (splitSegments (segments name.toList)).2 := by
  obtain ⟨happend, hne⟩ := cut_segments name
  have hdots : ∀ part ∈ (splitSegments (segments name.toList)).2,
      splitOn (· = '.') part = [part] := by
    intro part hpart
    have hmem : part ∈ segments name.toList := happend ▸ List.mem_append_right _ hpart
    exact splitOn_of_not_mem (not_mem_of_mem_splitOn hmem)
  rw [toList_simple, segments, splitOn_join '.' hne, List.flatMap_congr hdots,
    List.flatMap_singleton']

/-- The segments of a package make up its name. -/
theorem join_packageSegments (package : String) :
    join ['.'] (packageSegments package) = package.toList := by
  unfold packageSegments
  split
  · rename_i hdefault
    rw [hdefault]
    rfl
  · exact join_splitOn '.' package.toList

/-- The segments of a name in a package are those of the package and those of the rest. -/
theorem segments_inPackage (package name : String) :
    segments (if package = "" then name else package ++ "." ++ name).toList =
      packageSegments package ++ segments name.toList := by
  unfold packageSegments
  split
  · rfl
  · rw [String.toList_append, String.toList_append, List.append_assoc]
    exact splitOn_append_cons (decide_eq_true rfl) _ _

section Cut

variable {qualified package name : String}
  (h : segments qualified.toList = packageSegments package ++ segments name.toList)
include h

/-- A name is split into its package and the rest if small letters tell them apart. -/
theorem split_eq_of_tellApart
    (happart : TellApart (packageSegments package) (segments name.toList)) :
    split qualified = (package, name) := by
  rw [split, h, (splitSegments_eq_iff (segments_ne_nil _)).mpr happart]
  dsimp only
  rw [join_packageSegments, segments, join_splitOn, String.ofList_toList, String.ofList_toList]

/-- If the rest of a name is what was behind the package, small letters tell them apart. -/
theorem tellApart_of_simple_eq (hsimple : simple qualified = name) :
    TellApart (packageSegments package) (segments name.toList) := by
  have hback : (splitSegments (segments qualified.toList)).2 = segments name.toList := by
    rw [← segments_simple, hsimple]
  -- What is in front of the cut is then the package.
  have hfront : (splitSegments (segments qualified.toList)).1 = packageSegments package := by
    have happend := (cut_segments qualified).1.trans h
    rw [hback] at happend
    exact List.append_cancel_right happend
  rw [h] at hback hfront
  exact (splitSegments_eq_iff (segments_ne_nil _)).mp (Prod.ext hfront hback)

/-- A name without its package is what was behind the package if and only if small letters tell the two
apart. -/
theorem simple_eq_iff :
    simple qualified = name ↔ TellApart (packageSegments package) (segments name.toList) :=
  ⟨tellApart_of_simple_eq h, fun happart => congrArg Prod.snd (split_eq_of_tellApart h happart)⟩

/-- A name is split into its package and the rest if and only if small letters tell them apart. -/
theorem split_eq_iff :
    split qualified = (package, name) ↔
      TellApart (packageSegments package) (segments name.toList) :=
  ⟨fun hsplit => tellApart_of_simple_eq h (congrArg Prod.snd hsplit), split_eq_of_tellApart h⟩

end Cut

end Apidoc.Model.QualifiedName
