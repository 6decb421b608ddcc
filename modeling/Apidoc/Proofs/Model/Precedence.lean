import Apidoc.Proofs.Model.QualifiedName
import Apidoc.Proofs.Model.Qualify
import Mathlib.Data.List.Find

/-!
# `Apidoc.Proofs.Model.Precedence`: which meaning of a name counts

A name may mean something at several places: as an enclosing type or a member of one, by
an import, in the package of its unit, as it is written, or in `java.lang`. `Hit` says
what it means at which place, without any search. The places come in an order
(`Place.Before`), and resolving a name gives its meaning at the first place where it has
one, or else the name (`means_qualify`).

Every stage of the search settles the places of that stage, and two stages in a row settle
the places of both (`Settles.orElse`).

An index is asked about a fixed list of names (`candidates`), so types of other names do
not matter (`qualify_congr`, `contains_add_of_ne`). Both sides come together in
`qualify_eq_iff_means`.
-/

set_option autoImplicit false

namespace Apidoc.Model.Index

open Apidoc.Model.QualifiedName (lastSegment)

/-! ### The head of a name -/

/-- The head of a name, which is its first segment. -/
def headOf (name : String) : String := (headAndSuffix name.toList).1

/-- What follows the head, with the dot in front. -/
def suffixOf (name : String) : String := (headAndSuffix name.toList).2

/-- The head ends at the first dot, and the suffix is the rest, unless nothing follows the dot. -/
theorem headOf_append_suffixOf (name : String) :
    '.' ∉ (headOf name).toList ∧
      (name = headOf name ++ suffixOf name ∨ (name = headOf name ++ "." ∧ suffixOf name = "")) := by
  rw [headOf, suffixOf, headAndSuffix]
  rcases Text.cutAt_cases '.' name.toList with ⟨hdot, hcut⟩ | ⟨front, rest, hdot, hname, hcut⟩
  · rw [hcut]
    refine ⟨by rwa [String.toList_ofList], .inl ?_⟩
    show name = String.ofList name.toList ++ ""
    rw [String.append_empty, String.ofList_toList]
  · rw [hcut]
    refine ⟨by rwa [String.toList_ofList], ?_⟩
    have hname : name = String.ofList front ++ String.ofList ('.' :: rest) := by
      rw [← String.ofList_append, ← hname, String.ofList_toList]
    by_cases hrest : rest = []
    · rw [hrest] at hname ⊢
      exact .inr ⟨hname, rfl⟩
    · simp only [if_neg hrest]
      exact .inl hname

/-! ### Places and hits -/

/-- A place where a name may mean something. -/
inductive Place where
  /-- It is the type so many types out. -/
  | self (depth : Nat)
  /-- It is a member of the type so many types out. -/
  | member (depth : Nat)
  /-- It begins with what the import at the position imports. -/
  | singleImport (position : Nat)
  | package
  /-- It is in the package of the import at the position. -/
  | onDemandImport (position : Nat)
  | asWritten
  | javaLang
  deriving DecidableEq, Repr

namespace Place

/-- The stage of the search that looks at the place. -/
def stage : Place → Nat
  | self _ | member _ => 0
  | singleImport _ => 1
  | package => 2
  | onDemandImport _ => 3
  | asWritten => 4
  | javaLang => 5

/-- The rank of a place in its stage. At each enclosing type, the type itself comes before its
members. -/
def rank : Place → Nat
  | self depth => 2 * depth
  | member depth => 2 * depth + 1
  | singleImport position | onDemandImport position => position
  | package | asWritten | javaLang => 0

/-- The order of places. -/
def Before (p q : Place) : Prop := p.stage < q.stage ∨ (p.stage = q.stage ∧ p.rank < q.rank)

theorem not_before_of_rank_le {p q : Place} (hstage : p.stage = q.stage) (hrank : q.rank ≤ p.rank) :
    ¬ p.Before q := by
  unfold Before
  omega

end Place

/-- The name in the package of its unit. -/
def inPackage (source : SourceFile) (name : String) : String :=
  if source.package = "" then name else source.package ++ "." ++ name

/-- What a name means at a place. -/
inductive Hit (index : Index) (scope : Scope) (name : String) : Place → String → Prop
  | self {depth : Nat} {type : Declaration} (hat : scope.typeChain[depth]? = some type)
      (hname : type.name = headOf name)
      (hknown : index.contains (type.qualifiedName ++ suffixOf name) = true) :
      Hit index scope name (.self depth) (type.qualifiedName ++ suffixOf name)
  | member {depth : Nat} {type : Declaration} (hat : scope.typeChain[depth]? = some type)
      (hknown : index.contains (type.qualifiedName ++ "." ++ headOf name ++ suffixOf name) = true) :
      Hit index scope name (.member depth)
        (type.qualifiedName ++ "." ++ headOf name ++ suffixOf name)
  | singleImport {position : Nat} {imported : String}
      (hat : scope.source.singleTypeImports[position]? = some imported)
      (hlast : lastSegment imported = headOf name) :
      Hit index scope name (.singleImport position) (imported ++ suffixOf name)
  | package (hknown : index.contains (inPackage scope.source name) = true) :
      Hit index scope name .package (inPackage scope.source name)
  | onDemandImport {position : Nat} {package : String}
      (hat : scope.source.onDemandImports[position]? = some package)
      (hknown : index.contains (package ++ "." ++ name) = true) :
      Hit index scope name (.onDemandImport position) (package ++ "." ++ name)
  | asWritten (hknown : index.contains name = true) : Hit index scope name .asWritten name
  | javaLang (hsuffix : suffixOf name = "") (hlisted : headOf name ∈ javaLangTypes) :
      Hit index scope name .javaLang ("java.lang." ++ headOf name)

variable {index : Index} {scope : Scope} {name : String}

/-- What a name means: what it means at the first place where it means something, or else the name
itself. -/
def Means (index : Index) (scope : Scope) (name found : String) : Prop :=
  (∃ place, Hit index scope name place found ∧
    ∀ other meant, Hit index scope name other meant → ¬ other.Before place) ∨
  ((∀ place meant, ¬ Hit index scope name place meant) ∧ found = name)

/-- Places of which neither comes before the other are the same. -/
theorem Place.eq_of_not_before {p q : Place} (h : ¬ p.Before q) (h' : ¬ q.Before p) : p = q := by
  have hstage : p.stage = q.stage := by unfold Before at h h'; omega
  have hrank : p.rank = q.rank := by unfold Before at h h'; omega
  cases p <;> cases q <;> simp only [stage, rank, reduceCtorEq, self.injEq, member.injEq,
    singleImport.injEq, onDemandImport.injEq] at hstage hrank ⊢ <;> omega

/-- At one place a name means one thing. -/
theorem Hit.unique {place : Place} {found meant : String} (h : Hit index scope name place found)
    (h' : Hit index scope name place meant) : found = meant := by
  cases h <;> cases h' <;> simp_all

/-- A name means one thing. -/
theorem Means.unique {found meant : String} (h : Means index scope name found)
    (h' : Means index scope name meant) : found = meant := by
  rcases h with ⟨place, hhit, hfirst⟩ | ⟨hnone, rfl⟩
  · rcases h' with ⟨place', hhit', hfirst'⟩ | ⟨hnone', rfl⟩
    · obtain rfl := Place.eq_of_not_before (hfirst' _ _ hhit) (hfirst _ _ hhit')
      exact hhit.unique hhit'
    · exact absurd hhit (hnone' _ _)
  · rcases h' with ⟨place', hhit', -⟩ | ⟨-, rfl⟩
    · exact absurd hhit' (hnone _ _)
    · rfl

/-- A search settles some places: it finds the hit at the first of them that has one, or there is
none. -/
def Settles (index : Index) (scope : Scope) (name : String) (among : Place → Prop) :
    Option String → Prop
  | some found => ∃ place, among place ∧ Hit index scope name place found ∧
      ∀ other meant, among other → Hit index scope name other meant → ¬ other.Before place
  | none => ∀ other meant, among other → ¬ Hit index scope name other meant

/-- One search after another settles the places of both, if those of the first one come before. -/
theorem Settles.orElse {k : Nat} {a b : Option String}
    (ha : Settles index scope name (fun p => p.stage = k) a)
    (hb : Settles index scope name (fun p => k + 1 ≤ p.stage) b) :
    Settles index scope name (fun p => k ≤ p.stage) (a <|> b) := by
  cases a with
  | some found =>
    obtain ⟨place, hplace, hhit, hfirst⟩ := ha
    refine ⟨place, hplace.ge, hhit, fun other meant hother hmeant hbefore => ?_⟩
    -- A place of a later stage is not before this one.
    rcases Nat.eq_or_lt_of_le hother with hsame | hlater
    · exact hfirst other meant hsame.symm hmeant hbefore
    · unfold Place.Before at hbefore
      omega
  | none =>
    -- Nothing of the first stage is hit, so that only the later places count.
    have hlater : ∀ other meant, k ≤ other.stage → Hit index scope name other meant →
        k + 1 ≤ other.stage := fun other meant hother hmeant =>
      Nat.lt_of_le_of_ne hother fun hsame => ha other meant hsame.symm hmeant
    cases b with
    | some found =>
      obtain ⟨place, hplace, hhit, hfirst⟩ := hb
      refine ⟨place, Nat.le_of_succ_le hplace, hhit, fun other meant hother hmeant => ?_⟩
      exact hfirst other meant (hlater other meant hother hmeant) hmeant
    | none =>
      intro other meant hother hmeant
      exact hb other meant (hlater other meant hother hmeant) hmeant

/-! ### The stages -/

theorem getElem?_append_cons {α : Type} {front back : List α} {a : α} :
    (front ++ a :: back)[front.length]? = some a := by
  rw [List.getElem?_append_right (Nat.le_refl _), Nat.sub_self, List.getElem?_cons_zero]

/-- An element of a list is in front of a given one, is that one, or comes later. -/
theorem getElem?_append_cons_cases {α : Type} {front back : List α} {a x : α} {i : Nat}
    (h : (front ++ a :: back)[i]? = some x) :
    x ∈ front ∨ (i = front.length ∧ x = a) ∨ front.length < i := by
  rcases Nat.lt_trichotomy i front.length with hlt | heq | hgt
  · rw [List.getElem?_append_left hlt] at h
    exact .inl (List.mem_of_getElem? h)
  · rw [heq, getElem?_append_cons] at h
    exact .inr (.inl ⟨heq, (Option.some.inj h).symm⟩)
  · exact .inr (.inr hgt)

/-- Where a type means nothing, neither it nor a member of it is known. -/
theorem firstKnown_memberNames_eq_none_iff {head suffix : String} {type : Declaration} :
    index.firstKnown (memberNames head suffix type) = none ↔
      (type.name = head → index.contains (type.qualifiedName ++ suffix) = false) ∧
        index.contains (type.qualifiedName ++ "." ++ head ++ suffix) = false := by
  rw [firstKnown, List.find?_eq_none, memberNames, List.forall_mem_append]
  by_cases hname : type.name = head <;> simp [hname]

/-- At an enclosing type the type itself is found, or else a member of it. -/
theorem firstKnown_memberNames_cases {head suffix found : String} {type : Declaration}
    (h : index.firstKnown (memberNames head suffix type) = some found) :
    (type.name = head ∧ index.contains (type.qualifiedName ++ suffix) = true ∧
      found = type.qualifiedName ++ suffix) ∨
    ((type.name = head → index.contains (type.qualifiedName ++ suffix) = false) ∧
      index.contains (type.qualifiedName ++ "." ++ head ++ suffix) = true ∧
      found = type.qualifiedName ++ "." ++ head ++ suffix) := by
  obtain ⟨hmem, hknown⟩ := firstKnown_eq_some h
  by_cases hself : type.name = head ∧ index.contains (type.qualifiedName ++ suffix) = true
  · obtain ⟨hname, hself⟩ := hself
    rw [firstKnown, memberNames, List.find?_append, if_pos hname, List.find?_singleton,
      if_pos hself] at h
    exact .inl ⟨hname, hself, (Option.some.inj h).symm⟩
  · rcases List.mem_append.mp hmem with hmem | hmem
    · split at hmem
      · rename_i hname
        rw [List.mem_singleton.mp hmem] at hknown
        exact absurd ⟨hname, hknown⟩ hself
      · cases hmem
    · rw [List.mem_singleton.mp hmem] at hknown ⊢
      exact .inr ⟨fun hname => Bool.eq_false_iff.mpr fun hk => hself ⟨hname, hk⟩, hknown, rfl⟩

/-- A hit at an enclosing type is known there. -/
theorem Hit.firstKnown_ne_none {place : Place} {meant : String}
    (h : Hit index scope name place meant) (hstage : place.stage = 0) :
    ∃ depth type, scope.typeChain[depth]? = some type ∧ 2 * depth ≤ place.rank ∧
      index.firstKnown (memberNames (headOf name) (suffixOf name) type) ≠ none := by
  cases h with
  | @self depth type hat hname hknown =>
    refine ⟨depth, type, hat, Nat.le_refl _, fun hnone => ?_⟩
    rw [(firstKnown_memberNames_eq_none_iff.mp hnone).1 hname] at hknown
    cases hknown
  | @member depth type hat hknown =>
    refine ⟨depth, type, hat, Nat.le_succ _, fun hnone => ?_⟩
    rw [(firstKnown_memberNames_eq_none_iff.mp hnone).2] at hknown
    cases hknown
  | singleImport | package | onDemandImport | asWritten | javaLang => cases hstage

/-- The search among the enclosing types settles their places. -/
theorem settles_viaEnclosing : Settles index scope name (fun p => p.stage = 0)
    (index.viaEnclosing scope (headOf name) (suffixOf name)) := by
  cases hsearch : index.viaEnclosing scope (headOf name) (suffixOf name) with
  | none =>
    intro other meant hother hmeant
    obtain ⟨depth, type, hat, -, hfound⟩ := hmeant.firstKnown_ne_none hother
    exact hfound (List.findSome?_eq_none_iff.mp hsearch type (List.mem_of_getElem? hat))
  | some found =>
    obtain ⟨nearer, type, farther, hchain, hfound, hnearer⟩ :=
      List.findSome?_eq_some_iff.mp hsearch
    have hat : scope.typeChain[nearer.length]? = some type := by
      rw [hchain, getElem?_append_cons]
    -- Nothing is hit at a nearer type.
    have hdepth : ∀ other meant, Hit index scope name other meant → other.stage = 0 →
        2 * nearer.length ≤ other.rank := by
      intro other meant hmeant hother
      obtain ⟨depth, type', hat', hrank, hfound'⟩ := hmeant.firstKnown_ne_none hother
      rw [hchain] at hat'
      rcases getElem?_append_cons_cases hat' with hmem | ⟨rfl, -⟩ | hlater
      · exact absurd (hnearer type' hmem) hfound'
      · exact hrank
      · omega
    rcases firstKnown_memberNames_cases hfound with ⟨hname, hknown, rfl⟩ | ⟨hself, hknown, rfl⟩
    · exact ⟨.self nearer.length, rfl, .self hat hname hknown, fun other meant hother hmeant =>
        Place.not_before_of_rank_le hother (hdepth other meant hmeant hother)⟩
    · refine ⟨.member nearer.length, rfl, .member hat hknown, fun other meant hother hmeant => ?_⟩
      refine Place.not_before_of_rank_le hother ?_
      have hle := hdepth other meant hmeant hother
      show 2 * nearer.length + 1 ≤ other.rank
      cases hmeant with
      | @self depth type' hat' hname' hknown' =>
        -- Only the type itself comes before its members, and that is not known.
        rcases Nat.eq_or_lt_of_le (Nat.le_of_mul_le_mul_left hle Nat.two_pos) with hsame | hlater
        · rw [← hsame, hat] at hat'
          cases hat'
          rw [hself hname'] at hknown'
          cases hknown'
        · show 2 * nearer.length + 1 ≤ 2 * depth
          omega
      | @member depth type' hat' hknown' =>
        have hle : 2 * nearer.length ≤ 2 * depth + 1 := hle
        show 2 * nearer.length + 1 ≤ 2 * depth + 1
        omega
      | singleImport | package | onDemandImport | asWritten | javaLang => cases hother

/-- A search through a list settles the places of a stage, if each of them stands for the element at
its rank. -/
theorem settles_find? {α : Type} {xs : List α} {p : α → Bool} {meaning : α → String}
    (place : Nat → Place) {k : Nat} (hstage : ∀ i, (place i).stage = k)
    (hrank : ∀ i j, i ≤ j → (place i).rank ≤ (place j).rank)
    (hhit : ∀ i x, xs[i]? = some x → p x = true → Hit index scope name (place i) (meaning x))
    (hits : ∀ other meant, other.stage = k → Hit index scope name other meant →
      ∃ i x, xs[i]? = some x ∧ p x = true ∧ other = place i) :
    Settles index scope name (fun p => p.stage = k) ((xs.find? p).map meaning) := by
  cases hsearch : xs.find? p with
  | none =>
    intro other meant hother hmeant
    obtain ⟨i, x, hat, hx, -⟩ := hits other meant hother hmeant
    exact List.find?_eq_none.mp hsearch x (List.mem_of_getElem? hat) hx
  | some found =>
    obtain ⟨hfound, front, back, rfl, hfront⟩ := List.find?_eq_some_iff_append.mp hsearch
    refine ⟨place front.length, hstage _, hhit _ _ getElem?_append_cons hfound,
      fun other meant hother hmeant => ?_⟩
    obtain ⟨i, x, hat', hx, rfl⟩ := hits other meant hother hmeant
    refine Place.not_before_of_rank_le ((hstage i).trans (hstage _).symm) (hrank _ _ ?_)
    rcases getElem?_append_cons_cases hat' with hmem | ⟨rfl, -⟩ | hlater
    · have hnot := hfront x hmem
      rw [hx] at hnot
      cases hnot
    · exact Nat.le_refl _
    · exact hlater.le

/-- An import is of the head of the name exactly if its last segment is the head. -/
theorem imports_head_iff {imported : String} :
    (imported = headOf name ∨ ("." ++ headOf name).toList.isSuffixOf imported.toList = true) ↔
      lastSegment imported = headOf name := by
  rw [QualifiedName.lastSegment_eq_iff (headOf_append_suffixOf name).1, List.isSuffixOf_iff_suffix]
  refine or_congr_right ⟨?_, ?_⟩
  · rintro ⟨front, hfront⟩
    refine ⟨String.ofList front, String.toList_inj.mp ?_⟩
    rw [← hfront]
    simp
  · rintro ⟨front, rfl⟩
    exact ⟨front.toList, by simp⟩

/-- The imports of single types settle their places. -/
theorem settles_viaSingleImport : Settles index scope name (fun p => p.stage = 1)
    (viaSingleImport scope.source (headOf name) (suffixOf name)) := by
  refine settles_find? .singleImport (fun _ => rfl) (fun _ _ hle => hle) ?_ ?_
  · intro i imported hat himported
    exact .singleImport hat (imports_head_iff.mp (of_decide_eq_true himported))
  · intro other meant hother hmeant
    cases hmeant with
    | singleImport hat hlast => exact ⟨_, _, hat, decide_eq_true (imports_head_iff.mpr hlast), rfl⟩
    | self | member | package | onDemandImport | asWritten | javaLang => cases hother

/-- A single name that is looked up settles a stage with a single place. -/
theorem settles_firstKnown {found : String} (place : Place)
    (hhit : index.contains found = true → Hit index scope name place found)
    (hits : ∀ other meant, other.stage = place.stage → Hit index scope name other meant →
      index.contains found = true ∧ other = place) :
    Settles index scope name (fun p => p.stage = place.stage) (index.firstKnown [found]) := by
  have hsearch : Settles index scope name (fun p => p.stage = place.stage)
      (([found].find? index.contains).map id) := by
    refine settles_find? (fun _ => place) (fun _ => rfl) (fun _ _ _ => Nat.le_refl _) ?_ ?_
    · intro i x hat hx
      obtain rfl := List.mem_singleton.mp (List.mem_of_getElem? hat)
      exact hhit hx
    · intro other meant hother hmeant
      obtain ⟨hknown, hplace⟩ := hits other meant hother hmeant
      exact ⟨0, found, rfl, hknown, hplace⟩
  rwa [Option.map_id] at hsearch

/-- The package of the unit settles its place. -/
theorem settles_viaPackage : Settles index scope name (fun p => p.stage = 2)
    (index.viaPackage scope.source name) := by
  refine settles_firstKnown .package .package fun other meant hother hmeant => ?_
  cases hmeant with
  | package hknown => exact ⟨hknown, rfl⟩
  | self | member | singleImport | onDemandImport | asWritten | javaLang => cases hother

/-- The imports on demand settle their places. -/
theorem settles_viaOnDemandImport : Settles index scope name (fun p => p.stage = 3)
    (index.viaOnDemandImport scope.source name) := by
  rw [viaOnDemandImport, firstKnown, List.find?_map]
  refine settles_find? .onDemandImport (fun _ => rfl) (fun _ _ hle => hle) ?_ ?_
  · exact fun i package hat hknown => .onDemandImport hat hknown
  · intro other meant hother hmeant
    cases hmeant with
    | onDemandImport hat hknown => exact ⟨_, _, hat, hknown, rfl⟩
    | self | member | singleImport | package | asWritten | javaLang => cases hother

/-- The lookup of the name as it is written settles its place. -/
theorem settles_asWritten : Settles index scope name (fun p => p.stage = 4)
    (index.firstKnown [name]) := by
  refine settles_firstKnown .asWritten .asWritten fun other meant hother hmeant => ?_
  cases hmeant with
  | asWritten hknown => exact ⟨hknown, rfl⟩
  | self | member | singleImport | package | onDemandImport | javaLang => cases hother

/-- The types of `java.lang` settle the last place. -/
theorem settles_viaJavaLang : Settles index scope name (fun p => 5 ≤ p.stage)
    (viaJavaLang (headOf name) (suffixOf name)) := by
  have hlast : ∀ other meant, 5 ≤ other.stage → Hit index scope name other meant →
      (suffixOf name = "" ∧ headOf name ∈ javaLangTypes) ∧ other = .javaLang := by
    intro other meant hother hmeant
    cases hmeant with
    | javaLang hsuffix hlisted => exact ⟨⟨hsuffix, hlisted⟩, rfl⟩
    | self | member | singleImport | package | onDemandImport | asWritten =>
      simp [Place.stage] at hother
  rw [viaJavaLang]
  split
  · rename_i hlisted
    refine ⟨.javaLang, Nat.le_refl _, .javaLang hlisted.1 hlisted.2,
      fun other meant hother hmeant => ?_⟩
    rw [(hlast other meant hother hmeant).2]
    exact Place.not_before_of_rank_le rfl (Nat.le_refl _)
  · rename_i hlisted
    exact fun other meant hother hmeant => hlisted (hlast other meant hother hmeant).1

/-- The stages in a row settle all places. -/
theorem settles_search : Settles index scope name (fun p => 0 ≤ p.stage)
    (index.viaEnclosing scope (headOf name) (suffixOf name) <|>
      viaSingleImport scope.source (headOf name) (suffixOf name) <|>
      index.viaPackage scope.source name <|> index.viaOnDemandImport scope.source name <|>
      index.firstKnown [name] <|> viaJavaLang (headOf name) (suffixOf name)) :=
  settles_viaEnclosing.orElse (settles_viaSingleImport.orElse (settles_viaPackage.orElse
    (settles_viaOnDemandImport.orElse (settles_asWritten.orElse settles_viaJavaLang))))

/-- A blank text names nothing. -/
theorem qualify_of_blank {written : String} (h : Text.onString Text.trim written = "")
    (scope : Option Scope) : index.qualify written scope = "" := by
  have htrim : Text.trim written.toList = [] := String.ofList_eq_empty_iff.mp h
  cases scope with
  | none => exact h
  | some scope =>
    rw [qualify]
    simp only [if_pos htrim]
    exact h

/-- A name that is not blank is looked up stage by stage, and stays as it is if nothing is found. -/
theorem qualify_of_not_blank {written : String} (h : Text.onString Text.trim written = name)
    (hname : name ≠ "") : index.qualify written (some scope)
      = (index.viaEnclosing scope (headOf name) (suffixOf name) <|>
          viaSingleImport scope.source (headOf name) (suffixOf name) <|>
          index.viaPackage scope.source name <|> index.viaOnDemandImport scope.source name <|>
          index.firstKnown [name] <|> viaJavaLang (headOf name) (suffixOf name)).getD name := by
  subst h
  have htrim : Text.trim written.toList ≠ [] := fun hnil => hname (by rw [Text.onString, hnil])
  rw [qualify]
  simp only [if_neg htrim]
  simp only [headOf, suffixOf, Text.onString, String.toList_ofList]

/-- Resolving a name that is not blank gives what it means. -/
theorem means_qualify {written : String} (h : Text.onString Text.trim written = name)
    (hname : name ≠ "") : Means index scope name (index.qualify written (some scope)) := by
  have hsettles : Settles index scope name (fun p => 0 ≤ p.stage) _ := settles_search
  rw [qualify_of_not_blank h hname]
  generalize (index.viaEnclosing scope _ _ <|> _) = search at hsettles
  cases search with
  | some found =>
    obtain ⟨place, -, hhit, hfirst⟩ := hsettles
    exact .inl ⟨place, hhit, fun other meant => hfirst other meant (Nat.zero_le _)⟩
  | none => exact .inr ⟨fun place meant => hsettles place meant (Nat.zero_le _), rfl⟩

/-! ### What an index is asked -/

/-- The names that are looked up to resolve a name: those made with the enclosing types, with the
package of the unit and with its imports on demand, and the name itself. -/
def candidates (scope : Scope) (name : String) : List String :=
  scope.typeChain.flatMap (memberNames (headOf name) (suffixOf name)) ++
    inPackage scope.source name :: scope.source.onDemandImports.map (· ++ "." ++ name) ++ [name]

/-- Indexes that know the same of these names resolve the name alike. -/
theorem qualify_congr {i j : Index} {written : String}
    (h : Text.onString Text.trim written = name)
    (hknown : ∀ c ∈ candidates scope name, i.contains c = j.contains c) :
    i.qualify written (some scope) = j.qualify written (some scope) := by
  by_cases hname : name = ""
  · rw [qualify_of_blank (h.trans hname), qualify_of_blank (h.trans hname)]
  have hfirst : ∀ names ⊆ candidates scope name, i.firstKnown names = j.firstKnown names :=
    fun names hnames => List.find?_congr fun c hc => hknown c (hnames hc)
  have hcandidates : candidates scope name = scope.typeChain.flatMap
      (memberNames (headOf name) (suffixOf name)) ++ inPackage scope.source name ::
        scope.source.onDemandImports.map (· ++ "." ++ name) ++ [name] := rfl
  have henclosing : i.viaEnclosing scope (headOf name) (suffixOf name)
      = j.viaEnclosing scope (headOf name) (suffixOf name) := by
    have hflat := hfirst (scope.typeChain.flatMap (memberNames (headOf name) (suffixOf name)))
      (by rw [hcandidates, List.append_assoc]; exact List.subset_append_left _ _)
    rwa [firstKnown, firstKnown, List.find?_flatMap, List.find?_flatMap] at hflat
  have hpackage : i.viaPackage scope.source name = j.viaPackage scope.source name :=
    hfirst [inPackage scope.source name] (by rw [hcandidates]; simp)
  have hdemand : i.viaOnDemandImport scope.source name = j.viaOnDemandImport scope.source name :=
    hfirst (scope.source.onDemandImports.map (· ++ "." ++ name))
      (by rw [hcandidates]; intro c hc; simp [hc])
  have hwritten : i.firstKnown [name] = j.firstKnown [name] :=
    hfirst [name] (by rw [hcandidates]; simp)
  rw [qualify_of_not_blank h hname, qualify_of_not_blank h hname, henclosing, hpackage, hdemand,
    hwritten]

/-- Types of other names do not change whether a name is known. -/
theorem contains_add_of_ne {l : Located} {c : String}
    (h : ∀ t ∈ typesOf l, t.declaration.qualifiedName ≠ c) :
    (index.add l).contains c = index.contains c := by
  have hnone : ((typesOf l).find? fun t => t.declaration.qualifiedName = c) = none := by
    rw [List.find?_eq_none]
    exact fun t ht hname => h t ht (of_decide_eq_true hname)
  rw [contains, contains, add_eq_foldl_insert, get?_foldl_insert, hnone, Option.or_none]

/-! ### Resolving a name -/

/-- Without a scope a name is taken as it is. In a scope it gets the one thing that it means there.
Only the candidates matter for that: two indexes that know the same of them agree, and so do an
index and one with more types of other names. -/
theorem qualify_eq_iff_means (index : Index) (scope : Scope) {written name : String}
    (h : Text.onString Text.trim written = name) :
    index.qualify written none = name ∧
      (name = "" → index.qualify written (some scope) = "") ∧
      (name ≠ "" →
        ∀ found, index.qualify written (some scope) = found ↔ Means index scope name found) ∧
      (∀ other : Index, (∀ c ∈ candidates scope name, other.contains c = index.contains c) →
        other.qualify written (some scope) = index.qualify written (some scope)) ∧
      ∀ l : Located, (∀ t ∈ typesOf l, t.declaration.qualifiedName ∉ candidates scope name) →
        (index.add l).qualify written (some scope) = index.qualify written (some scope) := by
  refine ⟨h, fun hblank => qualify_of_blank (h.trans hblank) _, fun hname found => ?_,
    fun other hknown => qualify_congr h hknown, fun l hnew => qualify_congr h fun c hc => ?_⟩
  · have hmeans : Means index scope name (index.qualify written (some scope)) :=
      means_qualify h hname
    exact ⟨fun hfound => hfound ▸ hmeans, hmeans.unique⟩
  · exact contains_add_of_ne fun t ht hname => hnew t ht (hname ▸ hc)

/-- A class of a unit that imports `java.util.Part` and the package `lib.model`. -/
def importing (package name : String) (inner : List Element) : Located where
  source := ⟨⟨.workingDirectory, [name]⟩, package, ["java.util.Part", "lib.model.*"], []⟩
  owners := []
  element := .mk (Declaration.bare (.type .classType) name (package ++ "." ++ name) ⟨0, 0⟩) inner

/-- A class with a member of the name that is imported too. -/
def panel : Located := importing "lib" "Panel"
  [.mk (Declaration.bare (.type .classType) "Part" "lib.Panel.Part" ⟨0, 0⟩) []]

/-- In the class a `Part` is its member and not what is imported, and the `Part` of a package that
has nothing to do with it does not change that. -/
theorem qualify_eq_iff_means_panel :
    Text.onString Text.trim " Part " = "Part" ∧ "Part" ≠ "" ∧
      (empty.add panel).qualify " Part " (some panel.scope) = "lib.Panel.Part" ∧
      (∀ t ∈ typesOf (importing "other" "Part" []),
        t.declaration.qualifiedName ∉ candidates panel.scope "Part") ∧
      ((empty.add panel).add (importing "other" "Part" [])).qualify " Part " (some panel.scope)
        = "lib.Panel.Part" := by
  have htrim : Text.onString Text.trim " Part " = "Part" := by decide
  have hqualify := qualify_eq_iff_means (empty.add panel) panel.scope htrim
  have hpart : (empty.add panel).qualify " Part " (some panel.scope) = "lib.Panel.Part" := by
    refine (hqualify.2.2.1 (by decide) _).mpr (.inl ⟨.member 0, ?_, fun other meant hmeant => ?_⟩)
    · exact @Hit.member _ _ _ 0 panel.declaration rfl (by decide)
    · cases hmeant with
      | @self depth type hat hname =>
        rintro (hstage | ⟨-, hrank⟩)
        · cases hstage
        · -- Only the class itself would come first, and it has another name.
          obtain rfl : depth = 0 := by
            have hrank : 2 * depth < 1 := hrank
            omega
          cases hat
          exact absurd hname (by decide)
      | member | singleImport | package | onDemandImport | asWritten | javaLang =>
        simp [Place.Before, Place.stage, Place.rank]
  have hnew : ∀ t ∈ typesOf (importing "other" "Part" []),
      t.declaration.qualifiedName ∉ candidates panel.scope "Part" := by decide
  exact ⟨htrim, by decide, hpart, hnew, (hqualify.2.2.2.2 _ hnew).trans hpart⟩

end Apidoc.Model.Index
