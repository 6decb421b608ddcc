import Apidoc.Model.Reference
import Apidoc.Proofs.Java.TypeName
import Apidoc.Proofs.Model.Index
import Apidoc.Proofs.Model.Unit

/-!
# `Apidoc.Proofs.Model.Qualify`: what a qualified name means where it is written

A name is resolved by a search that starts in its scope, also if it is qualified already.
The search only ever puts something in front: what it finds is the name, or the name
behind a dot (`EndsIn`). So a qualified name of a type that is indexed means that
type, or a longer name that ends like it. The longer name is indexed too, or the unit
imports it (`qualify_eq_or_captured`).

A resolver erases a name before it looks it up. Plain names are not touched by that
(`Resolver.qualify_of_plain`).
-/

set_option autoImplicit false

namespace Apidoc.Model

open Apidoc.Java (IsPlainName)
open Apidoc.Text (cutAt_cases trim_eq_self)

/-! ### Names that end alike -/

/-- The first name is the second one, maybe with something and a dot in front. -/
def EndsIn (full name : String) : Prop := full = name ∨ ∃ outer, full = outer ++ "." ++ name

namespace EndsIn

variable {full name : String}

theorem refl (name : String) : EndsIn name name := .inl rfl

theorem dotted (outer name : String) : EndsIn (outer ++ "." ++ name) name := .inr ⟨outer, rfl⟩

/-- The same can follow on both names. -/
theorem append (h : EndsIn full name) (rest : String) : EndsIn (full ++ rest) (name ++ rest) := by
  rcases h with rfl | ⟨outer, rfl⟩
  · exact refl _
  · exact .inr ⟨outer, by simp only [String.append_assoc]⟩

end EndsIn

/-- A type that comes from an item has a qualified name that ends in its name. -/
theorem CompilationUnit.FromItem.endsIn_name {d : Declaration} (h : FromItem d)
    (htype : d.kind.isType = true) : EndsIn d.qualifiedName d.name := by
  cases h with
  | type source owner doc head =>
    cases owner with
    | some o => exact .dotted o.qualifiedName head.name
    | none =>
      show EndsIn (if source.package = "" then head.name else source.package ++ "." ++ head.name)
        head.name
      split
      · exact .refl _
      · exact .dotted _ _
  | method | constructor | field | constant => cases htype

/-! ### The search -/

namespace Index

variable {index : Index} {scope : Scope} {name head suffix found : String}

/-- The head of a name and the rest make up the name, unless it ends with a dot. -/
theorem headAndSuffix_append {cs : List Char} (h : cs.getLast? ≠ some '.') :
    (headAndSuffix cs).1 ++ (headAndSuffix cs).2 = String.ofList cs := by
  unfold headAndSuffix
  rcases cutAt_cases '.' cs with ⟨-, hcut⟩ | ⟨front, rest, -, hcs, hcut⟩
  · rw [hcut]
    exact String.append_empty ..
  · rw [hcut]
    by_cases hrest : rest = []
    · rw [hcs, hrest, List.getLast?_concat] at h
      exact absurd rfl h
    · simp only [if_neg hrest]
      rw [← String.ofList_append, hcs]

/-- What is known first is one of the names, and known. -/
theorem firstKnown_eq_some {names : List String} (h : index.firstKnown names = some found) :
    found ∈ names ∧ index.contains found = true :=
  ⟨List.mem_of_find?_eq_some h, List.find?_some h⟩

/-- Of two searches one after the other, one has found what is found. -/
theorem orElse_eq_some {a b : Option String} (h : (a <|> b) = some found) :
    a = some found ∨ b = some found := by
  cases a with
  | none => exact .inr h
  | some x => exact .inl h

/-- The name of a type, or of a member of it, ends in the name that is looked for. -/
theorem endsIn_of_mem_memberNames {type : Declaration} (htype : EndsIn type.qualifiedName type.name)
    (h : found ∈ memberNames head suffix type) : EndsIn found (head ++ suffix) := by
  unfold memberNames at h
  rcases List.mem_append.mp h with hself | hmember
  · split at hself
    · rename_i hhead
      rw [List.mem_singleton.mp hself, ← hhead]
      exact htype.append suffix
    · exact absurd hself List.not_mem_nil
  · rw [List.mem_singleton.mp hmember]
    exact (EndsIn.dotted type.qualifiedName head).append suffix

/-- What is found among the enclosing types is known, and ends in the name that is looked for. -/
theorem viaEnclosing_eq_some (htypes : ∀ d ∈ scope.typeChain, EndsIn d.qualifiedName d.name)
    (h : index.viaEnclosing scope head suffix = some found) :
    EndsIn found (head ++ suffix) ∧ index.contains found = true := by
  obtain ⟨type, htype, hfound⟩ := List.exists_of_findSome?_eq_some h
  obtain ⟨hmem, hknown⟩ := firstKnown_eq_some hfound
  exact ⟨endsIn_of_mem_memberNames (htypes type htype) hmem, hknown⟩

/-- What an import of a single type gives starts with what is imported, and ends in the name that is
looked for. -/
theorem viaSingleImport_eq_some {source : SourceFile}
    (h : viaSingleImport source head suffix = some found) :
    EndsIn found (head ++ suffix) ∧
    ∃ imported ∈ source.singleTypeImports, found = imported ++ suffix := by
  obtain ⟨imported, himported, rfl⟩ := Option.map_eq_some_iff.mp h
  refine ⟨?_, imported, List.mem_of_find?_eq_some himported, rfl⟩
  have hhead : imported = head ∨ ("." ++ head).toList.isSuffixOf imported.toList := by
    simpa using List.find?_some himported
  refine EndsIn.append ?_ suffix
  rcases hhead with rfl | hsuffix
  · exact .refl _
  · obtain ⟨outer, houter⟩ := List.isSuffixOf_iff_suffix.mp hsuffix
    refine .inr ⟨String.ofList outer, String.toList_inj.mp ?_⟩
    simp only [← houter, String.toList_append, String.toList_ofList, List.append_assoc]

/-- What is found in the package is known, and ends in the name. -/
theorem viaPackage_eq_some {source : SourceFile} (h : index.viaPackage source name = some found) :
    EndsIn found name ∧ index.contains found = true := by
  obtain ⟨hmem, hknown⟩ := firstKnown_eq_some h
  refine ⟨?_, hknown⟩
  rw [List.mem_singleton.mp hmem]
  split
  · exact .refl _
  · exact .dotted _ _

/-- What is found in a package that is imported on demand is known, and ends in the name. -/
theorem viaOnDemandImport_eq_some {source : SourceFile}
    (h : index.viaOnDemandImport source name = some found) :
    EndsIn found name ∧ index.contains found = true := by
  obtain ⟨hmem, hknown⟩ := firstKnown_eq_some h
  obtain ⟨package, -, rfl⟩ := List.mem_map.mp hmem
  exact ⟨.dotted _ _, hknown⟩

/-! ### Qualified names -/

/-- Without a scope a name is taken as it is. -/
theorem qualify_none (index : Index) (h : IsPlainName name) : index.qualify name none = name := by
  rw [qualify]
  simp only [trim_eq_self h.not_blank, String.ofList_toList]

/-- In a scope another name is found, which ends in the one that is written: an indexed one, or one
that an import of the unit begins. -/
structure Captured (index : Index) (source : SourceFile) (found name : String) : Prop where
  longer : ∃ outer, found = outer ++ "." ++ name
  reached : index.contains found = true ∨
    ∃ imported ∈ source.singleTypeImports, ∃ rest, found = imported ++ rest

/-- The name of an indexed type means that type, or it is captured. -/
theorem qualify_eq_or_captured (h : IsPlainName name) (hknown : index.contains name = true)
    (htypes : ∀ d ∈ scope.typeChain, EndsIn d.qualifiedName d.name) :
    index.qualify name (some scope) = name ∨
      Captured index scope.source (index.qualify name (some scope)) name := by
  have hparts : (headAndSuffix name.toList).1 ++ (headAndSuffix name.toList).2 = name := by
    rw [headAndSuffix_append h.last, String.ofList_toList]
  -- The search ends at the latest where the name is looked up as it is.
  have hself : index.firstKnown [name] = some name := by
    rw [firstKnown, List.find?_singleton, if_pos hknown]
  unfold qualify
  simp only [trim_eq_self h.not_blank, String.ofList_toList, if_neg h.toList_ne_nil, hself]
  generalize hsearch : (index.viaEnclosing scope _ _ <|> _) = search
  cases search with
  | none => exact .inl rfl
  | some found =>
    have hlonger : EndsIn found name → (index.contains found = true ∨
        ∃ imported ∈ scope.source.singleTypeImports, ∃ rest, found = imported ++ rest) →
        found = name ∨ Captured index scope.source found name :=
      fun hends hreached => hends.imp_right fun houter => ⟨houter, hreached⟩
    rcases orElse_eq_some hsearch with henclosing | hsearch
    · obtain ⟨hends, hindexed⟩ := viaEnclosing_eq_some htypes henclosing
      rw [hparts] at hends
      exact hlonger hends (.inl hindexed)
    rcases orElse_eq_some hsearch with himport | hsearch
    · obtain ⟨hends, imported, himported, hfound⟩ := viaSingleImport_eq_some himport
      rw [hparts] at hends
      exact hlonger hends (.inr ⟨imported, himported, _, hfound⟩)
    rcases orElse_eq_some hsearch with hpackage | hsearch
    · obtain ⟨hends, hindexed⟩ := viaPackage_eq_some hpackage
      exact hlonger hends (.inl hindexed)
    rcases orElse_eq_some hsearch with hdemand | hsearch
    · obtain ⟨hends, hindexed⟩ := viaOnDemandImport_eq_some hdemand
      exact hlonger hends (.inl hindexed)
    -- Here the name itself is found, and nothing after it is looked at.
    · exact .inl (Option.some.inj hsearch).symm

end Index

/-! ### Resolvers -/

/-- A plain name has no array suffix. -/
theorem dropArraySuffix_of_plain {name : String} (h : IsPlainName name) :
    dropArraySuffix name.toList = name.toList := by
  have hstrip : dropArraySuffix.strip name.toList.reverse = name.toList.reverse := by
    unfold dropArraySuffix.strip
    split
    · rename_i rest hreverse
      exact absurd (List.mem_reverse.mp (hreverse ▸ List.mem_cons_self))
        (h.not_mem (c := ']') (by decide))
    · rename_i rest hreverse
      refine absurd ?_ h.last
      rw [List.getLast?_eq_head?_reverse, hreverse]
      rfl
    · rfl
  rw [dropArraySuffix, hstrip, List.reverse_reverse]

/-- What a resolver finds is called by the qualified name. -/
@[simp] theorem Resolver.name_classify (r : Resolver) (written : String) (scope : Option Scope) :
    (r.classify written scope).name = r.qualify written scope := rfl

/-- A resolver looks a plain name up as it is. -/
theorem Resolver.qualify_of_plain (r : Resolver) {name : String} (h : IsPlainName name)
    (scope : Option Scope) : r.qualify name scope = r.index.qualify name (scope <|> r.scope) := by
  rw [Resolver.qualify]
  simp only [Text.onString, h.erase_eq, dropArraySuffix_of_plain h, String.ofList_toList]

end Apidoc.Model
