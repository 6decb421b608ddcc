import Apidoc.Model.Reference

/-!
# `Apidoc.Proofs.Model.Reference`: names that become known between two lookups

To classify a type, an external site is looked up twice: for the package, and if no site
lists it, for the simple name. The names of the sites may change in between, so the two
lookups are told apart here (`locateAmid`). With one and the same lookup this is
`Resolver.locate`. Which types are internal has nothing to do with the sites, and a type
that is external stays so while known names stay known.
-/

set_option autoImplicit false

namespace Apidoc.Model.Resolver

/-- The site of a package, and failing that the site of a simple name. -/
def siteAmid (packages types : String → Option String) (package outermost : String) :
    Option String :=
  (if package ≠ "" then packages package else none) <|> types outermost

/-- Where a qualified name leads, if `packages` is what sites list when the package is
looked up, and `types` when the simple name is. -/
def locateAmid (r : Resolver) (packages types : String → Option String) (name : String) :
    Target :=
  if name = "" ∨ name ∈ primitiveTypes then .unresolved
  else if r.index.contains name then .internal
  else
    let (package, simple) := QualifiedName.split name
    if package ≠ "" ∧ package ∈ r.internals then .internal
    else
      let outermost := String.ofList (Text.cutAt '.' simple.toList).1
      match siteAmid packages types package outermost with
      | some base => .external base
      | none => .unresolved

/-- Where a type text leads, with the two lookups told apart. -/
def classifyAmid (r : Resolver) (packages types : String → Option String) (written : String)
    (scope : Option Scope) : Reference :=
  ⟨r.locateAmid packages types (r.qualify written scope), r.qualify written scope⟩

/-- With one lookup for both this is the classification of the resolver. -/
theorem classify_eq_classifyAmid (r : Resolver) (written : String) (scope : Option Scope) :
    r.classify written scope = r.classifyAmid r.lookup r.lookup written scope := rfl

/-- An indexed type has a page here, unless it is called like a primitive type. -/
theorem locate_of_indexed (r : Resolver) {name : String} (hknown : r.index.contains name = true)
    (hnonempty : name ≠ "") (hprimitive : name ∉ primitiveTypes) : r.locate name = .internal := by
  rw [locate, if_neg (not_or.mpr ⟨hnonempty, hprimitive⟩), if_pos hknown]

variable {packages types packages' types' : String → Option String}

/-- A site is found if one was found before and names that were known still are. -/
theorem isSome_siteAmid
    (hpackages : ∀ asked, (packages asked).isSome → (packages' asked).isSome)
    (htypes : ∀ asked, (types asked).isSome → (types' asked).isSome) {package outermost : String}
    (h : (siteAmid packages types package outermost).isSome) :
    (siteAmid packages' types' package outermost).isSome := by
  unfold siteAmid at h ⊢
  by_cases hpackage : package = ""
  · rw [if_neg (not_not_intro hpackage)] at h ⊢
    exact htypes outermost h
  · rw [if_pos hpackage] at h ⊢
    have hcases : (packages package).isSome ∨ (types outermost).isSome := by
      cases hfound : packages package with
      | some base => exact Or.inl rfl
      | none =>
        rw [hfound] at h
        exact Or.inr h
    rcases hcases with hfound | hfound
    · obtain ⟨base, hbase⟩ := Option.isSome_iff_exists.mp (hpackages package hfound)
      rw [hbase]
      rfl
    · cases packages' package with
      | some base => rfl
      | none => exact htypes outermost hfound

/-- Which types are internal does not depend on what sites list. -/
theorem internal_locateAmid_iff (r : Resolver) (name : String) :
    r.locateAmid packages' types' name = .internal ↔
      r.locateAmid packages types name = .internal := by
  simp only [locateAmid]
  split
  · rfl
  · split
    · rfl
    · split
      · rfl
      · split <;> split <;> simp

/-- A type that is external stays so if names that are known stay known. -/
theorem external_locateAmid (r : Resolver)
    (hpackages : ∀ asked, (packages asked).isSome → (packages' asked).isSome)
    (htypes : ∀ asked, (types asked).isSome → (types' asked).isSome) {name base : String}
    (h : r.locateAmid packages types name = .external base) :
    ∃ base', r.locateAmid packages' types' name = .external base' := by
  simp only [locateAmid] at h ⊢
  by_cases hprimitive : name = "" ∨ name ∈ primitiveTypes
  · rw [if_pos hprimitive] at h
    cases h
  rw [if_neg hprimitive] at h ⊢
  by_cases hindexed : r.index.contains name = true
  · rw [if_pos hindexed] at h
    cases h
  rw [if_neg hindexed] at h ⊢
  by_cases hscanned : (QualifiedName.split name).1 ≠ "" ∧
      (QualifiedName.split name).1 ∈ r.internals
  · rw [if_pos hscanned] at h
    cases h
  rw [if_neg hscanned] at h ⊢
  -- Only the sites are left to ask.
  have hsome : (siteAmid packages types (QualifiedName.split name).1
      (String.ofList (Text.cutAt '.' (QualifiedName.split name).2.toList).1)).isSome := by
    split at h
    · rename_i hfound
      rw [hfound]
      rfl
    · cases h
  obtain ⟨base', hbase'⟩ := Option.isSome_iff_exists.mp (isSome_siteAmid hpackages htypes hsome)
  rw [hbase']
  exact ⟨base', rfl⟩

end Apidoc.Model.Resolver
