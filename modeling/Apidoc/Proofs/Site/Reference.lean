import Apidoc.Proofs.Comment.Reference
import Apidoc.Proofs.Model.Qualify
import Apidoc.Proofs.Site.Link

/-!
# `Apidoc.Proofs.Site.Reference`: references that are kept, and references that are shown

A member keeps the references of its `@see` tags, each with the qualified name of its type.
When the tag is shown, the type is looked for again. Both readings take the same type and
the same member from the tag (`see_kept_and_shown`), but they look for the type in
different ways.

* A type part is kept as the name that it means as it is written, and shown as the name
  that its erased form means. Arguments, annotations and array brackets make a difference
  here, and nothing else does.
* Without a type part the reference is kept under the name of the type around the member.
  When it is shown, that name is resolved in the scope of the member, though it is
  qualified already. A type with a longer name that ends like it can come first.

`see_captured_and_unerased` has a tag of each kind that is kept and shown differently.
-/

set_option autoImplicit false

namespace Apidoc.Build.Collector

open Apidoc.Comment (BlockTag Renderer SeeReference linkTo)
open Apidoc.Build.Environment
open Apidoc.Files (Path Tree)
open Apidoc.Graph (CrossReference Member Record)
open Apidoc.Java (IsPlainName)
open Apidoc.Model (CompilationUnit EndsIn Index Located Resolver Scope dropArraySuffix)
open Apidoc.Text (Bytes)

variable {files : Tree} {paths : List Path} {c c' : Context} {e : Environment}

/-- A declared type and whatever is around it come from items. -/
theorem fromItem_of_mem_declaredTypes {l : Located} (h : l ∈ declaredTypes files paths) :
    ∀ d ∈ l.scope.chain, CompilationUnit.FromItem d := by
  obtain ⟨-, path, top, hlocated, hinside⟩ := exists_located_of_mem_declaredTypes h
  exact CompilationUnit.fromItem_of_mem_flatten hlocated hinside

/-- The types around a member have qualified names that end in their names. -/
theorem endsIn_typeChain_of_mem_members {l : Located} (h : l ∈ declaredTypes files paths)
    {index : Index} {content : Bytes} {m : Member}
    (hm : m ∈ (Record.ofType index content l).members) :
    ∀ d ∈ m.scope.typeChain, EndsIn d.qualifiedName d.name := by
  obtain ⟨hmember, -, howners⟩ := Record.scope_of_mem_members hm
  intro d hd
  obtain ⟨hd, htype⟩ := List.mem_filter.mp hd
  -- The member itself is no type, so it is left out of the chain.
  rw [Scope.chain, howners, List.mem_cons] at hd
  rcases hd with rfl | hd
  · exact absurd htype (by rw [show m.scope.declaration.kind.isType = false from hmember]; simp)
  · exact (fromItem_of_mem_declaredTypes h d hd).endsIn_name htype

/-- The type around a member stands for the missing type part of a reference. -/
theorem ownerName_of_mem_members {l : Located} {index : Index} {content : Bytes} {m : Member}
    (hm : m ∈ (Record.ofType index content l).members) :
    Renderer.ownerName m.scope = l.declaration.qualifiedName := by
  obtain ⟨hmember, -, howners⟩ := Record.scope_of_mem_members hm
  have hkind : m.scope.declaration.kind.isType = false := hmember
  rw [Renderer.ownerName, hkind, howners]
  rfl

/-- The name of a type is its own erased form, and not that of an array. -/
def IsErased (typeName : String) : Prop :=
  dropArraySuffix (Java.TypeName.erase typeName.toList) = typeName.toList

/-- A resolver looks an erased name up as it is. -/
theorem qualify_of_isErased (r : Resolver) {typeName : String} (h : IsErased typeName)
    (scope : Scope) : r.qualify typeName (some scope) = r.index.qualify typeName (some scope) := by
  rw [Resolver.qualify]
  simp only [Text.onString]
  rw [show dropArraySuffix (Java.TypeName.erase typeName.toList) = typeName.toList from h,
    String.ofList_toList]
  rfl

/-- The two readings of a `@see` tag of a declared member. The tag is kept as a reference and shown as a
link, both with its type and its member, and the link leads where the type is found. A type part that
is erased already is found under the name it is kept under. Without a type part the reference is kept
under the name of the type around the member, and that type is found, unless another one captures its
name. -/
theorem see_kept_and_shown (hrun : runPass files .documenting paths none c = (.ok e, c'))
    (r : Renderer) (hindex : r.resolver.index = c'.index) {l : Located}
    (hl : l ∈ declaredTypes files paths) (content : Bytes) {m : Member}
    (hm : m ∈ (Record.ofType c'.index content l).members) {tag : BlockTag}
    (htag : tag ∈ m.doc.tagsNamed ["see"]) {see : SeeReference}
    (hsee : SeeReference.ofText? tag.text = some see) :
    ∃ kept ∈ m.references, ∃ found shown,
      kept.typeName = see.typeName ∧ kept.member = see.member ∧
      r.locate see.typeName (some m.scope) = some found ∧
      r.renderSee tag.text (some m.scope)
        = (linkTo (found.href (some see.descriptor) r.root) true shown).render ∧
      (see.typeName ≠ "" → IsErased see.typeName → found.name = kept.qualified) ∧
      (see.typeName = "" → kept.qualified = l.declaration.qualifiedName ∧
        (IsPlainName kept.qualified → found.name = kept.qualified ∨
          Index.Captured c'.index l.source found.name kept.qualified)) := by
  have hkept : ⟨see.typeName, see.member,
      if see.typeName = "" then l.declaration.qualifiedName
      else c'.index.qualify see.typeName (some m.scope)⟩ ∈ m.references := by
    rw [Record.references_of_mem_members hm]
    exact List.mem_map.mpr ⟨see, List.mem_filterMap.mpr ⟨tag, htag, hsee⟩, rfl⟩
  by_cases htype : see.typeName = ""
  · have hlocate : r.locate see.typeName (some m.scope)
        = some (r.resolver.classify l.declaration.qualifiedName (some m.scope)) := by
      rw [Renderer.locate, if_neg (not_not.mpr htype), Option.map_some, ownerName_of_mem_members hm]
    obtain ⟨shown, hshown⟩ := r.renderSee_of_ofText? (some m.scope) hsee hlocate
    refine ⟨_, hkept, _, shown, rfl, rfl, hlocate, hshown, fun h => absurd htype h, fun _ => ?_⟩
    simp only [if_pos htype, true_and]
    -- The name of the owner is looked up like any other name.
    intro hplain
    have hknown : c'.index.contains l.declaration.qualifiedName = true :=
      (contains_index_iff hrun _).mpr ⟨l, hl, rfl⟩
    have hfound := Index.qualify_eq_or_captured hplain hknown
      (endsIn_typeChain_of_mem_members hl hm)
    rw [(Record.scope_of_mem_members hm).2.1] at hfound
    rw [Resolver.name_classify, r.resolver.qualify_of_plain hplain, hindex]
    exact hfound
  · have hlocate : r.locate see.typeName (some m.scope)
        = some (r.resolver.classify see.typeName (some m.scope)) := by
      rw [Renderer.locate, if_pos htype]
    obtain ⟨shown, hshown⟩ := r.renderSee_of_ofText? (some m.scope) hsee hlocate
    refine ⟨_, hkept, _, shown, rfl, rfl, hlocate, hshown, fun _ herased => ?_,
      fun h => absurd h htype⟩
    rw [if_neg htype, ← hindex, Resolver.name_classify]
    exact qualify_of_isErased r.resolver herased m.scope

/-- Two classes with the same name, one of them in a package that is called like the other package
inside itself. A method of the first one refers to itself, to itself without a type, and to a type with
arguments. -/
def sameNames : Tree where
  entries :=
    [(["Outer.java"], .file (Text.encode ("package p; import java.util.List; class C \x7b\n" ++
        "/**\n * @see C#m()\n * @see #m()\n * @see List<String>#size()\n */\nvoid m() \x7b\x7d \x7d"))),
      (["Inner.java"], .file (Text.encode "package p.p; class C \x7b\x7d"))]
  workingDirectory := []

/-- The files of the two classes. -/
def sameNamesPaths : List Path := [.ofString "Outer.java", .ofString "Inner.java"]

/-- The main pass over the two classes succeeds, with the index of both. -/
theorem runPass_sameNames : ∃ e c', runPass sameNames .documenting sameNamesPaths none (.initial [])
    = (.ok e, c') ∧ c'.index = indexOf sameNames sameNamesPaths := by
  have hread : Readable sameNames sameNamesPaths := by decide +kernel
  obtain ⟨e, hrun, -⟩ := runPass_of_readable hread (.initial [])
  exact ⟨e, _, hrun, (context_of_runPass hrun).1⟩

/-- A tag that names the type is kept and shown alike. -/
theorem see_kept_and_shown_typed :
    ∃ e c', runPass sameNames .documenting sameNamesPaths none (.initial []) = (.ok e, c') ∧
      ∃ l ∈ declaredTypes sameNames sameNamesPaths,
        ∃ m ∈ (Record.ofType c'.index [] l).members, ∃ tag ∈ m.doc.tagsNamed ["see"],
          SeeReference.ofText? tag.text = some ⟨"C", "#m()"⟩ ∧ IsErased "C" ∧
          ∃ kept ∈ m.references, ∃ found,
            (Renderer.ofIndex c'.index).locate "C" (some m.scope) = some found ∧
            found.name = kept.qualified := by
  obtain ⟨e, c', hrun, hindex⟩ := runPass_sameNames
  have htag : ∃ l ∈ declaredTypes sameNames sameNamesPaths,
      ∃ m ∈ (Record.ofType (indexOf sameNames sameNamesPaths) [] l).members,
        ∃ tag ∈ m.doc.tagsNamed ["see"],
          SeeReference.ofText? tag.text = some ⟨"C", "#m()"⟩ := by decide +kernel
  rw [← hindex] at htag
  obtain ⟨l, hl, m, hm, tag, htag, hsee⟩ := htag
  have herased : IsErased "C" := by
    unfold IsErased
    decide +kernel
  obtain ⟨kept, hkept, found, -, -, -, hlocate, -, htyped, -⟩ :=
    see_kept_and_shown hrun (Renderer.ofIndex c'.index) rfl hl [] hm htag hsee
  exact ⟨e, c', hrun, l, hl, m, hm, tag, htag, hsee, herased, kept, hkept, found, hlocate,
    htyped (by decide) herased⟩

/-- The tag without a type is kept for the class around the method, and shown as a link to the class in
the inner package. The tag with arguments is kept with its arguments, and shown without them. -/
theorem see_captured_and_unerased :
    ∃ e c', runPass sameNames .documenting sameNamesPaths none (.initial []) = (.ok e, c') ∧
      ∃ l ∈ declaredTypes sameNames sameNamesPaths,
        ∃ m ∈ (Record.ofType c'.index [] l).members,
          (m.doc.tagsNamed ["see"]).map (SeeReference.ofText? ·.text)
            = [some ⟨"C", "#m()"⟩, some ⟨"", "#m()"⟩, some ⟨"List<String>", "#size()"⟩] ∧
          m.references.map (·.qualified) = ["p.C", "p.C", "List<String>"] ∧
          (Renderer.ofIndex c'.index).locate "" (some m.scope) = some ⟨.internal, "p.p.C"⟩ ∧
          (Renderer.ofIndex c'.index).renderSee "#m()" (some m.scope)
            = "<a href=\"../types/p.p.C.html#m()\"><code>m()</code></a>" ∧
          (Renderer.ofIndex c'.index).locate "List<String>" (some m.scope)
            = some ⟨.unresolved, "java.util.List"⟩ := by
  obtain ⟨e, c', hrun, hindex⟩ := runPass_sameNames
  refine ⟨e, c', hrun, ?_⟩
  rw [hindex]
  decide +kernel

end Apidoc.Build.Collector
