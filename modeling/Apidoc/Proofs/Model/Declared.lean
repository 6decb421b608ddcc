import Apidoc.Proofs.Model.Unit
import Mathlib.Data.List.Forall2

/-!
# `Apidoc.Proofs.Model.Declared`: the types and members that a source declares

What a source declares can be read off from its items without making elements of them: the type
declarations in source order (`typesInAll`), and the members that stand directly in the body of a
type (`membersInAll`). The members of an enum behind its constants are in an item of their own, and
count as direct ones.

The elements of a unit are these, one for one and in the same order. Each type element comes from a
type declaration (`types_flatten`), and the elements inside it that are no types come from its
members (`members_enclosed`).
-/

set_option autoImplicit false

namespace Apidoc.Model.CompilationUnit

open Apidoc.Java (CommentSyntax Item TypeSyntax)

/-! ### Items -/

mutual

/-- The members that an item stands for: itself, or those in the rest of an enum. -/
def membersIn : Item → List Item
  | .rest _ members => membersInAll members
  | .method head inner => [.method head inner]
  | .constructor head inner => [.constructor head inner]
  | .field head inner => [.field head inner]
  | .constant head inner => [.constant head inner]
  | _ => []

/-- The members among several items. -/
def membersInAll : List Item → List Item
  | [] => []
  | item :: rest => membersIn item ++ membersInAll rest

end

mutual

/-- The type declarations in an item, each in front of those inside it. -/
def typesIn : Item → List (TypeSyntax × List Item)
  | .type head members => (head, members) :: typesInAll members
  | .rest _ members => typesInAll members
  | _ => []

/-- The type declarations in several items. -/
def typesInAll : List Item → List (TypeSyntax × List Item)
  | [] => []
  | item :: rest => typesIn item ++ typesInAll rest

end

/-- The declaration is that of the member, with some doc comment or none. -/
def IsMember (owner : Declaration) (item : Item) (d : Declaration) : Prop :=
  ∃ doc, memberOf? owner doc item = some d

/-- The element is made from the type declaration: its own declaration with some doc comment or
none, and what the items inside declare. -/
def IsTypeElement (t : TypeSyntax × List Item) (l : Located) : Prop :=
  ∃ doc, let d := typeDeclaration l.source l.owners.head? doc t.1
    l.element = .mk d (ofItems l.source (some d) none t.2)

/-! ### Members -/

/-- The element is no type. -/
def isMemberElement (e : Element) : Bool := !e.declaration.kind.isType

mutual

/-- The elements of an item that are no types are its members. -/
theorem members_ofItem (source : SourceFile) (owner : Declaration)
    (previous : Option CommentSyntax) :
    (item : Item) → List.Forall₂ (fun i e => IsMember owner i e.declaration) (membersIn item)
      ((ofItem source (some owner) previous item).filter isMemberElement)
  | .type head members => by
    simp only [membersIn, ofItem]
    exact .nil
  | .rest _ members => by
    simp only [membersIn, ofItem]
    exact members_ofItems source owner none members
  | .method .. | .constructor .. | .field .. | .constant .. => .cons ⟨_, rfl⟩ .nil
  | .comment _ | .package .. | .imported .. | .module .. | .code .. => .nil

/-- Companion for siblings. -/
theorem members_ofItems (source : SourceFile) (owner : Declaration)
    (previous : Option CommentSyntax) :
    (items : List Item) → List.Forall₂ (fun i e => IsMember owner i e.declaration)
      (membersInAll items) ((ofItems source (some owner) previous items).filter isMemberElement)
  | [] => by
    simp only [membersInAll, ofItems]
    exact .nil
  | item :: rest => by
    simp only [membersInAll, ofItems, List.filter_append]
    exact List.rel_append (members_ofItem source owner previous item)
      (members_ofItems source owner (comment? item) rest)

end

/-- What stands directly inside a type element and is no type are the members of the type. -/
theorem members_enclosed {t : TypeSyntax × List Item} {l : Located} (h : IsTypeElement t l) :
    List.Forall₂ (fun item inner => IsMember l.declaration item inner.declaration)
      (membersInAll t.2) (l.enclosed.filter fun inner => !inner.declaration.kind.isType) := by
  obtain ⟨doc, h⟩ := h
  have hmembers := members_ofItems l.source l.declaration none t.2
  rw [Located.enclosed, List.filter_map, List.forall₂_map_right_iff]
  rw [Located.declaration, h] at hmembers ⊢
  exact hmembers

/-! ### Types -/

mutual

/-- The type elements of an item come from its type declarations. The item stands in the type that
comes first among the owners. -/
theorem types_ofItem (source : SourceFile) (owners : List Declaration)
    (previous : Option CommentSyntax) :
    (item : Item) → List.Forall₂ IsTypeElement (typesIn item)
      ((flattenAll source owners (ofItem source owners.head? previous item)).filter
        (·.declaration.kind.isType))
  | .type head members => by
    simp only [typesIn, ofItem, flattenAll, Element.flatten, List.append_nil]
    rw [List.filter_cons_of_pos (by rfl)]
    -- Inside, the type is the first owner.
    exact .cons ⟨_, rfl⟩ (types_ofItems source (_ :: owners) none members)
  | .rest _ members => by
    simp only [typesIn, ofItem]
    exact types_ofItems source owners none members
  | .method .. | .constructor .. | .field .. | .constant .. => by
    simp only [typesIn, ofItem]
    cases owners.head? <;> exact .nil
  | .comment _ | .package .. | .imported .. | .module .. | .code .. => .nil

/-- Companion for siblings. -/
theorem types_ofItems (source : SourceFile) (owners : List Declaration)
    (previous : Option CommentSyntax) :
    (items : List Item) → List.Forall₂ IsTypeElement (typesInAll items)
      ((flattenAll source owners (ofItems source owners.head? previous items)).filter
        (·.declaration.kind.isType))
  | [] => by
    simp only [typesInAll, ofItems]
    exact .nil
  | item :: rest => by
    simp only [typesInAll, ofItems, flattenAll_append, List.filter_append]
    exact List.rel_append (types_ofItem source owners previous item)
      (types_ofItems source owners (comment? item) rest)

end

/-- The type elements of a unit come from the type declarations of the source, in their order. -/
theorem types_flatten (path : Files.Path) (items : List Item) :
    List.Forall₂ IsTypeElement (typesInAll items)
      ((ofSyntax path items).flatten.filter (·.declaration.kind.isType)) :=
  types_ofItems _ [] none items

end Apidoc.Model.CompilationUnit
