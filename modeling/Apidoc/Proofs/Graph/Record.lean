import Apidoc.Graph.Record
import Apidoc.Proofs.Model.Ancestors
import Apidoc.Proofs.Model.Element

/-!
# `Apidoc.Proofs.Graph.Record`: which records are made, and of what

A record is made of a declaration in its scope and of the declarations inside
(`ofType`). The records of a type are those of the types inside it, in source order,
without those that are private or lie in a private one (`ofLocated_eq_map`). A member
of a record is made of a declaration inside (`mem_members_ofType`).

Nothing in a record but its subtypes depends on other records. It depends on the
index through lookups only (`ofLocated_eq_of_agrees`), and a record that is made has no
subtypes yet and is not its own ancestor (`IsMade`).
-/

set_option autoImplicit false

namespace Apidoc.Graph

open Apidoc.Model (Declaration Element ElementKind Index Located Scope SourceFile flattenAll)
open Apidoc.Text (Bytes)

namespace Record

/-- The record is as it was made from a declaration. -/
def IsMade (r : Record) : Prop :=
  ∃ index content scope enclosed, r = make index content scope enclosed

/-- A record that was just made has no subtypes. -/
theorem IsMade.subtypes_eq {r : Record} (h : r.IsMade) : r.subtypes = [] := by
  obtain ⟨index, content, scope, enclosed, rfl⟩ := h
  rfl

/-- A type is not among its own ancestors. -/
theorem IsMade.not_mem_ancestors {r : Record} (h : r.IsMade) : r.qualifiedName ∉ r.ancestors := by
  obtain ⟨index, content, scope, enclosed, rfl⟩ := h
  exact (List.nodup_cons.mp (Model.nodup_cons_ancestors index scope)).1

/-! ### The records of a type -/

/-- Indexes with the same lookups give the same record of a declaration. -/
theorem make_eq_of_agrees {i j : Index} (h : i.Agrees j) : make i = make j := by
  funext content scope enclosed
  simp only [make, Member.ofScope, h.qualify_eq, h.ancestors_eq]

mutual

/-- Indexes with the same lookups give the same records of an element. -/
theorem ofElement_eq_of_agrees {i j : Index} (h : i.Agrees j) (content : Bytes)
    (source : SourceFile) (owners : List Declaration) :
    (e : Element) → ofElement i content source owners e = ofElement j content source owners e
  | .mk d es => by
    rw [ofElement, ofElement, make_eq_of_agrees h,
      ofNested_eq_of_agrees h content source (d :: owners) es]

/-- Companion for several elements. -/
theorem ofNested_eq_of_agrees {i j : Index} (h : i.Agrees j) (content : Bytes)
    (source : SourceFile) (owners : List Declaration) :
    (es : List Element) → ofNested i content source owners es = ofNested j content source owners es
  | [] => by rw [ofNested, ofNested]
  | e :: es => by
    rw [ofNested, ofNested, ofElement_eq_of_agrees h content source owners e,
      ofNested_eq_of_agrees h content source owners es]

end

/-- Indexes with the same lookups give the same records of a type. -/
theorem ofLocated_eq_of_agrees {i j : Index} (h : i.Agrees j) : ofLocated i = ofLocated j := by
  funext content l
  exact ofElement_eq_of_agrees h content l.source l.owners l.element

mutual

/-- Every record of an element is one that was made. -/
theorem isMade_of_mem_ofElement (index : Index) (content : Bytes) (source : SourceFile)
    (owners : List Declaration) :
    (e : Element) → ∀ r ∈ ofElement index content source owners e, r.IsMade
  | .mk d es => by
    intro r hr
    rw [ofElement] at hr
    rcases List.mem_cons.mp hr with rfl | hr
    · exact ⟨_, _, _, _, rfl⟩
    · exact isMade_of_mem_ofNested index content source (d :: owners) es r hr

/-- Companion for several elements. -/
theorem isMade_of_mem_ofNested (index : Index) (content : Bytes) (source : SourceFile)
    (owners : List Declaration) :
    (es : List Element) → ∀ r ∈ ofNested index content source owners es, r.IsMade
  | [] => by
    intro r hr
    rw [ofNested] at hr
    exact absurd hr List.not_mem_nil
  | e :: es => by
    intro r hr
    rw [ofNested] at hr
    rcases List.mem_append.mp hr with hr | hr
    · split at hr
      · exact isMade_of_mem_ofElement index content source owners e r hr
      · exact absurd hr List.not_mem_nil
    · exact isMade_of_mem_ofNested index content source owners es r hr

end

/-- Every record of a type is one that was made. -/
theorem isMade_of_mem_ofLocated {index : Index} {content : Bytes} {l : Located} {r : Record}
    (h : r ∈ ofLocated index content l) : r.IsMade :=
  isMade_of_mem_ofElement index content l.source l.owners l.element r h

/-! ### Which types have records

A type is reached through the types around it, and each of these can keep it from
having a record. Only the outermost one always has a record. -/

/-- The record of a type, made of its declaration and of those directly inside. -/
def ofType (index : Index) (content : Bytes) (l : Located) : Record :=
  make index content l.scope (l.element.enclosed.map Element.declaration)

@[simp] theorem qualifiedName_ofType (index : Index) (content : Bytes) (l : Located) :
    (ofType index content l).qualifiedName = l.declaration.qualifiedName := rfl

/-- The declaration and those around it, the outermost `n` left out. -/
def levels (n : Nat) (s : Scope) : List Declaration := s.chain.take (s.chain.length - n)

/-- All levels of a type that lie inside the outermost `n` have records. -/
def isReached (n : Nat) (l : Located) : Bool := (levels n l.scope).all isPublished

/-- What lies in an element is reached from outside if the element has a record and it is reached
from there. -/
theorem isReached_of_mem_flatten {source : SourceFile} {owners : List Declaration} {e : Element}
    {l : Located} (h : l ∈ e.flatten source owners) :
    isReached owners.length l = (isPublished e.declaration && isReached (owners.length + 1) l) := by
  obtain ⟨inner, hchain⟩ : ∃ inner, l.scope.chain = inner ++ e.declaration :: owners :=
    Located.chain_of_mem_flatten (l := ⟨source, owners, e⟩) h
  have hinner : levels (owners.length + 1) l.scope = inner := by
    rw [levels, hchain]
    simp
  have houter : levels owners.length l.scope = inner ++ [e.declaration] := by
    rw [levels, hchain, List.append_cons, List.length_append, Nat.add_sub_cancel]
    exact List.take_left
  rw [isReached, isReached, hinner, houter, List.all_append, List.all_cons, List.all_nil,
    Bool.and_true, Bool.and_comm]

mutual

/-- The records of a type are those of the types inside it that are reached, in source order. -/
theorem ofElement_eq_map (index : Index) (content : Bytes) (source : SourceFile)
    (owners : List Declaration) :
    (e : Element) → e.declaration.kind.isType = true →
      ofElement index content source owners e
        = (((e.flatten source owners).filter (·.declaration.kind.isType)).filter
            (isReached (owners.length + 1))).map (ofType index content)
  | .mk d es, htype => by
    -- The element itself has no level inside the outermost ones, so nothing can hide it.
    have hself : isReached (owners.length + 1) ⟨source, owners, .mk d es⟩ = true := by
      simp [isReached, levels, Located.scope, Scope.chain]
    rw [ofElement, Element.flatten, List.filter_cons_of_pos (by exact htype),
      List.filter_cons_of_pos hself, List.map_cons,
      ofNested_eq_map index content source (d :: owners) es]
    rfl

/-- Companion for several elements. -/
theorem ofNested_eq_map (index : Index) (content : Bytes) (source : SourceFile)
    (owners : List Declaration) :
    (es : List Element) → ofNested index content source owners es
      = (((flattenAll source owners es).filter (·.declaration.kind.isType)).filter
          (isReached owners.length)).map (ofType index content)
  | [] => by rw [ofNested, flattenAll]; rfl
  | e :: es => by
    rw [ofNested, flattenAll, List.filter_append, List.filter_append,
      List.map_append, ofNested_eq_map index content source owners es]
    congr 1
    split
    · rename_i hpublished
      have htype : e.declaration.kind.isType = true := by
        rw [isPublished, Bool.and_eq_true] at hpublished
        exact hpublished.1
      rw [ofElement_eq_map index content source owners e htype]
      -- From here the element is one of the outermost levels, and from there it is not.
      congr 1
      refine List.filter_congr fun l hl => ?_
      rw [isReached_of_mem_flatten (List.mem_filter.mp hl).1, hpublished, Bool.true_and]
    · rename_i hhidden
      -- Nothing inside an element without a record is reached.
      refine (List.map_eq_nil_iff.mpr (List.filter_eq_nil_iff.mpr fun l hl => ?_)).symm
      rw [isReached_of_mem_flatten (List.mem_filter.mp hl).1, Bool.and_eq_true]
      exact fun h => hhidden h.1

end

/-- The records of a type are those of the types inside it that are reached, in source order. -/
theorem ofLocated_eq_map (index : Index) (content : Bytes) {l : Located}
    (htype : l.declaration.kind.isType = true) :
    ofLocated index content l
      = ((Index.typesOf l).filter (isReached (l.owners.length + 1))).map (ofType index content) := by
  rw [ofLocated, ofElement_eq_map index content l.source l.owners l.element htype,
    Index.typesOf, if_pos htype]
  rfl

/-- The names of the records of a type are those of the types inside it that are reached. -/
theorem names_ofLocated (index : Index) (content : Bytes) {l : Located}
    (htype : l.declaration.kind.isType = true) :
    (ofLocated index content l).map qualifiedName
      = ((Index.typesOf l).filter (isReached (l.owners.length + 1))).map
          (·.declaration.qualifiedName) := by
  rw [ofLocated_eq_map index content htype, List.map_map]
  rfl

/-- Neither the type nor any type around it is private, the one at the top left out. -/
def IsExposed (l : Located) : Prop :=
  ∀ d ∈ l.scope.chain.dropLast, Java.Modifier.privateAccess ∉ d.modifiers

instance (l : Located) : Decidable (IsExposed l) :=
  inferInstanceAs (Decidable (∀ d ∈ l.scope.chain.dropLast, Java.Modifier.privateAccess ∉ d.modifiers))

/-- Where only types enclose, a type is reached from the top exactly if it is exposed. -/
theorem isReached_one_iff {l : Located} (htypes : ∀ d ∈ l.scope.chain, d.kind.isType = true) :
    isReached 1 l = true ↔ IsExposed l := by
  have hlevels : levels 1 l.scope = l.scope.chain.dropLast := List.dropLast_eq_take.symm
  rw [isReached, hlevels, List.all_eq_true, IsExposed]
  refine forall₂_congr fun d hd => ?_
  rw [isPublished, htypes d (List.dropLast_subset _ hd), Bool.true_and, decide_eq_true_eq]

/-! ### Members -/

/-- The members of a type that are declared by one of several kinds of declarations. -/
def membersOf (index : Index) (content : Bytes) (l : Located) (kinds : List ElementKind) :
    List Member :=
  (l.enclosed.filter (·.declaration.kind ∈ kinds)).map fun inner =>
    Member.ofScope index content l.declaration.qualifiedName inner.scope

/-- The declarations of some kinds inside a type give the members of these kinds. -/
theorem map_ofScope_eq_membersOf (index : Index) (content : Bytes) (l : Located)
    (kinds : List ElementKind) :
    ((l.element.enclosed.map Element.declaration).filter (·.kind ∈ kinds)).map (fun d =>
        Member.ofScope index content l.declaration.qualifiedName ⟨l.source, d, l.scope.chain⟩)
      = membersOf index content l kinds := by
  rw [membersOf, Located.enclosed, List.filter_map, List.filter_map, List.map_map, List.map_map]
  rfl

/-- The members of a record in page order. -/
theorem members_ofType (index : Index) (content : Bytes) (l : Located) :
    (ofType index content l).members
      = membersOf index content l [.field, .constant] ++ membersOf index content l [.constructor]
        ++ membersOf index content l [.method] := by
  simp only [← map_ofScope_eq_membersOf]
  rfl

/-- A member is made of a declaration directly inside the type, which is of one of the kinds. -/
theorem mem_membersOf {index : Index} {content : Bytes} {l : Located} {kinds : List ElementKind}
    {m : Member} : m ∈ membersOf index content l kinds ↔
      ∃ inner ∈ l.enclosed, inner.declaration.kind ∈ kinds ∧
        Member.ofScope index content l.declaration.qualifiedName inner.scope = m := by
  simp only [membersOf, List.mem_map, List.mem_filter, decide_eq_true_eq, and_assoc]

/-- A member of a record is made of a declaration directly inside the type: a field or a constant, a
constructor, or a method. -/
theorem mem_members_ofType {index : Index} {content : Bytes} {l : Located} {m : Member} :
    m ∈ (ofType index content l).members ↔
      ∃ inner ∈ l.enclosed,
        inner.declaration.kind ∈ [ElementKind.field, .constant, .constructor, .method] ∧
        Member.ofScope index content l.declaration.qualifiedName inner.scope = m := by
  rw [members_ofType, List.mem_append, List.mem_append]
  simp only [mem_membersOf, ← exists_or, ← and_or_left, ← or_and_right, List.mem_cons, or_assoc,
    List.not_mem_nil, or_false]

/-- A visible member is a member. -/
theorem mem_of_mem_visible {r : Record} {m : Member} (h : m ∈ r.visibleMembers) :
    m ∈ r.members := by
  unfold visibleMembers at h
  split at h
  · exact h
  · exact (List.mem_filter.mp h).1

/-- A member is no type, and its surroundings are the type and what is around that. -/
theorem scope_of_mem_members {index : Index} {content : Bytes} {l : Located} {m : Member}
    (h : m ∈ (ofType index content l).members) :
    m.declaration.kind.isType = false ∧ m.scope.source = l.source ∧
    m.scope.owners = l.scope.chain := by
  obtain ⟨inner, hinner, hkind, rfl⟩ := mem_members_ofType.mp h
  obtain ⟨e, -, rfl⟩ := List.mem_map.mp hinner
  refine ⟨?_, rfl, rfl⟩
  have hnone : ∀ kind ∈ [ElementKind.field, .constant, .constructor, .method],
      kind.isType = false := by decide
  exact hnone _ hkind

/-- A member keeps the references of its comment, those without a type part under the name of the
type. -/
theorem references_of_mem_members {index : Index} {content : Bytes} {l : Located} {m : Member}
    (h : m ∈ (ofType index content l).members) :
    m.references = m.doc.seeReferences.map fun see =>
      ⟨see.typeName, see.member,
        if see.typeName = "" then l.declaration.qualifiedName
        else index.qualify see.typeName (some m.scope)⟩ := by
  obtain ⟨inner, -, -, rfl⟩ := mem_members_ofType.mp h
  rfl

end Record

end Apidoc.Graph
