import Apidoc.Proofs.Graph.Record
import Apidoc.Proofs.Graph.Symbols
import Apidoc.Proofs.Model.Declared
import Apidoc.Proofs.Site.Page

/-!
# `Apidoc.Proofs.Site.Section`: the members that have a section

Who may use a member is a matter of the language: of the keywords in front of it, and without any
of its place (`Access`). In an interface or an annotation type a member is public unless it is
private, and so is a constant of an enum anywhere.

The page of a type has a section for each member that is shown, variables first, then constructors,
then methods (`sections_of_typePage`). In a class, an enum or a record these are the public and the
protected ones. In an interface or an annotation type they are all members. The two rules differ for
members that are declared private there, and for no others (`shownMembers_eq_iff`).
-/

set_option autoImplicit false

namespace Apidoc.Java

/-- Who may use a member. -/
inductive Access where
  | everyone
  /-- The package, and types below the type. -/
  | heirs
  | package
  /-- The type itself. -/
  | owner
  deriving DecidableEq, Repr

namespace Access

/-- The access that keywords declare. If there are several, the widest one counts. -/
def written? (keywords : List Modifier) : Option Access :=
  if .publicAccess ∈ keywords then some .everyone
  else if .protectedAccess ∈ keywords then some .heirs
  else if .privateAccess ∈ keywords then some .owner
  else none

/-- The keywords in front of a member. An enum constant has none. -/
def keywords : Item → List Modifier
  | .method head _ => head.modifiers.keywords
  | .constructor head _ => head.modifiers.keywords
  | .field head _ => head.modifiers.keywords
  | _ => []

/-- The members of the type are public if nothing else is written. -/
def isOpen (kind : TypeKind) : Bool := kind = .interfaceType || kind = .annotationType

/-- The access of a member for which none is written. -/
def implied (kind : TypeKind) (item : Item) : Access :=
  if isOpen kind then .everyone
  else
    match item with
    | .constant .. => .everyone
    | .constructor .. => if kind = .enumType then .owner else .package
    | _ => .package

/-- The access of a member of a type. -/
def ofMember (kind : TypeKind) (item : Item) : Access :=
  (written? (keywords item)).getD (implied kind item)

/-- The member is public or protected. -/
def isPublished (kind : TypeKind) (item : Item) : Bool :=
  ofMember kind item = .everyone || ofMember kind item = .heirs

/-- A public or a protected member has the keyword, or is public without. -/
theorem isPublished_iff (kind : TypeKind) (item : Item) : isPublished kind item = true ↔
    .publicAccess ∈ keywords item ∨ .protectedAccess ∈ keywords item ∨
      (.privateAccess ∉ keywords item ∧ implied kind item = .everyone) := by
  have himplied : implied kind item ≠ .heirs := by
    unfold implied
    repeat' split
    all_goals nofun
  unfold isPublished ofMember written?
  split
  · simp [*]
  split
  · simp [*]
  split
  · simp [*]
  · simp [*]

end Access

/-- Ordering modifiers loses none and adds none. -/
@[simp] theorem Modifier.mem_ordered (m : Modifier) (ms : List Modifier) :
    m ∈ Modifier.ordered ms ↔ m ∈ ms := by
  cases m <;> simp [Modifier.ordered, Modifier.all]

end Apidoc.Java

namespace Apidoc.Site

open Apidoc.Graph (Member Record)
open Apidoc.Html (escape)
open Apidoc.Java (Access Item Modifier TypeKind TypeSyntax)
open Apidoc.Model (CompilationUnit Declaration ElementKind Located)
open Apidoc.Model.CompilationUnit (IsMember IsTypeElement members_enclosed membersInAll
  types_flatten typesInAll)
open Apidoc.Text (Bytes)

/-! ### Members in page order -/

/-- Fields and constants. -/
def isVariable : Item → Bool
  | .field .. => true
  | .constant .. => true
  | _ => false

def isConstructor : Item → Bool
  | .constructor .. => true
  | _ => false

def isMethod : Item → Bool
  | .method .. => true
  | _ => false

/-- Members in the order of a page, each group as it is declared. -/
def inPageOrder (items : List Item) : List Item :=
  items.filter isVariable ++ items.filter isConstructor ++ items.filter isMethod

/-- The member is shown on the page of its type. -/
def isShown (kind : TypeKind) (item : Item) : Bool :=
  Access.isPublished kind item || Access.isOpen kind

/-- The members that the page of a type shows. -/
def shownMembers (kind : TypeKind) (items : List Item) : List Item :=
  (inPageOrder (membersInAll items)).filter (isShown kind)

/-- The public and the protected members of a type. -/
def publishedMembers (kind : TypeKind) (items : List Item) : List Item :=
  (inPageOrder (membersInAll items)).filter (Access.isPublished kind)

variable {owner d : Declaration} {item : Item} {kind : TypeKind}

/-- The groups of a page are told apart by the kinds of the declarations. -/
theorem kind_of_isMember (h : IsMember owner item d) :
    decide (d.kind ∈ [ElementKind.field, .constant]) = isVariable item ∧
    decide (d.kind ∈ [ElementKind.constructor]) = isConstructor item ∧
    decide (d.kind ∈ [ElementKind.method]) = isMethod item := by
  obtain ⟨doc, h⟩ := h
  cases item <;> cases h <;> exact ⟨rfl, rfl, rfl⟩

/-- A member is in one of the groups. -/
theorem mem_inPageOrder {items : List Item} (h : ∀ item ∈ items, ∃ d, IsMember owner item d) :
    item ∈ inPageOrder items ↔ item ∈ items := by
  simp only [inPageOrder, List.mem_append, List.mem_filter, ← and_or_left]
  refine and_iff_left_of_imp fun hitem => ?_
  obtain ⟨d, doc, hd⟩ := h item hitem
  cases item <;> cases hd <;> simp [isVariable, isConstructor, isMethod]

/-! ### Members that are shown -/

/-- The types whose members are public are the interfaces, the annotation types among them. -/
theorem isInterface_eq_isOpen (hkind : owner.kind = .type kind) :
    owner.kind.isInterface = Access.isOpen kind := by
  rw [hkind]
  cases kind <;> rfl

/-- Outside interfaces a declaration is public or protected if the member is. -/
theorem modifiers_of_isMember (hkind : owner.kind = .type kind)
    (hopen : Access.isOpen kind = false) (h : IsMember owner item d) :
    (.publicAccess ∈ d.modifiers ∨ .protectedAccess ∈ d.modifiers) ↔
      Access.isPublished kind item = true := by
  have howner : owner.kind.isInterface = false := (isInterface_eq_isOpen hkind).trans hopen
  obtain ⟨doc, h⟩ := h
  rw [Access.isPublished_iff]
  -- Nothing is added to the keywords of a member that is no constant.
  cases item with
  | method head inner =>
    cases h
    simp [CompilationUnit.methodDeclaration, CompilationUnit.memberDeclaration, howner,
      Access.keywords, Access.implied, hopen]
  | constructor head inner =>
    cases h
    have himplied : Access.implied kind (.constructor head inner) ≠ .everyone := by
      simp only [Access.implied, hopen, Bool.false_eq_true, if_false]
      split <;> nofun
    simp [CompilationUnit.constructorDeclaration, CompilationUnit.memberDeclaration,
      Access.keywords, himplied]
  | field head inner =>
    cases h
    simp [CompilationUnit.fieldDeclaration, CompilationUnit.memberDeclaration, howner,
      Access.keywords, Access.implied, hopen]
  | constant head inner =>
    cases h
    simp [CompilationUnit.constantDeclaration, CompilationUnit.memberDeclaration,
      Access.keywords, Access.implied]
  | _ => cases h

/-- The members of a record are those of the declared type, in page order. -/
theorem members_ofType {t : TypeSyntax × List Item} {l : Located} (index : Model.Index)
    (content : Bytes) (h : IsTypeElement t l) :
    List.Forall₂ (fun item m => IsMember l.declaration item m.declaration)
      (inPageOrder (membersInAll t.2)) (Record.ofType index content l).members := by
  -- One group of the page after the other, each of them cut out of the members in source order.
  have hgroup (kinds : List ElementKind) (group : Item → Bool)
      (hkinds : ∀ kind ∈ kinds, kind.isType = false)
      (hsame : ∀ item d, IsMember l.declaration item d → group item = decide (d.kind ∈ kinds)) :
      List.Forall₂ (fun item m => IsMember l.declaration item m.declaration)
        ((membersInAll t.2).filter group) (Record.membersOf index content l kinds) := by
    have hfilter : l.enclosed.filter (·.declaration.kind ∈ kinds) =
        (l.enclosed.filter fun inner => !inner.declaration.kind.isType).filter
          (·.declaration.kind ∈ kinds) := by
      rw [List.filter_filter]
      refine List.filter_congr fun inner _ => ?_
      by_cases hkind : inner.declaration.kind ∈ kinds
      · simp [hkind, hkinds _ hkind]
      · simp [hkind]
    rw [Record.membersOf, List.forall₂_map_right_iff, hfilter]
    exact List.rel_filter (fun item inner hmember =>
      Bool.eq_iff_iff.mp (hsame item inner.declaration hmember)) (members_enclosed h)
  rw [Record.members_ofType]
  refine List.rel_append (List.rel_append ?_ ?_) ?_
  · exact hgroup _ _ (by simp [ElementKind.isType]) fun item d h => (kind_of_isMember h).1.symm
  · exact hgroup _ _ (by simp [ElementKind.isType]) fun item d h => (kind_of_isMember h).2.1.symm
  · exact hgroup _ _ (by simp [ElementKind.isType]) fun item d h => (kind_of_isMember h).2.2.symm

/-- The page of a type shows the members that it should, of each group in source order. -/
theorem visibleMembers_ofType {t : TypeSyntax × List Item} {l : Located} (index : Model.Index)
    (content : Bytes) (names : List String) (h : IsTypeElement t l) :
    List.Forall₂ (fun item m => IsMember l.declaration item m.declaration)
      (shownMembers t.1.kind t.2)
      ((Record.ofType index content l).withSubtypes names).visibleMembers := by
  have hkind : l.declaration.kind = .type t.1.kind := by
    obtain ⟨doc, hl⟩ := h
    rw [Located.declaration, hl]
    rfl
  have hmembers := members_ofType index content h
  show List.Forall₂ _ _ (if l.declaration.kind.isInterface then
    (Record.ofType index content l).members else
    (Record.ofType index content l).members.filter (·.isVisible))
  rw [isInterface_eq_isOpen hkind, shownMembers]
  cases hopen : Access.isOpen t.1.kind with
  | true =>
    -- An interface shows all members, on either side.
    have hall : (inPageOrder (membersInAll t.2)).filter (isShown t.1.kind) =
        inPageOrder (membersInAll t.2) := by
      refine List.filter_eq_self.mpr fun item _ => ?_
      simp [isShown, hopen]
    rw [hall, if_pos rfl]
    exact hmembers
  | false =>
    rw [if_neg Bool.false_ne_true]
    refine List.rel_filter (fun item m hm => ?_) hmembers
    show isShown t.1.kind item = true ↔ m.isVisible = true
    rw [isShown, hopen, Bool.or_false, ← modifiers_of_isMember hkind hopen hm]
    simp [Member.isVisible]

/-- The shown members are the public and the protected ones if and only if the type is no interface
with a private member. -/
theorem shownMembers_eq_iff (owner : Declaration) (kind : TypeKind) {items : List Item}
    (h : ∀ item ∈ membersInAll items, ∃ d, IsMember owner item d) :
    shownMembers kind items = publishedMembers kind items ↔
      ∀ item ∈ membersInAll items, Access.isOpen kind = true →
        Access.ofMember kind item ≠ .owner := by
  have hopen : ∀ item, Access.isOpen kind = true →
      (Access.isPublished kind item = true ↔ Access.ofMember kind item ≠ .owner) := by
    intro item hopen
    simp only [Access.isPublished, Access.ofMember, Access.implied, hopen, if_true, Access.written?]
    split
    · simp
    split
    · simp
    split <;> simp
  have hsame : shownMembers kind items = publishedMembers kind items ↔
      ∀ item ∈ membersInAll items, isShown kind item = true →
        Access.isPublished kind item = true := by
    simp only [← mem_inPageOrder h]
    constructor
    · intro heq item hitem hshown
      have hmem : item ∈ shownMembers kind items := List.mem_filter.mpr ⟨hitem, hshown⟩
      rw [heq] at hmem
      exact (List.mem_filter.mp hmem).2
    · intro hall
      refine List.filter_congr fun item hitem => ?_
      rw [Bool.eq_iff_iff]
      exact ⟨hall item hitem, fun hpublished => by rw [isShown, hpublished, Bool.true_or]⟩
  rw [hsame]
  refine forall₂_congr fun item _ => ?_
  simp only [isShown, Bool.or_eq_true]
  constructor
  · exact fun hall hkind => (hopen item hkind).mp (hall (.inr hkind))
  · rintro hall (hpublished | hkind)
    · exact hpublished
    · exact (hopen item hkind).mpr (hall hkind)

/-! ### The page -/

/-- The page has a section for each of the members, in their order, and an entry beside it. -/
def Press.ShowsMembers (p : Press) (r : Record) (items : List Item) (text : String) : Prop :=
  ∃ type members sections, p.typeSection r = .ok type ∧
    List.Forall₂ (fun item m => IsMember r.declaration item m.declaration) items members ∧
    List.Forall₂ (fun m ls => p.memberSection r m = .ok ls ∧
      ls.head? = some s!"<section id=\"{escape m.id}\">") members sections ∧
    text = layout p.site "../" (joinLines (type ++ sections.flatten))
      (joinLines (members.map memberEntry))

/-- A page shows what the record of its type calls visible. -/
theorem showsMembers_of_typePage {p : Press} {r : Record} {items : List Item} {text : String}
    (hvisible : List.Forall₂ (fun item m => IsMember r.declaration item m.declaration) items
      r.visibleMembers) (h : p.typePage r = .ok text) : p.ShowsMembers r items text := by
  obtain ⟨type, sections, htype, hsections, htext⟩ := Press.typePage_inv h
  refine ⟨type, r.visibleMembers, sections, htype, hvisible, hsections.imp fun m ls hls => ?_, htext⟩
  obtain ⟨header, comment, -, hlines⟩ := Press.memberSection_inv hls
  exact ⟨hls, by rw [hlines]; rfl⟩

/-- The pages of the types of a source have sections for the members that are shown.

Take the type declarations of a unit, of whatever kind and wherever they stand, and the types that are
documented for them. Each page has one section for each member that is shown, in page order: fields and
constants, constructors, methods, each group as it is declared. A member is shown if it is public or
protected, with or without a keyword, and in interfaces and annotation types also if it is private. -/
theorem sections_of_typePage (path : Files.Path) (items : List Item) (index : Model.Index)
    (content : Bytes) (names : List String) (p : Press) :
    List.Forall₂ (fun t l =>
        let r := (Record.ofType index content l).withSubtypes names
        IsTypeElement t l ∧
        (p.renderer.FindsSamples → ∃ text, p.typePage r = .ok text) ∧
        (∀ text, p.typePage r = .ok text → p.ShowsMembers r (shownMembers t.1.kind t.2) text) ∧
        (shownMembers t.1.kind t.2 = publishedMembers t.1.kind t.2 ↔
          ∀ item ∈ membersInAll t.2, Access.isOpen t.1.kind = true →
            Access.ofMember t.1.kind item ≠ .owner))
      (typesInAll items)
      ((CompilationUnit.ofSyntax path items).flatten.filter (·.declaration.kind.isType)) := by
  refine (types_flatten path items).imp fun t l ht => ?_
  refine ⟨ht, fun h => Press.typePage_ok h _, fun text htext => ?_, ?_⟩
  · exact showsMembers_of_typePage (visibleMembers_ofType index content names ht) htext
  · refine shownMembers_eq_iff l.declaration t.1.kind fun item hitem => ?_
    obtain ⟨-, inner, -, -, hinner⟩ := Proofs.forall₂_split (members_enclosed ht) hitem
    exact ⟨_, hinner⟩

/-- An interface with a private method. -/
def withHelper : Bytes :=
  Text.encode "public interface I \x7b\n  void m();\n  private void helper() \x7b\x7d\n\x7d\n"

/-- The private method has a section on the page of the interface. -/
theorem private_method_on_page :
    (typesInAll (Java.Reader.items withHelper)).map (fun t =>
        (t.1.kind, (membersInAll t.2).map (Access.ofMember t.1.kind))) =
      [(.interfaceType, [.everyone, .owner])] ∧
    ∃ l, (CompilationUnit.read (.ofString "I.java") withHelper).flatten.filter
        (·.declaration.kind.isType) = [l] ∧
      ∃ text ls, (Press.ofIndex .empty).typePage (Record.ofType .empty withHelper l) = .ok text ∧
        (Press.ofIndex .empty).HasLines text ls ∧ ls.head? = some "<section id=\"helper()\">" := by
  have hmembers : ((CompilationUnit.read (.ofString "I.java") withHelper).flatten.filter
      (·.declaration.kind.isType)).map (fun l =>
        (Record.ofType .empty withHelper l).visibleMembers.map Member.id) =
      [["m()", "helper()"]] := by
    decide +kernel
  obtain ⟨l, hl, hids⟩ := List.map_eq_singleton_iff.mp hmembers
  obtain ⟨m, hm, hid⟩ :
      ∃ m ∈ (Record.ofType .empty withHelper l).visibleMembers, m.id = "helper()" := by
    refine List.mem_map.mp ?_
    rw [hids]
    decide
  obtain ⟨text, htext⟩ :=
    Press.typePage_ok (p := Press.ofIndex .empty) nofun (Record.ofType .empty withHelper l)
  obtain ⟨ls, hls, hlines⟩ := Press.hasLines_of_typePage htext hm
  obtain ⟨header, comment, -, hsection⟩ := Press.memberSection_inv hls
  refine ⟨by decide +kernel, l, hl, text, ls, htext, hlines, ?_⟩
  have hescape : escape "helper()" = "helper()" := by decide +kernel
  rw [hsection, hid, hescape]
  rfl

end Apidoc.Site
