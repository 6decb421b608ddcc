import Apidoc.Model.Unit
import Apidoc.Proofs.Java.Reading
import Apidoc.Proofs.Model.Element

/-!
# `Apidoc.Proofs.Model.Unit`: where the declarations of a unit come from

Every element that items declare is a type with what its members declare inside, or a member with
nothing inside (`Declares`). What holds of both, given what holds of the types around them, holds of
every element of a unit (`Invariant.unit`). Its declaration is made from an item, in one of
five ways (`FromItem`, `fromItem_of_mem_flatten`). Only types enclose anything
(`owners_isType_of_mem_flatten`), and what stands at the top is a type (`top_of_mem_located`).
-/

set_option autoImplicit false

namespace Apidoc.Model

namespace CompilationUnit

open Apidoc.Java (CommentSyntax ConstantSyntax ConstructorSyntax FieldSyntax Item MethodSyntax
  TypeSyntax)
open Apidoc.Java.Item (Everywhere EverywhereAll everywhereAll_of_forall)

/-! ### What lies in a unit -/

section Unit

variable {u : CompilationUnit} {l m owner : Located}

/-- A unit is flattened as its elements at the top are, one after another. -/
theorem flatten_eq_flatMap (u : CompilationUnit) : u.flatten = u.located.flatMap Located.flatten :=
  flattenAll_eq_flatMap u.source [] u.types

/-- What lies in a unit lies in an element at its top. -/
theorem mem_flatten_iff : l ∈ u.flatten ↔ ∃ top ∈ u.located, l ∈ top.flatten := by
  rw [flatten_eq_flatMap, List.mem_flatMap]

theorem mem_flatten_of_located (h : l ∈ u.located) (hm : m ∈ l.flatten) : m ∈ u.flatten :=
  mem_flatten_iff.mpr ⟨l, h, hm⟩

/-- Whatever lies in a unit comes together with all that lies in it. -/
theorem infix_flatten (h : l ∈ u.flatten) : l.flatten <:+: u.flatten := by
  obtain ⟨top, htop, hl⟩ := mem_flatten_iff.mp h
  rw [flatten_eq_flatMap]
  exact (Located.infix_flatten hl).trans (List.infix_flatMap_of_mem htop Located.flatten)

theorem mem_flatten_of_enclosed (howner : owner ∈ u.flatten) (hl : l ∈ owner.enclosed) :
    l ∈ u.flatten :=
  (infix_flatten howner).subset
    (Located.mem_flatten_of_mem_enclosed owner.mem_flatten_self hl)

/-- Whatever lies in a unit is at its top, or directly inside of something in it. -/
theorem placed_of_mem_flatten (h : l ∈ u.flatten) :
    l ∈ u.located ∨ ∃ owner ∈ u.flatten, l ∈ owner.enclosed := by
  obtain ⟨top, htop, hl⟩ := mem_flatten_iff.mp h
  rcases Located.placed_of_mem_flatten hl with rfl | ⟨owner, howner, hinside⟩
  · exact .inl htop
  · exact .inr ⟨owner, mem_flatten_of_located htop howner, hinside⟩

end Unit

/-! ### What items declare -/

/-- The ways in which a declaration is made from an item. -/
inductive FromItem : Declaration → Prop
  | type (source : SourceFile) (owner : Option Declaration) (doc : Option DocBlock)
      (head : TypeSyntax) : FromItem (typeDeclaration source owner doc head)
  | method (owner : Declaration) (doc : Option DocBlock) (head : MethodSyntax) :
      FromItem (methodDeclaration owner doc head)
  | constructor (owner : Declaration) (doc : Option DocBlock) (head : ConstructorSyntax) :
      FromItem (constructorDeclaration owner doc head)
  | field (owner : Declaration) (doc : Option DocBlock) (head : FieldSyntax) :
      FromItem (fieldDeclaration owner doc head)
  | constant (owner : Declaration) (doc : Option DocBlock) (head : ConstantSyntax) :
      FromItem (constantDeclaration owner doc head)

variable {source : SourceFile} {owners : List Declaration}

/-- The declaration of a member of a type. -/
def memberOf? (owner : Declaration) (doc : Option DocBlock) : Item → Option Declaration
  | .method head _ => some (methodDeclaration owner doc head)
  | .constructor head _ => some (constructorDeclaration owner doc head)
  | .field head _ => some (fieldDeclaration owner doc head)
  | .constant head _ => some (constantDeclaration owner doc head)
  | _ => none

/-- A member is called after its owner. -/
theorem qualifiedName_of_memberOf? {o d : Declaration} {doc : Option DocBlock} {item : Item}
    (h : memberOf? o doc item = some d) :
    d.qualifiedName = o.qualifiedName ++ (if d.kind.isType then "." else "#") ++ d.name := by
  cases item <;> cases h <;> rfl

/-- The elements that an item with `Q` declares, where `owners` are around it. -/
inductive Declares (source : SourceFile) (owners : List Declaration) (Q : Item → Prop) :
    Element → Prop
  | type (doc : Option DocBlock) {head : TypeSyntax} {members : List Item}
      (hitem : Q (.type head members)) (hmembers : EverywhereAll Q members) :
      Declares source owners Q
        (.mk (typeDeclaration source owners.head? doc head)
          (ofItems source (some (typeDeclaration source owners.head? doc head)) none members))
  | member {o : Declaration} {doc : Option DocBlock} {item : Item} {d : Declaration}
      (howner : owners.head? = some o) (hitem : Q item) (h : memberOf? o doc item = some d) :
      Declares source owners Q (.mk d [])

section Items

variable {Q : Item → Prop}

/-- A member is declared without anything inside, and only if it has an owner. -/
theorem declares_leaf {item : Item} (hitem : Q item) {doc : Option DocBlock}
    {f : Declaration → Declaration} (hf : ∀ o, memberOf? o doc item = some (f o)) :
    ∀ e ∈ (owners.head?.map fun o => Element.mk (f o) []).toList, Declares source owners Q e := by
  intro e he
  obtain ⟨o, howner, rfl⟩ := Option.map_eq_some_iff.mp (Option.mem_toList.mp he)
  exact .member howner hitem (hf o)

mutual

/-- What an item declares is one of these. -/
theorem declares_of_mem_ofItem (source : SourceFile) (owners : List Declaration)
    (previous : Option CommentSyntax) : (item : Item) → Everywhere Q item →
      ∀ e ∈ ofItem source owners.head? previous item, Declares source owners Q e
  | .type head members, ⟨hitem, hmembers⟩ => by
    intro e he
    rw [ofItem] at he
    rw [List.mem_singleton.mp he]
    exact .type _ hitem hmembers
  | .rest _ members, h => by
    rw [ofItem]
    exact declares_of_mem_ofItems source owners none members h
  | .method head _, h => declares_leaf (Q := Q) h fun _ => rfl
  | .constructor head _, h => declares_leaf (Q := Q) h fun _ => rfl
  | .field head _, h => declares_leaf (Q := Q) h fun _ => rfl
  | .constant head _, h => declares_leaf (Q := Q) h fun _ => rfl
  | .comment _, _ | .package .., _ | .imported .., _ | .module .., _ | .code .., _ => by
    intro e he
    exact absurd he List.not_mem_nil

/-- Companion for siblings. -/
theorem declares_of_mem_ofItems (source : SourceFile) (owners : List Declaration)
    (previous : Option CommentSyntax) : (items : List Item) → EverywhereAll Q items →
      ∀ e ∈ ofItems source owners.head? previous items, Declares source owners Q e
  | [], _ => by
    intro e he
    rw [ofItems] at he
    exact absurd he List.not_mem_nil
  | item :: rest, ⟨hitem, hrest⟩ => by
    intro e he
    rw [ofItems] at he
    rcases List.mem_append.mp he with he | he
    · exact declares_of_mem_ofItem source owners previous item hitem e he
    · exact declares_of_mem_ofItems source owners (comment? item) rest hrest e he

end

/-- What is true of every element that items with `Q` declare: `P`, given `I` of what is around it. A type
keeps `I` for what is inside of it. -/
structure Invariant (source : SourceFile) (Q : Item → Prop) (I : List Declaration → Prop)
    (P : Located → Prop) : Prop where
  here : ∀ {owners e}, I owners → Declares source owners Q e → P ⟨source, owners, e⟩
  inside : ∀ {owners} (doc : Option DocBlock) (head : TypeSyntax), I owners →
    I (typeDeclaration source owners.head? doc head :: owners)

variable {I : List Declaration → Prop} {P : Located → Prop}

/-- The invariant holds all through an element. -/
theorem Invariant.of_mem_flatten {l m : Located} (h : Invariant l.source Q I P)
    (howners : I l.owners) (he : Declares l.source l.owners Q l.element) (hm : m ∈ l.flatten) :
    P m := by
  rw [Located.mem_flatten_iff] at hm
  induction hm using Relation.ReflTransGen.head_induction_on with
  | refl => exact h.here howners he
  | @head l inner hinner _ ih =>
    obtain ⟨source, owners, element⟩ := l
    obtain ⟨e, hmem, rfl⟩ := List.mem_map.mp hinner
    dsimp only at he
    cases he with
    | type doc hitem hmembers =>
      exact ih h (h.inside doc _ howners)
        (declares_of_mem_ofItems source (_ :: owners) none _ hmembers e hmem)
    | member => cases hmem

/-- The invariant holds all through a unit that is read from items with `Q`. -/
theorem Invariant.unit {path : Files.Path} {content : Text.Bytes}
    (h : Invariant (read path content).source Q I P) (htop : I [])
    (hitems : EverywhereAll Q (Java.Reader.items content)) :
    ∀ l ∈ (read path content).flatten, P l := by
  intro l hl
  obtain ⟨top, hlocated, hl⟩ := mem_flatten_iff.mp hl
  obtain ⟨e, he, rfl⟩ := List.mem_map.mp hlocated
  exact h.of_mem_flatten htop (declares_of_mem_ofItems _ [] none _ hitems e he) hl

/-- What is declared inside of a declaration is called after it. -/
theorem Declares.qualifiedName {o : Declaration} {e : Element}
    (h : Declares source (o :: owners) Q e) : e.declaration.qualifiedName =
      o.qualifiedName ++ (if e.declaration.kind.isType then "." else "#") ++ e.declaration.name := by
  cases h with
  | type => rfl
  | member howner hitem hd =>
    obtain rfl := Option.some.inj howner
    exact qualifiedName_of_memberOf? hd

/-- Outside a type nothing but types is declared. -/
theorem Declares.isType {e : Element} (h : Declares source [] Q e) :
    e.declaration.kind.isType = true := by
  cases h with
  | type => rfl
  | member howner hitem hd => cases howner

/-- At the top of a source, where no item is the rest of an enum, an element is a type that is read from
one of the items. -/
theorem exists_type_of_mem_ofItems {previous : Option CommentSyntax} {items : List Item}
    (hrest : ∀ s members, Item.rest s members ∉ items) :
    ∀ e ∈ ofItems source none previous items, ∃ doc head members, Item.type head members ∈ items ∧
      e = .mk (typeDeclaration source none doc head)
        (ofItems source (some (typeDeclaration source none doc head)) none members) := by
  induction items generalizing previous with
  | nil =>
    intro e he
    rw [ofItems] at he
    exact absurd he List.not_mem_nil
  | cons item rest ih =>
    intro e he
    rw [ofItems] at he
    rcases List.mem_append.mp he with he | he
    · cases item with
      | type head members =>
        rw [ofItem] at he
        exact ⟨_, head, members, List.mem_cons_self, List.mem_singleton.mp he⟩
      | rest s members => exact absurd List.mem_cons_self (hrest s members)
      | _ => exact absurd he List.not_mem_nil
    · have hrest' := fun s members hmem => hrest s members (List.mem_cons_of_mem item hmem)
      obtain ⟨doc, head, members, hmem, heq⟩ := ih hrest' e he
      exact ⟨doc, head, members, List.mem_cons_of_mem item hmem, heq⟩

theorem Declares.fromItem {e : Element} (h : Declares source owners Q e) :
    FromItem e.declaration := by
  cases h with
  | type => exact .type ..
  | @member o doc item d howner hitem hd =>
    cases item with
    | method => cases hd; exact .method ..
    | constructor => cases hd; exact .constructor ..
    | field => cases hd; exact .field ..
    | constant => cases hd; exact .constant ..
    | _ => cases hd

/-- Every element comes from an item, and whatever encloses it is a type that comes from an item. -/
theorem invariant_fromItem : Invariant source Q
    (fun owners => ∀ d ∈ owners, d.kind.isType = true ∧ FromItem d)
    (fun l => FromItem l.declaration ∧ ∀ d ∈ l.owners, d.kind.isType = true ∧ FromItem d) where
  here howners he := ⟨he.fromItem, howners⟩
  inside _ _ howners := List.forall_mem_cons.mpr ⟨⟨rfl, .type ..⟩, howners⟩

end Items

/-- What stands at the top of a unit is a type with nothing around it. -/
theorem top_of_mem_located {path : Files.Path} {content : Text.Bytes} {l : Located}
    (h : l ∈ (read path content).located) :
    l.owners = [] ∧ l.declaration.kind.isType = true := by
  obtain ⟨e, he, rfl⟩ := List.mem_map.mp h
  have hdeclares := declares_of_mem_ofItems _ [] none (Java.Reader.items content)
    (everywhereAll_of_forall (fun _ => trivial) _) e he
  exact ⟨rfl, hdeclares.isType⟩

/-- The elements of a unit come from its items. -/
theorem comeFromItems_of_mem_flatten {path : Files.Path} {content : Text.Bytes} {l : Located}
    (h : l ∈ (read path content).flatten) :
    FromItem l.declaration ∧ ∀ d ∈ l.owners, d.kind.isType = true ∧ FromItem d :=
  invariant_fromItem.unit nofun (everywhereAll_of_forall (fun _ => trivial) _) l h

/-- Whatever encloses an element of a unit is a type. -/
theorem owners_isType_of_mem_flatten {path : Files.Path} {content : Text.Bytes} {l m : Located}
    (h : l ∈ (read path content).located) (hm : m ∈ l.flatten) :
    ∀ d ∈ m.owners, d.kind.isType = true :=
  fun d hd => ((comeFromItems_of_mem_flatten (mem_flatten_of_located h hm)).2 d hd).1

/-- An element of a unit and whatever encloses it come from items. -/
theorem fromItem_of_mem_flatten {path : Files.Path} {content : Text.Bytes} {l m : Located}
    (h : l ∈ (read path content).located) (hm : m ∈ l.flatten) :
    ∀ d ∈ m.scope.chain, FromItem d := by
  obtain ⟨hmade, howners⟩ := comeFromItems_of_mem_flatten (mem_flatten_of_located h hm)
  intro d hd
  rcases List.mem_cons.mp hd with rfl | hd
  · exact hmade
  · exact (howners d hd).2

end CompilationUnit

end Apidoc.Model
