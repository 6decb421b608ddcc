import Apidoc.Proofs.Java.Row
import Apidoc.Proofs.Model.Unit

/-!
# `Apidoc.Proofs.Model.Forest`: the declarations of a unit and what they enclose

The elements of a unit make up a forest: each of them stands at the top, or directly inside of
exactly the type that comes first among its owners. `WellPlaced` says what holds along the edges and
among siblings. An enclosed declaration and its doc comment lie strictly inside of the owner.
Siblings follow one another, each with its doc comment between the sibling before and itself. No doc
comment serves two declarations, however far apart they are.

The items of a source stand in rows (`Reader.itemsInRow_items`), and elements are made of some of
these items without moving them (`occupied_ofItems_sublist`). So the contents of a file need not be
a unit of the language (`wellPlaced_read`).
-/

set_option autoImplicit false

namespace Apidoc.Model

open Apidoc.Java (CommentSyntax Item Row Span)
open Apidoc.Java.Reader (Nests spans spansAll)
open Apidoc.Text (Bytes)

/-! ### Siblings and what they enclose -/

/-- The declarations follow one another, and the doc comment of each stands between the one before
and itself. -/
structure InOrder (ds : List Declaration) : Prop where
  covers : ∀ d ∈ ds, d.span.start < d.span.stop
  apart : ds.Pairwise fun a b => a.span.stop ≤ b.span.start
  doc_covers : ∀ d ∈ ds, ∀ doc ∈ d.doc, doc.span.start < doc.span.stop
  doc_before : ∀ d ∈ ds, ∀ doc ∈ d.doc, doc.span.stop ≤ d.span.start
  doc_behind : ds.Pairwise fun a b => ∀ doc ∈ b.doc, a.span.stop ≤ doc.span.start

/-- What is directly inside of a declaration has it as its first owner and is called after it. The
doc comment is inside as well. -/
structure Located.IsInside (l owner : Located) : Prop where
  owners : l.owners = owner.declaration :: owner.owners
  isType : owner.declaration.kind.isType = true
  start : owner.declaration.span.start < l.declaration.span.start
  stop : l.declaration.span.stop < owner.declaration.span.stop
  doc : ∀ doc ∈ l.declaration.doc,
    owner.declaration.span.start < doc.span.start ∧ doc.span.stop < owner.declaration.span.stop
  name : l.declaration.qualifiedName = owner.declaration.qualifiedName ++
    (if l.declaration.kind.isType then "." else "#") ++ l.declaration.name
  nestLevel : l.scope.nestLevel = owner.scope.nestLevel + 1

/-- The elements of a unit make up a forest that follows its source. -/
structure CompilationUnit.WellPlaced (u : CompilationUnit) : Prop where
  /-- What stands at the top is a type that nothing encloses. -/
  top : ∀ l ∈ u.located, l ∈ u.flatten ∧ l.owners = [] ∧ l.declaration.kind.isType = true
  top_inOrder : InOrder (u.located.map Located.declaration)
  inside : ∀ owner ∈ u.flatten, ∀ l ∈ owner.enclosed, l ∈ u.flatten ∧ l.IsInside owner
  inOrder : ∀ owner ∈ u.flatten, InOrder (owner.enclosed.map Located.declaration)
  /-- Nothing else is in the unit. -/
  placed : ∀ l ∈ u.flatten, l ∈ u.located ∨ ∃ owner ∈ u.flatten, l ∈ owner.enclosed
  nestLevel : ∀ l ∈ u.flatten, l.scope.nestLevel = 1 + l.owners.length
  /-- In the order of the elements, each doc comment ends before the next one begins. -/
  docs : (u.flatten.filterMap (·.declaration.doc)).Pairwise fun a b => a.span.stop ≤ b.span.start

namespace Declaration

/-- The doc comment, if there is one, and the declaration itself. -/
def occupied (d : Declaration) : List Span := (d.doc.map DocBlock.span).toList ++ [d.span]

end Declaration

variable {lo hi : Nat} {d : Declaration} {ds : List Declaration}

/-- The declaration covers something between two offsets, with its doc comment in front of it. -/
structure Declaration.Between (lo hi : Nat) (d : Declaration) : Prop where
  start : lo ≤ d.span.start
  covers : d.span.start < d.span.stop
  stop : d.span.stop ≤ hi
  doc : ∀ doc ∈ d.doc,
    lo ≤ doc.span.start ∧ doc.span.start < doc.span.stop ∧ doc.span.stop ≤ d.span.start

/-- In a row, whatever follows a declaration stands behind it. -/
theorem between_of_row {ss : List Span} (h : Row lo hi (d.occupied ++ ss)) :
    d.Between lo d.span.stop ∧ Row d.span.stop hi ss := by
  rw [Declaration.occupied] at h
  cases hdoc : d.doc with
  | none =>
    rw [hdoc] at h
    obtain ⟨hstart, hpos, hrest⟩ := h
    exact ⟨⟨hstart, hpos, Nat.le_refl _, by rw [hdoc]; nofun⟩, hrest⟩
  | some doc =>
    rw [hdoc] at h
    obtain ⟨hlo, hcovers, hstart, hpos, hrest⟩ := h
    refine ⟨⟨by omega, hpos, Nat.le_refl _, ?_⟩, hrest⟩
    rw [hdoc]
    rintro _ ⟨⟩
    exact ⟨hlo, hcovers, hstart⟩

/-- Each declaration of a row is between its ends. -/
theorem between_of_mem (h : Row lo hi (ds.flatMap Declaration.occupied)) :
    ∀ d ∈ ds, d.Between lo hi := by
  induction ds generalizing lo with
  | nil => nofun
  | cons d rest ih =>
    rw [List.flatMap_cons] at h
    obtain ⟨hd, hrest⟩ := between_of_row h
    intro b hb
    rcases List.mem_cons.mp hb with rfl | hb
    · exact ⟨hd.start, hd.covers, hrest.le, hd.doc⟩
    · have hlater := ih hrest b hb
      have hle : lo ≤ d.span.stop := hd.start.trans hd.covers.le
      refine ⟨hle.trans hlater.start, hlater.covers, hlater.stop, fun doc hdoc => ?_⟩
      obtain ⟨hstart, hpos, hstop⟩ := hlater.doc doc hdoc
      exact ⟨hle.trans hstart, hpos, hstop⟩

/-- Declarations in a row are in order. -/
theorem inOrder_of_row (h : Row lo hi (ds.flatMap Declaration.occupied)) : InOrder ds := by
  have hbetween := between_of_mem h
  have hbehind : ds.Pairwise fun a b => b.Between a.span.stop hi := by
    clear hbetween
    induction ds generalizing lo with
    | nil => exact .nil
    | cons d rest ih =>
      rw [List.flatMap_cons] at h
      obtain ⟨-, hrest⟩ := between_of_row h
      exact .cons (between_of_mem hrest) (ih hrest)
  exact {
    covers := fun d hd => (hbetween d hd).covers
    apart := hbehind.imp fun hb => hb.start
    doc_covers := fun d hd doc hdoc => ((hbetween d hd).doc doc hdoc).2.1
    doc_before := fun d hd doc hdoc => ((hbetween d hd).doc doc hdoc).2.2
    doc_behind := hbehind.imp fun hb doc hdoc => (hb.doc doc hdoc).1 }

namespace CompilationUnit

/-! ### Elements stand where their items do -/

/-- The spans that the elements occupy, without what they enclose. -/
def occupied (es : List Element) : List Span :=
  (es.map Element.declaration).flatMap Declaration.occupied

theorem occupied_append (es fs : List Element) :
    occupied (es ++ fs) = occupied es ++ occupied fs := by
  rw [occupied, List.map_append, List.flatMap_append]
  rfl

theorem occupied_singleton (d : Declaration) (es : List Element) :
    occupied [.mk d es] = d.occupied := List.append_nil d.occupied

/-- A doc comment is the comment before the declaration. -/
theorem docOf_sublist (previous : Option CommentSyntax) :
    ((docOf previous).map DocBlock.span).toList.Sublist (previous.map (·.span)).toList := by
  cases previous with
  | none => exact .slnil
  | some c =>
    rw [docOf]
    show ((if _ then some _ else none).map DocBlock.span).toList.Sublist [c.span]
    split
    · exact List.Sublist.refl _
    · exact List.nil_sublist _

/-- What a member declares occupies its own span and the comment before it, or nothing. -/
theorem occupied_leaf_sublist (owner : Option Declaration) (previous : Option CommentSyntax)
    {f : Declaration → Declaration} {s : Span} (hspan : ∀ o, (f o).span = s)
    (hdoc : ∀ o, (f o).doc = docOf previous) :
    (occupied (owner.map fun o => Element.mk (f o) []).toList).Sublist
      ((previous.map (·.span)).toList ++ [s]) := by
  cases owner with
  | none => exact List.nil_sublist _
  | some o =>
    show (occupied [.mk (f o) []]).Sublist _
    rw [occupied_singleton, Declaration.occupied, hspan, hdoc]
    exact (docOf_sublist previous).append (List.Sublist.refl _)

mutual

/-- What an item declares occupies spans of the item and of the comment before it. -/
theorem occupied_ofItem_sublist (source : SourceFile) (owner : Option Declaration)
    (previous : Option CommentSyntax) : (item : Item) →
      (occupied (ofItem source owner previous item)).Sublist
        ((previous.map (·.span)).toList ++ spans item)
  | .type head members => by
    rw [ofItem, spans, occupied_singleton]
    exact (docOf_sublist previous).append (List.Sublist.refl [head.span])
  | .rest _ members => by
    rw [ofItem, spans]
    exact (occupied_ofItems_sublist source owner none members).trans
      (List.sublist_append_right _ _)
  | .method head _ => occupied_leaf_sublist owner previous (fun _ => rfl) fun _ => rfl
  | .constructor head _ => occupied_leaf_sublist owner previous (fun _ => rfl) fun _ => rfl
  | .field head _ => occupied_leaf_sublist owner previous (fun _ => rfl) fun _ => rfl
  | .constant head _ => occupied_leaf_sublist owner previous (fun _ => rfl) fun _ => rfl
  | .comment _ | .package .. | .imported .. | .module .. | .code .. => List.nil_sublist _

/-- Companion for siblings. -/
theorem occupied_ofItems_sublist (source : SourceFile) (owner : Option Declaration)
    (previous : Option CommentSyntax) : (items : List Item) →
      (occupied (ofItems source owner previous items)).Sublist
        ((previous.map (·.span)).toList ++ spansAll items)
  | [] => by
    rw [ofItems]
    exact List.nil_sublist _
  | item :: rest => by
    have hitem := occupied_ofItem_sublist source owner previous item
    have hrest := occupied_ofItems_sublist source owner (comment? item) rest
    rw [ofItems, occupied_append, spansAll, ← List.append_assoc]
    -- A comment declares nothing, so what follows it may take it for its own.
    cases item with
    | comment c => exact hrest.trans (List.sublist_append_right _ _ |>.append_right _)
    | _ => exact hitem.append hrest

end

/-! ### What a declaration encloses -/

/-- The elements are the members of the declaration, in a row strictly inside of it. -/
structure Encloses (d : Declaration) (es : List Element) : Prop where
  isType : es ≠ [] → d.kind.isType = true
  row : es ≠ [] → ∃ inner outer,
    d.span.start < inner ∧ outer < d.span.stop ∧ Row inner outer (occupied es)
  name : ∀ e ∈ es, e.declaration.qualifiedName =
    d.qualifiedName ++ (if e.declaration.kind.isType then "." else "#") ++ e.declaration.name

/-- The members of the types that items declare are inside of them. -/
theorem invariant_encloses {source : SourceFile} : Invariant source Nests (fun _ => True)
    (fun l => Encloses l.declaration l.element.enclosed) where
  here _ he := by
    cases he with
    | type doc hitem hmembers =>
      obtain ⟨inner, outer, hinner, houter, hspans⟩ := hitem
      exact {
        isType := fun _ => rfl
        row := fun _ => ⟨inner, outer, hinner, houter,
          hspans.sublist (occupied_ofItems_sublist source _ none _)⟩
        name := fun e he =>
          (declares_of_mem_ofItems source [_] none _ hmembers e he).qualifiedName }
    | member => exact ⟨fun h => absurd rfl h, fun h => absurd rfl h, nofun⟩
  inside _ _ _ := trivial

/-! ### Doc comments -/

/-- Where the doc comments of the elements stand. -/
def docSpans (ls : List Located) : List Span := (ls.filterMap (·.declaration.doc)).map (·.span)

theorem docSpans_append (ls ms : List Located) :
    docSpans (ls ++ ms) = docSpans ls ++ docSpans ms := by
  rw [docSpans, List.filterMap_append, List.map_append]
  rfl

theorem docSpans_cons (l : Located) (ls : List Located) :
    docSpans (l :: ls) = (l.declaration.doc.map DocBlock.span).toList ++ docSpans ls := by
  rw [docSpans, List.filterMap_cons]
  cases l.declaration.doc <;> rfl

mutual

/-- The doc comments in an element stand in a row, its own in front of it. -/
theorem row_docSpans_flatten (source : SourceFile) (owners : List Declaration) {lo : Nat} :
    (e : Element) → e.declaration.Between lo e.declaration.span.stop →
      (∀ l ∈ e.flatten source owners, Encloses l.declaration l.element.enclosed) →
      Row lo e.declaration.span.stop (docSpans (e.flatten source owners))
  | .mk d es, hd, h => by
    change d.Between lo d.span.stop at hd
    show Row lo d.span.stop _
    rw [Element.flatten] at h ⊢
    obtain ⟨hself, hmembers⟩ := List.forall_mem_cons.mp h
    -- Inside of the declaration there are the comments of its members, if it has any.
    have hinside : Row d.span.start d.span.stop
        (docSpans (flattenAll source (d :: owners) es)) := by
      by_cases hes : es = []
      · rw [hes]
        exact hd.covers.le
      · obtain ⟨inner, outer, hinner, houter, hrow⟩ := hself.row hes
        exact (row_docSpans_flattenAll source (d :: owners) es hrow hmembers).mono hinner.le
          houter.le
    rw [docSpans_cons]
    refine Row.append ?_ hinside
    show Row lo d.span.start (d.doc.map DocBlock.span).toList
    cases hdoc : d.doc with
    | none => exact hd.start
    | some doc => exact hd.doc doc hdoc

/-- Companion for several elements. -/
theorem row_docSpans_flattenAll (source : SourceFile) (owners : List Declaration) {lo hi : Nat} :
    (es : List Element) → Row lo hi (occupied es) →
      (∀ l ∈ flattenAll source owners es, Encloses l.declaration l.element.enclosed) →
      Row lo hi (docSpans (flattenAll source owners es))
  | [], hrow, _ => hrow
  | e :: es, hrow, h => by
    obtain ⟨he, hrest⟩ := between_of_row hrow
    rw [flattenAll] at h ⊢
    rw [docSpans_append]
    obtain ⟨hinner, hlater⟩ := List.forall_mem_append.mp h
    exact (row_docSpans_flatten source owners e he hinner).append
      (row_docSpans_flattenAll source owners es hrest hlater)

end

/-! ### The forest of a unit -/

variable {path : Files.Path} {content : Bytes} {l owner : Located}

/-- The top of a unit stands in a row over its source. -/
theorem row_types (path : Files.Path) (content : Bytes) :
    Row 0 content.length (occupied (read path content).types) :=
  (Java.Reader.itemsInRow_items content).1.sublist (occupied_ofItems_sublist _ none none _)

theorem encloses_of_mem_flatten (h : l ∈ (read path content).flatten) :
    Encloses l.declaration l.element.enclosed :=
  invariant_encloses.unit trivial (Java.Reader.itemsInRow_items content).2 l h

theorem isType_of_mem_owners (h : l ∈ (read path content).flatten) :
    ∀ d ∈ l.owners, d.kind.isType = true := fun d hd =>
  ((comeFromItems_of_mem_flatten h).2 d hd).1

/-- What a type of a unit encloses is inside of it. -/
theorem isInside_of_mem_enclosed (howner : owner ∈ (read path content).flatten)
    (hl : l ∈ owner.enclosed) : l.IsInside owner := by
  obtain ⟨e, he, rfl⟩ := List.mem_map.mp hl
  have hencloses := encloses_of_mem_flatten howner
  have hne : owner.element.enclosed ≠ [] := List.ne_nil_of_mem he
  obtain ⟨inner, outer, hinner, houter, hrow⟩ := hencloses.row hne
  have hbetween := between_of_mem hrow e.declaration (List.mem_map_of_mem he)
  have hstart := hbetween.start
  have hstop := hbetween.stop
  have hcovers := hbetween.covers
  have htype := hencloses.isType hne
  exact {
    owners := rfl
    isType := htype
    start := by show _ < e.declaration.span.start; omega
    stop := by show e.declaration.span.stop < _; omega
    doc := by
      intro doc hdoc
      obtain ⟨hlo, hpos, hhi⟩ := hbetween.doc doc hdoc
      omega
    name := hencloses.name e he
    nestLevel := by
      show 1 + ((owner.declaration :: owner.owners).filter (·.kind.isType)).length =
        1 + (owner.owners.filter (·.kind.isType)).length + 1
      rw [List.filter_cons, if_pos htype, List.length_cons, Nat.add_assoc] }

theorem inOrder_located (path : Files.Path) (content : Bytes) :
    InOrder ((read path content).located.map Located.declaration) := by
  rw [located, List.map_map]
  exact inOrder_of_row (row_types path content)

theorem inOrder_enclosed (howner : owner ∈ (read path content).flatten) :
    InOrder (owner.enclosed.map Located.declaration) := by
  rw [Located.enclosed, List.map_map]
  show InOrder (owner.element.enclosed.map Element.declaration)
  by_cases hes : owner.element.enclosed = []
  · rw [hes]
    have hempty : Row 0 0 (([] : List Declaration).flatMap Declaration.occupied) := Nat.le_refl 0
    exact inOrder_of_row hempty
  · obtain ⟨inner, outer, -, -, hrow⟩ := (encloses_of_mem_flatten howner).row hes
    exact inOrder_of_row hrow

/-- A doc comment covers something in front of its declaration. -/
theorem doc_of_mem_flatten (h : l ∈ (read path content).flatten) :
    ∀ doc ∈ l.declaration.doc,
      doc.span.start < doc.span.stop ∧ doc.span.stop ≤ l.declaration.span.start := by
  have hinOrder : ∀ ls : List Located, l ∈ ls → InOrder (ls.map Located.declaration) →
      ∀ doc ∈ l.declaration.doc,
        doc.span.start < doc.span.stop ∧ doc.span.stop ≤ l.declaration.span.start :=
    fun ls hl hls doc hdoc =>
      ⟨hls.doc_covers _ (List.mem_map_of_mem hl) doc hdoc,
        hls.doc_before _ (List.mem_map_of_mem hl) doc hdoc⟩
  rcases placed_of_mem_flatten h with htop | ⟨owner, howner, hmem⟩
  · exact hinOrder _ htop (inOrder_located path content)
  · exact hinOrder _ hmem (inOrder_enclosed howner)

/-- The elements of a unit are well placed, whatever the contents of its file are. -/
theorem wellPlaced_read (path : Files.Path) (content : Bytes) :
    (read path content).WellPlaced where
  top := fun l hl => ⟨mem_flatten_of_located hl l.mem_flatten_self, top_of_mem_located hl⟩
  top_inOrder := inOrder_located path content
  inside := fun owner howner l hl =>
    ⟨mem_flatten_of_enclosed howner hl, isInside_of_mem_enclosed howner hl⟩
  inOrder := fun _ howner => inOrder_enclosed howner
  placed := fun _ => placed_of_mem_flatten
  nestLevel := by
    intro l hl
    show 1 + (l.owners.filter (·.kind.isType)).length = 1 + l.owners.length
    rw [List.filter_eq_self.mpr (isType_of_mem_owners hl)]
  docs := by
    have hrow : Row 0 content.length (docSpans (read path content).flatten) :=
      row_docSpans_flattenAll _ [] _ (row_types path content) fun l hl => encloses_of_mem_flatten hl
    exact List.pairwise_map.mp hrow.pairwise

end CompilationUnit

end Apidoc.Model
