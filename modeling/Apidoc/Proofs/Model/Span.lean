import Apidoc.Proofs.Java.Border
import Apidoc.Proofs.Model.Position
import Apidoc.Proofs.Model.Unit

/-!
# `Apidoc.Proofs.Model.Span`: where the declarations of a unit stand

Every declaration of a unit reaches from the first token of a tree to a later token, so it covers
bytes of the source and does not end in the middle of blanks (`solid_of_mem_flatten`). Types and
methods go by a word of the source, and a type is the last segment of its qualified name
(`stands_of_mem_flatten`). No interface has a superclass.
-/

set_option autoImplicit false

namespace Apidoc.Model.CompilationUnit

open Apidoc.Java (Span Tree)
open Apidoc.Java.Reader (HeadStands IsWordText Reaches)
open Apidoc.Text (Bytes)

variable {forest : List Tree} {source : SourceFile}

/-- A declaration reaches over trees of the source. A type or a method goes by a word of it, and a
type is the last segment of its qualified name. -/
structure Stands (forest : List Tree) (d : Declaration) : Prop where
  reaches : Reaches forest d.span
  word : d.kind.isType = true ∨ d.kind = .method → IsWordText forest d.name
  qualified : d.kind.isType = true → d.qualifiedName = d.name ∨
    ∃ front, d.qualifiedName = front ++ "." ++ d.name
  superclass : d.kind.isInterface = true → d.superclass = none

theorem stands_type (owner : Option Declaration) (doc : Option DocBlock) {head : Java.TypeSyntax}
    (h : HeadStands forest (.type head [])) :
    Stands forest (typeDeclaration source owner doc head) := by
  obtain ⟨hreaches, hword, hsuperclass⟩ := h
  refine ⟨hreaches, fun _ => hword, fun _ => ?_, fun hinterface => ?_⟩
  · show qualifiedTypeName source owner head.name = head.name ∨
      ∃ front, qualifiedTypeName source owner head.name = front ++ "." ++ head.name
    cases owner with
    | some o => exact .inr ⟨o.qualifiedName, rfl⟩
    | none =>
      by_cases hpackage : source.package = ""
      · exact .inl (if_pos hpackage)
      · exact .inr ⟨source.package, if_neg hpackage⟩
  · have hclass : head.kind ≠ .classType := fun hclass => by
      rw [show (typeDeclaration source owner doc head).kind = .type head.kind from rfl,
        hclass] at hinterface
      cases hinterface
    show head.superclass.map Java.TypeName.erased = none
    rw [hsuperclass hclass, Option.map_none]

/-- What the items of a source declare stands where their heads do. -/
theorem invariant_stands : Invariant source (HeadStands forest) (fun _ => True)
    (fun l => Stands forest l.declaration) where
  here _ he := by
    cases he with
    | type doc hitem hmembers => exact stands_type _ doc hitem
    | @member o doc item d howner hitem hd =>
      cases item with
      | method => cases hd; exact ⟨hitem.1, fun _ => hitem.2, nofun, nofun⟩
      | constructor => cases hd; exact ⟨hitem, nofun, nofun, nofun⟩
      | field => cases hd; exact ⟨hitem, nofun, nofun, nofun⟩
      | constant => cases hd; exact ⟨hitem, nofun, nofun, nofun⟩
      | _ => cases hd
  inside _ _ _ := trivial

/-! ### Spans over tokens -/

/-- A piece that is a token does not end with a line feed, unless the source ends there. -/
theorem getLast?_take_stop {content : Bytes} {p : Java.Piece}
    (hp : p ∈ Java.Lexer.pieces content) (htrivia : p.isTrivia = false)
    (hrest : content.drop p.stop ≠ []) : (content.take p.stop).getLast? ≠ some 10 := by
  have hkind := Java.Lexer.isToken_of_not_trivia htrivia
  have hfits := (Java.Lexer.standsIn_of_mem_pieces hp hkind.1).2
  rw [Java.Lexer.getLast?_take hp htrivia]
  intro hlast
  have hblank := hfits.getLast? hkind hrest _ hlast
  exact absurd hblank (by decide)

/-- A span that reaches over tokens covers bytes of the source. -/
theorem solid_of_reaches {content : Bytes} {s : Span}
    (h : Reaches (Tree.ofSource content) s) : Position.Solid content s := by
  obtain ⟨t, rest, htail, hstart, last, hlast, hstop⟩ := h
  have hordered := (Tree.ordered_ofSource content).of_sublist htail.tokens_sublist
  obtain ⟨hmem, htrivia⟩ := Tree.piece_mem_of_mem_tokens (htail.tokens_subset hlast)
  refine ⟨?_, ?_, ?_⟩
  · rw [hstart, hstop]
    exact hordered.start_lt hlast
  · rw [hstop]
    exact (Java.Lexer.bounds_of_mem_pieces hmem).2
  · rw [hstop]
    exact getLast?_take_stop hmem htrivia

variable {path : Files.Path} {content : Bytes} {l : Located}

/-- The declarations of a unit stand among the trees of its source. -/
theorem stands_of_mem_flatten (h : l ∈ (read path content).flatten) :
    Stands (Tree.ofSource content) l.declaration :=
  invariant_stands.unit trivial (Java.Reader.everywhere_items content) l h

/-- The declarations of a unit cover bytes of its source. -/
theorem solid_of_mem_flatten (h : l ∈ (read path content).flatten) :
    Position.Solid content l.declaration.span :=
  solid_of_reaches (stands_of_mem_flatten h).reaches

end Apidoc.Model.CompilationUnit
