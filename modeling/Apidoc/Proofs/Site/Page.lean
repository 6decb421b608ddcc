import Apidoc.Proofs.Comment.Reference
import Apidoc.Proofs.Comment.Renderer
import Apidoc.Site.Page

/-!
# `Apidoc.Proofs.Site.Page`: the sections of a page

The page of a type has a section for each of its visible members, in their order
(`typePage_inv`), and in front of them that of the type, which says what the type is
called (`hasLines_signatureLine`). The section of a member starts with the signature of
the member as its `id`, and has the comment and the samples of the member
(`memberSection_inv`). There is a page if every sample that its comments ask for can be
looked up (`typePage_ok`).
-/

set_option autoImplicit false

namespace Apidoc.Site.Press

open Apidoc.Graph (Member Record)
open Apidoc.Html (escape)
open Apidoc.Proofs (bind_inv bind_ok forall₂_split mapM_inv mapM_ok)

/-- What pages are made with if nothing but an index is known. -/
def ofIndex (index : Model.Index) : Press :=
  ⟨⟨"", "", ""⟩, Comment.Renderer.ofIndex index, none, none⟩

variable {p : Press} {r : Record} {m : Member}

/-- A section starts with the signature of its member and ends with the samples. -/
theorem memberSection_inv {ls : List String} (h : p.memberSection r m = .ok ls) :
    ∃ header comment, p.renderer.render m.doc (some m.scope) = .ok comment ∧
      ls = s!"<section id=\"{escape m.id}\">" :: header :: comment ::
        (p.sampleBlocks r m ++ ["</section>"]) := by
  unfold memberSection at h
  obtain ⟨comment, hcomment, h⟩ := bind_inv h
  cases h
  exact ⟨_, comment, hcomment, rfl⟩

/-- A page is made of the section of its type and those of the visible members. -/
theorem typePage_inv {text : String} (h : p.typePage r = .ok text) :
    ∃ type sections, p.typeSection r = .ok type ∧
      List.Forall₂ (fun m ls => p.memberSection r m = .ok ls) r.visibleMembers sections ∧
      text = layout p.site "../" (joinLines (type ++ sections.flatten))
        (joinLines (r.visibleMembers.map memberEntry)) := by
  unfold typePage at h
  obtain ⟨type, htype, h⟩ := bind_inv h
  obtain ⟨sections, hsections, h⟩ := bind_inv h
  exact ⟨type, sections, htype, mapM_inv hsections, (Except.ok.inj h).symm⟩

/-- The line of a page that says what its type is called. -/
def signatureLine (r : Record) : String :=
  s!"<p class=\"signature\">{escape (modifierText r.declaration)} {r.label.text} {escape r.name}</p>"

/-- The section of a type says what the type is called. -/
theorem typeSection_inv {ls : List String} (h : p.typeSection r = .ok ls) :
    ∃ header more, ls = ["<section>", header] ++ [signatureLine r] ++ more := by
  unfold typeSection at h
  obtain ⟨⟨heading, body⟩, -, h⟩ := bind_inv h
  cases h
  exact ⟨_, body :: (p.hierarchy r ++ ["</section>"]), rfl⟩

/-- There is a page of every type if there is a listing for every sample that is asked for. -/
theorem typePage_ok (h : p.renderer.FindsSamples) (r : Record) :
    ∃ text, p.typePage r = .ok text := by
  have hheading : ∃ parts, p.headingAndBody r = .ok parts := by
    refine bind_ok (Comment.Renderer.render_ok h _ _) fun rendered => ?_
    split <;> exact ⟨_, rfl⟩
  have htype : ∃ ls, p.typeSection r = .ok ls := bind_ok hheading fun _ => ⟨_, rfl⟩
  have hmember (m : Member) : ∃ ls, p.memberSection r m = .ok ls :=
    bind_ok (Comment.Renderer.render_ok h _ _) fun _ => ⟨_, rfl⟩
  exact bind_ok htype fun type => bind_ok (mapM_ok fun m _ => hmember m) fun sections => ⟨_, rfl⟩

/-- The article of a page is made of some lines, and the lines of a part are among them. -/
def HasLines (p : Press) (text : String) (part : List String) : Prop :=
  ∃ before after aside,
    text = layout p.site "../" (joinLines (before ++ part ++ after)) aside

/-- The section of a visible member is on the page. -/
theorem hasLines_of_typePage {text : String} (h : p.typePage r = .ok text)
    (hm : m ∈ r.visibleMembers) :
    ∃ ls, p.memberSection r m = .ok ls ∧ HasLines p text ls := by
  obtain ⟨type, sections, -, hsections, htext⟩ := typePage_inv h
  obtain ⟨before, ls, after, hsplit, hls⟩ := forall₂_split hsections hm
  refine ⟨ls, hls, type ++ before.flatten, after.flatten,
    joinLines (r.visibleMembers.map memberEntry), ?_⟩
  have hlines : type ++ sections.flatten = type ++ before.flatten ++ ls ++ after.flatten := by
    rw [hsplit, List.flatten_append, List.flatten_cons]
    simp only [List.append_assoc]
  rw [htext, hlines]

/-- The page of a type says what the type is called. -/
theorem hasLines_signatureLine {text : String} (h : p.typePage r = .ok text) :
    HasLines p text [signatureLine r] := by
  obtain ⟨type, sections, htype, -, htext⟩ := typePage_inv h
  obtain ⟨header, more, rfl⟩ := typeSection_inv htype
  refine ⟨["<section>", header], more ++ sections.flatten,
    joinLines (r.visibleMembers.map memberEntry), ?_⟩
  rw [htext, List.append_assoc]

end Apidoc.Site.Press
