import Apidoc.Comment.Renderer
import Apidoc.Proofs.Run

/-!
# `Apidoc.Proofs.Comment.Renderer`: rendering fails only with a sample

The only part of a comment that can fail is a tag that asks for a sample. If every sample
that is asked for can be looked up, every comment is rendered (`render_ok`). Running text is not
rendered if and only if the lookup of one of its tags fails (`renderInline_error_iff`). Lookups that
agree on what a text asks for give the same rendering of it (`renderInline_eq_of_samples`).
-/

set_option autoImplicit false

namespace Apidoc.Comment

open Apidoc.Html (Node)
open Apidoc.Model (Scope)
open Apidoc.Proofs (bind_ok ite_ok mapM_ok)

/-- The names of the tags that are expanded. -/
def Inline.tagNames : List String :=
  ["code", "literal", "link", "linkplain", "inheritDoc", "value", "sample"]

namespace Renderer

/-- What a tag is expanded to, by its name. -/
inductive Expands (r : Renderer) (scope : Option Scope) (body : List Char) :
    Except Failure (List Node) → Prop where
  | code (h : String.ofList (Inline.nameAndText body).1 = "code") :
      Expands r scope body (.ok [Html.code (String.ofList (Inline.nameAndText body).2)])
  | literal (h : String.ofList (Inline.nameAndText body).1 = "literal") :
      Expands r scope body (.ok [.text (String.ofList (Inline.nameAndText body).2)])
  | link (h : String.ofList (Inline.nameAndText body).1 = "link" ∨
        String.ofList (Inline.nameAndText body).1 = "linkplain") :
      Expands r scope body
        (.ok [r.link (String.ofList (Target.withLabel (Inline.nameAndText body).2).1) scope
          ((Target.withLabel (Inline.nameAndText body).2).2.map String.ofList)
          ((Inline.nameAndText body).1 = "link".toList)])
  | inheritDoc (h : String.ofList (Inline.nameAndText body).1 = "inheritDoc") :
      Expands r scope body (.ok [])
  | value (h : String.ofList (Inline.nameAndText body).1 = "value") :
      Expands r scope body
        (.ok [Html.code (String.ofList (valueText (Inline.nameAndText body).2))])
  | sample (h : String.ofList (Inline.nameAndText body).1 = "sample") :
      Expands r scope body (r.sample (Inline.nameAndText body).2 scope)
  /-- Other tags are shown as they are written. -/
  | unknown (h : String.ofList (Inline.nameAndText body).1 ∉ Inline.tagNames) :
      Expands r scope body (.ok [.text (String.ofList body)])

/-- Every tag is expanded in one of these ways. -/
theorem expands (r : Renderer) (scope : Option Scope) (body : List Char) :
    Expands r scope body (r.inlineTag body scope) := by
  unfold inlineTag
  dsimp only
  split
  case h_1 hname => exact .code hname
  case h_2 hname => exact .literal hname
  case h_3 hname => exact .link (.inl hname)
  case h_4 hname => exact .link (.inr hname)
  case h_5 hname => exact .inheritDoc hname
  case h_6 hname => exact .value hname
  case h_7 hname => exact .sample hname
  case h_8 hcode hliteral hlink hplain hinherit hvalue hsample =>
    refine .unknown ?_
    simp only [Inline.tagNames, List.mem_cons, List.not_mem_nil, or_false, not_or]
    exact ⟨hcode, hliteral, hlink, hplain, hinherit, hvalue, hsample⟩

/-- Every lookup of a sample gives a listing, which may be empty. -/
def FindsSamples (r : Renderer) : Prop :=
  ∀ find, r.samples = some find → ∀ name member, ∃ code, find name member = .ok code

variable {r : Renderer} (h : r.FindsSamples) (scope : Option Scope)

include h

/-- A tag that asks for a sample is rendered. -/
theorem sample_ok (target : List Char) : ∃ nodes, r.sample target scope = .ok nodes := by
  unfold sample
  split
  · exact ⟨_, rfl⟩
  · rename_i find hfind
    exact bind_ok (h find hfind _ _) fun code => ⟨_, rfl⟩

/-- Every inline tag is rendered. -/
theorem inlineTag_ok (body : List Char) : ∃ nodes, r.inlineTag body scope = .ok nodes := by
  have hexpands := r.expands scope body
  generalize r.inlineTag body scope = result at hexpands ⊢
  cases hexpands with
  | sample => exact sample_ok h scope _
  | code | literal | link | inheritDoc | value | unknown => exact ⟨_, rfl⟩

/-- All parts of running text are rendered. -/
theorem inlineNodes_ok (parts : List Inline) : ∃ nodes, r.inlineNodes scope parts = .ok nodes := by
  induction parts with
  | nil => exact ⟨[], rfl⟩
  | cons part rest ih =>
    have hpart : ∃ nodes, r.inlinePart scope part = .ok nodes := by
      cases part with
      | char c => exact ⟨_, rfl⟩
      | tag body => exact inlineTag_ok h scope body
    exact bind_ok hpart fun front => bind_ok ih fun back => ⟨front ++ back, rfl⟩

/-- Running text is rendered. -/
theorem renderInline_ok (text : String) : ∃ html, r.renderInline text scope = .ok html :=
  bind_ok (inlineNodes_ok h scope (Inline.parts text.toList)) fun _ => ⟨_, rfl⟩

omit h in
/-- A list of tags is rendered if each of them is. -/
theorem tagList_ok (className : String) {entry : BlockTag → Except Failure String}
    (hentry : ∀ tag, ∃ html, entry tag = .ok html) (tags : List BlockTag) :
    ∃ ls, tagList className entry tags = .ok ls := by
  unfold tagList
  split
  · exact ⟨[], rfl⟩
  · exact bind_ok (mapM_ok fun tag _ => hentry tag) fun items => ⟨_, rfl⟩

omit h in
/-- Paragraphs for tags are rendered if each of the tags is. -/
theorem paragraphs_ok (className : String) {text : BlockTag → Except Failure String}
    (htext : ∀ tag, ∃ html, text tag = .ok html) (tags : List BlockTag) :
    ∃ ls, paragraphs className text tags = .ok ls :=
  mapM_ok fun tag _ => bind_ok (htext tag) fun _ => ⟨_, rfl⟩

/-- Every comment is rendered. -/
theorem render_ok (doc : Doc) : ∃ html, r.render doc scope = .ok html := by
  have hrunning (tag : BlockTag) : ∃ html, r.renderInline tag.text scope = .ok html :=
    renderInline_ok h scope tag.text
  have hescaped (tag : BlockTag) : ∃ html, (Except.ok (Html.escape tag.text) : Except Failure String)
      = .ok html := ⟨_, rfl⟩
  have hentry (front : BlockTag → String) (tag : BlockTag) :
      ∃ html, (do
        let text ← r.renderInline tag.text scope
        return front tag ++ " " ++ text : Except Failure String) = .ok html :=
    bind_ok (hrunning tag) fun text => ⟨_, rfl⟩
  unfold render
  dsimp only
  -- The parts after the description are the same with and without one.
  refine ite_ok (bind_ok ⟨[], rfl⟩ ?rest)
    (bind_ok (renderInline_ok h scope doc.description) fun text => bind_ok ⟨[text], rfl⟩ ?rest)
  intro description
  refine bind_ok (tagList_ok _ (hentry _) _) fun params => ?_
  refine bind_ok (paragraphs_ok _ hrunning _) fun returns => ?_
  refine bind_ok (tagList_ok _ (hentry _) _) fun throws => ?_
  refine bind_ok (tagList_ok _ (fun tag => ⟨_, rfl⟩) _) fun see => ?_
  refine bind_ok (paragraphs_ok _ hrunning _) fun deprecated => ?_
  refine bind_ok (paragraphs_ok _ hescaped _) fun since => ?_
  refine bind_ok (paragraphs_ok _ hescaped _) fun version => ?_
  exact bind_ok (paragraphs_ok _ hescaped _) fun author => ⟨_, rfl⟩

omit h

/-! ### Failures -/

/-- The type and the member that a tag asks for a sample of. -/
def askedFor (target : List Char) (scope : Option Scope) : String × Option String :=
  let (type, fragment) := Target.typeAndMember target
  let member := fragment.getD []
  (match type, scope with
    | [], some s => s.topLevel.qualifiedName
    | _, _ => String.ofList type,
    if member = [] then none else some (String.ofList member))

/-- A tag that asks for a sample shows what the lookup gives. -/
theorem sample_of_find {find : String → Option String → Except Failure String}
    (hfind : r.samples = some find) (target : List Char) :
    r.sample target scope = (do
      let code ← find (askedFor target scope).1 (askedFor target scope).2
      return if code = "" then [] else [sampleBlock code]) := by
  rw [sample, hfind]
  rfl

/-- A tag that asks for a sample fails as the lookup does. -/
theorem sample_error_iff {find : String → Option String → Except Failure String}
    (hfind : r.samples = some find) (target : List Char) (f : Failure) :
    r.sample target scope = .error f ↔
      find (askedFor target scope).1 (askedFor target scope).2 = .error f := by
  rw [sample_of_find scope hfind]
  cases find (askedFor target scope).1 (askedFor target scope).2 with
  | error g => simp [bind, Except.bind]
  | ok code => exact ⟨nofun, nofun⟩

/-- Only a tag that asks for a sample fails. -/
theorem inlineTag_error_iff (body : List Char) (f : Failure) :
    r.inlineTag body scope = .error f ↔
      String.ofList (Inline.nameAndText body).1 = "sample" ∧
        r.sample (Inline.nameAndText body).2 scope = .error f := by
  have hexpands := r.expands scope body
  generalize r.inlineTag body scope = result at hexpands ⊢
  cases hexpands with
  | sample hname => simp [hname]
  | link hname => rcases hname with hname | hname <;> simp [hname]
  | code hname | literal hname | inheritDoc hname | value hname => simp [hname]
  | unknown hname =>
    have hother : String.ofList (Inline.nameAndText body).1 ≠ "sample" := by
      intro hsample
      rw [hsample] at hname
      exact hname (by decide)
    simp [hother]

/-- Parts of running text fail if one of them is a tag that fails. -/
theorem inlineNodes_error_iff (parts : List Inline) :
    (∃ f, r.inlineNodes scope parts = .error f) ↔
      ∃ body, .tag body ∈ parts ∧ ∃ f, r.inlineTag body scope = .error f := by
  induction parts with
  | nil => exact ⟨nofun, nofun⟩
  | cons part rest ih =>
    have hstep : r.inlineNodes scope (part :: rest) = (do
        let front ← r.inlinePart scope part
        let back ← r.inlineNodes scope rest
        return front ++ back) := rfl
    have hfirst : (∃ f, r.inlinePart scope part = .error f) ↔
        ∃ body, part = .tag body ∧ ∃ f, r.inlineTag body scope = .error f := by
      cases part with
      | char c => exact ⟨nofun, nofun⟩
      | tag body => simp [inlinePart]
    have hboth : (∃ f, r.inlineNodes scope (part :: rest) = .error f) ↔
        (∃ f, r.inlinePart scope part = .error f) ∨ ∃ f, r.inlineNodes scope rest = .error f := by
      rw [hstep]
      rcases r.inlinePart scope part with g | front <;>
        rcases r.inlineNodes scope rest with g' | back <;> simp [bind, Except.bind, pure, Except.pure]
    rw [hboth, hfirst, ih]
    simp only [List.mem_cons, or_and_right, exists_or]
    simp only [eq_comm]

/-- Running text is not rendered if and only if the lookup of one of its tags fails. -/
theorem renderInline_error_iff {find : String → Option String → Except Failure String}
    (hfind : r.samples = some find) (text : String) :
    (∃ f, r.renderInline text scope = .error f) ↔
      ∃ body, .tag body ∈ Inline.parts text.toList ∧
        String.ofList (Inline.nameAndText body).1 = "sample" ∧
        let asked := askedFor (Inline.nameAndText body).2 scope
        ∃ f, find asked.1 asked.2 = .error f := by
  have hnodes : (∃ f, r.renderInline text scope = .error f) ↔
      ∃ f, r.inlineNodes scope (Inline.parts text.toList) = .error f := by
    unfold renderInline
    cases r.inlineNodes scope (Inline.parts text.toList) <;>
      simp [bind, Except.bind, pure, Except.pure]
  rw [hnodes, inlineNodes_error_iff]
  simp only [inlineTag_error_iff, sample_error_iff scope hfind, exists_and_left]

/-! ### Other samples -/

section Samples

variable {find find' : String → Option String → Except Failure String}

/-- A link does not depend on the samples. -/
theorem link_samples (s : Option (String → Option String → Except Failure String))
    (target : String) (label : Option String) (asCode : Bool) :
    { r with samples := s }.link target scope label asCode = r.link target scope label asCode := by
  have hlocate : ∀ name, { r with samples := s }.locate name scope = r.locate name scope :=
    fun _ => rfl
  unfold link
  simp only [hlocate]

/-- No other tag than one that asks for a sample depends on the samples. -/
theorem inlineTag_samples {body : List Char}
    (h : String.ofList (Inline.nameAndText body).1 ≠ "sample")
    (s : Option (String → Option String → Except Failure String)) :
    { r with samples := s }.inlineTag body scope = r.inlineTag body scope := by
  unfold inlineTag
  simp only [link_samples]
  split
  case h_7 hname => exact absurd hname h
  all_goals rfl

/-- A tag that asks for a sample is rendered as the sample. -/
theorem inlineTag_sample {body : List Char}
    (h : String.ofList (Inline.nameAndText body).1 = "sample") :
    r.inlineTag body scope = r.sample (Inline.nameAndText body).2 scope := by
  unfold inlineTag
  split
  rename_i name text hbody
  rw [hbody] at h ⊢
  dsimp only at h ⊢
  rw [h]
  rfl

/-- A tag is rendered alike if the sample that it asks for, if any, is. -/
theorem inlineTag_eq_of_samples (body : List Char)
    (h : String.ofList (Inline.nameAndText body).1 = "sample" →
      find' (askedFor (Inline.nameAndText body).2 scope).1
          (askedFor (Inline.nameAndText body).2 scope).2 =
        find (askedFor (Inline.nameAndText body).2 scope).1
          (askedFor (Inline.nameAndText body).2 scope).2) :
    { r with samples := some find' }.inlineTag body scope =
      { r with samples := some find }.inlineTag body scope := by
  by_cases hname : String.ofList (Inline.nameAndText body).1 = "sample"
  · rw [inlineTag_sample scope hname, inlineTag_sample scope hname, sample_of_find scope rfl,
      sample_of_find scope rfl, h hname]
  · exact (inlineTag_samples scope hname _).trans (inlineTag_samples scope hname _).symm

/-- Running text is rendered alike if each sample that it asks for is. -/
theorem renderInline_eq_of_samples (text : String)
    (h : ∀ body, .tag body ∈ Inline.parts text.toList →
      String.ofList (Inline.nameAndText body).1 = "sample" →
        let asked := askedFor (Inline.nameAndText body).2 scope
        find' asked.1 asked.2 = find asked.1 asked.2) :
    { r with samples := some find' }.renderInline text scope =
      { r with samples := some find }.renderInline text scope := by
  have hnodes : ∀ parts : List Inline, (∀ part ∈ parts, part ∈ Inline.parts text.toList) →
      { r with samples := some find' }.inlineNodes scope parts =
        { r with samples := some find }.inlineNodes scope parts := by
    intro parts hparts
    induction parts with
    | nil => rfl
    | cons part rest ih =>
      have hpart : { r with samples := some find' }.inlinePart scope part =
          { r with samples := some find }.inlinePart scope part := by
        cases part with
        | char c => rfl
        | tag body =>
          exact inlineTag_eq_of_samples scope body (h body (hparts _ List.mem_cons_self))
      rw [inlineNodes, inlineNodes, hpart, ih fun p hp => hparts p (List.mem_cons_of_mem _ hp)]
  rw [renderInline, renderInline, hnodes _ fun _ => id]

end Samples

end Renderer

end Apidoc.Comment
