import Apidoc.Proofs.Comment.Inline
import Apidoc.Proofs.Comment.Reference
import Apidoc.Proofs.Comment.Renderer

/-!
# `Apidoc.Proofs.Comment.Tag`: where the name of an inline tag ends

The name of an inline tag ends at the first plain blank, and blanks around the name are
trimmed. So the kind of the blanks behind a name does not matter if one of them is a plain
blank, or if the tag has no text (`nameAndText_of_nameEnds`). Otherwise the first word of the
text is taken for a part of the name (`exists_blank_mem_name`). No tag has such a name, and the
tag is shown as it is written instead of being expanded (`renderInline_written_eq_iff`): a line
break behind the name of a tag breaks the tag (`renderInline_written_lineFeed`).
-/

set_option autoImplicit false

namespace Apidoc

/-- An escaped character is some text that does not begin with an angle. -/
theorem Html.escapeChar_eq_cons (c : Char) : ∃ d more, escapeChar c = d :: more ∧ d ≠ '<' := by
  fun_cases escapeChar c with
  | case6 c hand hangle => exact ⟨c, [], rfl, hangle⟩
  | case1 | case2 | case3 | case4 | case5 => exact ⟨_, _, rfl, by decide⟩

namespace Comment

open Apidoc.Html (Node)
open Apidoc.Model (Scope)
open Apidoc.Proofs (bind_inv)
open Apidoc.Text

namespace Inline

/-- A tag as it is written, with `gap` between its name and its text. -/
def written (name gap text : String) : String := "\x7b@" ++ name ++ gap ++ text ++ "\x7d"

/-- A plain blank stands among the blanks behind the name, or there is no text behind them. -/
def NameEnds (gap text : List Char) : Prop :=
  ' ' ∈ (gap ++ text).takeWhile isBlank ∨ allBlank text = true

/-- A name is a word without braces. -/
theorem tagNames_spec {name : String} (h : name ∈ tagNames) : allBlank name.toList = false ∧
    ∀ c ∈ name.toList, isBlank c = false ∧ c ≠ '\x7b' ∧ c ≠ '\x7d' := by
  have hall : ∀ name ∈ tagNames, allBlank name.toList = false ∧
      (name.toList.all fun c => !isBlank c && c ≠ '\x7b' && c ≠ '\x7d') = true := by decide
  refine ⟨(hall name h).1, fun c hc => ?_⟩
  have hc := List.all_eq_true.mp (hall name h).2 c hc
  simpa [and_assoc] using hc

/-- Blanks are no braces. -/
theorem isBalanced_of_allBlank {cs : List Char} (h : allBlank cs = true) : IsBalanced cs := by
  refine isBalanced_of_not_brace fun c hc => ?_
  have hblank := List.all_eq_true.mp h c hc
  constructor <;> rintro rfl <;> exact absurd hblank (by decide)

/-- A known tag has no other braces than its text. -/
theorem isBalanced_written {name gap text : String} (hname : name ∈ tagNames)
    (hgap : allBlank gap.toList = true) (htext : IsBalanced text.toList) :
    IsBalanced (name.toList ++ (gap.toList ++ text.toList)) := by
  obtain ⟨-, hword⟩ := tagNames_spec hname
  have hname' : IsBalanced name.toList := isBalanced_of_not_brace fun c hc => (hword c hc).2
  exact hname'.append ((isBalanced_of_allBlank hgap).append htext)

variable {name gap text : List Char}

theorem space_not_mem (h : ∀ c ∈ name, isBlank c = false) : ' ' ∉ name := fun hmem =>
  absurd (h _ hmem) (by decide)

/-- A plain blank among the blanks behind the name separates it from the text. -/
theorem nameAndText_of_space {rest : List Char} (hname : ∀ c ∈ name, isBlank c = false)
    (hspace : ' ' ∈ rest.takeWhile isBlank) :
    nameAndText (name ++ rest) = (name, trim rest) := by
  obtain ⟨lead, more, htake, hlead⟩ := List.eq_append_cons_of_mem hspace
  have hsplit : rest = lead ++ ' ' :: (more ++ rest.dropWhile isBlank) := by
    rw [← List.cons_append, ← List.append_assoc, ← htake, List.takeWhile_append_dropWhile]
  have hblank : ∀ c ∈ lead ++ [' '], isBlank c = true := by
    intro c hc
    refine List.mem_takeWhile_imp (l := rest) ?_
    rw [htake]
    simp only [List.mem_append, List.mem_cons] at hc ⊢
    tauto
  generalize more ++ rest.dropWhile isBlank = text at hsplit
  subst hsplit
  have htext : trim (lead ++ ' ' :: text) = trim text := by
    rw [← List.singleton_append, ← List.append_assoc, trim_blank_append hblank]
  rw [nameAndText, ← List.append_assoc,
    cutAt_append_cons (List.not_mem_append (space_not_mem hname) hlead), htext]
  dsimp only [Option.getD]
  rw [trim_append_blank fun c hc => hblank c (List.mem_append_left _ hc), trim_eq_self hname]

/-- If only other blanks stand behind the name, there is no text. -/
theorem nameAndText_of_blank {rest : List Char} (hname : ∀ c ∈ name, isBlank c = false)
    (hrest : ∀ c ∈ rest, isBlank c = true) (hspace : ' ' ∉ rest) :
    nameAndText (name ++ rest) = (name, []) := by
  rw [nameAndText, cutAt_of_not_mem (List.not_mem_append (space_not_mem hname) hspace)]
  dsimp only [Option.getD]
  rw [trim_append_blank hrest, trim_eq_self hname]
  rfl

/-- The name of a tag is cut off whatever blanks follow, if it ends. -/
theorem nameAndText_of_nameEnds (hname : ∀ c ∈ name, isBlank c = false)
    (hgap : ∀ c ∈ gap, isBlank c = true) (h : NameEnds gap text) :
    nameAndText (name ++ (gap ++ text)) = (name, trim text) := by
  by_cases hspace : ' ' ∈ (gap ++ text).takeWhile isBlank
  · rw [nameAndText_of_space hname hspace, trim_blank_append hgap]
  · have htext := h.resolve_left hspace
    have hall : ∀ c ∈ gap ++ text, isBlank c = true :=
      List.forall_mem_append.mpr ⟨hgap, List.all_eq_true.mp htext⟩
    rw [List.takeWhile_eq_self_iff.mpr hall] at hspace
    rw [nameAndText_of_blank hname hall hspace, trim_eq_nil_iff.mpr htext]

/-- Behind the leading blanks of a text, a word stands in front of the first plain blank. -/
theorem allBlank_cutAt_trimStart (h : allBlank text = false) :
    allBlank (cutAt ' ' (trimStart text)).1 = false := by
  have hne : trimStart text ≠ [] := fun hnil =>
    Bool.eq_false_iff.mp h (List.all_eq_true.mpr (List.dropWhile_eq_nil_iff.mp hnil))
  obtain ⟨c, rest, hrest⟩ := List.exists_cons_of_ne_nil hne
  have hc := not_blank_of_trimStart hrest
  have hword : ' ' ∉ [c] := space_not_mem (List.forall_mem_singleton.mpr hc)
  rw [hrest, ← List.singleton_append, cutAt_append hword, allBlank, List.singleton_append,
    List.all_cons, hc, Bool.false_and]

/-- Otherwise the blanks are taken for a part of the name, together with a word behind them. -/
theorem exists_blank_mem_name (hname : allBlank name = false)
    (hplain : ∀ c ∈ name, isBlank c = false) (hgap : ∀ c ∈ gap, isBlank c = true) (hne : gap ≠ [])
    (h : ¬ NameEnds gap text) :
    ∃ c ∈ (nameAndText (name ++ (gap ++ text))).1, isBlank c = true := by
  obtain ⟨hmem, htext⟩ := not_or.mp h
  rw [Bool.not_eq_true] at htext
  obtain ⟨c, hc⟩ := List.exists_mem_of_ne_nil gap hne
  refine ⟨c, ?_, hgap c hc⟩
  -- The first part goes on behind the blanks, up to a plain blank or to the end.
  have hfront : ' ' ∉ name ++ (gap ++ text).takeWhile isBlank :=
    List.not_mem_append (space_not_mem hplain) hmem
  have hback : allBlank (cutAt ' ' ((gap ++ text).dropWhile isBlank)).1 = false := by
    rw [List.dropWhile_append_of_pos hgap]
    exact allBlank_cutAt_trimStart htext
  have hlead : c ∈ (gap ++ text).takeWhile isBlank := by
    rw [List.takeWhile_append_of_pos hgap]
    exact List.mem_append_left _ hc
  have hcut : (nameAndText (name ++ (gap ++ text))).1 =
      trimStart name ++ (gap ++ text).takeWhile isBlank ++
        trimEnd (cutAt ' ' ((gap ++ text).dropWhile isBlank)).1 := by
    rw [← trim_append_append hname hback, nameAndText]
    nth_rewrite 1 [← List.takeWhile_append_dropWhile (p := isBlank) (l := gap ++ text)]
    rw [← List.append_assoc, cutAt_append hfront]
  rw [hcut]
  exact List.mem_append_left _ (List.mem_append_right _ hlead)

end Inline

namespace Renderer

open Apidoc.Comment.Inline

variable (r : Renderer) (scope : Option Scope) {body other : List Char}

/-- A tag whose name is not known is shown as it is written. -/
theorem inlineTag_of_not_mem (h : String.ofList (nameAndText body).1 ∉ tagNames) :
    r.inlineTag body scope = .ok [.text (String.ofList body)] := by
  have hexpands := r.expands scope body
  generalize r.inlineTag body scope = result at hexpands ⊢
  cases hexpands with
  | unknown => rfl
  | link hname => rcases hname with hname | hname <;> exact absurd (hname ▸ by decide) h
  | code hname | literal hname | inheritDoc hname | value hname | sample hname =>
    exact absurd (hname ▸ by decide) h

/-- Tags with the same known name and the same text are rendered in the same way. -/
theorem inlineTag_congr (h : String.ofList (nameAndText body).1 ∈ tagNames)
    (hsame : nameAndText other = nameAndText body) :
    r.inlineTag other scope = r.inlineTag body scope := by
  rcases hname : nameAndText body with ⟨name, text⟩
  rw [hname] at h hsame
  unfold inlineTag
  rw [hname, hsame]
  dsimp only at h ⊢
  split
  case h_8 hcode hliteral hlink hplain hinherit hvalue hsample =>
    simp only [tagNames, List.mem_cons, List.not_mem_nil, or_false] at h
    tauto
  all_goals rfl

/-- An element begins with an angle. -/
theorem head?_render_element (tag : String) (attributes : List (String × String))
    (children : List Node) : (Node.element tag attributes children).render.toList.head? = some '<' := by
  simp [Node.render]

/-- A link is an element. -/
theorem head?_render_link (target : String) (label : Option String) (asCode : Bool) :
    (r.link target scope label asCode).render.toList.head? = some '<' := by
  unfold link
  dsimp only
  split
  · exact head?_render_element _ _ _
  · exact head?_render_element _ _ _

/-- What the nodes of a tag with a known name are: none, an element, or the text of the tag. -/
theorem inlineTag_cases (h : String.ofList (nameAndText body).1 ∈ tagNames)
    {nodes : List Node} (hnodes : r.inlineTag body scope = .ok nodes) :
    nodes = [] ∨ (∃ node, nodes = [node] ∧ node.render.toList.head? = some '<') ∨
      nodes = [.text (String.ofList (nameAndText body).2)] := by
  have hexpands := r.expands scope body
  generalize r.inlineTag body scope = result at hexpands hnodes
  cases hexpands with
  | code | value =>
    cases hnodes
    exact .inr (.inl ⟨_, rfl, head?_render_element _ _ _⟩)
  | literal =>
    cases hnodes
    exact .inr (.inr rfl)
  | link =>
    cases hnodes
    exact .inr (.inl ⟨_, rfl, r.head?_render_link _ _ _ _⟩)
  | inheritDoc =>
    cases hnodes
    exact .inl rfl
  | sample =>
    unfold sample at hnodes
    split at hnodes
    · cases hnodes
      exact .inl rfl
    · obtain ⟨code, -, hnodes⟩ := bind_inv hnodes
      cases hnodes
      split
      · exact .inl rfl
      · exact .inr (.inl ⟨_, rfl, head?_render_element _ _ _⟩)
  | unknown hname => exact absurd h hname

/-- A text that is one tag is rendered as the tag. -/
theorem renderInline_written {name gap text : String}
    (h : IsBalanced (name.toList ++ (gap.toList ++ text.toList))) :
    r.renderInline (written name gap text) scope = (do
      let nodes ← r.inlineTag (name.toList ++ (gap.toList ++ text.toList)) scope
      return Html.renderAll nodes) := by
  have htext : (written name gap text).toList =
      mark ++ (name.toList ++ (gap.toList ++ text.toList)) ++ '\x7d' :: [] := by
    simp [written, mark]
  rw [renderInline, htext, parts_tag h, parts, inlineNodes, inlinePart]
  cases r.inlineTag (name.toList ++ (gap.toList ++ text.toList)) scope with
  | error failure => rfl
  | ok nodes => exact congrArg (fun all => Except.ok (Html.renderAll all)) (List.append_nil nodes)

/-- A tag that is shown as it is written is not shown as any known tag is. -/
theorem escape_ne_renderAll {name gap text : List Char} (hname : allBlank name = false)
    (h : String.ofList (nameAndText body).1 ∈ tagNames) (htext : (nameAndText body).2 = trim text)
    {nodes : List Node} (hnodes : r.inlineTag body scope = .ok nodes) :
    Html.escape (String.ofList (name ++ (gap ++ text))) ≠ Html.renderAll nodes := by
  intro hsame
  obtain ⟨c, rest, rfl⟩ : ∃ c rest, name = c :: rest := by
    refine List.exists_cons_of_ne_nil ?_
    rintro rfl
    cases hname
  obtain ⟨d, more, hfirst, hangle⟩ := Html.escapeChar_eq_cons c
  have hsame := congrArg String.toList hsame
  rw [Html.escape, String.toList_ofList, String.toList_ofList, List.cons_append, List.flatMap_cons,
    hfirst, List.cons_append] at hsame
  rcases inlineTag_cases r scope h hnodes with rfl | ⟨node, rfl, hnode⟩ | rfl
  · cases hsame
  · rw [Html.renderAll, Html.renderAll, String.append_empty] at hsame
    rw [← hsame] at hnode
    exact hangle (Option.some.inj hnode)
  · -- The text of the tag is a part of what is written, without the name.
    obtain ⟨lead, trail, hsplit, -, -⟩ := exists_blanks_trim text
    have hpart := congrArg (fun cs => (cs.flatMap Html.escapeChar).length) hsplit
    have hlength := congrArg List.length hsame
    rw [htext, Html.renderAll, Html.renderAll, String.append_empty, Node.render, Html.escape,
      String.toList_ofList, String.toList_ofList] at hlength
    simp only [List.flatMap_append, List.length_append, List.length_cons] at hpart hlength
    omega

section

variable {name gap text : String} (hname : name ∈ tagNames)
  (hgap : allBlank gap.toList = true) (htext : IsBalanced text.toList)

include hname hgap htext

/-- A known tag whose name ends is expanded, with the text behind the blanks. -/
theorem renderInline_of_nameEnds (h : NameEnds gap.toList text.toList) :
    ∃ body, nameAndText body = (name.toList, trim text.toList) ∧
      r.renderInline (written name gap text) scope = (do
        let nodes ← r.inlineTag body scope
        return Html.renderAll nodes) := by
  obtain ⟨-, hword⟩ := tagNames_spec hname
  exact ⟨_, nameAndText_of_nameEnds (fun c hc => (hword c hc).1) (List.all_eq_true.mp hgap) h,
    r.renderInline_written scope (isBalanced_written hname hgap htext)⟩

/-- A known tag whose name does not end is shown as it is written. -/
theorem renderInline_of_not_nameEnds (hne : gap ≠ "") (h : ¬ NameEnds gap.toList text.toList) :
    r.renderInline (written name gap text) scope =
      .ok (Html.escape (String.ofList (name.toList ++ (gap.toList ++ text.toList)))) := by
  obtain ⟨hsome, hword⟩ := tagNames_spec hname
  have hne' : gap.toList ≠ [] := fun hnil => hne (String.toList_eq_nil_iff.mp hnil)
  obtain ⟨c, hc, hblank⟩ :=
    exists_blank_mem_name hsome (fun c hc => (hword c hc).1) (List.all_eq_true.mp hgap) hne' h
  have hunknown : String.ofList
      (nameAndText (name.toList ++ (gap.toList ++ text.toList))).1 ∉ tagNames := by
    intro hmem
    have hplain := ((tagNames_spec hmem).2 c (by rw [String.toList_ofList]; exact hc)).1
    rw [hblank] at hplain
    cases hplain
  rw [r.renderInline_written scope (isBalanced_written hname hgap htext),
    inlineTag_of_not_mem r scope hunknown]
  exact congrArg Except.ok String.append_empty

end

/-- The kind of the blanks behind the name of a tag does not matter if one of them is a plain blank
or if there is no text behind them. Otherwise the tag is shown as it is written, which it never is
with a plain blank. -/
theorem renderInline_written_eq_iff {name gap text : String} (hname : name ∈ tagNames)
    (hgap : allBlank gap.toList = true) (hne : gap ≠ "") (htext : IsBalanced text.toList) :
    (r.renderInline (written name gap text) scope = r.renderInline (written name " " text) scope ↔
      NameEnds gap.toList text.toList) ∧
    (¬ NameEnds gap.toList text.toList →
      r.renderInline (written name gap text) scope = .ok (Html.escape (name ++ gap ++ text))) := by
  have hplain : NameEnds " ".toList text.toList := .inl (by simp [isBlank])
  obtain ⟨body, hbody, hexpanded⟩ :=
    r.renderInline_of_nameEnds scope hname (by decide) htext hplain
  have hknown : String.ofList (nameAndText body).1 ∈ tagNames := by
    rw [hbody, String.ofList_toList]
    exact hname
  by_cases hends : NameEnds gap.toList text.toList
  · obtain ⟨other, hother, hsame⟩ := r.renderInline_of_nameEnds scope hname hgap htext hends
    refine ⟨iff_of_true ?_ hends, absurd hends⟩
    rw [hsame, hexpanded, inlineTag_congr r scope hknown (hother.trans hbody.symm)]
  · have hshown := r.renderInline_of_not_nameEnds scope hname hgap htext hne hends
    refine ⟨iff_of_false (fun hsame => ?_) hends, fun _ => ?_⟩
    · rw [hshown, hexpanded] at hsame
      cases hnodes : r.inlineTag body scope with
      | error failure =>
        rw [hnodes] at hsame
        cases hsame
      | ok nodes =>
        rw [hnodes] at hsame
        exact escape_ne_renderAll r scope (tagNames_spec hname).1 hknown
          (congrArg Prod.snd hbody) hnodes (Except.ok.inj hsame)
    · rw [hshown, String.ofList_append, String.ofList_append, String.ofList_toList,
        String.ofList_toList, String.ofList_toList, String.append_assoc]

/-- A line break with an indentation behind it ends the name of a tag. -/
theorem renderInline_written_indented :
    "code" ∈ tagNames ∧ allBlank "\n ".toList = true ∧ "\n " ≠ "" ∧
      IsBalanced "int[] \x7b1\x7d".toList ∧
      (ofIndex .empty).renderInline (written "code" "\n " "int[] \x7b1\x7d") none =
        (ofIndex .empty).renderInline (written "code" " " "int[] \x7b1\x7d") none :=
  ⟨by decide, by decide, by decide, by decide,
    ((ofIndex .empty).renderInline_written_eq_iff none (by decide) (by decide) (by decide)
      (by decide)).1.mpr (.inl (by decide))⟩

/-- A line break alone does not end the name of a tag: the tag is shown and not expanded. -/
theorem renderInline_written_lineFeed :
    (ofIndex .empty).renderInline (written "code" "\n" "x") none = .ok "code\nx" ∧
      (ofIndex .empty).renderInline (written "code" " " "x") none = .ok "<code>x</code>" ∧
      (ofIndex .empty).renderInline (written "code" "\n" "x") none ≠
        (ofIndex .empty).renderInline (written "code" " " "x") none := by
  have hbroken : (ofIndex .empty).renderInline (written "code" "\n" "x") none = .ok "code\nx" := by
    rw [renderInline_written _ _ (by decide)]
    rfl
  have hplain : (ofIndex .empty).renderInline (written "code" " " "x") none =
      .ok "<code>x</code>" := by
    rw [renderInline_written _ _ (by decide)]
    rfl
  refine ⟨hbroken, hplain, ?_⟩
  rw [hbroken, hplain]
  decide

end Renderer

end Comment

end Apidoc
