import Apidoc.Proofs.Comment.Brace
import Apidoc.Proofs.Comment.Reference

/-!
# `Apidoc.Proofs.Comment.Inline`: running text, piece by piece

Running text is read from left to right, and a text in which every inline tag is closed is read
in the same way whatever stands behind it (`Complete.parts_append`). So running text can be
rendered in pieces that are complete (`renderInline_of_complete`). The pieces must not be cut
between the two characters that begin a tag: these are no tag on either side of the cut. A text
that is not complete is so up to the first tag that is never closed (`complete_or_unclosed`).
-/

set_option autoImplicit false

namespace Apidoc

/-- Fragments one after the other are written one after the other. -/
theorem Html.renderAll_append (front back : List Html.Node) :
    Html.renderAll (front ++ back) = Html.renderAll front ++ Html.renderAll back := by
  induction front with
  | nil => rw [List.nil_append, Html.renderAll, String.empty_append]
  | cons node rest ih => rw [List.cons_append, Html.renderAll, ih, Html.renderAll, String.append_assoc]

namespace Comment

open Apidoc.Html (Node)
open Apidoc.Model (Scope)

/-! ### Reading -/

namespace Inline

/-- What an inline tag begins with. -/
def mark : List Char := ['\x7b', '@']

/-- Every mark that a reader meets from left to right is closed by the brace that is its partner. -/
inductive Complete : List Char → Prop
  | nil : Complete []
  | char {c : Char} {rest : List Char} (hmark : ¬ mark <+: c :: rest) (hrest : Complete rest) :
      Complete (c :: rest)
  | tag {body after : List Char} (hbody : IsBalanced body) (hafter : Complete after) :
      Complete (mark ++ body ++ '\x7d' :: after)

/-- No brace behind a mark is its partner. -/
def Unclosed (rest : List Char) : Prop :=
  ∀ body after, rest = body ++ '\x7d' :: after → ¬ IsBalanced body

/-- A text ends between the two characters of a mark if the other one follows. -/
def SplitsMark (xs ys : List Char) : Prop := xs.getLast? = some '\x7b' ∧ ys.head? = some '@'

variable {cs xs ys body rest : List Char} {c : Char}

theorem not_mark_prefix_iff :
    ¬ mark <+: c :: rest ↔ ∀ more, c = '\x7b' → rest = '@' :: more → False := by
  constructor
  · rintro h more rfl rfl
    exact h ⟨more, rfl⟩
  · rintro h ⟨more, hmore⟩
    obtain ⟨rfl, hrest⟩ := List.cons.inj hmore
    exact h more rfl hrest.symm

/-- Where no mark stands, a character is read as itself. -/
theorem parts_char (h : ¬ mark <+: c :: rest) : parts (c :: rest) = char c :: parts rest := by
  rw [parts]
  exact not_mark_prefix_iff.mp h

/-- A mark with its partner is read as a tag. -/
theorem parts_tag (hbody : IsBalanced body) (after : List Char) :
    parts (mark ++ body ++ '\x7d' :: after) = tag body :: parts after := by
  have hclose : closeBrace 0 (body ++ '\x7d' :: after) = some (body, after) :=
    closeBrace_eq_some_iff.mpr ⟨rfl, hbody⟩
  rw [mark, List.append_assoc, List.cons_append, List.cons_append, List.nil_append, parts]
  split
  · rename_i other more hother
    rw [hclose] at hother
    cases hother
    rfl
  · rename_i hnone
    rw [hclose] at hnone
    cases hnone

/-- From a mark without partner on, nothing is a tag. -/
theorem parts_unclosed (h : Unclosed rest) :
    parts (mark ++ rest) = (mark ++ rest).map char := by
  have hclose : closeBrace 0 rest = none := closeBrace_eq_none_iff.mpr h
  rw [mark, List.cons_append, List.cons_append, List.nil_append, parts]
  split
  · rename_i body more hother
    rw [hclose] at hother
    cases hother
  · rfl

/-- A text in which all tags are closed is read in the same way in front of other text. -/
theorem Complete.parts_append (hxs : Complete xs) (hborder : ¬ SplitsMark xs ys) :
    parts (xs ++ ys) = parts xs ++ parts ys := by
  induction hxs with
  | nil =>
    rw [parts]
    rfl
  | @char c rest hmark hrest ih =>
    rw [parts_char hmark, List.cons_append, List.cons_append, parts_char, ih]
    · rintro ⟨hlast, hhead⟩
      refine hborder ⟨?_, hhead⟩
      rw [List.getLast?_cons, hlast]
      rfl
    · rw [not_mark_prefix_iff] at hmark ⊢
      intro more hc hmore
      cases rest with
      | nil =>
        -- The mark would begin with the last character of the text.
        rw [List.nil_append] at hmore
        exact hborder ⟨by rw [hc]; rfl, by rw [hmore]; rfl⟩
      | cons d rest =>
        obtain ⟨rfl, -⟩ := List.cons.inj hmore
        exact hmark rest hc rfl
  | @tag body after hbody hafter ih =>
    rw [parts_tag hbody, List.append_assoc, List.cons_append, parts_tag hbody, ih]
    · rfl
    · rintro ⟨hlast, hhead⟩
      refine hborder ⟨?_, hhead⟩
      rw [List.getLast?_append, List.getLast?_cons, hlast]
      rfl

/-- A text without marks is complete. -/
theorem complete_of_no_mark (h : ¬ mark <:+: cs) : Complete cs := by
  induction cs with
  | nil => exact .nil
  | cons c rest ih =>
    refine .char (fun hmark => h hmark.isInfix) (ih fun hrest => h ?_)
    exact hrest.trans (List.suffix_cons c rest).isInfix

/-- In a text without marks every character is read as itself. -/
theorem parts_of_no_mark (h : ¬ mark <:+: cs) : parts cs = cs.map char := by
  induction cs with
  | nil => rw [parts]; rfl
  | cons c rest ih =>
    rw [parts_char fun hmark => h hmark.isInfix, List.map_cons, ih fun hrest => h ?_]
    exact hrest.trans (List.suffix_cons c rest).isInfix

/-- A text is complete, or a mark without partner stands behind a complete part of it. -/
theorem complete_or_unclosed (cs : List Char) :
    Complete cs ∨ ∃ front rest, cs = front ++ (mark ++ rest) ∧ Complete front ∧ Unclosed rest := by
  -- A tag is passed in one step, so the induction is on what is left of the text.
  induction hlength : cs.length using Nat.strong_induction_on generalizing cs with
  | _ n ih =>
    subst hlength
    by_cases hmark : mark <+: cs
    · obtain ⟨more, rfl⟩ := hmark
      cases hclose : closeBrace 0 more with
      | none => exact .inr ⟨[], more, rfl, .nil, closeBrace_eq_none_iff.mp hclose⟩
      | some cut =>
        obtain ⟨body, after⟩ := cut
        obtain ⟨rfl, hbody⟩ := closeBrace_eq_some_iff.mp hclose
        rw [← List.append_assoc]
        rcases ih after.length (by simp; omega) after rfl with
          hafter | ⟨front, rest, rfl, hfront, hopen⟩
        · exact .inl (.tag hbody hafter)
        · refine .inr ⟨mark ++ body ++ '\x7d' :: front, rest, ?_, .tag hbody hfront, hopen⟩
          rw [List.append_assoc _ ('\x7d' :: front), List.cons_append]
    · cases cs with
      | nil => exact .inl .nil
      | cons c more =>
        rcases ih more.length (Nat.lt_succ_self _) more rfl with
          hmore | ⟨front, rest, rfl, hfront, hopen⟩
        · exact .inl (.char hmark hmore)
        · have hshort : ¬ mark <+: c :: front := fun h =>
            hmark (h.trans (List.prefix_append (c :: front) (mark ++ rest)))
          exact .inr ⟨c :: front, rest, rfl, .char hshort hfront, hopen⟩

end Inline

/-! ### Rendering -/

namespace Renderer

open Apidoc.Comment.Inline

variable (r : Renderer) (scope : Option Scope)

/-- Parts one after the other are rendered one after the other. -/
theorem inlineNodes_append (front back : List Inline) :
    r.inlineNodes scope (front ++ back) = (do
      let nodes ← r.inlineNodes scope front
      let more ← r.inlineNodes scope back
      return nodes ++ more) := by
  induction front with
  | nil =>
    show r.inlineNodes scope back = r.inlineNodes scope back >>= fun more => .ok more
    cases r.inlineNodes scope back <;> rfl
  | cons part rest ih =>
    rw [List.cons_append, inlineNodes, ih, inlineNodes]
    cases r.inlinePart scope part with
    | error failure => rfl
    | ok first =>
      cases r.inlineNodes scope rest with
      | error failure => rfl
      | ok nodes =>
        cases r.inlineNodes scope back with
        | error failure => rfl
        | ok more => exact congrArg Except.ok (List.append_assoc first nodes more).symm

/-- Characters outside of tags pass through. -/
theorem inlineNodes_char (cs : List Char) :
    ∃ nodes, r.inlineNodes scope (cs.map .char) = .ok nodes ∧
      Html.renderAll nodes = String.ofList cs := by
  induction cs with
  | nil => exact ⟨[], rfl, rfl⟩
  | cons c rest ih =>
    obtain ⟨nodes, hnodes, htext⟩ := ih
    refine ⟨.raw (String.ofList [c]) :: nodes, ?_, ?_⟩
    · rw [List.map_cons, inlineNodes, hnodes]
      rfl
    · rw [Html.renderAll, htext, Node.render, ← String.ofList_append]
      rfl

/-- A text in which nothing is read as a tag passes through. -/
theorem renderInline_of_parts {text : String}
    (h : parts text.toList = text.toList.map .char) : r.renderInline text scope = .ok text := by
  obtain ⟨nodes, hnodes, htext⟩ := r.inlineNodes_char scope text.toList
  rw [renderInline, h, hnodes]
  exact congrArg Except.ok (by rw [htext, String.ofList_toList])

variable {x y : String}

/-- A text in which all tags are closed is rendered apart from what follows it. -/
theorem renderInline_append (hx : Complete x.toList) (hborder : ¬ SplitsMark x.toList y.toList) :
    r.renderInline (x ++ y) scope = (do
      let front ← r.renderInline x scope
      let back ← r.renderInline y scope
      return front ++ back) := by
  rw [renderInline, String.toList_append, hx.parts_append hborder, inlineNodes_append, renderInline,
    renderInline]
  cases r.inlineNodes scope (parts x.toList) with
  | error failure => rfl
  | ok nodes =>
    cases r.inlineNodes scope (parts y.toList) with
    | error failure => rfl
    | ok more => exact congrArg Except.ok (Html.renderAll_append nodes more)

/-- Running text is rendered in pieces. A text in which all tags are closed is rendered apart from
what follows it, if no mark is cut in two. A text without marks passes through, and so does
everything behind a mark that is never closed. -/
theorem renderInline_of_complete :
    (∀ x y : String, Complete x.toList → ¬ SplitsMark x.toList y.toList →
      r.renderInline (x ++ y) scope = (do
        let front ← r.renderInline x scope
        let back ← r.renderInline y scope
        return front ++ back)) ∧
    (∀ x : String, ¬ mark <:+: x.toList → r.renderInline x scope = .ok x) ∧
    ∀ x y : String, Complete x.toList → mark <+: y.toList → Unclosed (y.toList.drop mark.length) →
      r.renderInline (x ++ y) scope = (do
        let front ← r.renderInline x scope
        return front ++ y) := by
  refine ⟨fun x y hx hborder => r.renderInline_append scope hx hborder,
    fun x hx => r.renderInline_of_parts scope (parts_of_no_mark hx), ?_⟩
  rintro x y hx ⟨rest, hy⟩ hopen
  rw [← hy, List.drop_left] at hopen
  -- What follows begins with the whole mark, so no mark is cut in two.
  have hborder : ¬ SplitsMark x.toList y.toList := by
    rintro ⟨-, hhead⟩
    rw [← hy] at hhead
    cases hhead
  have hpass : r.renderInline y scope = .ok y := by
    refine r.renderInline_of_parts scope ?_
    rw [← hy]
    exact parts_unclosed hopen
  rw [r.renderInline_append scope hx hborder, hpass]
  rfl

/-- A text with braces inside a tag, and an open one at its end. -/
def openAtEnd : String := "a \x7b@code \x7bb\x7d\x7d \x7b"

theorem complete_openAtEnd : Complete openAtEnd.toList := by
  have htext : openAtEnd.toList =
      'a' :: ' ' :: (mark ++ "code \x7bb\x7d".toList ++ '\x7d' :: [' ', '\x7b']) := by decide
  rw [htext]
  exact .char (by decide) (.char (by decide)
    (.tag (by decide) (complete_of_no_mark (by decide))))

/-- An open brace is no part of a mark if something else follows, and a mark that is never closed
may follow. -/
theorem renderInline_of_complete_openAtEnd :
    Complete openAtEnd.toList ∧ ¬ SplitsMark openAtEnd.toList "c\x7d".toList ∧
      (ofIndex .empty).renderInline (openAtEnd ++ "c\x7d") none = (do
        let front ← (ofIndex .empty).renderInline openAtEnd none
        let back ← (ofIndex .empty).renderInline "c\x7d" none
        return front ++ back) ∧
      ¬ mark <:+: "\x7b c @".toList ∧
      (ofIndex .empty).renderInline "\x7b c @" none = .ok "\x7b c @" ∧
      mark <+: "\x7b@code \x7bc\x7d".toList ∧
      Unclosed ("\x7b@code \x7bc\x7d".toList.drop mark.length) ∧
      (ofIndex .empty).renderInline (openAtEnd ++ "\x7b@code \x7bc\x7d") none = (do
        let front ← (ofIndex .empty).renderInline openAtEnd none
        return front ++ "\x7b@code \x7bc\x7d") := by
  obtain ⟨hpieces, hplain, hopen⟩ := (ofIndex .empty).renderInline_of_complete none
  have hborder : ¬ SplitsMark openAtEnd.toList "c\x7d".toList := by
    rintro ⟨-, hhead⟩
    exact absurd hhead (by decide)
  have hnone : ¬ mark <:+: "\x7b c @".toList := by decide
  have hmark : mark <+: "\x7b@code \x7bc\x7d".toList := by decide
  have hunclosed : Unclosed ("\x7b@code \x7bc\x7d".toList.drop mark.length) :=
    closeBrace_eq_none_iff.mp (by decide)
  exact ⟨complete_openAtEnd, hborder, hpieces _ _ complete_openAtEnd hborder, hnone,
    hplain _ hnone, hmark, hunclosed, hopen _ _ complete_openAtEnd hmark hunclosed⟩

end Renderer

end Comment

end Apidoc
