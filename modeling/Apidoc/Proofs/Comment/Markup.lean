import Apidoc.Proofs.Comment.Inline
import Apidoc.Proofs.Comment.Renderer
import Apidoc.Proofs.Html.Markup
import Mathlib.Data.List.Forall2

/-!
# `Apidoc.Proofs.Comment.Markup`: inline tags bring no markup into a page

Text outside of inline tags passes through, and may hold markup of its own. What comes out for a
tag is a fragment of closed elements with everything in it escaped, whatever the tag says and
wherever it leads (`isSafe_of_inlineTag`). So if a text has its angles in closed tags only, the
whole output is such a fragment (`isMarkup_renderInline`).

The tags have to be closed from left to right: a mark that is never closed takes everything behind
it out of reach, closed tags included (`unclosed_in_front`).
-/

set_option autoImplicit false

namespace Apidoc.Comment

open Apidoc.Html (Node IsInert IsPlain IsSafe IsMarkup)
open Apidoc.Model (Scope)
open Apidoc.Proofs (bind_inv)

namespace Inline

/-! ### Angles in closed tags -/

variable {cs body after front rest : List Char} {depth : Nat}

/-- Angles stand between a mark and the brace that is its partner, and nowhere else. -/
inductive OnlyInTags : List Char → Prop
  | nil : OnlyInTags []
  | char {c : Char} {rest : List Char} (hc : IsPlain c) (hrest : OnlyInTags rest) :
      OnlyInTags (c :: rest)
  | tag {body after : List Char} (hbody : IsBalanced body) (hafter : OnlyInTags after) :
      OnlyInTags (mark ++ body ++ '\x7d' :: after)

/-- Behind a mark without partner there is no angle. -/
def NoneBehindUnclosed (cs : List Char) : Prop :=
  ∀ front rest, cs = front ++ (mark ++ rest) → Unclosed rest → ∀ c ∈ rest, IsPlain c

/-- It is enough to look at each place where a mark stands. -/
theorem noneBehindUnclosed_iff : NoneBehindUnclosed cs ↔
    ∀ tail ∈ cs.tails, mark <+: tail → closeBrace 0 (tail.drop mark.length) = none →
      (tail.drop mark.length).all fun c => IsPlain c := by
  constructor
  · rintro h tail htail ⟨rest, rfl⟩ hclose
    obtain ⟨front, hfront⟩ := (List.mem_tails _ _).mp htail
    rw [List.drop_left] at hclose ⊢
    have hrest := h front rest hfront.symm (closeBrace_eq_none_iff.mp hclose)
    exact List.all_eq_true.mpr fun c hc => decide_eq_true (hrest c hc)
  · rintro h front rest rfl hopen
    have htail : mark ++ rest ∈ (front ++ (mark ++ rest)).tails :=
      (List.mem_tails _ _).mpr (List.suffix_append _ _)
    have hrest := h _ htail (List.prefix_append _ _)
    rw [List.drop_left] at hrest
    have hall := List.all_eq_true.mp (hrest (closeBrace_eq_none_iff.mpr hopen))
    exact fun c hc => of_decide_eq_true (hall c hc)

instance (cs : List Char) : Decidable (NoneBehindUnclosed cs) :=
  decidable_of_iff' _ noneBehindUnclosed_iff

/-- There is none behind such a mark in the rest of the text either. -/
theorem NoneBehindUnclosed.of_append (h : NoneBehindUnclosed (front ++ rest)) :
    NoneBehindUnclosed rest := fun more behind hrest =>
  h (front ++ more) behind (by rw [hrest, List.append_assoc])

/-- What follows in a text closes the braces that its beginning leaves open. -/
theorem Inside.of_append (h : Inside depth (front ++ rest)) :
    ∃ inner : Nat, (inner : Int) = depth + balance front ∧ Inside inner rest := by
  induction front generalizing depth with
  | nil => exact ⟨depth, by rw [balance_nil, Int.add_zero], h⟩
  | cons c front ih =>
    obtain ⟨next, hnext, hinside⟩ := inside_cons_iff.mp h
    obtain ⟨inner, hinner, hrest⟩ := ih hinside
    exact ⟨inner, by rw [balance_cons]; omega, hrest⟩

/-- A tag that has begun and not ended leaves a brace open. -/
theorem one_le_balance_of_tag (hbody : IsBalanced body) (hne : front ≠ [])
    (h : front <+: mark ++ body) : 1 ≤ balance front := by
  obtain ⟨c, front, rfl⟩ := List.exists_cons_of_ne_nil hne
  obtain ⟨hc, h⟩ := List.cons_prefix_cons.mp h
  rw [balance_cons, hc, braceStep_open]
  cases front with
  | nil => decide
  | cons d more =>
    obtain ⟨hd, h⟩ := List.cons_prefix_cons.mp h
    have hlow := hbody.2 more ((List.mem_inits _ _).mpr h)
    rw [balance_cons, hd, braceStep_of_ne (by decide) (by decide)]
    omega

/-- A whole tag is balanced. -/
theorem isBalanced_tag (hbody : IsBalanced body) : IsBalanced (mark ++ body ++ ['\x7d']) := by
  have hclose : Inside 1 ['\x7d'] := by decide
  have hrest : Inside 1 (body ++ ['\x7d']) := by simpa using hbody.append hclose
  rw [List.append_assoc]
  exact inside_cons_iff.mpr ⟨1, rfl, inside_cons_iff.mpr ⟨1, rfl, hrest⟩⟩

/-- If angles stand in tags only, they do so behind any part that leaves no brace open. Such a part
ends in front of a tag or behind it. -/
theorem OnlyInTags.of_append (h : OnlyInTags cs) (hcs : cs = front ++ rest)
    (hfront : Inside depth front) : OnlyInTags rest := by
  induction h generalizing front depth with
  | nil =>
    obtain ⟨rfl, rfl⟩ := List.append_eq_nil_iff.mp hcs.symm
    exact .nil
  | char hc hmore ih =>
    cases front with
    | nil =>
      rw [List.nil_append] at hcs
      exact hcs ▸ .char hc hmore
    | cons d front =>
      obtain ⟨inner, -, hinside⟩ := inside_cons_iff.mp hfront
      exact ih (List.cons.inj hcs).2 hinside
  | @tag body after hbody hafter ih =>
    by_cases hnone : front = []
    · rw [hnone, List.nil_append] at hcs
      exact hcs ▸ .tag hbody hafter
    rw [List.append_cons] at hcs
    rcases List.append_eq_append_iff.mp hcs with ⟨more, rfl, hrest⟩ | ⟨more, htag, hrest⟩
    · obtain ⟨inner, -, hinside⟩ := hfront.of_append
      exact ih hrest hinside
    · cases more using List.reverseRecOn with
      | nil => exact hrest ▸ hafter
      | append_singleton more last =>
        -- The part would end inside of the tag.
        rw [← List.append_assoc] at htag
        have hprefix : front <+: mark ++ body := ⟨more, (List.append_inj' htag rfl).1.symm⟩
        have hopen := one_le_balance_of_tag hbody hnone hprefix
        have hclosed := hfront.1
        omega

/-- A character in front of which no tag begins is plain, and angles stand in tags only behind it. -/
theorem OnlyInTags.of_cons {d : Char} {more : List Char} (h : OnlyInTags (d :: more))
    (hmark : ¬ mark <+: d :: more) : IsPlain d ∧ OnlyInTags more := by
  generalize hcs : d :: more = cs at h
  cases h with
  | nil => cases hcs
  | char hd hmore =>
    obtain ⟨rfl, rfl⟩ := List.cons.inj hcs
    exact ⟨hd, hmore⟩
  | tag hbody hafter => exact absurd ⟨_, by rw [hcs, List.append_assoc]⟩ hmark

/-- The parts from a mark without partner on are the characters that stand there. -/
theorem isPlain_of_mem_unclosed {more : List Char} (hopen : Unclosed more)
    (h : ∀ c ∈ more, IsPlain c) {c : Char} (hc : .char c ∈ parts (mark ++ more)) : IsPlain c := by
  rw [parts_unclosed hopen] at hc
  obtain ⟨d, hd, hchar⟩ := List.mem_map.mp hc
  obtain rfl : d = c := Inline.char.inj hchar
  have hmark : ∀ c ∈ mark, IsPlain c := by simp [mark, IsPlain]
  exact (List.mem_append.mp hd).elim (hmark d) (h d)

/-- The parts of a text with angles in closed tags only are such tags, and other characters. -/
theorem isPlain_of_mem_parts (h : OnlyInTags cs) (hunclosed : NoneBehindUnclosed cs) {c : Char}
    (hc : .char c ∈ parts cs) : IsPlain c := by
  -- A tag is passed in one step, so the induction is on what is left of the text.
  induction hlength : cs.length using Nat.strong_induction_on generalizing cs with
  | _ n ih =>
    subst hlength
    by_cases hmark : mark <+: cs
    · obtain ⟨more, rfl⟩ := hmark
      cases hclose : closeBrace 0 more with
      | none =>
        have hopen : Unclosed more := closeBrace_eq_none_iff.mp hclose
        exact isPlain_of_mem_unclosed hopen (hunclosed [] more rfl hopen) hc
      | some cut =>
        obtain ⟨body, after⟩ := cut
        obtain ⟨rfl, hbody⟩ := closeBrace_eq_some_iff.mp hclose
        have hcut : mark ++ (body ++ '\x7d' :: after) = (mark ++ body ++ ['\x7d']) ++ after := by
          simp
        rw [← List.append_assoc, parts_tag hbody] at hc
        rcases List.mem_cons.mp hc with hc | hc
        · cases hc
        · exact ih after.length (by simp; omega) (h.of_append hcut (isBalanced_tag hbody))
            (hcut ▸ hunclosed).of_append hc rfl
    · cases cs with
      | nil =>
        rw [parts] at hc
        cases hc
      | cons d more =>
        obtain ⟨hd, hmore⟩ := h.of_cons hmark
        rw [parts_char hmark] at hc
        rcases List.mem_cons.mp hc with hc | hc
        · exact Inline.char.inj hc ▸ hd
        · have hbehind : NoneBehindUnclosed ([d] ++ more) := hunclosed
          exact ih _ (Nat.lt_succ_self _) hmore hbehind.of_append hc rfl

end Inline

/-! ### The fragments of tags -/

namespace Renderer

open Apidoc.Comment.Inline

variable {r : Renderer} {scope : Option Scope} {body : List Char} {nodes : List Node}

/-- A link is safe, wherever it leads. -/
theorem isSafe_link (r : Renderer) (target : String) (scope : Option Scope) (label : Option String)
    (asCode : Bool) : IsSafe (r.link target scope label asCode) := by
  unfold link
  dsimp only
  split
  · refine .element (by decide) (fun a ha => ?_) fun n hn => ?_
    · rw [List.mem_singleton.mp ha]
      exact List.mem_cons_self
    rw [List.mem_singleton.mp hn]
    split
    · exact Html.isSafe_code _
    · exact .text _
  · exact Html.isSafe_code _

/-- A listing is safe. -/
theorem isSafe_sampleBlock (code : String) : IsSafe (sampleBlock code) := by
  refine .element (by decide) (by decide) fun n hn => ?_
  rw [List.mem_singleton.mp hn]
  refine .element (by decide) (by decide) fun n hn => ?_
  rw [List.mem_singleton.mp hn]
  exact .text code

/-- A tag that asks for a sample is safe, whatever is found. -/
theorem isSafe_of_sample {target : List Char} (h : r.sample target scope = .ok nodes) :
    ∀ n ∈ nodes, IsSafe n := by
  cases hfind : r.samples with
  | none =>
    rw [sample, hfind] at h
    cases h
    exact List.forall_mem_nil _
  | some find =>
    rw [sample_of_find scope hfind] at h
    obtain ⟨code, -, h⟩ := bind_inv h
    cases h
    split
    · exact List.forall_mem_nil _
    · intro n hn
      rw [List.mem_singleton.mp hn]
      exact isSafe_sampleBlock code

/-- Whatever comes out for a tag is safe. -/
theorem isSafe_of_inlineTag (h : r.inlineTag body scope = .ok nodes) : ∀ n ∈ nodes, IsSafe n := by
  have hone : ∀ {node : Node}, IsSafe node → (.ok [node] : Except Failure (List Node)) = .ok nodes →
      ∀ n ∈ nodes, IsSafe n := by
    intro node hnode hnodes n hn
    cases hnodes
    rw [List.mem_singleton.mp hn]
    exact hnode
  have hexpands := r.expands scope body
  generalize r.inlineTag body scope = result at hexpands h
  cases hexpands with
  | code | value => exact hone (Html.isSafe_code _) h
  | literal | unknown => exact hone (.text _) h
  | link => exact hone (isSafe_link ..) h
  | inheritDoc =>
    cases h
    exact nofun
  | sample => exact isSafe_of_sample h

/-- What comes out for a part of running text. A character outside of tags is itself, and no angle.
A tag is a fragment without quotes outside of its own tags. -/
def ShownAs : Inline → List Char → Prop
  | .char c, piece => piece = [c] ∧ IsPlain c
  | .tag _, piece => IsMarkup IsInert piece

/-- Running text comes out part by part. -/
theorem forall₂_shownAs {parts : List Inline} (h : r.inlineNodes scope parts = .ok nodes)
    (hplain : ∀ c, .char c ∈ parts → IsPlain c) :
    ∃ pieces : List (List Char), (Html.renderAll nodes).toList = pieces.flatten ∧
      List.Forall₂ ShownAs parts pieces := by
  induction parts generalizing nodes with
  | nil =>
    cases h
    exact ⟨[], rfl, .nil⟩
  | cons part rest ih =>
    obtain ⟨front, hfront, h⟩ := bind_inv h
    obtain ⟨back, hback, h⟩ := bind_inv h
    cases h
    obtain ⟨pieces, hpieces, hshown⟩ := ih hback fun c hc => hplain c (List.mem_cons_of_mem _ hc)
    refine ⟨(Html.renderAll front).toList :: pieces, ?_, .cons ?_ hshown⟩
    · rw [Html.renderAll_append, String.toList_append, hpieces, List.flatten_cons]
    · cases part with
      | char c =>
        cases hfront
        refine ⟨?_, hplain c List.mem_cons_self⟩
        simp [Html.renderAll, Node.render]
      | tag body =>
        exact Html.isMarkup_renderAll fun n hn => (isSafe_of_inlineTag hfront n hn).isMarkup

/-- Parts that come out so are a fragment together. -/
theorem isMarkup_of_shownAs {parts : List Inline} {pieces : List (List Char)}
    (h : List.Forall₂ ShownAs parts pieces) : IsMarkup IsPlain pieces.flatten := by
  induction h with
  | nil => exact .nil
  | @cons part piece parts pieces hpiece _ ih =>
    rw [List.flatten_cons]
    refine .append ?_ ih
    cases part with
    | char c =>
      obtain ⟨rfl, hc⟩ := hpiece
      exact .char hc .nil
    | tag body =>
      refine IsMarkup.mono (fun c hc hangle => hc ?_) hpiece
      rcases List.mem_cons.mp hangle with rfl | hangle
      · exact List.mem_cons_self
      · rw [List.mem_singleton.mp hangle]
        decide

/-- Running text is not rendered if and only if a tag asks for a sample and the lookup fails. -/
theorem renderInline_error_iff_lookup (r : Renderer) (scope : Option Scope) (text : String) :
    (∃ f, r.renderInline text scope = .error f) ↔
      ∃ find, r.samples = some find ∧ ∃ body, .tag body ∈ parts text.toList ∧
        String.ofList (nameAndText body).1 = "sample" ∧
        ∃ f, find (askedFor (nameAndText body).2 scope).1 (askedFor (nameAndText body).2 scope).2 =
          .error f := by
  cases hfind : r.samples with
  | none =>
    have hfinds : r.FindsSamples := fun find h => by
      rw [hfind] at h
      cases h
    obtain ⟨html, hhtml⟩ := renderInline_ok hfinds scope text
    rw [hhtml]
    exact ⟨nofun, nofun⟩
  | some find =>
    rw [renderInline_error_iff scope hfind]
    constructor
    · exact fun h => ⟨find, rfl, h⟩
    · rintro ⟨_, ⟨⟩, h⟩
      exact h

/-- A text in which angles stand in closed tags only, and none behind a mark that is never closed,
is rendered as a fragment of closed elements, unless the lookup of a sample fails. Each tag comes
out as such a fragment in which no angle and no quote of the tag, of what it leads to or of the
listing that it shows stands for itself. -/
theorem isMarkup_renderInline (r : Renderer) (scope : Option Scope) (text : String)
    (h : OnlyInTags text.toList) (hunclosed : NoneBehindUnclosed text.toList) :
    (∀ out, r.renderInline text scope = .ok out →
      IsMarkup IsPlain out.toList ∧
      ∃ pieces : List (List Char), out.toList = pieces.flatten ∧
        List.Forall₂ ShownAs (parts text.toList) pieces) ∧
    ((∃ f, r.renderInline text scope = .error f) ↔
      ∃ find, r.samples = some find ∧ ∃ body, .tag body ∈ parts text.toList ∧
        String.ofList (nameAndText body).1 = "sample" ∧
        ∃ f, find (askedFor (nameAndText body).2 scope).1 (askedFor (nameAndText body).2 scope).2 =
          .error f) := by
  refine ⟨fun out hout => ?_, r.renderInline_error_iff_lookup scope text⟩
  obtain ⟨nodes, hnodes, hout⟩ := bind_inv hout
  cases hout
  obtain ⟨pieces, hpieces, hshown⟩ :=
    forall₂_shownAs hnodes fun c hc => isPlain_of_mem_parts h hunclosed hc
  exact ⟨hpieces ▸ isMarkup_of_shownAs hshown, pieces, hpieces, hshown⟩

/-- Angles and quotes in tags, and a quote outside of them. -/
def quotedInTags : String := "a \" \x7b@code <b>\x7d \x7b@link \"x\" '<i>'\x7d"

/-- They come out escaped. -/
theorem isMarkup_renderInline_quotedInTags :
    OnlyInTags quotedInTags.toList ∧ NoneBehindUnclosed quotedInTags.toList ∧
      ∃ out, (ofIndex .empty).renderInline quotedInTags none = .ok out ∧
        IsMarkup IsPlain out.toList := by
  have htext : quotedInTags.toList = "a \" ".toList ++ (mark ++ "code <b>".toList ++ '\x7d' ::
      ' ' :: (mark ++ "link \"x\" '<i>'".toList ++ '\x7d' :: [])) := by decide
  have honly : OnlyInTags quotedInTags.toList := by
    rw [htext]
    exact .char (by decide) (.char (by decide) (.char (by decide) (.char (by decide)
      (.tag (by decide) (.char (by decide) (.tag (by decide) .nil))))))
  have hnone : NoneBehindUnclosed quotedInTags.toList := by decide
  have hspec := isMarkup_renderInline (ofIndex .empty) none quotedInTags honly hnone
  have hfinds : (ofIndex .empty).FindsSamples := fun find hfind => by cases hfind
  obtain ⟨out, hout⟩ := renderInline_ok hfinds none quotedInTags
  exact ⟨honly, hnone, out, hout, (hspec.1 out hout).1⟩

/-- A closed tag with an element in it, behind a mark that is never closed. -/
def closedBehindOpen : String := "\x7b@x \x7b@code <b>\x7d"

/-- A mark that is never closed lets markup in tags behind it through. -/
theorem unclosed_in_front :
    OnlyInTags closedBehindOpen.toList ∧
      (ofIndex .empty).renderInline closedBehindOpen none = .ok closedBehindOpen ∧
      ¬ IsMarkup IsPlain closedBehindOpen.toList := by
  have htext : closedBehindOpen.toList =
      "\x7b@x ".toList ++ (mark ++ "code <b>".toList ++ '\x7d' :: []) := by decide
  refine ⟨?_, ?_, fun h => ?_⟩
  · rw [htext]
    exact .char (by decide) (.char (by decide) (.char (by decide) (.char (by decide)
      (.tag (by decide) .nil))))
  · refine (ofIndex .empty).renderInline_of_parts none ?_
    have hopen : Unclosed "x \x7b@code <b>\x7d".toList := closeBrace_eq_none_iff.mp (by decide)
    have hmark : closedBehindOpen.toList = mark ++ "x \x7b@code <b>\x7d".toList := by decide
    rw [hmark]
    exact parts_unclosed hopen
  · have hsplit : closedBehindOpen.toList =
        "\x7b@x \x7b@code ".toList ++ '<' :: "b>\x7d".toList := by decide
    rw [hsplit] at h
    obtain ⟨tag, htag, hbegins⟩ := (h.of_append (by simp)).of_angle (by decide)
    revert tag
    decide

end Renderer

end Apidoc.Comment
