import Apidoc.Text.Blank
import Mathlib.Data.List.Basic
import Mathlib.Data.List.TakeWhile

/-!
# `Apidoc.Proofs.Text.Blank`: cutting texts and putting them together

A text is cut at the first mark or not at all (`cutAt_cases`), trimming and squeezing
leave a text without blanks alone, and splitting is undone by joining
(`join_splitOn`). Trimming takes blanks at the ends (`exists_blanks_trim`), which squeezing
takes as well (`squeeze_trim`). Splitting and joining are those of the standard library
(`splitOn_eq_splitOnP`, `join_eq_intercalate`), which has most of their laws.
-/

set_option autoImplicit false

namespace Apidoc.Text

variable {c : Char} {cs front : List Char}

/-! ### Cutting at a mark -/

/-- A text without the mark is not cut. -/
theorem cutAt_of_not_mem (h : c ∉ cs) : cutAt c cs = (cs, none) := by
  have hall : cs.dropWhile (fun x => decide (x ≠ c)) = [] := by
    refine List.dropWhile_eq_nil_iff.mpr fun x hx => ?_
    rw [decide_eq_true_eq]
    rintro rfl
    exact h hx
  rw [cutAt, hall]

/-- A text is cut at the first mark. -/
theorem cutAt_append_cons (h : c ∉ front) (rest : List Char) :
    cutAt c (front ++ c :: rest) = (front, some rest) := by
  have hfront : ∀ x ∈ front, decide (x ≠ c) = true := by
    intro x hx
    rw [decide_eq_true_eq]
    rintro rfl
    exact h hx
  have hdrop : (c :: rest).dropWhile (fun x => decide (x ≠ c)) = c :: rest :=
    List.dropWhile_cons_of_neg (by simp)
  have htake : (c :: rest).takeWhile (fun x => decide (x ≠ c)) = [] :=
    List.takeWhile_cons_of_neg (by simp)
  rw [cutAt, List.dropWhile_append_of_pos hfront, hdrop, List.takeWhile_append_of_pos hfront,
    htake, List.append_nil]

/-- A text has no mark and is not cut, or it is cut at the first one. -/
theorem cutAt_cases (c : Char) (cs : List Char) :
    (c ∉ cs ∧ cutAt c cs = (cs, none)) ∨
    ∃ front rest, c ∉ front ∧ cs = front ++ c :: rest ∧ cutAt c cs = (front, some rest) := by
  by_cases h : c ∈ cs
  · obtain ⟨front, rest, rfl, hfront⟩ := List.eq_append_cons_of_mem h
    exact .inr ⟨front, rest, hfront, rfl, cutAt_append_cons hfront rest⟩
  · exact .inl ⟨h, cutAt_of_not_mem h⟩

/-- In front of a rest, a text without the mark belongs to the first part. -/
theorem cutAt_append (h : c ∉ front) (rest : List Char) :
    cutAt c (front ++ rest) = (front ++ (cutAt c rest).1, (cutAt c rest).2) := by
  rcases cutAt_cases c rest with ⟨hrest, hcut⟩ | ⟨before, after, hbefore, rfl, hcut⟩
  · rw [hcut, cutAt_of_not_mem (by simp [h, hrest])]
  · rw [hcut, ← List.append_assoc, cutAt_append_cons (by simp [h, hbefore])]

/-- A text without the mark is all behind the last one. -/
theorem afterLast_of_not_mem (h : c ∉ cs) : afterLast c cs = cs := by
  have hall : ∀ x ∈ cs.reverse, decide (x ≠ c) = true := by
    intro x hx
    rw [decide_eq_true_eq]
    rintro rfl
    exact h (List.mem_reverse.mp hx)
  rw [afterLast, List.takeWhile_eq_self_iff.mpr hall, List.reverse_reverse]

/-- In front of a mark there is nothing that is behind the last one. -/
theorem afterLast_append_cons (front back : List Char) :
    afterLast c (front ++ c :: back) = afterLast c back := by
  have hmark : (c :: front.reverse).takeWhile (fun x => decide (x ≠ c)) = [] :=
    List.takeWhile_cons_of_neg (by simp)
  rw [afterLast, afterLast, List.reverse_append, List.reverse_cons, List.append_assoc,
    List.singleton_append, List.takeWhile_append, hmark, List.append_nil]
  split
  · rename_i hlength
    rw [(List.takeWhile_prefix _).eq_of_length hlength]
  · rfl

/-- What is behind the last mark is the whole text, or what a mark is in front of. -/
theorem afterLast_eq_iff {back : List Char} (h : c ∉ back) :
    afterLast c cs = back ↔ cs = back ∨ ∃ front, cs = front ++ c :: back := by
  constructor
  · intro hlast
    by_cases hmem : c ∈ cs.reverse
    · obtain ⟨rest, lead, hreverse, hrest⟩ := List.eq_append_cons_of_mem hmem
      have hcs : cs = lead.reverse ++ c :: rest.reverse := by
        rw [← List.reverse_reverse cs, hreverse]
        simp
      have hrest : c ∉ rest.reverse := fun hmem => hrest (List.mem_reverse.mp hmem)
      rw [hcs, afterLast_append_cons, afterLast_of_not_mem hrest] at hlast
      exact .inr ⟨lead.reverse, hlast ▸ hcs⟩
    · rw [afterLast_of_not_mem fun hc => hmem (List.mem_reverse.mpr hc)] at hlast
      exact .inl hlast
  · rintro (rfl | ⟨front, rfl⟩)
    · exact afterLast_of_not_mem h
    · rw [afterLast_append_cons, afterLast_of_not_mem h]

/-- A text begins with the lead that is dropped. -/
theorem dropLead?_eq_some_iff {lead rest : List Char} :
    dropLead? lead cs = some rest ↔ cs = lead ++ rest := by
  induction lead generalizing cs with
  | nil => rw [dropLead?, Option.some_inj, List.nil_append]
  | cons l lead ih =>
    cases cs with
    | nil => simp [dropLead?]
    | cons x cs =>
      rw [dropLead?, List.cons_append, List.cons.injEq]
      by_cases hx : l = x
      · rw [if_pos hx, ih, and_iff_right hx.symm]
      · rw [if_neg hx]
        exact iff_of_false nofun fun h => hx h.1.symm

/-! ### Texts without blanks -/

/-- Nothing is dropped in front of a character that stays. -/
theorem dropWhile_eq_self {p : Char → Bool} (h : ∀ x ∈ cs.head?, p x = false) :
    cs.dropWhile p = cs := by
  cases cs with
  | nil => rfl
  | cons x rest => rw [List.dropWhile_cons_of_neg (by simp [h x rfl])]

/-- Trimming leaves a text alone if no blank stands at its ends. -/
theorem trim_eq_self_of_ends (hfirst : ∀ x ∈ cs.head?, isBlank x = false)
    (hlast : ∀ x ∈ cs.getLast?, isBlank x = false) : trim cs = cs := by
  rw [← List.head?_reverse] at hlast
  rw [trim, trimStart, dropLeading, dropWhile_eq_self hfirst, trimEnd, dropTrailing,
    dropWhile_eq_self hlast, List.reverse_reverse]

/-- Trimming leaves a text without blanks alone. -/
theorem trim_eq_self (h : ∀ x ∈ cs, isBlank x = false) : trim cs = cs :=
  trim_eq_self_of_ends (fun x hx => h x (List.mem_of_mem_head? hx))
    fun x hx => h x (List.mem_of_getLast? hx)

/-- Dropping stops in front of something that stays. -/
theorem not_of_head?_dropWhile {α : Type} {p : α → Bool} {xs : List α} {x : α}
    (h : (xs.dropWhile p).head? = some x) : p x = false := by
  have hnot := List.head?_dropWhile_not p xs
  rw [h] at hnot
  exact hnot

/-- No blank stands in front of a text whose leading blanks were dropped. -/
theorem not_blank_of_trimStart {rest : List Char} (h : trimStart cs = c :: rest) :
    isBlank c = false :=
  not_of_head?_dropWhile (congrArg List.head? h)

/-- No blank stands in front of a trimmed text. -/
theorem not_blank_head?_trim (cs : List Char) : ∀ x ∈ (trim cs).head?, isBlank x = false := by
  intro x hx
  -- Trimming the end leaves the front, unless nothing is left at all.
  obtain ⟨blanks, hblanks⟩ : trim cs <+: cs.dropWhile isBlank := by
    rw [← List.reverse_suffix, trim, trimEnd, dropTrailing, List.reverse_reverse]
    exact List.dropWhile_suffix _
  have hhead : (cs.dropWhile isBlank).head? = some x := by
    rw [← hblanks, List.head?_append, hx]
    rfl
  exact not_of_head?_dropWhile hhead

/-- Trimming again changes nothing. -/
theorem trim_trim (cs : List Char) : trim (trim cs) = trim cs := by
  refine trim_eq_self_of_ends (not_blank_head?_trim cs) fun x hx => ?_
  rw [trim, trimEnd, dropTrailing, List.getLast?_reverse] at hx
  exact not_of_head?_dropWhile hx

/-- A blank is none of the other characters. -/
theorem ne_of_isBlank {x y : Char} (hx : isBlank x = true) (hy : isBlank y = false) : x ≠ y := by
  rintro rfl
  exact Bool.false_ne_true (hy.symm.trans hx)

theorem not_mem_of_isBlank {y : Char} (h : ∀ x ∈ cs, isBlank x = true) (hy : isBlank y = false) :
    y ∉ cs := fun hmem => ne_of_isBlank (h y hmem) hy rfl

/-- No end of a text is blank if the last character is not. -/
theorem eq_nil_of_blank_suffix {blanks : List Char} (hlast : ∀ x ∈ cs.getLast?, isBlank x = false)
    (hsuffix : blanks <:+ cs) (hblank : ∀ x ∈ blanks, isBlank x = true) : blanks = [] := by
  by_contra hne
  obtain ⟨lead, rfl⟩ := hsuffix
  rw [List.getLast?_append, List.getLast?_eq_some_getLast hne] at hlast
  exact ne_of_isBlank (hblank _ (List.getLast_mem hne)) (hlast _ rfl) rfl

/-- Trimming adds nothing. -/
theorem mem_of_mem_trim {x : Char} (h : x ∈ trim cs) : x ∈ cs := by
  rw [trim, trimEnd, dropTrailing, List.mem_reverse] at h
  have h := List.mem_reverse.mp ((List.dropWhile_sublist _).subset h)
  exact (List.dropWhile_sublist _).subset h

/-- Blanks behind a text are trimmed with it. -/
theorem trim_append_blank {blanks : List Char} (h : ∀ x ∈ blanks, isBlank x = true)
    (front : List Char) : trim (front ++ blanks) = trim front := by
  have hreverse : ∀ x ∈ blanks.reverse, isBlank x = true := fun x hx => h x (List.mem_reverse.mp hx)
  have hend : ∀ cs, trimEnd (cs ++ blanks) = trimEnd cs := by
    intro cs
    rw [trimEnd, dropTrailing, List.reverse_append, List.dropWhile_append_of_pos hreverse]
    rfl
  rw [trim, trim, trimStart, trimStart, dropLeading, dropLeading, List.dropWhile_append]
  split
  · rename_i hnone
    rw [List.isEmpty_iff.mp hnone, List.dropWhile_eq_nil_iff.mpr h]
  · exact hend _

/-- Nothing is left of blanks, and only of them. -/
theorem trim_eq_nil_iff : trim cs = [] ↔ allBlank cs = true := by
  constructor
  · intro h
    rw [trim, trimEnd, dropTrailing, List.reverse_eq_nil_iff, List.dropWhile_eq_nil_iff] at h
    cases hstart : trimStart cs with
    | nil => exact List.all_eq_true.mpr (List.dropWhile_eq_nil_iff.mp hstart)
    | cons x rest =>
      have hx : isBlank x = true := h x (List.mem_reverse.mpr (hstart ▸ List.mem_cons_self))
      rw [not_blank_of_trimStart hstart] at hx
      cases hx
  · intro h
    have htrim : trim ([] ++ cs) = trim [] := trim_append_blank (List.all_eq_true.mp h) []
    exact htrim

/-- Blanks in front of a text are trimmed with it. -/
theorem trim_blank_append {blanks : List Char} (h : ∀ x ∈ blanks, isBlank x = true)
    (back : List Char) : trim (blanks ++ back) = trim back := by
  rw [trim, trim, trimStart, trimStart, dropLeading, dropLeading, List.dropWhile_append_of_pos h]

/-- A text is what trimming leaves of it, between blanks. -/
theorem exists_blanks_trim (cs : List Char) :
    ∃ lead trail, cs = lead ++ trim cs ++ trail ∧ (∀ x ∈ lead, isBlank x = true) ∧
      ∀ x ∈ trail, isBlank x = true := by
  have hstart : cs.takeWhile isBlank ++ trimStart cs = cs := List.takeWhile_append_dropWhile
  have hend : trim cs ++ ((trimStart cs).reverse.takeWhile isBlank).reverse = trimStart cs := by
    rw [trim, trimEnd, dropTrailing, ← List.reverse_append, List.takeWhile_append_dropWhile,
      List.reverse_reverse]
  refine ⟨cs.takeWhile isBlank, ((trimStart cs).reverse.takeWhile isBlank).reverse, ?_, ?_, ?_⟩
  · rw [List.append_assoc, hend, hstart]
  · exact fun x hx => List.mem_takeWhile_imp hx
  · exact fun x hx => List.mem_takeWhile_imp (List.mem_reverse.mp hx)

/-- Leading blanks end before a text that is not blank does. -/
theorem trimStart_append (h : allBlank front = false) (back : List Char) :
    trimStart (front ++ back) = trimStart front ++ back := by
  rw [trimStart, trimStart, dropLeading, dropLeading, List.dropWhile_append, if_neg]
  rw [List.isEmpty_iff, List.dropWhile_eq_nil_iff, ← List.all_eq_true]
  exact Bool.eq_false_iff.mp h

/-- Trailing blanks begin behind a text that is not blank. -/
theorem trimEnd_append {back : List Char} (h : allBlank back = false) (front : List Char) :
    trimEnd (front ++ back) = front ++ trimEnd back := by
  have hreverse : allBlank back.reverse = false := by rw [allBlank, List.all_reverse]; exact h
  have hdrop := trimStart_append hreverse front.reverse
  rw [trimStart, trimStart, dropLeading, dropLeading] at hdrop
  rw [trimEnd, trimEnd, dropTrailing, dropTrailing, List.reverse_append, hdrop,
    List.reverse_append, List.reverse_reverse]

/-- Between texts that are not blank, nothing is trimmed. -/
theorem trim_append_append {back : List Char} (hfront : allBlank front = false)
    (hback : allBlank back = false) (mid : List Char) :
    trim (front ++ mid ++ back) = trimStart front ++ mid ++ trimEnd back := by
  rw [trim, List.append_assoc, trimStart_append hfront, ← List.append_assoc, trimEnd_append hback]

/-! ### Squeezing -/

theorem squeeze_append (front back : List Char) :
    squeeze (front ++ back) = squeeze front ++ squeeze back :=
  List.filter_append front back

/-- Nothing is left of blanks. -/
theorem squeeze_of_blank (h : ∀ x ∈ cs, isBlank x = true) : squeeze cs = [] := by
  rw [squeeze, List.filter_eq_nil_iff]
  exact fun x hx => by simp [h x hx]

theorem squeeze_trimStart (cs : List Char) : squeeze (trimStart cs) = squeeze cs := by
  have hlead : squeeze (cs.takeWhile isBlank) = [] :=
    squeeze_of_blank fun x hx => List.mem_takeWhile_imp hx
  have hsqueeze := squeeze_append (cs.takeWhile isBlank) (cs.dropWhile isBlank)
  rw [List.takeWhile_append_dropWhile, hlead, List.nil_append] at hsqueeze
  exact hsqueeze.symm

/-- Trimming takes blanks only. -/
theorem squeeze_trim (cs : List Char) : squeeze (trim cs) = squeeze cs := by
  obtain ⟨lead, trail, hcs, hlead, htrail⟩ := exists_blanks_trim cs
  have hsqueeze := congrArg squeeze hcs
  rw [squeeze_append, squeeze_append, squeeze_of_blank hlead, squeeze_of_blank htrail,
    List.nil_append, List.append_nil] at hsqueeze
  exact hsqueeze.symm

/-- Squeezing leaves a text alone exactly if it has no blanks. -/
theorem squeeze_eq_self_iff : squeeze cs = cs ↔ ∀ x ∈ cs, isBlank x = false := by
  rw [squeeze, List.filter_eq_self]
  simp

/-! ### Splitting and joining -/

/-- Splitting is that of the standard library. -/
theorem splitOn_eq_splitOnP (sep : Char → Bool) (cs : List Char) :
    splitOn sep cs = cs.splitOnP sep := by
  induction cs with
  | nil => rfl
  | cons x rest ih =>
    rw [splitOn, ih, List.splitOnP_cons_eq_if_modifyHead]
    split
    · rfl
    · cases hsplit : rest.splitOnP sep with
      | nil => exact absurd hsplit (List.splitOnP_ne_nil sep rest)
      | cons part parts => rfl

/-- Joining is that of the standard library. -/
theorem join_eq_intercalate (sep : List Char) (parts : List (List Char)) :
    join sep parts = sep.intercalate parts := by
  induction parts with
  | nil => rfl
  | cons part rest ih =>
    cases rest with
    | nil => rw [List.intercalate_singleton]; rfl
    | cons next more => rw [List.intercalate_cons_cons, ← ih]; rfl

/-- Joining what was split gives the text back. -/
theorem join_splitOn (c : Char) (cs : List Char) : join [c] (splitOn (· = c) cs) = cs := by
  rw [join_eq_intercalate, splitOn_eq_splitOnP]
  exact List.intercalate_splitOn c

/-- Texts on both sides of a separator are split apart from each other. -/
theorem splitOn_append_cons {sep : Char → Bool} (h : sep c = true) (front rest : List Char) :
    splitOn sep (front ++ c :: rest) = splitOn sep front ++ splitOn sep rest := by
  simp only [splitOn_eq_splitOnP]
  exact List.splitOnP_append_cons front rest h

/-- A text without separators is its only part. -/
theorem splitOn_of_not_mem (h : c ∉ cs) : splitOn (· = c) cs = [cs] := by
  rw [splitOn_eq_splitOnP]
  refine List.splitOnP_eq_singleton fun x hx => ?_
  rw [decide_eq_false_iff_not]
  rintro rfl
  exact h hx

/-- Before further parts stands a separator. -/
theorem join_cons {parts : List (List Char)} (h : parts ≠ []) (part sep : List Char) :
    join sep (part :: parts) = part ++ (sep ++ join sep parts) := by
  obtain ⟨next, more, rfl⟩ := List.exists_cons_of_ne_nil h
  rw [join, List.append_assoc]
  exact List.cons_ne_nil next more

/-- Between two rows of texts stands a separator as well. -/
theorem join_append {parts others : List (List Char)} (h : parts ≠ []) (h' : others ≠ [])
    (sep : List Char) : join sep (parts ++ others) = join sep parts ++ (sep ++ join sep others) := by
  induction parts with
  | nil => exact absurd rfl h
  | cons part rest ih =>
    rw [List.cons_append, join_cons (List.append_ne_nil_of_right_ne_nil rest h')]
    by_cases hrest : rest = []
    · rw [hrest]
      rfl
    · rw [ih hrest, join_cons hrest]
      simp only [List.append_assoc]

/-- A character of joined texts is one of the separator or one of a text. -/
theorem mem_join {x : Char} {sep : List Char} {parts : List (List Char)} (h : x ∈ join sep parts) :
    x ∈ sep ∨ ∃ part ∈ parts, x ∈ part := by
  induction parts with
  | nil => exact absurd h List.not_mem_nil
  | cons part rest ih =>
    by_cases hrest : rest = []
    · rw [hrest] at h
      exact .inr ⟨part, List.mem_cons_self, h⟩
    · rw [join_cons hrest] at h
      rcases List.mem_append.mp h with hpart | h
      · exact .inr ⟨part, List.mem_cons_self, hpart⟩
      rcases List.mem_append.mp h with hsep | h
      · exact .inl hsep
      obtain hsep | ⟨other, hother, hx⟩ := ih h
      · exact .inl hsep
      · exact .inr ⟨other, List.mem_cons_of_mem _ hother, hx⟩

/-- The parts of joined texts are the parts of each of them. -/
theorem splitOn_join (c : Char) {parts : List (List Char)} (h : parts ≠ []) :
    splitOn (· = c) (join [c] parts) = parts.flatMap (splitOn (· = c)) := by
  induction parts with
  | nil => exact absurd rfl h
  | cons part rest ih =>
    rw [List.flatMap_cons]
    by_cases hrest : rest = []
    · rw [hrest, List.flatMap_nil, List.append_nil]
      rfl
    · rw [join_cons hrest, List.singleton_append, splitOn_append_cons (decide_eq_true rfl),
        ih hrest]

/-- Texts that are not empty and have no mark are read back from what they are joined to. -/
theorem filter_splitOn_join {parts : List (List Char)} (h : ∀ part ∈ parts, part ≠ [] ∧ c ∉ part) :
    (splitOn (· = c) (join [c] parts)).filter (· ≠ []) = parts := by
  by_cases hparts : parts = []
  · rw [hparts]
    rfl
  have hone : parts.flatMap (splitOn (· = c)) = parts.flatMap fun part => [part] :=
    List.flatMap_congr fun part hpart => splitOn_of_not_mem (h part hpart).2
  rw [splitOn_join c hparts, hone, List.flatMap_singleton', List.filter_eq_self]
  exact fun part hpart => decide_eq_true (h part hpart).1

/-- A part lies in one piece in the joined text. -/
theorem infix_join_of_mem {part : List Char} {parts : List (List Char)} (h : part ∈ parts)
    (sep : List Char) : part <:+: join sep parts := by
  induction parts with
  | nil => exact absurd h List.not_mem_nil
  | cons first rest ih =>
    by_cases hrest : rest = []
    · rw [hrest] at h ⊢
      rw [List.mem_singleton.mp h]
      exact List.infix_refl _
    · rw [join_cons hrest]
      rcases List.mem_cons.mp h with rfl | h
      · exact (List.prefix_append _ _).isInfix
      · exact (ih h).trans ((List.suffix_append _ _).trans (List.suffix_append _ _)).isInfix

/-- A part lies in one piece in the text that is split. -/
theorem infix_of_mem_splitOn {part : List Char} (h : part ∈ splitOn (· = c) cs) :
    part <:+: cs := by
  have hpart := infix_join_of_mem h [c]
  rwa [join_splitOn] at hpart

/-- No part has a separator. -/
theorem not_mem_of_mem_splitOn {part : List Char} (h : part ∈ splitOn (· = c) cs) : c ∉ part := by
  induction cs generalizing part with
  | nil =>
    rw [List.mem_singleton.mp h]
    exact List.not_mem_nil
  | cons x rest ih =>
    rw [splitOn] at h
    split at h
    · rcases List.mem_cons.mp h with rfl | h
      · exact List.not_mem_nil
      · exact ih h
    · rename_i hx
      have hx : c ≠ x := fun hx' => hx (decide_eq_true hx'.symm)
      cases hsplit : splitOn (· = c) rest with
      | nil =>
        rw [hsplit] at h
        rw [List.mem_singleton.mp h]
        exact fun hc => hx (List.mem_singleton.mp hc)
      | cons first more =>
        rw [hsplit] at h ih
        rcases List.mem_cons.mp h with rfl | h
        · rw [List.mem_cons, not_or]
          exact ⟨hx, ih List.mem_cons_self⟩
        · exact ih (List.mem_cons_of_mem first h)

end Apidoc.Text
