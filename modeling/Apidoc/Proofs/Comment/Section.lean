import Apidoc.Proofs.Comment.Doc
import Mathlib.Data.List.Forall2

/-!
# `Apidoc.Proofs.Comment.Section`: what a comment keeps of its text

The lines of a comment are those of its description and the blocks of its tags, one after the
other (`exists_blocks`). A block is a sign, a word and a text, and the text goes on in the lines
below (`IsBlock`). So nothing but blanks is lost, and nothing is written twice or moved
(`substance_eq_squeeze_read`).

A tag that takes an argument takes the text up to the first plain blank. This is its first word
if the word ends at a plain blank or at the end of the text (`argument_eq_firstWord_iff`). Where
a line break or a tab ends the word, the argument goes on behind it
(`argument_across_lines`).
-/

set_option autoImplicit false

namespace Apidoc.Comment

open Apidoc.Text

namespace Doc

variable {cs line name rest : List Char} {below : List (List Char)}

/-! ### The blocks of a comment -/

/-- Lines that are a block tag with a name and a text: a sign and a word stand in the first line, and
what follows the word goes on in the lines below. -/
def IsBlock (block : List (List Char)) (name text : List Char) : Prop :=
  ∃ line rest below, block = line :: below ∧ trim line = '@' :: (name ++ rest) ∧
    name ≠ [] ∧ (∀ c ∈ name, isWord c = true) ∧ (∀ c ∈ rest.head?, isWord c = false) ∧
    text = trim (unlines (rest :: below))

/-- The text of a section. -/
def Section.text (s : Section) : List Char := trim (unlines s.lines)

/-- No blank stands in front of the text of a section. -/
theorem Section.trimStart_text (s : Section) : trimStart s.text = s.text :=
  dropWhile_eq_self (not_blank_head?_trim _)

/-- A line that starts a block tag has the sign and a whole word in front of the text. -/
theorem tagStart?_eq_some (h : tagStart? cs = some (name, rest)) :
    ∃ after, cs = '@' :: (name ++ after) ∧ name ≠ [] ∧ (∀ c ∈ name, isWord c = true) ∧
      (∀ c ∈ after.head?, isWord c = false) ∧ rest = trimStart after := by
  unfold tagStart? at h
  split at h
  · rename_i more
    dsimp only at h
    split at h
    · cases h
    · rename_i hne
      cases h
      refine ⟨more.dropWhile isWord, ?_, hne, fun c hc => List.mem_takeWhile_imp hc,
        fun c hc => ?_, rfl⟩
      · rw [List.takeWhile_append_dropWhile]
      · exact not_of_head?_dropWhile hc
  · cases h

/-- Blanks in front of the first line are trimmed with the text. -/
theorem trim_unlines_cons (rest : List Char) (below : List (List Char)) :
    trim (unlines (trimStart rest :: below)) = trim (unlines (rest :: below)) := by
  have hblank : ∀ c ∈ rest.takeWhile isBlank, isBlank c = true := fun c hc =>
    List.mem_takeWhile_imp hc
  have hsplit : unlines (rest :: below) =
      rest.takeWhile isBlank ++ unlines (trimStart rest :: below) := by
    have hrest : rest.takeWhile isBlank ++ trimStart rest = rest := List.takeWhile_append_dropWhile
    by_cases hbelow : below = []
    · rw [hbelow]
      exact hrest.symm
    · rw [unlines, unlines, join_cons hbelow, join_cons hbelow,
        ← List.append_assoc (rest.takeWhile isBlank), hrest]
  rw [hsplit, trim_blank_append hblank]

/-- The lines are those in front of all tags, and the blocks of the tags one after the other. -/
theorem exists_blocks (depth : Nat) (ls : List (List Char)) :
    ∃ blocks, ls = (sections depth ls).1 ++ blocks.flatten ∧
      List.Forall₂ (fun block s => IsBlock block s.name s.text) blocks (sections depth ls).2 := by
  induction ls generalizing depth with
  | nil => exact ⟨[], rfl, .nil⟩
  | cons line below ih =>
    obtain ⟨blocks, hlines, hblocks⟩ := ih (bracesAfter depth line)
    rw [sections]
    dsimp only
    split
    · rename_i name rest hstart
      -- The line takes what stands in front of the tags below it as the rest of its block.
      split at hstart
      · obtain ⟨after, hline, hne, hname, hafter, rfl⟩ := tagStart?_eq_some hstart
        refine ⟨(line :: (sections (bracesAfter depth line) below).1) :: blocks, ?_, .cons ?_ hblocks⟩
        · rw [List.flatten_cons, List.nil_append, List.cons_append, ← hlines]
        · exact ⟨line, after, _, rfl, hline, hne, hname, hafter, trim_unlines_cons _ _⟩
      · cases hstart
    · exact ⟨blocks, congrArg (line :: ·) hlines, hblocks⟩

/-! ### Arguments -/

/-- The first word of a text. -/
def firstWord (cs : List Char) : List Char := (trimStart cs).takeWhile fun c => !isBlank c

/-- The text behind its first word. -/
def behindFirstWord (cs : List Char) : List Char :=
  trim ((trimStart cs).dropWhile fun c => !isBlank c)

/-- A plain blank or nothing stands behind the first word of a text. -/
def WordEnds (cs : List Char) : Prop :=
  ∀ c ∈ ((trimStart cs).dropWhile fun c => !isBlank c).head?, c = ' '

/-- What stands in front of the first plain blank is the first word, if the word ends there. -/
theorem takeWhile_ne_space_iff (cs : List Char) :
    (cs.takeWhile fun c => c ≠ ' ') = (cs.takeWhile fun c => !isBlank c) ↔
      ∀ c ∈ (cs.dropWhile fun c => !isBlank c).head?, c = ' ' := by
  have hword : ∀ c ∈ cs.takeWhile fun c => !isBlank c, decide (c ≠ ' ') = true := by
    intro c hc
    have hblank := List.mem_takeWhile_imp hc
    rw [decide_eq_true_eq]
    rintro rfl
    exact absurd hblank (by decide)
  have hsplit : (cs.takeWhile fun c => decide (c ≠ ' ')) = (cs.takeWhile fun c => !isBlank c) ++
      (cs.dropWhile fun c => !isBlank c).takeWhile fun c => decide (c ≠ ' ') := by
    rw [← List.takeWhile_append_of_pos hword, List.takeWhile_append_dropWhile]
  rw [hsplit, List.append_right_eq_self]
  cases cs.dropWhile fun c => !isBlank c with
  | nil => simp
  | cons d tail => simp

/-- The cut at the first plain blank is the one behind the first word, if the word ends there. -/
theorem cut_eq_firstWord_iff (h : trimStart cs = cs) :
    ((cs.takeWhile fun c => c ≠ ' ') = firstWord cs ∧
      trim (cs.dropWhile fun c => c ≠ ' ') = behindFirstWord cs) ↔ WordEnds cs := by
  rw [firstWord, behindFirstWord, WordEnds, h, ← takeWhile_ne_space_iff]
  refine and_iff_left_of_imp fun hword => ?_
  have hsplit : (cs.takeWhile fun c => c ≠ ' ') ++ (cs.dropWhile fun c => c ≠ ' ') =
      (cs.takeWhile fun c => !isBlank c) ++ cs.dropWhile fun c => !isBlank c := by
    rw [List.takeWhile_append_dropWhile, List.takeWhile_append_dropWhile]
  rw [hword] at hsplit
  rw [List.append_cancel_left hsplit]

/-- A text is cut in front of its first plain blank, which is trimmed off. -/
theorem cutAt_space (cs : List Char) :
    (cutAt ' ' cs).1 = (cs.takeWhile fun c => c ≠ ' ') ∧
      trim ((cutAt ' ' cs).2.getD []) = trim (cs.dropWhile fun c => c ≠ ' ') := by
  have hstay : ∀ {front : List Char}, ' ' ∉ front → ∀ c ∈ front, decide (c ≠ ' ') = true := by
    intro front hfront c hc
    rw [decide_eq_true_eq]
    rintro rfl
    exact hfront hc
  rcases cutAt_cases ' ' cs with ⟨hcs, hcut⟩ | ⟨front, rest, hfront, rfl, hcut⟩
  · rw [hcut, List.takeWhile_eq_self_iff.mpr (hstay hcs), List.dropWhile_eq_nil_iff.mpr (hstay hcs)]
    exact ⟨rfl, rfl⟩
  · rw [hcut, List.takeWhile_append_of_pos (hstay hfront), List.dropWhile_append_of_pos (hstay hfront),
      List.takeWhile_cons_of_neg (by simp), List.dropWhile_cons_of_neg (by simp), List.append_nil]
    have hspace : ∀ c ∈ [' '], isBlank c = true := List.forall_mem_singleton.mpr rfl
    exact ⟨rfl, (trim_blank_append hspace rest).symm⟩

/-- A tag that takes an argument takes the text up to the first plain blank. -/
theorem Section.tag_of_mem {s : Section} (h : String.ofList s.name ∈ argumentTags) :
    s.tag = ⟨String.ofList s.name, String.ofList (s.text.takeWhile fun c => c ≠ ' '),
      String.ofList (trim (s.text.dropWhile fun c => c ≠ ' '))⟩ := by
  obtain ⟨hargument, htext⟩ := cutAt_space s.text
  rw [← hargument, ← htext]
  unfold tag
  dsimp only
  rw [if_pos h]
  rfl

/-- Another tag has no argument. -/
theorem Section.tag_of_not_mem {s : Section} (h : String.ofList s.name ∉ argumentTags) :
    s.tag = ⟨String.ofList s.name, "", String.ofList s.text⟩ := by
  unfold tag
  dsimp only
  rw [if_neg h]
  rfl

/-- A tag has the name of its section. -/
theorem Section.name_tag (s : Section) : s.tag.name = String.ofList s.name := by
  by_cases h : String.ofList s.name ∈ argumentTags
  · rw [tag_of_mem h]
  · rw [tag_of_not_mem h]

/-- The lines of a comment are those of its description and the blocks of its tags. Of the text of a
`param`, `throws` or `exception` tag, the argument is what stands in front of the first plain blank.
The argument is the first word of the text and the rest of the text is what is left, if and only if
a plain blank or nothing stands behind that word. -/
theorem argument_eq_firstWord_iff (raw : String) :
    ∃ front blocks, bodyLines raw.toList = front ++ blocks.flatten ∧
      (read raw).description.toList = trim (unlines front) ∧
      List.Forall₂ (fun block tag => ∃ text, IsBlock block tag.name.toList text ∧
          (tag.name ∈ argumentTags →
            (tag.argument.toList = (text.takeWhile fun c => c ≠ ' ') ∧
              tag.text.toList = trim (text.dropWhile fun c => c ≠ ' ')) ∧
            (tag.argument.toList = firstWord text ∧ tag.text.toList = behindFirstWord text ↔
              WordEnds text)))
        blocks (read raw).tags := by
  obtain ⟨blocks, hlines, hblocks⟩ := exists_blocks 0 (bodyLines raw.toList)
  rw [read_eq]
  refine ⟨_, blocks, hlines, String.toList_ofList, ?_⟩
  rw [List.forall₂_map_right_iff]
  refine hblocks.imp fun block s hblock => ⟨s.text, ?_, fun hmem => ?_⟩
  · rw [s.name_tag, String.toList_ofList]
    exact hblock
  · rw [s.name_tag] at hmem
    rw [Section.tag_of_mem hmem]
    dsimp only
    rw [String.toList_ofList, String.toList_ofList]
    exact ⟨⟨rfl, rfl⟩, cut_eq_firstWord_iff s.trimStart_text⟩

/-- A tag whose first line ends behind its argument. -/
def wrappedParam : String := "/** @param x\n * the value */"

/-- The argument goes on behind a line break, up to the first plain blank. -/
theorem argument_across_lines :
    (read wrappedParam).tags = [⟨"param", "x\nthe", "value"⟩] ∧
      IsBlock (bodyLines wrappedParam.toList) "param".toList "x\nthe value".toList ∧
      "x\nthe".toList ≠ firstWord "x\nthe value".toList ∧
      "value".toList ≠ behindFirstWord "x\nthe value".toList := by
  have hword : ∀ c ∈ "param".toList, isWord c = true := List.all_eq_true.mp (by decide)
  have hblank : ∀ c ∈ " x".toList.head?, isWord c = false := by
    rintro c ⟨⟩
    decide
  refine ⟨by decide, ?_, by decide, by decide⟩
  exact ⟨" @param x".toList, " x".toList, ["the value ".toList], by decide, by decide, by decide,
    hword, hblank, by decide⟩

/-! ### Nothing is lost -/

/-- A line without its blanks and without a star in front. -/
def lineSubstance (line : List Char) : List Char :=
  (dropLead? ['*'] (squeeze line)).getD (squeeze line)

/-- The characters of a comment other than blanks, between its delimiters and without a star in
front of a line. -/
def substance (raw : List Char) : List Char := (lines (body raw)).flatMap lineSubstance

/-- A tag as it is written, with nothing between its parts. -/
def written (tag : BlockTag) : List Char :=
  '@' :: (tag.name.toList ++ tag.argument.toList ++ tag.text.toList)

/-- With the star of a line, only blanks are left out. -/
theorem squeeze_dropStar (line : List Char) : squeeze (dropStar line) = lineSubstance line := by
  unfold lineSubstance dropStar
  rw [← squeeze_trimStart line]
  split
  · rename_i rest htrim
    rw [htrim]
    rfl
  · rename_i rest _ htrim
    rw [htrim]
    rfl
  · rename_i hstar
    rw [← squeeze_trimStart line]
    cases htrim : trimStart line with
    | nil => rfl
    | cons c more =>
      have hblank := not_blank_of_trimStart htrim
      have hc : '*' ≠ c := fun hc => hstar more (hc ▸ htrim)
      rw [squeeze, List.filter_cons_of_pos (by simp [hblank]), dropLead?, if_neg hc]
      rfl

/-- The characters of a block other than blanks are those of its tag. -/
theorem IsBlock.flatMap_squeeze {block : List (List Char)} {text : List Char}
    (h : IsBlock block name text) : block.flatMap squeeze = squeeze ('@' :: (name ++ text)) := by
  obtain ⟨line, rest, below, rfl, hline, -, -, -, rfl⟩ := h
  rw [List.flatMap_cons, ← squeeze_trim line, hline, ← List.cons_append, ← List.cons_append,
    squeeze_append, squeeze_append, squeeze_trim, squeeze_unlines, List.flatMap_cons,
    List.append_assoc]

/-- The argument and the text of a tag keep the text of its section. -/
theorem Section.squeeze_tag (s : Section) :
    squeeze (s.tag.argument.toList ++ s.tag.text.toList) = squeeze s.text := by
  by_cases h : String.ofList s.name ∈ argumentTags
  · rw [tag_of_mem h, String.toList_ofList, String.toList_ofList, squeeze_append, squeeze_trim,
      ← squeeze_append, List.takeWhile_append_dropWhile]
  · rw [tag_of_not_mem h]
    dsimp only
    rw [String.toList_empty, List.nil_append, String.toList_ofList]

/-- A tag keeps the characters of its block. -/
theorem Section.squeeze_written {block : List (List Char)} {s : Section}
    (h : IsBlock block s.name s.text) : squeeze (written s.tag) = block.flatMap squeeze := by
  rw [h.flatMap_squeeze, written, s.name_tag, String.toList_ofList, List.append_assoc,
    ← List.cons_append, ← List.cons_append, squeeze_append, s.squeeze_tag, ← squeeze_append]

theorem squeeze_flatMap_written {blocks : List (List (List Char))} {tags : List Section}
    (h : List.Forall₂ (fun block s => IsBlock block s.name s.text) blocks tags) :
    squeeze ((tags.map Section.tag).flatMap written) = blocks.flatten.flatMap squeeze := by
  induction h with
  | nil => rfl
  | cons hblock hblocks ih =>
    rw [List.map_cons, List.flatMap_cons, squeeze_append, Section.squeeze_written hblock, ih,
      List.flatten_cons, List.flatMap_append]

/-- The delimiters of a comment are left out, each where it is there. -/
theorem exists_delimiters (raw : List Char) :
    ∃ opening closing, trim raw = opening ++ body raw ++ closing ∧
      (opening = "/**".toList ∨ opening = [] ∧ ¬ "/**".toList <+: trim raw) ∧
      (closing = "*/".toList ∨ closing = [] ∧ ¬ "*/".toList <:+ body raw) := by
  have hclosing : ∀ cs, ∃ closing, cs = dropTail "*/".toList cs ++ closing ∧
      (closing = "*/".toList ∨ closing = [] ∧ ¬ "*/".toList <:+ dropTail "*/".toList cs) := by
    intro cs
    unfold dropTail
    split
    · rename_i htail
      obtain ⟨front, rfl⟩ := List.isSuffixOf_iff_suffix.mp htail
      refine ⟨"*/".toList, ?_, .inl rfl⟩
      rw [List.length_append, Nat.add_sub_cancel, List.take_left]
    · rename_i htail
      refine ⟨[], (List.append_nil cs).symm, .inr ⟨rfl, fun hsuffix => htail ?_⟩⟩
      exact List.isSuffixOf_iff_suffix.mpr hsuffix
  unfold body
  dsimp only
  cases hopening : dropLead? "/**".toList (trim raw) with
  | none =>
    obtain ⟨closing, hcs, hclosing⟩ := hclosing (trim raw)
    refine ⟨[], closing, hcs, .inr ⟨rfl, ?_⟩, hclosing⟩
    rintro ⟨rest, hrest⟩
    rw [dropLead?_eq_some_iff.mpr hrest.symm] at hopening
    cases hopening
  | some rest =>
    obtain ⟨closing, hcs, hclosing⟩ := hclosing rest
    refine ⟨"/**".toList, closing, ?_, .inl rfl, hclosing⟩
    rw [dropLead?_eq_some_iff.mp hopening, List.append_assoc]
    exact congrArg ("/**".toList ++ ·) hcs

/-- Nothing of a comment is lost, written twice or moved, apart from blanks: what stands between the
delimiters is its lines one after the other, and without a star in front of each line, these are the
description and the tags one after the other. -/
theorem substance_eq_squeeze_read (raw : String) :
    (∃ opening closing, trim raw.toList = opening ++ body raw.toList ++ closing ∧
      (opening = "/**".toList ∨ opening = [] ∧ ¬ "/**".toList <+: trim raw.toList) ∧
      (closing = "*/".toList ∨ closing = [] ∧ ¬ "*/".toList <:+ body raw.toList)) ∧
    squeeze (body raw.toList) = (lines (body raw.toList)).flatMap squeeze ∧
    substance raw.toList =
      squeeze ((read raw).description.toList ++ (read raw).tags.flatMap written) := by
  refine ⟨exists_delimiters raw.toList, (flatMap_squeeze_lines (body raw.toList)).symm, ?_⟩
  obtain ⟨blocks, hlines, hblocks⟩ := exists_blocks 0 (bodyLines raw.toList)
  have hsubstance : substance raw.toList = (bodyLines raw.toList).flatMap squeeze := by
    rw [substance, bodyLines, List.flatMap_map]
    exact List.flatMap_congr fun line _ => (squeeze_dropStar line).symm
  rw [hsubstance, read_eq]
  dsimp only
  rw [squeeze_append, String.toList_ofList, squeeze_trim, squeeze_unlines,
    squeeze_flatMap_written hblocks, ← List.flatMap_append, ← hlines]

end Doc

end Apidoc.Comment
