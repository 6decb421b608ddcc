import Apidoc.Proofs.Sample.Again
import Mathlib.Data.List.Forall2

/-!
# `Apidoc.Proofs.Sample.Shape`: the shape of a listing

A listing of several lines goes on from its first to its last line that holds something, as the code
does without its noise (`isBody_iff`). Line by line it is the code, moved to the left by one number
of blanks (`MovedBy`), and at least one of its lines has no blank in front (`tidy_keeps_shape`). So
the lines are indented among each other as they were. A blank is counted as one character, whatever
its width.

There is no such body, and the listing is empty, if and only if each line is noise or blank.
-/

set_option autoImplicit false

namespace Apidoc.Sample.Listing

open Apidoc.Text

variable {noise : List String} {ls body : List (List Char)} {line code : List Char} {n : Nat}

/-! ### From the first to the last line that holds something -/

/-- The lines of the body follow each other in `ls`. There are only blank lines above and below, and
the body begins and ends with a line that holds something. -/
structure IsBody (ls body : List (List Char)) : Prop where
  around : ∃ above below, ls = above ++ body ++ below ∧
    ∀ line ∈ above ++ below, allBlank line = true
  first : ∀ line ∈ body.head?, allBlank line = false
  last : ∀ line ∈ body.getLast?, allBlank line = false

/-- Blank lines around other lines are left out. -/
theorem dropBlankEnds_append {above below : List (List Char)}
    (habove : ∀ line ∈ above, allBlank line = true)
    (hbelow : ∀ line ∈ below, allBlank line = true) (ls : List (List Char)) :
    dropBlankEnds (above ++ ls ++ below) = dropBlankEnds ls := by
  have hfront : (above ++ ls ++ below).dropWhile allBlank = (ls ++ below).dropWhile allBlank := by
    rw [List.append_assoc, List.dropWhile_append_of_pos habove]
  have hback : ∀ ms : List (List Char),
      (ms ++ below).rdropWhile allBlank = ms.rdropWhile allBlank := by
    intro ms
    rw [List.rdropWhile, List.reverse_append,
      List.dropWhile_append_of_pos fun line hline => hbelow line (List.mem_reverse.mp hline)]
    rfl
  show ((above ++ ls ++ below).dropWhile allBlank).rdropWhile allBlank = _
  rw [hfront, List.dropWhile_append]
  split
  · -- The other lines are blank too.
    rename_i hempty
    have hls : ls.dropWhile allBlank = [] := List.isEmpty_iff.mp hempty
    have hrest : below.dropWhile allBlank = [] := List.dropWhile_eq_nil_iff.mpr hbelow
    rw [hrest, dropBlankEnds, hls]
    rfl
  · exact hback _

/-- The lines that are left without the blank ones at both ends are the body. -/
theorem isBody_dropBlankEnds (ls : List (List Char)) : IsBody ls (dropBlankEnds ls) := by
  refine ⟨⟨ls.takeWhile allBlank, (ls.dropWhile allBlank).rtakeWhile allBlank, ?_, ?_⟩,
    fun _ => not_blank_of_head?, fun _ => not_blank_of_getLast?⟩
  · have hback : dropBlankEnds ls ++ (ls.dropWhile allBlank).rtakeWhile allBlank =
        ls.dropWhile allBlank := List.rdropWhile_append_rtakeWhile
    rw [List.append_assoc, hback, List.takeWhile_append_dropWhile]
  · intro line hline
    rcases List.mem_append.mp hline with hline | hline
    · exact List.mem_takeWhile_imp hline
    · exact List.mem_rtakeWhile_imp hline

/-- No other lines are the body. -/
theorem isBody_iff : IsBody ls body ↔ body = dropBlankEnds ls := by
  constructor
  · rintro ⟨⟨above, below, rfl, hblank⟩, hfirst, hlast⟩
    have habove : ∀ line ∈ above, allBlank line = true := fun line hline =>
      hblank line (List.mem_append_left _ hline)
    have hbelow : ∀ line ∈ below, allBlank line = true := fun line hline =>
      hblank line (List.mem_append_right _ hline)
    rw [dropBlankEnds_append habove hbelow, dropBlankEnds_eq_self hfirst hlast]
  · rintro rfl
    exact isBody_dropBlankEnds ls

/-! ### Line by line -/

/-- A line that holds something loses `n` blanks in front and nothing else. A blank line becomes
empty. -/
inductive MovedBy (n : Nat) : List Char → List Char → Prop
  | blank {line : List Char} (h : allBlank line = true) : MovedBy n line []
  | written {front rest : List Char} (hlength : front.length = n) (hfront : allBlank front = true)
      (hrest : allBlank rest = false) : MovedBy n (front ++ rest) rest

/-- A line that is shifted by no more than its indent is moved by that number of blanks. -/
theorem movedBy_shift (h : allBlank line = false → n ≤ indent line) :
    MovedBy n line (shift n line) := by
  rw [shift]
  split
  · exact .blank ‹_›
  · rename_i hblank
    rw [Bool.not_eq_true] at hblank
    have hindent := h hblank
    have hlength : (line.take n).length = n :=
      List.length_take_of_le (hindent.trans (List.takeWhile_sublist _).length_le)
    have hmoved : MovedBy n (line.take n ++ line.drop n) (line.drop n) :=
      .written hlength (allBlank_take hindent) (allBlank_drop hindent hblank)
    rwa [List.take_append_drop] at hmoved

/-- Each line of a listing is a kept line, moved by the common indent. -/
theorem forall₂_movedBy_tidyLines (noise : List String) (ls : List (List Char)) :
    List.Forall₂ (MovedBy (commonIndent (keptLines noise ls))) (keptLines noise ls)
      (tidyLines noise ls) := by
  rw [tidyLines_eq, List.forall₂_map_right_iff, List.forall₂_same]
  exact fun line hline => movedBy_shift (commonIndent_keptLines_le hline)

/-- A line with no more than its indent taken away begins with a character that is no blank. -/
theorem head?_drop_indent (h : allBlank line = false) :
    ∃ c ∈ (line.drop (indent line)).head?, isBlank c = false := by
  have hne : line.dropWhile isBlank ≠ [] := fun hempty => by
    have hblank : allBlank line = true :=
      List.all_eq_true.mpr (List.dropWhile_eq_nil_iff.mp hempty)
    rw [h] at hblank
    cases hblank
  rw [drop_indent]
  exact ⟨_, List.head_mem_head? hne, not_of_head?_dropWhile (List.head_mem_head? hne)⟩

/-- Of the lines of a listing one has no blank in front, if there are any. -/
theorem exists_head?_tidyLines (h : keptLines noise ls ≠ []) :
    ∃ line ∈ tidyLines noise ls, ∃ c ∈ line.head?, isBlank c = false := by
  have hwritten : written (keptLines noise ls) ≠ [] :=
    List.ne_nil_of_mem
      (mem_written.mpr ⟨List.head_mem h, not_blank_of_head? (List.head_mem_head? h)⟩)
  obtain ⟨line, hline, hindent⟩ := exists_indent_eq hwritten
  obtain ⟨hkept, hblank⟩ := mem_written.mp hline
  refine ⟨line.drop (indent line), ?_, head?_drop_indent hblank⟩
  have hshift : shift (commonIndent (keptLines noise ls)) line = line.drop (indent line) := by
    rw [shift, if_neg (by rw [hblank]; decide), hindent]
  rw [tidyLines_eq, ← hshift]
  exact List.mem_map_of_mem hkept

/-! ### The listing -/

/-- No line is kept if and only if each one is noise or blank. -/
theorem keptLines_eq_nil_iff :
    keptLines noise ls = [] ↔
      ∀ line ∈ ls, isNoiseLine noise line = true ∨ allBlank line = true := by
  constructor
  · intro h line hline
    by_contra hneither
    obtain ⟨hnoise, hblank⟩ := not_or.mp hneither
    have hmem : line ∈ written (keptLines noise ls) := by
      rw [written_keptLines]
      exact List.mem_filter.mpr
        ⟨mem_written.mpr ⟨hline, Bool.eq_false_iff.mpr hblank⟩, by simp [hnoise]⟩
    rw [h] at hmem
    cases hmem
  · intro h
    by_contra hne
    have hblank := not_blank_of_head? (List.head_mem_head? hne)
    obtain ⟨hline, hnoise⟩ := List.mem_filter.mp (mem_of_mem_dropBlankEnds (List.head_mem hne))
    rcases h _ hline with h | h
    · exact absurd h (by simpa using hnoise)
    · exact absurd h (by simp [hblank])

/-- The listing of several lines is empty if and only if each line is noise or blank. -/
theorem tidy_eq_nil_iff (h : 2 ≤ (lines code).length) :
    tidy noise code = [] ↔
      ∀ line ∈ lines code, isNoiseLine noise line = true ∨ allBlank line = true := by
  have hempty : tidy noise code = [] ↔ keptLines noise (lines code) = [] := by
    have hlines := lines_tidy noise h
    rw [tidyLines_eq] at hlines
    constructor
    · intro hnone
      rw [hnone] at hlines
      exact List.map_eq_nil_iff.mp hlines.symm
    · intro hnone
      rw [hnone] at hlines
      exact eq_nil_of_lines hlines
  rw [hempty, keptLines_eq_nil_iff]

/-- A listing of a code of several lines is empty if and only if each line is noise or blank. Else
its lines are, one by one and in order, those of the body of the code without its noise. Each line
that holds something has lost the same number of blanks in front and nothing else, each blank line
is empty, and some line has no blank in front. -/
theorem tidy_keeps_shape (noise : List String) (code : List Char) (h : 2 ≤ (lines code).length) :
    (tidy noise code = [] ↔
        ∀ line ∈ lines code, isNoiseLine noise line = true ∨ allBlank line = true) ∧
      (tidy noise code ≠ [] →
        tidy noise code = unlines (lines (tidy noise code)) ∧
        ∃ n body, IsBody ((lines code).filter fun line => !isNoiseLine noise line) body ∧
          List.Forall₂ (MovedBy n) body (lines (tidy noise code)) ∧
          ∃ line ∈ lines (tidy noise code), ∃ c ∈ line.head?, isBlank c = false) := by
  refine ⟨tidy_eq_nil_iff h, fun hne => ?_⟩
  have hkept : keptLines noise (lines code) ≠ [] := fun hnone =>
    hne ((tidy_eq_nil_iff h).mpr (keptLines_eq_nil_iff.mp hnone))
  rw [lines_tidy noise h]
  exact ⟨if_neg (by omega), _, _, isBody_iff.mpr rfl, forall₂_movedBy_tidyLines noise _,
    exists_head?_tidyLines hkept⟩

/-- A method under its annotation, with a blank line inside and one at the end. -/
def indentedMethod : List Char := "\t @Override\n\t void m() \x7b\n \n\t\u3000 f();\n\t \x7d\n \n".toList

/-- The lines of a method are moved to the left together. -/
theorem tidy_keeps_shape_method :
    2 ≤ (lines indentedMethod).length ∧
      tidy noiseAnnotations indentedMethod = "void m() \x7b\n\n f();\n\x7d".toList ∧
      ∃ n body, IsBody ((lines indentedMethod).filter fun line =>
          !isNoiseLine noiseAnnotations line) body ∧
        List.Forall₂ (MovedBy n) body (lines (tidy noiseAnnotations indentedMethod)) := by
  have hlength : 2 ≤ (lines indentedMethod).length := by decide
  obtain ⟨-, n, body, hbody, hmoved, -⟩ :=
    (tidy_keeps_shape noiseAnnotations indentedMethod hlength).2 (by decide)
  exact ⟨hlength, by decide, n, body, hbody, hmoved⟩

end Apidoc.Sample.Listing
