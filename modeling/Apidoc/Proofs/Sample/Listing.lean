import Apidoc.Proofs.Text.Lines
import Apidoc.Sample.Listing

/-!
# `Apidoc.Proofs.Sample.Listing`: what a listing keeps of the code

A listing of several lines keeps every line that holds something and does not begin with a
noise annotation. It keeps each of them once and in order, and takes the same number of
blanks from the front of all of them (`written_lines_tidy`).

A line that begins with a noise annotation and its opening parenthesis is left out, however
it goes on. So nothing but annotations is lost where the argument lists of noise annotations
end their lines (`tidy_loses_annotations_only`), and a declaration that stands on the line
of its annotation is lost with it (`tidy_loses_declaration`).
-/

set_option autoImplicit false

namespace Apidoc.Sample.Listing

open Apidoc.Text

variable {noise : List String} {ls : List (List Char)} {line : List Char}

/-! ### Lines that hold something -/

/-- The lines that are not blank. -/
def written (ls : List (List Char)) : List (List Char) := ls.filter fun line => !allBlank line

theorem mem_written : line ∈ written ls ↔ line ∈ ls ∧ allBlank line = false := by
  rw [written, List.mem_filter, Bool.not_eq_true']

theorem written_cons_of_blank (h : allBlank line = true) (ls : List (List Char)) :
    written (line :: ls) = written ls :=
  List.filter_cons_of_neg (by rw [h]; decide)

theorem written_cons_of_not_blank (h : allBlank line = false) (ls : List (List Char)) :
    written (line :: ls) = line :: written ls :=
  List.filter_cons_of_pos (by rw [h]; decide)

/-- Blank lines in front do not count. -/
theorem written_dropWhile (ls : List (List Char)) :
    written (ls.dropWhile allBlank) = written ls := by
  induction ls with
  | nil => rfl
  | cons line rest ih =>
    by_cases hblank : allBlank line = true
    · rw [List.dropWhile_cons_of_pos hblank, ih, written_cons_of_blank hblank]
    · rw [List.dropWhile_cons_of_neg hblank]

/-- Blank lines at the ends do not count. -/
theorem written_dropBlankEnds (ls : List (List Char)) :
    written (dropBlankEnds ls) = written ls := by
  rw [dropBlankEnds, written, List.filter_reverse]
  show (written ((ls.dropWhile allBlank).reverse.dropWhile allBlank)).reverse = _
  rw [written_dropWhile, written, List.filter_reverse, List.reverse_reverse]
  exact written_dropWhile ls

/-- What is left of the lines is among them. -/
theorem mem_of_mem_dropBlankEnds (h : line ∈ dropBlankEnds ls) : line ∈ ls := by
  have h := List.mem_reverse.mp h
  have h := List.mem_reverse.mp ((List.dropWhile_sublist _).subset h)
  exact (List.dropWhile_sublist _).subset h

/-- The last line that is left is not blank. -/
theorem not_blank_of_getLast? (h : line ∈ (dropBlankEnds ls).getLast?) : allBlank line = false := by
  rw [dropBlankEnds, List.getLast?_reverse] at h
  exact not_of_head?_dropWhile h

/-! ### Moving lines to the left -/

/-- As many characters as a line is indented are blanks. -/
theorem allBlank_take {n : Nat} (h : n ≤ indent line) : allBlank (line.take n) = true := by
  have hfront : line.take n <+: line.takeWhile isBlank :=
    List.prefix_of_prefix_length_le (List.take_prefix n line) (List.takeWhile_prefix _)
      ((List.length_take_le n line).trans h)
  exact List.all_eq_true.mpr fun c hc => List.mem_takeWhile_imp (hfront.subset hc)

/-- A line that is not blank holds something behind its indent. -/
theorem allBlank_drop {n : Nat} (h : n ≤ indent line) (hline : allBlank line = false) :
    allBlank (line.drop n) = false := by
  have hsplit : allBlank line = (allBlank (line.take n) && allBlank (line.drop n)) := by
    rw [allBlank, allBlank, allBlank, ← List.all_append, List.take_append_drop]
  rw [hsplit, allBlank_take h, Bool.true_and] at hline
  exact hline

/-- No line that holds something is indented less than the common indent. -/
theorem commonIndent_le (h : line ∈ written ls) : commonIndent ls ≤ indent line := by
  have hmem : indent line ∈ (written ls).map indent := List.mem_map_of_mem h
  obtain ⟨least, hleast⟩ := List.isSome_min?_of_mem hmem |> Option.isSome_iff_exists.mp
  have hcommon : commonIndent ls = least := by
    rw [commonIndent]
    exact congrArg (·.getD 0) hleast
  rw [hcommon]
  exact (List.min?_eq_some_iff.mp hleast).2 _ hmem

/-- Moving lines to the left by their common indent takes that many characters from the front of
each line that holds something. -/
theorem written_map_shift {n : Nat} (h : ∀ line ∈ written ls, n ≤ indent line) :
    written (ls.map (shift n)) = (written ls).map (List.drop n) := by
  induction ls with
  | nil => rfl
  | cons line rest ih =>
    have hrest : ∀ l ∈ written rest, n ≤ indent l := fun l hl =>
      h l (mem_written.mpr ⟨List.mem_cons_of_mem _ (mem_written.mp hl).1, (mem_written.mp hl).2⟩)
    rw [List.map_cons]
    by_cases hblank : allBlank line = true
    · have hshift : shift n line = [] := if_pos hblank
      rw [hshift, written_cons_of_blank rfl, written_cons_of_blank hblank, ih hrest]
    · rw [Bool.not_eq_true] at hblank
      have hindent : n ≤ indent line := h line (mem_written.mpr ⟨List.mem_cons_self, hblank⟩)
      have hshift : shift n line = line.drop n := if_neg (by rw [hblank]; decide)
      rw [hshift, written_cons_of_not_blank (allBlank_drop hindent hblank),
        written_cons_of_not_blank hblank, ih hrest, List.map_cons]

/-! ### The lines of a listing -/

/-- The lines of a listing of several lines are the lines of the code that are left, moved to the
left. -/
theorem lines_tidy (noise : List String) {code : List Char} (h : 2 ≤ (lines code).length) :
    lines (tidy noise code) = tidyLines noise (lines code) := by
  rw [tidy, if_neg (by omega)]
  have hkept : ∀ line ∈ dropBlankEnds ((lines code).filter fun l => !isNoiseLine noise l),
      IsLine line := fun line hline =>
    isLine_of_mem_lines (List.mem_filter.mp (mem_of_mem_dropBlankEnds hline)).1
  refine lines_unlines (fun line hline => ?_) fun line hline => ?_
  · obtain ⟨l, hl, rfl⟩ := List.mem_map.mp hline
    rw [shift]
    split
    · exact nofun
    · exact fun c hc => hkept l hl c (List.mem_of_mem_drop hc)
  · rw [tidyLines, List.getLast?_map] at hline
    obtain ⟨l, hl, rfl⟩ := Option.map_eq_some_iff.mp hline
    -- The last line that is left holds something, also behind the common indent.
    have hblank := not_blank_of_getLast? hl
    have hindent := commonIndent_le (mem_written.mpr ⟨List.mem_of_getLast? hl, hblank⟩)
    rw [shift, if_neg (by simp [hblank])]
    intro hempty
    have hbehind := allBlank_drop hindent hblank
    rw [hempty] at hbehind
    cases hbehind

/-- The lines that are no noise, without the blank ones at both ends. -/
def keptLines (noise : List String) (ls : List (List Char)) : List (List Char) :=
  dropBlankEnds (ls.filter fun line => !isNoiseLine noise line)

/-- The lines of a listing are the kept ones, moved to the left by the indent that they share. -/
theorem tidyLines_eq (noise : List String) (ls : List (List Char)) :
    tidyLines noise ls = (keptLines noise ls).map (shift (commonIndent (keptLines noise ls))) :=
  rfl

/-- The kept lines that hold something are those that are no noise. -/
theorem written_keptLines (noise : List String) (ls : List (List Char)) :
    written (keptLines noise ls) = (written ls).filter fun line => !isNoiseLine noise line := by
  rw [keptLines, written_dropBlankEnds, written, written, List.filter_filter, List.filter_filter]
  exact List.filter_congr fun _ _ => Bool.and_comm _ _

/-- The lines of a listing that hold something are those of the code that are no noise, each once and
in order, without a number of blanks in front that is the same for all. -/
theorem written_lines_tidy (noise : List String) {code : List Char}
    (h : 2 ≤ (lines code).length) :
    ∃ n, written (lines (tidy noise code)) =
        ((written (lines code)).filter fun line => !isNoiseLine noise line).map (List.drop n) ∧
      ∀ line ∈ (written (lines code)).filter fun line => !isNoiseLine noise line,
        allBlank (line.take n) = true := by
  refine ⟨commonIndent (keptLines noise (lines code)), ?_, fun line hline => ?_⟩
  · rw [lines_tidy noise h, tidyLines_eq, written_map_shift fun _ => commonIndent_le,
      written_keptLines]
  · rw [← written_keptLines] at hline
    exact allBlank_take (commonIndent_le hline)

/-! ### Lines that are only an annotation -/

/-- The characters of a literal from behind its opening quote to its closing quote. -/
inductive Literal (quote : Char) : List Char → Prop
  | close : Literal quote [quote]
  | escaped {c : Char} {rest : List Char} (h : Literal quote rest) :
      Literal quote ('\\' :: c :: rest)
  | plain {c : Char} {rest : List Char} (hc : c ≠ quote) (hslash : c ≠ '\\')
      (h : Literal quote rest) : Literal quote (c :: rest)

/-- Each parenthesis outside of literals has its partner. -/
inductive Balanced : List Char → Prop
  | nil : Balanced []
  | plain {c : Char} {rest : List Char} (hc : c ∉ ['(', ')', '"', '\'']) (h : Balanced rest) :
      Balanced (c :: rest)
  | literal {quote : Char} {body rest : List Char} (hquote : quote ∈ ['"', '\''])
      (hbody : Literal quote body) (h : Balanced rest) : Balanced (quote :: body ++ rest)
  | group {inner rest : List Char} (hinner : Balanced inner) (h : Balanced rest) :
      Balanced ('(' :: inner ++ ')' :: rest)

/-- The text is one of the annotations and nothing else: its name, or its name and an argument list
that ends the text. -/
def IsNoiseAlone (noise : List String) (text : List Char) : Prop :=
  ∃ name ∈ noise, text = '@' :: name.toList ∨
    ∃ inner, Balanced inner ∧ text = '@' :: name.toList ++ '(' :: inner ++ [')']

/-- Of the lines before that hold something, those that are missing after are annotations. The others
are the lines after that hold something, each once and in order, without the same number of blanks in
front. -/
def LosesOnlyAnnotations (noise : List String) (before after : List (List Char)) : Prop :=
  ∃ (n : Nat) (keeps : List Char → Bool),
    written after = ((written before).filter keeps).map (List.drop n) ∧
      ∀ line ∈ written before,
        if keeps line then allBlank (line.take n) = true else IsNoiseAlone noise (trim line)

/-- A line is left out if it is the sign and the name of a noise annotation, or begins with them and
an opening parenthesis. -/
theorem isNoiseLine_iff :
    isNoiseLine noise line = true ↔
      ∃ name ∈ noise, trim line = '@' :: name.toList ∨
        '@' :: name.toList ++ ['('] <+: trim line := by
  simp [isNoiseLine]

/-- A line that is only a noise annotation is left out. -/
theorem isNoiseLine_of_isNoiseAlone (h : IsNoiseAlone noise (trim line)) :
    isNoiseLine noise line = true := by
  obtain ⟨name, hname, hbare | ⟨inner, -, harguments⟩⟩ := h
  · exact isNoiseLine_iff.mpr ⟨name, hname, .inl hbare⟩
  · refine isNoiseLine_iff.mpr ⟨name, hname, .inr ⟨inner ++ [')'], ?_⟩⟩
    simp [harguments]

/-- A listing loses only annotations if and only if each line that is left out is one. -/
theorem losesOnlyAnnotations_tidy_iff (noise : List String) {code : List Char}
    (h : 2 ≤ (lines code).length) :
    LosesOnlyAnnotations noise (lines code) (lines (tidy noise code)) ↔
      ∀ line ∈ written (lines code), isNoiseLine noise line = true →
        IsNoiseAlone noise (trim line) := by
  obtain ⟨n, hlines, hblanks⟩ := written_lines_tidy noise h
  constructor
  · rintro ⟨m, keeps, hkept, hmissing⟩ line hline hnoise
    -- The lines that are no noise are among the kept ones, and there are as many of either.
    have hsublist : ((written (lines code)).filter fun line => !isNoiseLine noise line).Sublist
        ((written (lines code)).filter keeps) := by
      have hand : ∀ line ∈ written (lines code),
          (!isNoiseLine noise line && keeps line) = !isNoiseLine noise line := by
        intro line hline
        have hline := hmissing line hline
        by_cases hkeeps : keeps line = true
        · rw [hkeeps, Bool.and_true]
        · rw [if_neg hkeeps] at hline
          rw [isNoiseLine_of_isNoiseAlone hline, Bool.not_true, Bool.false_and]
      rw [← List.filter_congr hand, ← List.filter_filter]
      exact List.filter_sublist
    have hlength : ((written (lines code)).filter fun line => !isNoiseLine noise line).length =
        ((written (lines code)).filter keeps).length := by
      have hmaps := congrArg List.length (hlines.symm.trans hkept)
      rwa [List.length_map, List.length_map] at hmaps
    have hsame := hsublist.eq_of_length hlength
    by_cases hkeeps : keeps line = true
    · have hmem : line ∈ (written (lines code)).filter keeps := List.mem_filter.mpr ⟨hline, hkeeps⟩
      rw [← hsame, List.mem_filter, hnoise] at hmem
      exact absurd hmem.2 (by decide)
    · have hline := hmissing line hline
      rwa [if_neg hkeeps] at hline
  · intro hannotations
    refine ⟨n, fun line => !isNoiseLine noise line, hlines, fun line hline => ?_⟩
    by_cases hnoise : isNoiseLine noise line = true
    · rw [if_neg (by simp [hnoise])]
      exact hannotations line hline hnoise
    · rw [if_pos (by simp [hnoise])]
      exact hblanks line (List.mem_filter.mpr ⟨hline, by simp [hnoise]⟩)

/-- Of the lines of a code of several lines that hold something, a listing keeps those that are no
noise, each once and in order, moved to the left by the same number of blanks. It loses only
annotations if and only if each line that begins with a noise annotation and its opening parenthesis
ends with the argument list. -/
theorem tidy_loses_annotations_only (noise : List String) (code : List Char)
    (h : 2 ≤ (lines code).length) :
    (∃ n, written (lines (tidy noise code)) =
          ((written (lines code)).filter fun line => !isNoiseLine noise line).map (List.drop n) ∧
        ∀ line ∈ (written (lines code)).filter fun line => !isNoiseLine noise line,
          allBlank (line.take n) = true) ∧
      (LosesOnlyAnnotations noise (lines code) (lines (tidy noise code)) ↔
        ∀ line ∈ written (lines code), ∀ name ∈ noise,
          '@' :: name.toList ++ ['('] <+: trim line → IsNoiseAlone noise (trim line)) := by
  refine ⟨written_lines_tidy noise h, (losesOnlyAnnotations_tidy_iff noise h).trans ?_⟩
  constructor
  · intro hnoise line hline name hname hbegins
    exact hnoise line hline (isNoiseLine_iff.mpr ⟨name, hname, .inr hbegins⟩)
  · intro hbegins line hline hnoise
    obtain ⟨name, hname, hbare | hopens⟩ := isNoiseLine_iff.mp hnoise
    · exact ⟨name, hname, .inl hbare⟩
    · exact hbegins line hline name hname hopens

/-- A method under two noise annotations, one of them with a parenthesis in its argument. -/
def annotatedMethod : List Char := "  @Override\n  @SuppressWarnings(\")\")\n  void m() {}".toList

/-- Only the annotations of a method are lost where each has its own line. -/
theorem tidy_loses_annotations_only_method :
    2 ≤ (lines annotatedMethod).length ∧
      LosesOnlyAnnotations noiseAnnotations (lines annotatedMethod)
        (lines (tidy noiseAnnotations annotatedMethod)) := by
  have hlength : 2 ≤ (lines annotatedMethod).length := by decide
  refine ⟨hlength, (tidy_loses_annotations_only noiseAnnotations annotatedMethod hlength).2.mpr ?_⟩
  have hwritten : written (lines annotatedMethod) = ["  @Override".toList,
      "  @SuppressWarnings(\")\")".toList, "  void m() {}".toList] := by decide
  rw [hwritten]
  have hargument : Balanced ['"', ')', '"'] :=
    .literal (by decide) (.plain (by decide) (by decide) .close) .nil
  intro line hline name hname hbegins
  simp only [List.mem_cons, List.not_mem_nil, or_false, noiseAnnotations] at hline hname
  rcases hline with rfl | rfl | rfl
  · rcases hname with rfl | rfl | rfl <;> exact absurd hbegins (by decide)
  · exact ⟨"SuppressWarnings", by decide, .inr ⟨['"', ')', '"'], hargument, by decide⟩⟩
  · rcases hname with rfl | rfl | rfl <;> exact absurd hbegins (by decide)

/-- A field on the line of its annotation, and a second one below. -/
def twoFields : List Char := "@SuppressWarnings(\"x\") int a;\nint b;".toList

/-- A declaration that stands on the line of its noise annotation is lost. -/
theorem tidy_loses_declaration :
    2 ≤ (lines twoFields).length ∧
      ¬ LosesOnlyAnnotations noiseAnnotations (lines twoFields)
        (lines (tidy noiseAnnotations twoFields)) := by
  refine ⟨by decide, fun hloses => ?_⟩
  have hannotation := (losesOnlyAnnotations_tidy_iff noiseAnnotations (by decide)).mp hloses
    "@SuppressWarnings(\"x\") int a;".toList (by decide) (by decide)
  obtain ⟨name, hname, hbare | ⟨inner, -, hend⟩⟩ := hannotation
  · revert name
    decide
  · -- An annotation with arguments ends with a parenthesis.
    have hlast : "@SuppressWarnings(\"x\") int a;".toList.getLast? = some ')' := by
      have hlast := congrArg List.getLast? hend
      rwa [List.getLast?_concat] at hlast
    exact absurd hlast (by decide)

end Apidoc.Sample.Listing
