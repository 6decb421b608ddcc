import Apidoc.Model.Position
import Apidoc.Proofs.Text.Lines
import Apidoc.Proofs.Text.Utf8
import Mathlib.Data.List.DropRight
import Mathlib.Data.List.TakeDrop

/-!
# `Apidoc.Proofs.Model.Position`: the lines that a span covers

Line numbers come from counting line feeds in the bytes, and lines from cutting the text. Where
line feeds are the only separators, the lines with the numbers of a span are those that the span
covers, each of them whole (`textLines_eq`). A field takes one line more, the last one above
(`textLines_declarationLines`).
-/

set_option autoImplicit false

namespace Apidoc.Model

open Apidoc.Text (Bytes decode lines hasPlainBreaks not_of_head?_dropWhile)
open Apidoc.Java (Span)

namespace Position

variable {content : Bytes} {s : Span}

/-! ### Lines in bytes -/

/-- The bytes of the lines above a span, with the line feeds that end them. -/
def above (content : Bytes) (s : Span) : Bytes := (content.take s.start).rdropWhile (· ≠ 10)

/-- The bytes from behind the line feed in front of a span up to the line feed behind it. -/
def covered (content : Bytes) (s : Span) : Bytes :=
  (content.take s.start).rtakeWhile (· ≠ 10) ++ (content.take s.stop).drop s.start ++
    (content.drop s.stop).takeWhile (· ≠ 10)

/-- The bytes of the lines below a span, with the line feed in front of them. -/
def below (content : Bytes) (s : Span) : Bytes := (content.drop s.stop).dropWhile (· ≠ 10)

/-- The lines above a span. -/
def linesAbove (content : Bytes) (s : Span) : List (List Char) := lines (decode (above content s))

/-- The lines that a span covers, each of them whole. -/
def ownLines (content : Bytes) (s : Span) : List (List Char) := lines (decode (covered content s))

/-- The span covers some bytes of the source, and its last byte is no line feed unless the source
ends there. -/
structure Solid (content : Bytes) (s : Span) : Prop where
  positive : s.start < s.stop
  stop_le : s.stop ≤ content.length
  last : content.drop s.stop ≠ [] → (content.take s.stop).getLast? ≠ some 10

/-- A source is what stands above, on and below the lines of a span. -/
theorem above_append_covered_append_below (h : s.start ≤ s.stop) :
    above content s ++ covered content s ++ below content s = content := by
  have hfront : above content s ++ (content.take s.start).rtakeWhile (· ≠ 10) =
      content.take s.start := List.rdropWhile_append_rtakeWhile
  have hback : (content.drop s.stop).takeWhile (· ≠ 10) ++ below content s = content.drop s.stop :=
    List.takeWhile_append_dropWhile
  have hmiddle : content.take s.start ++ (content.take s.stop).drop s.start =
      content.take s.stop := by
    have htake : content.take s.start = (content.take s.stop).take s.start := by
      rw [List.take_take, Nat.min_eq_left h]
    rw [htake, List.take_append_drop]
  calc above content s ++ covered content s ++ below content s
      = above content s ++ (content.take s.start).rtakeWhile (· ≠ 10) ++
          (content.take s.stop).drop s.start ++
            ((content.drop s.stop).takeWhile (· ≠ 10) ++ below content s) := by
        simp only [covered, List.append_assoc]
    _ = content := by rw [hfront, hback, hmiddle, List.take_append_drop]

/-- There is nothing above a span, or a line feed in front of its lines. -/
theorem above_cases (content : Bytes) (s : Span) :
    above content s = [] ∨ ∃ front, above content s = front ++ [10] := by
  by_cases hnil : above content s = []
  · exact .inl hnil
  · refine .inr ⟨(above content s).dropLast, ?_⟩
    have hlast := List.rdropWhile_last_not _ _ hnil
    rw [decide_eq_true_eq, not_not] at hlast
    conv_lhs => rw [← List.dropLast_append_getLast hnil]
    exact congrArg (fun b => _ ++ [b]) hlast

/-- There is nothing below a span, or a line feed behind its lines. -/
theorem below_cases (content : Bytes) (s : Span) :
    below content s = [] ∨ ∃ back, below content s = 10 :: back := by
  cases hbelow : below content s with
  | nil => exact .inl rfl
  | cons b back =>
    have hfirst := not_of_head?_dropWhile (congrArg List.head? hbelow)
    exact .inr ⟨back, by simpa using hfirst⟩

theorem lineFeeds_append (xs ys : Bytes) : lineFeeds (xs ++ ys) = lineFeeds xs + lineFeeds ys :=
  List.count_append

theorem lineFeeds_eq_zero {bytes : Bytes} (h : ∀ b ∈ bytes, decide (b ≠ 10) = true) :
    lineFeeds bytes = 0 :=
  List.count_eq_zero.mpr fun hmem => of_decide_eq_true (h 10 hmem) rfl

/-- All line feeds in front of a span end lines above it. -/
theorem lineFeeds_above (content : Bytes) (s : Span) :
    lineFeeds (above content s) = lineFeeds (content.take s.start) := by
  have hnone := lineFeeds_eq_zero fun b hb =>
    List.mem_rtakeWhile_imp (p := fun b => decide (b ≠ 10)) (l := content.take s.start) hb
  have hsplit : above content s ++ (content.take s.start).rtakeWhile (· ≠ 10) =
      content.take s.start := List.rdropWhile_append_rtakeWhile
  rw [← hsplit, lineFeeds_append, hnone, Nat.add_zero]

/-- The line feeds on the lines of a span are those inside it. -/
theorem lineFeeds_covered (content : Bytes) (s : Span) :
    lineFeeds (covered content s) = lineFeeds ((content.take s.stop).drop s.start) := by
  have hfront := lineFeeds_eq_zero fun b hb =>
    List.mem_rtakeWhile_imp (p := fun b => decide (b ≠ 10)) (l := content.take s.start) hb
  have hback := lineFeeds_eq_zero fun b hb =>
    List.mem_takeWhile_imp (p := fun b => decide (b ≠ 10)) (l := content.drop s.stop) hb
  rw [covered, lineFeeds_append, lineFeeds_append, hfront, hback]
  omega

/-! ### Lines in the text -/

/-- A line feed cuts a source into two that are read apart. -/
theorem decode_append_lineFeed (front back : Bytes) :
    decode (front ++ 10 :: back) = decode front ++ '\n' :: decode back :=
  Text.decode_append_ascii (by decide) front back

theorem count_decode (bytes : Bytes) : (decode bytes).count '\n' = lineFeeds bytes :=
  Text.count_decode_ascii (b := 10) (by decide) bytes

theorem Solid.covered_ne_nil (h : Solid content s) : covered content s ≠ [] := by
  have hlength : ((content.take s.stop).drop s.start).length ≠ 0 := by
    have hpositive := h.positive
    have hstop := h.stop_le
    rw [List.length_drop, List.length_take]
    omega
  have hne := List.ne_nil_of_length_pos (Nat.pos_of_ne_zero hlength)
  rw [covered]
  exact List.append_ne_nil_of_left_ne_nil (List.append_ne_nil_of_right_ne_nil _ hne) _

/-- The lines of a span do not end with a line feed in front of those below. -/
theorem Solid.getLast?_covered (h : Solid content s) (hbelow : below content s ≠ []) :
    (covered content s).getLast? ≠ some 10 := by
  have hpositive := h.positive
  have hstop := h.stop_le
  have hrest : content.drop s.stop ≠ [] := by
    intro hnil
    rw [below, hnil] at hbelow
    exact hbelow rfl
  have hmiddle : ((content.take s.stop).drop s.start).getLast? ≠ some 10 := by
    rw [List.getLast?_drop, if_neg (by rw [List.length_take]; omega)]
    exact h.last hrest
  rw [covered]
  -- The last byte is that of the span, unless its last line goes on behind it.
  by_cases hback : (content.drop s.stop).takeWhile (· ≠ 10) = []
  · rw [hback, List.append_nil, List.getLast?_append]
    intro hlast
    rcases Option.or_eq_some_iff.mp hlast with hlast | ⟨hnone, -⟩
    · exact hmiddle hlast
    · have hlength := congrArg List.length (List.getLast?_eq_none_iff.mp hnone)
      rw [List.length_drop, List.length_take, List.length_nil] at hlength
      omega
  · rw [List.getLast?_append_of_ne_nil _ hback]
    intro hlast
    have hnot := List.mem_takeWhile_imp (List.mem_of_getLast? hlast)
    exact of_decide_eq_true hnot rfl

/-- A source that is cut behind a line feed has the lines of both parts. -/
theorem lines_decode_append {front : Bytes} (hfront : front = [] ∨ ∃ bytes, front = bytes ++ [10])
    (back : Bytes) :
    lines (decode (front ++ back)) = lines (decode front) ++ lines (decode back) ∧
      (hasPlainBreaks (decode (front ++ back)) = true →
        (lines (decode front)).length = lineFeeds front ∧
          hasPlainBreaks (decode back) = true) := by
  rcases hfront with rfl | ⟨bytes, rfl⟩
  · exact ⟨rfl, fun hplain => ⟨rfl, hplain⟩⟩
  · have hdecode : decode (bytes ++ [10] ++ back) = decode bytes ++ '\n' :: decode back := by
      rw [List.append_assoc]
      exact decode_append_lineFeed bytes back
    have hdecode' : decode (bytes ++ [10]) = decode bytes ++ ['\n'] :=
      decode_append_lineFeed bytes []
    refine ⟨?_, fun hplain => ?_⟩
    · rw [hdecode, hdecode', Text.lines_append]
    · rw [hdecode] at hplain
      have hleft := Text.hasPlainBreaks_left hplain
      rw [List.append_cons] at hplain
      refine ⟨?_, Text.hasPlainBreaks_right hplain⟩
      rw [← hdecode'] at hleft
      rw [Text.length_lines hleft, count_decode, hdecode', List.getLast?_concat]
      rfl

/-- A line feed behind the lines of a span adds no line. -/
theorem Solid.lines_append_feed (h : Solid content s) (hbelow : below content s ≠ [])
    {rest : List Char}
    (hplain : hasPlainBreaks (decode (covered content s) ++ '\n' :: rest) = true) :
    lines (decode (covered content s) ++ ['\n']) = ownLines content s := by
  obtain ⟨front, last, hlast⟩ :=
    (List.eq_nil_or_concat (decode (covered content s))).resolve_left
      (Text.decode_ne_nil h.covered_ne_nil)
  rw [List.concat_eq_append] at hlast
  have hconcat : (decode (covered content s)).getLast? = some last := by
    rw [hlast, List.getLast?_concat]
  have hfeed : last ≠ '\n' := by
    rintro rfl
    exact Text.getLast?_decode (b := 10) (by decide) (h.getLast?_covered hbelow) hconcat
  -- In front of a line feed, a text that ends with a separator ends with a carriage return.
  have hbreak : Text.isBreak last = false ∨ last = '\r' := by
    rw [hlast, List.append_assoc] at hplain
    have hplain := Text.hasPlainBreaks_right hplain
    rw [List.singleton_append, hasPlainBreaks, Bool.and_eq_true] at hplain
    simpa [hfeed] using hplain.1
  exact Text.lines_append_feed hconcat hbreak

/-- The lines of a source are those above a span, its own, and those below it. Up to its own they
are numbered by line feeds. -/
theorem lines_eq (h : Solid content s) (hplain : hasPlainBreaks (decode content) = true) :
    ∃ linesBelow, lines (decode content) =
      linesAbove content s ++ ownLines content s ++ linesBelow ∧
      (linesAbove content s).length = lineFeeds (content.take s.start) ∧
      ((ownLines content s).length = lineFeeds ((content.take s.stop).drop s.start) + 1 ∨
        linesBelow = [] ∧
          (ownLines content s).length ≤ lineFeeds ((content.take s.stop).drop s.start) + 1) := by
  obtain ⟨hlines, hlength⟩ :=
    lines_decode_append (above_cases content s) (covered content s ++ below content s)
  rw [← List.append_assoc, above_append_covered_append_below h.positive.le] at hlines hlength
  obtain ⟨habove, hplain⟩ := hlength hplain
  rw [lineFeeds_above] at habove
  rw [← lineFeeds_covered]
  rcases below_cases content s with hnil | ⟨back, hback⟩
  · rw [hnil, List.append_nil] at hlines hplain
    refine ⟨[], by rw [List.append_nil]; exact hlines, habove, .inr ⟨rfl, ?_⟩⟩
    rw [ownLines, Text.length_lines hplain, count_decode]
    split <;> omega
  · rw [hback, decode_append_lineFeed] at hlines hplain
    have hown := h.lines_append_feed (by rw [hback]; exact List.cons_ne_nil _ _) hplain
    refine ⟨lines (decode back), ?_, habove, .inl ?_⟩
    · rw [hlines, Text.lines_append, hown, List.append_assoc]
      rfl
    · rw [← hown, Text.length_lines (Text.hasPlainBreaks_left hplain), List.getLast?_concat,
        List.count_append, count_decode]
      rfl

/-! ### Lines by number -/

theorem slice_natCast {α : Type} (i j : Nat) (xs : List α) :
    Text.slice i j xs = (xs.take j).drop i := by
  -- Both ends count from the front, and are cut off at the end of the list.
  have hplace : ∀ n : Nat, Text.place xs.length n = min n xs.length := fun n =>
    if_pos (Int.natCast_nonneg n)
  rw [Text.slice, hplace, hplace, ← List.take_eq_take_min]
  rcases Nat.le_total i xs.length with hle | hle
  · rw [Nat.min_eq_left hle]
  · have hlength : (xs.take j).length ≤ xs.length := List.length_take_le' j xs
    rw [Nat.min_eq_right hle, List.drop_eq_nil_of_le hlength,
      List.drop_eq_nil_of_le (hlength.trans hle)]

/-- Lines by number, counted from one. -/
theorem textLines_natCast (content : Bytes) (i j : Nat) :
    textLines content (i + 1 : Nat) j = ((lines (decode content)).take j).drop i := by
  rw [textLines, show ((i + 1 : Nat) : Int) - 1 = i by omega, slice_natCast]

/-- The numbers of the lines of a span. -/
theorem lineRange_eq (content : Bytes) (s : Span) :
    lineRange content s.start s.stop =
      (lineFeeds (content.take s.start) + 1,
        lineFeeds (content.take s.start) + 1 + lineFeeds ((content.take s.stop).drop s.start)) := by
  have hzero : Text.slice 0 s.start content = content.take s.start := slice_natCast 0 _ _
  rw [lineRange, hzero, slice_natCast]

/-- From a line that is not below the first line of a span up to the last one, the lines are some of
those above it and its own. -/
theorem textLines_eq (h : Solid content s) (hplain : hasPlainBreaks (decode content) = true)
    {i : Nat} (hi : i ≤ lineFeeds (content.take s.start)) :
    textLines content (i + 1 : Nat) (lineRange content s.start s.stop).2 =
      (linesAbove content s).drop i ++ ownLines content s := by
  obtain ⟨linesBelow, hlines, habove, hown⟩ := lines_eq h hplain
  have htake : (lines (decode content)).take (lineRange content s.start s.stop).2 =
      linesAbove content s ++ ownLines content s := by
    rw [lineRange_eq, hlines]
    -- Where nothing stands below, the range may reach behind the last line.
    rcases hown with hown | ⟨rfl, hown⟩
    · refine List.take_left' ?_
      rw [List.length_append, habove, hown]
      omega
    · rw [List.append_nil, List.take_of_length_le]
      rw [List.length_append, habove]
      show _ ≤ lineFeeds (content.take s.start) + 1 + _
      omega
  rw [textLines_natCast, htake, List.drop_append_of_le_length (habove ▸ hi)]

end Position

namespace Declaration

open Apidoc.Model.Position

variable {content : Bytes} {d : Declaration}

/-- The first line of a declaration is its own first one, or the one above for a field. -/
theorem declarationLines_eq (d : Declaration) (content : Bytes) :
    d.declarationLines content =
      ((if d.kind = .field then lineFeeds (content.take d.span.start) - 1
        else lineFeeds (content.take d.span.start)) + 1,
        (lineRange content d.span.start d.span.stop).2) := by
  have hmax : ∀ n : Nat, max 1 (n + 1 - 1) = n - 1 + 1 := fun n => by omega
  rw [declarationLines, lineRange_eq]
  by_cases hfield : d.kind = .field
  · simp only [if_pos hfield, hmax]
  · simp only [if_neg hfield]

/-- The lines of a declaration are its own, and the last one above for a field. -/
theorem textLines_declarationLines (h : Solid content d.span)
    (hplain : hasPlainBreaks (decode content) = true) :
    textLines content (d.declarationLines content).1 (d.declarationLines content).2 =
      (if d.kind = .field then (linesAbove content d.span).getLast?.toList else []) ++
        ownLines content d.span := by
  obtain ⟨-, -, habove, -⟩ := lines_eq h hplain
  rw [declarationLines_eq]
  split
  · have hlast : (linesAbove content d.span).drop ((linesAbove content d.span).length - 1) =
        (linesAbove content d.span).getLast?.toList := by
      by_cases hnil : linesAbove content d.span = []
      · rw [hnil]
        rfl
      · rw [List.drop_length_sub_one hnil, List.getLast?_eq_some_getLast hnil]
        rfl
    rw [textLines_eq h hplain (Nat.sub_le _ 1), ← habove, hlast]
  · rw [textLines_eq h hplain (Nat.le_refl _), ← habove, List.drop_length]

end Declaration

end Apidoc.Model
