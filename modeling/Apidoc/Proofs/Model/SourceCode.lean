import Apidoc.Proofs.Model.Forest
import Apidoc.Proofs.Model.Span

/-!
# `Apidoc.Proofs.Model.SourceCode`: the source lines of a declaration

Line numbers are counted in bytes, and lines are cut from the text that the bytes are read as. For
the declarations of a unit the two agree wherever line feeds, alone or behind carriage returns, are
the only line separators of the source (`sourceLines_of_mem_flatten`). What is shown of a
declaration are the lines that hold a byte of it, and for a field the line above. Its own text is
part of them, because it is cut out of the source between characters, at tokens, and begins and ends
with something other than a separator (`CutOut`). That the source is UTF-8 is not needed.
-/

set_option autoImplicit false

namespace Apidoc.Model

open Apidoc.Java (Span)
open Apidoc.Text (AsciiBorder Bytes decode hasPlainBreaks lines unifyBreaks unlines)

namespace Position

variable {content : Bytes} {s : Span} {i : Nat}

/-! ### Lines that hold bytes of a span -/

/-- Line `i`, counted from zero, holds a byte of the span. A line feed is on the line that it
ends. -/
def Touches (content : Bytes) (s : Span) (i : Nat) : Prop :=
  ∃ k, k < s.stop ∧ s.start ≤ k ∧ lineFeeds (content.take k) = i

instance (content : Bytes) (s : Span) (i : Nat) : Decidable (Touches content s i) :=
  inferInstanceAs (Decidable (∃ k, k < s.stop ∧ s.start ≤ k ∧ lineFeeds (content.take k) = i))

/-- The lines whose numbers, counted from zero, have the property. -/
def linesWhere (content : Bytes) (p : Nat → Bool) : List (List Char) :=
  ((lines (decode content)).zipIdx.filter fun line => p line.2).map Prod.fst

theorem lineFeeds_take_mono (content : Bytes) {j k : Nat} (h : j ≤ k) :
    lineFeeds (content.take j) ≤ lineFeeds (content.take k) :=
  ((List.take_prefix_take_left h).sublist).count_le 10

/-- From one byte to the next there is at most one line feed. -/
theorem lineFeeds_take_succ (content : Bytes) (k : Nat) :
    lineFeeds (content.take (k + 1)) ≤ lineFeeds (content.take k) + 1 := by
  rw [List.take_add, lineFeeds_append]
  have hcount : lineFeeds ((content.drop k).take 1) ≤ ((content.drop k).take 1).length :=
    List.count_le_length
  rw [List.length_take] at hcount
  omega

/-- Line numbers leave nothing out. -/
theorem exists_of_lineFeeds_le {j k : Nat} (hjk : j ≤ k) (hj : lineFeeds (content.take j) ≤ i)
    (hk : i ≤ lineFeeds (content.take k)) :
    ∃ m, j ≤ m ∧ m ≤ k ∧ lineFeeds (content.take m) = i := by
  induction k, hjk using Nat.le_induction with
  | base => exact ⟨j, Nat.le_refl j, Nat.le_refl j, Nat.le_antisymm hj hk⟩
  | succ k hjk ih =>
    have hstep := lineFeeds_take_succ content k
    by_cases hlower : i ≤ lineFeeds (content.take k)
    · obtain ⟨m, hm, hmk, heq⟩ := ih hlower
      exact ⟨m, hm, Nat.le_succ_of_le hmk, heq⟩
    · exact ⟨k + 1, Nat.le_succ_of_le hjk, Nat.le_refl _, by omega⟩

/-- A span that does not end with a line feed touches the lines from its first byte to its end. -/
theorem touches_iff (hpositive : s.start < s.stop) (hstop : s.stop ≤ content.length)
    (hlast : (content.take s.stop).getLast? ≠ some 10) :
    Touches content s i ↔
      lineFeeds (content.take s.start) ≤ i ∧ i ≤ lineFeeds (content.take s.stop) := by
  constructor
  · rintro ⟨k, hk', hk, rfl⟩
    exact ⟨lineFeeds_take_mono content hk, lineFeeds_take_mono content hk'.le⟩
  · rintro ⟨hfirst, hi⟩
    obtain ⟨n, hn⟩ := Nat.exists_eq_add_of_le' (Nat.lt_of_le_of_lt (Nat.zero_le _) hpositive)
    -- The last byte is on the line that the span ends on.
    have hsame : lineFeeds (content.take s.stop) = lineFeeds (content.take n) := by
      have hbyte : content.drop n ≠ [] := by
        intro hnil
        have hlength := congrArg List.length hnil
        rw [List.length_drop, List.length_nil] at hlength
        omega
      obtain ⟨b, rest, hdrop⟩ := List.exists_cons_of_ne_nil hbyte
      have htake : content.take s.stop = content.take n ++ [b] := by
        rw [hn, List.take_add, hdrop]
        rfl
      rw [htake, List.getLast?_concat] at hlast
      have hfeed : lineFeeds [b] = 0 := List.count_eq_zero.mpr fun hmem =>
        hlast (congrArg some (List.mem_singleton.mp hmem).symm)
      rw [htake, lineFeeds_append, hfeed, Nat.add_zero]
    rw [hsame] at hi
    obtain ⟨m, hm, hmn, heq⟩ := exists_of_lineFeeds_le (by omega) hfirst hi
    exact ⟨m, by omega, hm, heq⟩

/-- The lines from one number up to another one are a part of all lines. -/
theorem linesWhere_eq (content : Bytes) {p : Nat → Bool} {i j : Nat}
    (hp : ∀ k, p k = true ↔ i ≤ k ∧ k < j) :
    linesWhere content p = ((lines (decode content)).take j).drop i := by
  have hpart : ∀ (ls : List (List Char)) (n : Nat),
      ((ls.zipIdx n).filter fun line => p line.2).map Prod.fst =
        (ls.take (j - n)).drop (i - n) := by
    intro ls
    induction ls with
    | nil => simp
    | cons line below ih =>
      intro n
      rw [List.zipIdx_cons, List.filter_cons]
      split
      · rename_i hn
        obtain ⟨hin, hnj⟩ := (hp n).mp hn
        obtain ⟨m, hm⟩ := Nat.exists_eq_add_of_lt hnj
        rw [List.map_cons, ih, show i - n = 0 by omega, show i - (n + 1) = 0 by omega,
          show j - n = j - (n + 1) + 1 by omega]
        rfl
      · rename_i hn
        have hout : ¬ (i ≤ n ∧ n < j) := fun hrange => hn ((hp n).mpr hrange)
        rw [ih]
        by_cases hnj : n < j
        · rw [show i - n = i - (n + 1) + 1 by omega, show j - n = j - (n + 1) + 1 by omega]
          rfl
        · rw [show j - n = 0 by omega, show j - (n + 1) = 0 by omega]
          simp
  exact hpart _ 0

/-! ### Spans that are cut out between characters -/

/-- The span covers bytes of the source that are read apart from the others, and that neither begin
nor end with a blank. -/
structure CutOut (content : Bytes) (s : Span) : Prop extends Solid content s where
  read : decode content = decode (content.take s.start) ++
    decode ((content.take s.stop).drop s.start) ++ decode (content.drop s.stop)
  first : ∀ b ∈ (content.drop s.start).head?, Java.Lexer.isBlankByte b = false
  final : ∀ b ∈ (content.take s.stop).getLast?, Java.Lexer.isBlankByte b = false

/-- The text of a span. -/
def spanText (content : Bytes) (s : Span) : List Char :=
  decode ((content.take s.stop).drop s.start)

theorem CutOut.getLast?_ne (h : CutOut content s) : (content.take s.stop).getLast? ≠ some 10 :=
  fun hlast => absurd (h.final 10 hlast) (by decide)

theorem CutOut.spanText_ne_nil (h : CutOut content s) : spanText content s ≠ [] := by
  have hpositive := h.positive
  have hstop := h.stop_le
  refine Text.decode_ne_nil (List.ne_nil_of_length_pos ?_)
  rw [List.length_drop, List.length_take]
  omega

/-- The text of a span does not begin with a line feed. -/
theorem CutOut.head?_spanText (h : CutOut content s) : (spanText content s).head? ≠ some '\n' := by
  refine Text.head?_decode (b := 10) (by decide) fun hhead => ?_
  have hpositive := h.positive
  have hstop := h.stop_le
  have hfirst : (content.drop s.start).head? = some 10 := by
    rw [← List.take_append_drop s.stop content,
      List.drop_append_of_le_length (by rw [List.length_take]; omega), List.head?_append, hhead]
    rfl
  exact absurd (h.first 10 hfirst) (by decide)

/-- The text of a span ends neither with a line feed nor with a carriage return. -/
theorem CutOut.getLast?_spanText (h : CutOut content s) :
    (spanText content s).getLast? ≠ some '\n' ∧ (spanText content s).getLast? ≠ some '\r' := by
  have hlast : ((content.take s.stop).drop s.start).getLast? = (content.take s.stop).getLast? := by
    have hpositive := h.positive
    have hstop := h.stop_le
    rw [List.getLast?_drop, if_neg (by rw [List.length_take]; omega)]
  constructor
  · exact Text.getLast?_decode (b := 10) (by decide) fun hfeed =>
      absurd (h.final 10 (hlast ▸ hfeed)) (by decide)
  · exact Text.getLast?_decode (b := 13) (by decide) fun hreturn =>
      absurd (h.final 13 (hlast ▸ hreturn)) (by decide)

/-- The lines above a span are read apart from what stands behind them. -/
theorem decode_above_append (content : Bytes) (s : Span) (back : Bytes) :
    decode (above content s ++ back) = decode (above content s) ++ decode back := by
  rcases above_cases content s with hnil | ⟨front, hfront⟩
  · rw [hnil]
    rfl
  · refine Text.decode_append (.inl ⟨10, ?_, by decide⟩)
    rw [hfront]
    exact List.getLast?_concat

/-- The lines below a span are read apart from what stands in front of them. -/
theorem decode_append_below (content : Bytes) (s : Span) (front : Bytes) :
    decode (front ++ below content s) = decode front ++ decode (below content s) := by
  rcases below_cases content s with hnil | ⟨back, hback⟩
  · rw [hnil, List.append_nil]
    exact (List.append_nil _).symm
  · refine Text.decode_append (.inr ⟨10, ?_, by decide⟩)
    rw [hback]
    rfl

/-- What stands on the first line of a span in front of it. -/
def lineFront (content : Bytes) (s : Span) : List Char :=
  decode ((content.take s.start).rtakeWhile (· ≠ 10))

/-- What stands on the last line of a span behind it. -/
def lineBack (content : Bytes) (s : Span) : List Char :=
  decode ((content.drop s.stop).takeWhile (· ≠ 10))

/-- The lines of a span are its text and what stands on them in front of it and behind it. -/
theorem CutOut.decode_covered (h : CutOut content s) :
    decode (covered content s) =
      lineFront content s ++ spanText content s ++ lineBack content s := by
  have hfront : decode (content.take s.start) =
      decode (above content s) ++ lineFront content s := by
    rw [lineFront, ← decode_above_append, above, List.rdropWhile_append_rtakeWhile]
  have hback : decode (content.drop s.stop) =
      lineBack content s ++ decode (below content s) := by
    rw [lineBack, ← decode_append_below, below, List.takeWhile_append_dropWhile]
  have hcontent : decode content =
      decode (above content s) ++ decode (covered content s) ++ decode (below content s) := by
    rw [← decode_above_append, ← decode_append_below,
      above_append_covered_append_below h.positive.le]
  have hread := h.read
  rw [hcontent, hfront, hback, ← List.append_assoc] at hread
  have hread := List.append_cancel_right hread
  rw [List.append_assoc, List.append_assoc] at hread
  rw [List.append_cancel_left hread, spanText, List.append_assoc]

/-- The lines of a span are cut from its own lines of the source, with a line feed behind them or
none. -/
theorem Solid.exists_ownText (h : Solid content s)
    (hplain : hasPlainBreaks (decode content) = true) :
    ∃ feed, hasPlainBreaks (decode (covered content s) ++ feed) = true ∧
      lines (decode (covered content s) ++ feed) = ownLines content s := by
  obtain ⟨-, hrest⟩ :=
    lines_decode_append (above_cases content s) (covered content s ++ below content s)
  rw [← List.append_assoc, above_append_covered_append_below h.positive.le] at hrest
  obtain ⟨-, hplain⟩ := hrest hplain
  rcases below_cases content s with hnil | ⟨back, hback⟩
  · rw [hnil, List.append_nil] at hplain
    refine ⟨[], ?_, ?_⟩
    · rw [List.append_nil]
      exact hplain
    · rw [List.append_nil]
      rfl
  · rw [hback, decode_append_lineFeed] at hplain
    exact ⟨['\n'], Text.hasPlainBreaks_left hplain,
      h.lines_append_feed (by rw [hback]; exact List.cons_ne_nil _ _) hplain⟩

/-- The text of a span is part of its lines, if separators are read as line feeds. -/
theorem CutOut.spanText_infix (h : CutOut content s)
    (hplain : hasPlainBreaks (decode content) = true) :
    unifyBreaks (spanText content s) <:+: unlines (ownLines content s) := by
  obtain ⟨feed, hplain, hlines⟩ := h.toSolid.exists_ownText hplain
  obtain ⟨hfeed, hreturn⟩ := h.getLast?_spanText
  have htext : decode (covered content s) ++ feed =
      lineFront content s ++ (spanText content s ++ (lineBack content s ++ feed)) := by
    rw [h.decode_covered]
    simp only [List.append_assoc]
  -- The text begins with no line feed and ends with no carriage return, so it is cut off no pair.
  have hhead : (spanText content s ++ (lineBack content s ++ feed)).head? ≠ some '\n' := by
    rw [List.head?_append_of_ne_nil _ h.spanText_ne_nil]
    exact h.head?_spanText
  have hunified : unlines (ownLines content s) ++
      (if (decode (covered content s) ++ feed).getLast? = some '\n' then ['\n'] else []) =
        unifyBreaks (lineFront content s) ++ (unifyBreaks (spanText content s) ++
          unifyBreaks (lineBack content s ++ feed)) := by
    rw [← hlines, ← Text.unifyBreaks_eq hplain, htext,
      Text.unifyBreaks_append fun _ => hhead,
      Text.unifyBreaks_append fun hlast => absurd hlast hreturn]
  split at hunified
  · -- The line feed at the end is behind the text, so it can be left out on both sides.
    rename_i hlast
    have hback : lineBack content s ++ feed ≠ [] := by
      intro hnil
      rw [htext, hnil, List.append_nil, List.getLast?_append_of_ne_nil _ h.spanText_ne_nil] at hlast
      exact hfeed hlast
    have hunified' := congrArg List.dropLast hunified
    rw [List.dropLast_concat, ← List.append_assoc,
      List.dropLast_append_of_ne_nil (Text.unifyBreaks_ne_nil hback)] at hunified'
    exact ⟨_, _, hunified'.symm⟩
  · rw [List.append_nil, ← List.append_assoc] at hunified
    exact ⟨_, _, hunified.symm⟩

/-- A span ends on one of the lines of the source. -/
theorem CutOut.last_le (h : CutOut content s) (hplain : hasPlainBreaks (decode content) = true) :
    lineFeeds (content.take s.stop) + 1 ≤ (lines (decode content)).length := by
  have hcount : lineFeeds content =
      lineFeeds (content.take s.stop) + lineFeeds (content.drop s.stop) := by
    rw [← lineFeeds_append, List.take_append_drop]
  rw [Text.length_lines hplain, count_decode, hcount]
  split
  · omega
  · -- A source that ends with a line feed ends behind the span.
    rename_i hany
    have hfeed : content.getLast? = some 10 := by
      by_contra hlast
      have hne : decode content ≠ [] := Text.decode_ne_nil
        (List.ne_nil_of_length_pos (Nat.lt_of_lt_of_le (Nat.zero_lt_of_lt h.positive) h.stop_le))
      have hchar := Text.getLast?_decode (b := 10) (by decide) hlast
      rw [List.getLast?_eq_some_getLast hne] at hany hchar
      exact hany (decide_eq_true fun hc => hchar (congrArg some hc))
    have hmem : (10 : UInt8) ∈ content.drop s.stop := by
      rw [← List.take_append_drop s.stop content, List.getLast?_append] at hfeed
      rcases Option.or_eq_some_iff.mp hfeed with hbehind | ⟨-, hinside⟩
      · exact List.mem_of_getLast? hbehind
      · exact absurd hinside h.getLast?_ne
    have hpos : 0 < lineFeeds (content.drop s.stop) := List.count_pos_iff.mpr hmem
    omega

end Position

/-! ### Declarations -/

namespace CompilationUnit

variable {path : Files.Path} {content : Bytes} {l : Located}

/-- A type at the top of a unit ends with a group at the top of its source. -/
theorem exists_group_of_mem_ofItems {source : SourceFile} {ts : List Java.Tree}
    {previous : Option Java.CommentSyntax} {items : List Java.Item}
    (h : ∀ item ∈ items, Java.Reader.EndsWithGroup ts item) :
    ∀ e ∈ ofItems source none previous items,
      ∃ u ∈ ts, u.isGroup "\x7b" = true ∧ e.declaration.span.stop = u.stop := by
  intro e he
  have hrest : ∀ s members, Java.Item.rest s members ∉ items := fun s members hmem => h _ hmem
  obtain ⟨doc, head, members, hmem, rfl⟩ := exists_type_of_mem_ofItems hrest e he
  exact h _ hmem

/-- A type at the top of a unit does not end with a blank. -/
theorem final_of_mem_located (h : l ∈ (read path content).located) :
    ∀ b ∈ (content.take l.declaration.span.stop).getLast?, Java.Lexer.isBlankByte b = false := by
  obtain ⟨e, he, rfl⟩ := List.mem_map.mp h
  obtain ⟨u, hu, hgroup, hstop⟩ :=
    exists_group_of_mem_ofItems (Java.Reader.endsWithGroup_of_mem_items content) e he
  show ∀ b ∈ (content.take e.declaration.span.stop).getLast?, _
  rw [hstop]
  exact Java.Tree.final_of_isGroup hu hgroup

/-- The declarations of a unit are cut out of its source. -/
theorem cutOut_of_mem_flatten (h : l ∈ (read path content).flatten) :
    Position.CutOut content l.declaration.span := by
  have hsolid := solid_of_mem_flatten h
  obtain ⟨t, rest, htail, hstart, last, hlast, hstop⟩ := (stands_of_mem_flatten h).reaches
  have hfirst : t.first ∈ Java.Tree.tokensAll (t :: rest) :=
    List.mem_append_left _ (Java.Tree.first_mem_tokens t)
  obtain ⟨hfirst, hfirst'⟩ := Java.Tree.piece_mem_of_mem_tokens (htail.tokens_subset hfirst)
  obtain ⟨hlast, hlast'⟩ := Java.Tree.piece_mem_of_mem_tokens (htail.tokens_subset hlast)
  refine { toSolid := hsolid, read := ?_, first := ?_, final := ?_ }
  · have hpositive := hsolid.positive
    rw [hstart, hstop] at hpositive ⊢
    rw [Java.Lexer.decode_take_append_drop hfirst hfirst', List.append_assoc]
    exact congrArg _ (Java.Lexer.decode_drop_append hlast hlast' hpositive)
  · rw [hstart]
    exact Java.Lexer.head?_drop hfirst hfirst'
  · -- What is enclosed is not at the end of the source.
    rcases placed_of_mem_flatten h with htop | ⟨owner, howner, hmem⟩
    · exact final_of_mem_located htop
    · have hinside := (isInside_of_mem_enclosed howner hmem).stop
      have howner := (solid_of_mem_flatten howner).stop_le
      have hrest : content.drop last.piece.stop ≠ [] := by
        refine List.ne_nil_of_length_pos ?_
        rw [List.length_drop]
        omega
      have hkind := Java.Lexer.isToken_of_not_trivia hlast'
      have hfits := (Java.Lexer.standsIn_of_mem_pieces hlast hkind.1).2
      rw [hstop, Java.Lexer.getLast?_take hlast hlast']
      exact hfits.getLast? hkind hrest

end CompilationUnit

namespace Declaration

open Apidoc.Model.Position

/-- Whether line `i`, counted from zero, is shown for a declaration. A field is shown with the line
above it, if there is one. -/
def Shows (d : Declaration) (content : Bytes) (i : Nat) : Prop :=
  Touches content d.span i ∨ d.kind = .field ∧ i + 1 = lineFeeds (content.take d.span.start)

instance (d : Declaration) (content : Bytes) (i : Nat) : Decidable (d.Shows content i) :=
  inferInstanceAs (Decidable (_ ∨ _))

/-- How a declaration is shown with the lines of its source. Lines are numbered from one in ranges,
and the first line of the declaration proper is that of its span. -/
structure SourceLines (d : Declaration) (content : Bytes) : Prop where
  shown : d.sourceCode content = unlines (linesWhere content fun i => d.Shows content i)
  shown_lt : ∀ i, d.Shows content i → i < (lines (decode content)).length
  text : unifyBreaks (spanText content d.span) <:+: d.sourceCode content
  first : 1 ≤ (d.declarationLines content).1
  first_le : (d.declarationLines content).1 ≤ (d.declarationLines content).2
  last_le : (d.declarationLines content).2 ≤ (lines (decode content)).length
  doc_first : ∀ range ∈ d.documentLines content, 1 ≤ range.1
  doc_first_le : ∀ range ∈ d.documentLines content, range.1 ≤ range.2
  doc_last_le : ∀ range ∈ d.documentLines content, range.2 ≤ (lines (decode content)).length
  doc_before : ∀ range ∈ d.documentLines content,
    range.2 ≤ (lineRange content d.span.start d.span.stop).1

variable {d : Declaration} {content : Bytes}

/-- The last line of a span, counted from one. -/
theorem lineRange_snd {s : Span} (h : s.start ≤ s.stop) :
    (lineRange content s.start s.stop).2 = lineFeeds (content.take s.stop) + 1 := by
  have hsplit : content.take s.start ++ (content.take s.stop).drop s.start =
      content.take s.stop := by
    conv_rhs => rw [← List.take_append_drop s.start (content.take s.stop)]
    rw [List.take_take, Nat.min_eq_left h]
  have hcount := congrArg lineFeeds hsplit
  rw [lineFeeds_append] at hcount
  rw [lineRange_eq]
  show lineFeeds (content.take s.start) + 1 + lineFeeds ((content.take s.stop).drop s.start) = _
  omega

/-- The lines that are shown follow one another. -/
theorem shows_iff (h : CutOut content d.span) (i : Nat) :
    d.Shows content i ↔
      (if d.kind = .field then lineFeeds (content.take d.span.start) - 1
        else lineFeeds (content.take d.span.start)) ≤ i ∧
      i < lineFeeds (content.take d.span.stop) + 1 := by
  have hle : lineFeeds (content.take d.span.start) ≤ lineFeeds (content.take d.span.stop) :=
    lineFeeds_take_mono content h.positive.le
  rw [Shows, touches_iff h.positive h.stop_le h.getLast?_ne]
  by_cases hfield : d.kind = .field
  · rw [if_pos hfield]
    simp only [hfield, true_and]
    omega
  · rw [if_neg hfield]
    simp only [hfield, false_and, or_false]
    omega

theorem sourceCode_eq (h : CutOut content d.span) :
    d.sourceCode content = unlines (linesWhere content fun i => d.Shows content i) := by
  have hshows : ∀ i, decide (d.Shows content i) = true ↔ _ := fun i =>
    decide_eq_true_iff.trans (shows_iff h i)
  rw [linesWhere_eq content hshows]
  show unlines (textLines content (d.declarationLines content).1 (d.declarationLines content).2) = _
  rw [declarationLines_eq, lineRange_snd h.positive.le, textLines_natCast]

/-- The text of a declaration is part of its source code. -/
theorem spanText_infix_sourceCode (h : CutOut content d.span)
    (hplain : hasPlainBreaks (decode content) = true) :
    unifyBreaks (spanText content d.span) <:+: d.sourceCode content := by
  show _ <:+:
    unlines (textLines content (d.declarationLines content).1 (d.declarationLines content).2)
  rw [textLines_declarationLines h.toSolid hplain]
  exact (h.spanText_infix hplain).trans (Text.unlines_suffix _ _).isInfix

end Declaration

namespace CompilationUnit

open Apidoc.Model.Position

variable {path : Files.Path} {content : Bytes} {l : Located}

/-- The declarations of a unit are shown with the lines of its source, where line feeds, alone or
behind carriage returns, are the only line separators. -/
theorem sourceLines_of_mem_flatten (hplain : hasPlainBreaks (decode content) = true)
    (h : l ∈ (read path content).flatten) : l.declaration.SourceLines content := by
  have hcut := cutOut_of_mem_flatten h
  have hstart : lineFeeds (content.take l.declaration.span.start) ≤
      lineFeeds (content.take l.declaration.span.stop) :=
    lineFeeds_take_mono content hcut.positive.le
  have hlast := hcut.last_le hplain
  -- A doc comment starts and ends in front of the declaration, and so do its lines.
  have hdoc : ∀ range ∈ l.declaration.documentLines content, 1 ≤ range.1 ∧ range.1 ≤ range.2 ∧
      range.2 ≤ lineFeeds (content.take l.declaration.span.start) + 1 := by
    intro range hrange
    obtain ⟨doc, hdoc, rfl⟩ := Option.map_eq_some_iff.mp hrange
    obtain ⟨hpositive, hstop⟩ := doc_of_mem_flatten h doc hdoc
    have hfirst := lineFeeds_take_mono content hpositive.le
    have hbefore := lineFeeds_take_mono content hstop
    rw [Declaration.lineRange_snd hpositive.le, lineRange_eq]
    show 1 ≤ lineFeeds (content.take doc.span.start) + 1 ∧
      lineFeeds (content.take doc.span.start) + 1 ≤ lineFeeds (content.take doc.span.stop) + 1 ∧ _
    omega
  have hrange : (l.declaration.declarationLines content).2 =
      lineFeeds (content.take l.declaration.span.stop) + 1 := by
    rw [Declaration.declarationLines_eq]
    exact Declaration.lineRange_snd hcut.positive.le
  exact {
    shown := Declaration.sourceCode_eq hcut
    shown_lt := fun i hi => by
      have hi := ((Declaration.shows_iff hcut i).mp hi).2
      omega
    text := Declaration.spanText_infix_sourceCode hcut hplain
    first := by
      rw [Declaration.declarationLines_eq]
      exact Nat.succ_pos _
    first_le := by
      rw [hrange, Declaration.declarationLines_eq]
      refine Nat.succ_le_succ ?_
      split
      · exact (Nat.sub_le _ 1).trans hstart
      · exact hstart
    last_le := by
      rw [hrange]
      exact hlast
    doc_first := fun range hrange => (hdoc range hrange).1
    doc_first_le := fun range hrange => (hdoc range hrange).2.1
    doc_last_le := fun range hrange => by
      have hle := (hdoc range hrange).2.2
      omega
    doc_before := fun range hrange => by
      rw [lineRange_eq]
      exact (hdoc range hrange).2.2 }

/-- A file with a byte order mark, with a carriage return in front of each line feed, and with a
character of two bytes on the line above a field. -/
def markedFile : Bytes :=
  Java.Lexer.byteOrderMark ++
    Text.encode "class A \x7b\r\n  // \u00e9\r\n  /** d */ int b;\r\n\x7d"

/-- The field is shown with the comment above it. -/
theorem sourceLines_of_mem_flatten_markedFile :
    hasPlainBreaks (decode markedFile) = true ∧
      ∃ l ∈ (read (Files.Path.ofString "A.java") markedFile).flatten,
        l.declaration.sourceCode markedFile = "  // \u00e9\n  /** d */ int b;".toList ∧
          l.declaration.documentLines markedFile = some (3, 3) ∧
          l.declaration.SourceLines markedFile := by
  have hplain : hasPlainBreaks (decode markedFile) = true := by decide +kernel
  have hfound : ((read (Files.Path.ofString "A.java") markedFile).flatten.find? fun l =>
      l.declaration.kind = .field).map (fun l =>
        (l.declaration.sourceCode markedFile, l.declaration.documentLines markedFile)) =
      some ("  // \u00e9\n  /** d */ int b;".toList, some (3, 3)) := by
    decide +kernel
  obtain ⟨l, hl, hshown⟩ := Option.map_eq_some_iff.mp hfound
  have hmem := List.mem_of_find?_eq_some hl
  obtain ⟨hsource, hdoc⟩ := Prod.mk.inj hshown
  exact ⟨hplain, l, hmem, hsource, hdoc, sourceLines_of_mem_flatten hplain hmem⟩

end CompilationUnit

end Apidoc.Model
