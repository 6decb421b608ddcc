import Apidoc.Proofs.Sample.Listing
import Mathlib.Data.List.DropRight

/-!
# `Apidoc.Proofs.Sample.Again`: a listing laid out once more

The lines of a listing stay as they are when they are laid out again (`tidyLines_tidyLines`).
The listing itself does so too, with one exception: a single line is trimmed at both ends,
whereas the lines of a longer code keep the blanks behind them. So a code of several lines that
leaves one line, with blanks behind it, loses these blanks the second time
(`tidy_tidy_eq_iff`). After that nothing changes any more.
-/

set_option autoImplicit false

namespace Apidoc.Sample.Listing

open Apidoc.Text

variable {noise : List String} {ls : List (List Char)} {line code : List Char}

/-! ### Blanks behind a line -/

/-- Trimming the end leaves a text alone if and only if no blank stands there. -/
theorem trimEnd_eq_self_iff : trimEnd line = line ↔ ∀ c ∈ line.getLast?, isBlank c = false := by
  have hdrop : trimEnd line = line.rdropWhile isBlank := rfl
  rw [hdrop, List.rdropWhile_eq_self_iff]
  constructor
  · intro h c hc
    obtain ⟨hne, rfl⟩ := List.mem_getLast?_eq_getLast hc
    exact Bool.not_eq_true _ ▸ h hne
  · intro h hne hblank
    have hlast := h _ (List.getLast_mem_getLast? hne)
    rw [hblank] at hlast
    cases hlast

/-- Moving a line to the left leaves the blanks behind it. -/
theorem trimEnd_drop_eq_self_iff {n : Nat} (h : n ≤ indent line) (hline : allBlank line = false) :
    trimEnd (line.drop n) = line.drop n ↔ trimEnd line = line := by
  have hlength : ¬ line.length ≤ n := by
    intro hle
    have hbehind := allBlank_drop h hline
    rw [List.drop_eq_nil_of_le hle] at hbehind
    cases hbehind
  rw [trimEnd_eq_self_iff, trimEnd_eq_self_iff, List.getLast?_drop, if_neg hlength]

/-- Moving a line to the left changes nothing between its blanks. -/
theorem trim_drop {n : Nat} (h : n ≤ indent line) : trim (line.drop n) = trim line := by
  have hfront : ∀ c ∈ line.take n, isBlank c = true := fun c hc =>
    List.all_eq_true.mp (allBlank_take h) c hc
  have hstart : trimStart line = trimStart (line.drop n) := by
    conv_lhs => rw [← List.take_append_drop n line]
    exact List.dropWhile_append_of_pos hfront
  rw [trim, trim, hstart]

/-- Without its indent a line begins with its first character that is no blank. -/
theorem drop_indent (line : List Char) : line.drop (indent line) = line.dropWhile isBlank := by
  have hrest : (line.takeWhile isBlank ++ line.dropWhile isBlank).drop (indent line) =
      line.dropWhile isBlank := List.drop_left
  rwa [List.takeWhile_append_dropWhile] at hrest

/-- Moving a line to the left leaves its noise alone. -/
theorem isNoiseLine_shift {n : Nat} (h : allBlank line = false → n ≤ indent line) :
    isNoiseLine noise (shift n line) = isNoiseLine noise line := by
  have htrim : trim (shift n line) = trim line := by
    rw [shift]
    split
    · rename_i hblank
      rw [trim_eq_nil_iff.mpr hblank]
      rfl
    · rename_i hblank
      exact trim_drop (h (Bool.eq_false_iff.mpr hblank))
  rw [isNoiseLine, isNoiseLine, htrim]

/-! ### Laying lines out again -/

/-- The first line that is left is not blank. -/
theorem not_blank_of_head? (h : line ∈ (dropBlankEnds ls).head?) : allBlank line = false := by
  have hprefix : dropBlankEnds ls <+: ls.dropWhile allBlank := List.rdropWhile_prefix _ _
  obtain ⟨below, hbelow⟩ := hprefix
  have hhead : (ls.dropWhile allBlank).head? = some line := by
    rw [← hbelow, List.head?_append, h]
    rfl
  exact not_of_head?_dropWhile hhead

/-- Nothing is left out between two lines that are not blank. -/
theorem dropBlankEnds_eq_self (hfirst : ∀ line ∈ ls.head?, allBlank line = false)
    (hlast : ∀ line ∈ ls.getLast?, allBlank line = false) : dropBlankEnds ls = ls := by
  have hfront : ls.dropWhile allBlank = ls := by
    cases ls with
    | nil => rfl
    | cons first rest => exact List.dropWhile_cons_of_neg (by simp [hfirst first rfl])
  have hback : ls.rdropWhile allBlank = ls :=
    List.rdropWhile_eq_self_iff.mpr fun hne => by simp [hlast _ (List.getLast_mem_getLast? hne)]
  show (ls.dropWhile allBlank).rdropWhile allBlank = ls
  rw [hfront, hback]

/-- Some line that holds something has the common indent. -/
theorem exists_indent_eq (h : written ls ≠ []) :
    ∃ line ∈ written ls, indent line = commonIndent ls := by
  obtain ⟨first, hfirst⟩ := List.exists_mem_of_ne_nil _ h
  obtain ⟨least, hleast⟩ :=
    Option.isSome_iff_exists.mp (List.isSome_min?_of_mem (List.mem_map_of_mem (f := indent) hfirst))
  obtain ⟨line, hline, hindent⟩ := List.mem_map.mp (List.min?_mem hleast)
  refine ⟨line, hline, hindent.trans ?_⟩
  exact (congrArg (·.getD 0) hleast).symm

/-- Lines that share an indent have none after they were moved to the left by it. -/
theorem commonIndent_map_shift (ls : List (List Char)) :
    commonIndent (ls.map (shift (commonIndent ls))) = 0 := by
  have hwritten : written (ls.map (shift (commonIndent ls))) =
      (written ls).map (List.drop (commonIndent ls)) := written_map_shift fun _ => commonIndent_le
  by_cases hnone : written ls = []
  · rw [hnone] at hwritten
    rw [commonIndent]
    exact congrArg (fun ls => ((ls.map indent).min?).getD 0) hwritten
  · obtain ⟨line, hline, hindent⟩ := exists_indent_eq hnone
    have hmem : line.drop (commonIndent ls) ∈ written (ls.map (shift (commonIndent ls))) := by
      rw [hwritten]
      exact List.mem_map_of_mem hline
    have hzero : indent (line.drop (commonIndent ls)) = 0 := by
      rw [← hindent, drop_indent, indent, List.length_eq_zero_iff, List.takeWhile_eq_nil_iff]
      intro hpos
      exact Bool.not_eq_true _ ▸ List.dropWhile_get_zero_not _ _ hpos
    exact Nat.le_zero.mp (hzero ▸ commonIndent_le hmem)

/-- A line that is moved to the left by no more than its indent is as blank as before. -/
theorem allBlank_shift {n : Nat} (h : allBlank line = false → n ≤ indent line) :
    allBlank (shift n line) = allBlank line := by
  rw [shift]
  split
  · rename_i hblank
    rw [hblank]
    rfl
  · rename_i hblank
    rw [Bool.not_eq_true] at hblank
    rw [allBlank_drop (h hblank) hblank, hblank]

/-- Moving by nothing leaves a line alone that was moved before. -/
theorem shift_zero_shift {n : Nat} (h : allBlank line = false → n ≤ indent line) :
    shift 0 (shift n line) = shift n line := by
  have hsame := allBlank_shift h
  rw [shift, hsame]
  split
  · rename_i hblank
    rw [shift, if_pos hblank]
  · rfl

/-- The kept lines are indented by no less than what they share. -/
theorem commonIndent_keptLines_le (h : line ∈ keptLines noise ls) (hline : allBlank line = false) :
    commonIndent (keptLines noise ls) ≤ indent line :=
  commonIndent_le (mem_written.mpr ⟨h, hline⟩)

/-- The lines of a listing stay as they are. -/
theorem tidyLines_tidyLines (noise : List String) (ls : List (List Char)) :
    tidyLines noise (tidyLines noise ls) = tidyLines noise ls := by
  have hkept : keptLines noise (tidyLines noise ls) = tidyLines noise ls := by
    have hnoise : (tidyLines noise ls).filter (fun line => !isNoiseLine noise line) =
        tidyLines noise ls := by
      refine List.filter_eq_self.mpr fun line hline => ?_
      rw [tidyLines_eq] at hline
      obtain ⟨l, hl, rfl⟩ := List.mem_map.mp hline
      rw [isNoiseLine_shift (commonIndent_keptLines_le hl)]
      exact (List.mem_filter.mp (mem_of_mem_dropBlankEnds hl)).2
    rw [keptLines, hnoise, tidyLines_eq]
    refine dropBlankEnds_eq_self (fun line hline => ?_) fun line hline => ?_
    · rw [List.head?_map] at hline
      obtain ⟨l, hl, rfl⟩ := Option.map_eq_some_iff.mp hline
      rw [allBlank_shift (commonIndent_keptLines_le (List.mem_of_mem_head? hl)),
        not_blank_of_head? hl]
    · rw [List.getLast?_map] at hline
      obtain ⟨l, hl, rfl⟩ := Option.map_eq_some_iff.mp hline
      rw [allBlank_shift (commonIndent_keptLines_le (List.mem_of_getLast? hl)),
        not_blank_of_getLast? hl]
  rw [tidyLines_eq noise (tidyLines noise ls), hkept, tidyLines_eq, commonIndent_map_shift,
    List.map_map]
  exact List.map_congr_left fun line hline => shift_zero_shift (commonIndent_keptLines_le hline)

/-- A single line that is kept is not blank. -/
theorem not_blank_of_keptLines (h : keptLines noise ls = [line]) : allBlank line = false := by
  have hhead : line ∈ (keptLines noise ls).head? := by
    rw [h]
    rfl
  exact not_blank_of_head? hhead

/-- One line is kept if and only if one line holds something and is no noise. -/
theorem keptLines_eq_singleton_iff : keptLines noise ls = [line] ↔
    (written ls).filter (fun line => !isNoiseLine noise line) = [line] := by
  rw [← written_keptLines]
  have hfirst : ∀ l ∈ (keptLines noise ls).head?, allBlank l = false := fun _ => not_blank_of_head?
  have hlast : ∀ l ∈ (keptLines noise ls).getLast?, allBlank l = false := fun _ =>
    not_blank_of_getLast?
  generalize keptLines noise ls = kept at hfirst hlast ⊢
  cases kept with
  | nil => exact ⟨nofun, nofun⟩
  | cons first rest =>
    rw [written_cons_of_not_blank (hfirst first rfl)]
    cases rest with
    | nil => exact Iff.rfl
    | cons second more =>
      -- The last line is not blank either.
      have hmem : ((second :: more).getLast (List.cons_ne_nil _ _)) ∈ written (second :: more) := by
        refine mem_written.mpr ⟨List.getLast_mem _, hlast _ ?_⟩
        rw [List.getLast?_cons_of_ne_nil (List.cons_ne_nil _ _)]
        exact List.getLast_mem_getLast? _
      have hne : written (second :: more) ≠ [] := List.ne_nil_of_mem hmem
      exact ⟨nofun, fun h => absurd (List.cons.inj h).2 hne⟩

/-! ### Laying a listing out again -/

/-- A code of at most one line is trimmed, and stays as it is then. -/
theorem tidy_tidy_of_length_le_one (noise : List String) (h : (lines code).length ≤ 1) :
    tidy noise (tidy noise code) = tidy noise code := by
  have htrim : tidy noise code = trim code := if_pos h
  have hagain : tidy noise (trim code) = trim (trim code) :=
    if_pos (length_lines_le_one (isLine_trim h))
  rw [htrim, hagain, trim_trim]

/-- A code of several lines that leaves no line, or more than one, gives a listing that stays as it
is. -/
theorem tidy_tidy_of_keptLines (noise : List String) (hcode : 2 ≤ (lines code).length)
    (h : (keptLines noise (lines code)).length ≠ 1) :
    tidy noise (tidy noise code) = tidy noise code := by
  have hfirst : tidy noise code = unlines (tidyLines noise (lines code)) := if_neg (by omega)
  have hlength : (tidyLines noise (lines code)).length = (keptLines noise (lines code)).length :=
    List.length_map ..
  by_cases hnone : (keptLines noise (lines code)).length = 0
  · rw [hnone, List.length_eq_zero_iff] at hlength
    rw [hfirst, hlength]
    rfl
  · have hseveral : ¬ (lines (tidy noise code)).length ≤ 1 := by
      rw [lines_tidy noise hcode]
      omega
    have hagain : tidy noise (tidy noise code) =
        unlines (tidyLines noise (lines (tidy noise code))) := if_neg hseveral
    rw [hagain, lines_tidy noise hcode, tidyLines_tidyLines, hfirst]

/-- The one line that a code of several lines leaves loses its indent at first, and then the blanks
behind it. -/
theorem tidy_of_keptLines (noise : List String) (hcode : 2 ≤ (lines code).length)
    (h : keptLines noise (lines code) = [line]) :
    (lines (tidy noise code)).length ≤ 1 ∧ tidy noise code = line.drop (indent line) ∧
      tidy noise (tidy noise code) = trimEnd (tidy noise code) := by
  have hblank := not_blank_of_keptLines h
  have hindent : commonIndent [line] = indent line := by
    simp [commonIndent, hblank]
  have hlines : tidyLines noise (lines code) = [line.drop (indent line)] := by
    rw [tidyLines_eq, h, hindent, List.map_singleton, shift, if_neg (by simp [hblank])]
  have hfirst : tidy noise code = line.drop (indent line) := by
    rw [tidy, if_neg (by omega), hlines]
    rfl
  have hone : (lines (tidy noise code)).length ≤ 1 := by
    rw [lines_tidy noise hcode, hlines]
    exact Nat.le_refl 1
  have hstart : trimStart (tidy noise code) = tidy noise code := by
    rw [hfirst, drop_indent]
    exact dropWhile_eq_self fun _ hc => not_of_head?_dropWhile hc
  have hagain : tidy noise (tidy noise code) = trim (tidy noise code) := if_pos hone
  exact ⟨hone, hfirst, hagain.trans (congrArg trimEnd hstart)⟩

/-- A listing that is laid out once more stays as it is, unless it is the only line that a code of
several lines leaves, and ends with a blank. Then it loses the blanks at its end, and from there on
nothing changes. -/
theorem tidy_tidy_eq_iff (noise : List String) (code : List Char) :
    (tidy noise (tidy noise code) = tidy noise code ↔
        ∀ line, 2 ≤ (lines code).length →
          (written (lines code)).filter (fun line => !isNoiseLine noise line) = [line] →
            ∀ c ∈ line.getLast?, isBlank c = false) ∧
      (tidy noise (tidy noise code) = tidy noise code ∨
        tidy noise (tidy noise code) = trimEnd (tidy noise code)) ∧
      tidy noise (tidy noise (tidy noise code)) = tidy noise (tidy noise code) := by
  by_cases hone : (lines code).length ≤ 1 ∨ (keptLines noise (lines code)).length ≠ 1
  · have hsame : tidy noise (tidy noise code) = tidy noise code := by
      by_cases hcode : (lines code).length ≤ 1
      · exact tidy_tidy_of_length_le_one noise hcode
      · exact tidy_tidy_of_keptLines noise (by omega) (hone.resolve_left hcode)
    refine ⟨⟨fun _ line hcode hline => ?_, fun _ => hsame⟩, .inl hsame, congrArg (tidy noise) hsame⟩
    -- There is no such line.
    have hlength := congrArg List.length (keptLines_eq_singleton_iff.mpr hline)
    rw [List.length_singleton] at hlength
    omega
  · obtain ⟨hcode, hkept⟩ := not_or.mp hone
    obtain ⟨line, hline⟩ := List.length_eq_one_iff.mp (not_not.mp hkept)
    obtain ⟨hone, hfirst, hagain⟩ := tidy_of_keptLines noise (by omega) hline
    have hblank := not_blank_of_keptLines hline
    refine ⟨?_, .inr hagain, tidy_tidy_of_length_le_one noise hone⟩
    rw [hagain, hfirst, trimEnd_drop_eq_self_iff (Nat.le_refl _) hblank, trimEnd_eq_self_iff]
    constructor
    · intro hend other _ hother
      rw [← keptLines_eq_singleton_iff, hline] at hother
      exact (List.cons.inj hother).1 ▸ hend
    · exact fun hend => hend line (by omega) (keptLines_eq_singleton_iff.mp hline)

/-- A line with a blank behind it, and an empty line below. -/
def blankBehind : List Char := "x \n\n".toList

/-- The one line of a longer code loses the blank behind it only the second time. -/
theorem tidy_loses_blank_again :
    tidy noiseAnnotations blankBehind = "x ".toList ∧
      tidy noiseAnnotations (tidy noiseAnnotations blankBehind) ≠
        tidy noiseAnnotations blankBehind := by
  decide

end Apidoc.Sample.Listing
