import Apidoc.Proofs.Model.Span
import Apidoc.Proofs.Sample.Again
import Apidoc.Sample.Library

/-!
# `Apidoc.Proofs.Sample.Request`: the listing of what is asked for

A request for a member or a nested type selects a declaration of the cleaned file, and lists the
lines that it covers. A field takes the line above it too, if that begins like a comment or an
annotation. So the listing is that of the declaration's own lines if and only if laying it out
leaves no trace of that line (`listingIn?_ownLines_iff`).
-/

set_option autoImplicit false

namespace Apidoc.Sample

open Apidoc.Text (Bytes IsLine allBlank lines trim trimEnd unlines)

namespace Listing

variable {noise : List String} {ls : List (List Char)} {line code above : List Char}

/-! ### A line above a code -/

/-- Laying a code out leaves no trace of a line above it: the line is dropped, and what is left of a
single line is the same as if it was only trimmed. -/
def LeavesNoTrace (noise : List String) (above code : List Char) : Prop :=
  (allBlank above = true ∨ isNoiseLine noise above = true ∧ code ≠ []) ∧
    ((lines code).length ≤ 1 → ∀ line ∈ written (lines code),
      isNoiseLine noise line = false ∧ trimEnd line = line)

/-- A line that is blank or noise is dropped in front of others. -/
theorem keptLines_cons_of_dropped (h : allBlank above = true ∨ isNoiseLine noise above = true) :
    keptLines noise (above :: ls) = keptLines noise ls := by
  by_cases hnoise : isNoiseLine noise above = true
  · rw [keptLines, List.filter_cons_of_neg (by simp [hnoise])]
    rfl
  · rw [keptLines, List.filter_cons_of_pos (by simp [hnoise]), dropBlankEnds,
      List.dropWhile_cons_of_pos (h.resolve_right hnoise)]
    rfl

/-- Of a single line nothing is kept if it is blank or noise. -/
theorem keptLines_singleton (noise : List String) (line : List Char) :
    keptLines noise [line] =
      if allBlank line = true ∨ isNoiseLine noise line = true then [] else [line] := by
  by_cases hnoise : isNoiseLine noise line = true
  · simp [keptLines, dropBlankEnds, hnoise]
  · by_cases hblank : allBlank line = true <;> simp [keptLines, dropBlankEnds, hnoise, hblank]

/-- Behind a line that is dropped a single line is as if it was only trimmed, unless it is noise or
has blanks behind it. -/
theorem tidy_append_iff_of_single (habove : IsLine above)
    (hdropped : allBlank above = true ∨ isNoiseLine noise above = true)
    (hlines : lines code = [line]) :
    tidy noise (above ++ '\n' :: code) = tidy noise code ↔
      ∀ l ∈ written [line], isNoiseLine noise l = false ∧ trimEnd l = l := by
  have hfull : lines (above ++ '\n' :: code) = [above, line] := by
    rw [Text.lines_append_lineFeed habove, hlines]
  have hseveral : 2 ≤ (lines (above ++ '\n' :: code)).length := hfull ▸ Nat.le_refl 2
  have hkept : keptLines noise (lines (above ++ '\n' :: code)) =
      if allBlank line = true ∨ isNoiseLine noise line = true then [] else [line] := by
    rw [hfull, keptLines_cons_of_dropped hdropped, keptLines_singleton]
  have htrim : tidy noise code = trim line := by
    have hsingle : (lines code).length ≤ 1 := hlines ▸ Nat.le_refl 1
    rw [tidy, if_pos hsingle, Text.trim_of_lines hlines]
  have hnone : allBlank line = true ∨ isNoiseLine noise line = true →
      tidy noise (above ++ '\n' :: code) = [] := fun h => by
    rw [tidy, if_neg (by omega), tidyLines_eq, hkept, if_pos h]
    rfl
  rw [htrim]
  by_cases hblank : allBlank line = true
  · rw [hnone (.inl hblank), Text.trim_eq_nil_iff.mpr hblank, written_cons_of_blank hblank]
    exact iff_of_true rfl (List.forall_mem_nil _)
  · rw [written_cons_of_not_blank (Bool.eq_false_iff.mpr hblank)]
    by_cases hnoise : isNoiseLine noise line = true
    · rw [hnone (.inr hnoise)]
      refine iff_of_false (fun h => hblank (Text.trim_eq_nil_iff.mp h.symm)) fun h => ?_
      rw [(h line List.mem_cons_self).1] at hnoise
      cases hnoise
    · rw [if_neg (not_or.mpr ⟨hblank, hnoise⟩)] at hkept
      have hend := trimEnd_drop_eq_self_iff (Nat.le_refl _) (Bool.eq_false_iff.mpr hblank)
      have htrim : trim line = trimEnd (line.drop (indent line)) := by
        rw [drop_indent]
        rfl
      rw [(tidy_of_keptLines noise hseveral hkept).2.1, htrim, eq_comm, hend]
      refine ⟨fun h l hl => ?_, fun h => (h line List.mem_cons_self).2⟩
      rw [List.mem_singleton.mp hl]
      exact ⟨Bool.eq_false_iff.mpr hnoise, h⟩

/-- A single line that is blank or noise is trimmed to one that is. -/
theorem dropped_of_filter_eq_nil (hsingle : (lines code).length ≤ 1)
    (h : (written (lines code)).filter (fun line => !isNoiseLine noise line) = []) :
    allBlank (trim code) = true ∨ isNoiseLine noise (trim code) = true := by
  by_cases hnil : lines code = []
  · rw [Text.eq_nil_of_lines hnil]
    exact .inl rfl
  · obtain ⟨line, hline⟩ : ∃ line, lines code = [line] :=
      List.length_eq_one_iff.mp (Nat.le_antisymm hsingle (List.length_pos_iff.mpr hnil))
    rw [Text.trim_of_lines hline]
    by_cases hblank : allBlank line = true
    · rw [Text.trim_eq_nil_iff.mpr hblank]
      exact .inl rfl
    · rw [hline, written_cons_of_not_blank (Bool.eq_false_iff.mpr hblank),
        List.filter_eq_nil_iff] at h
      have hnoise := h line List.mem_cons_self
      rw [Bool.not_eq_true', Bool.not_eq_false] at hnoise
      rw [isNoiseLine, Text.trim_trim]
      exact .inr hnoise

/-- A line that is neither blank nor noise leaves its trace above every code. -/
theorem tidy_append_ne (habove : IsLine above) (hblank : allBlank above = false)
    (hnoise : isNoiseLine noise above = false) :
    tidy noise (above ++ '\n' :: code) ≠ tidy noise code := by
  intro hsame
  have hlines : lines (above ++ '\n' :: code) = above :: lines code :=
    Text.lines_append_lineFeed habove code
  by_cases hnil : lines code = []
  · obtain rfl := Text.eq_nil_of_lines hnil
    have htidy : tidy noise (above ++ ['\n']) = trim above := by
      have hsingle : (lines (above ++ ['\n'])).length ≤ 1 := hlines ▸ Nat.le_refl 1
      rw [tidy, if_pos hsingle, Text.trim_append_blank (List.all_eq_true.mp rfl)]
    rw [Text.trim_eq_nil_iff.mp (htidy.symm.trans hsame)] at hblank
    cases hblank
  have hseveral : 2 ≤ (lines (above ++ '\n' :: code)).length := by
    have hpos := List.length_pos_iff.mpr hnil
    rw [hlines, List.length_cons]
    omega
  let plain := (written (lines code)).filter fun line => !isNoiseLine noise line
  have hfull : (written (lines (above ++ '\n' :: code))).filter
      (fun line => !isNoiseLine noise line) = above :: plain := by
    rw [hlines, written_cons_of_not_blank hblank, List.filter_cons_of_pos (by simp [hnoise])]
  -- The lines that hold something are counted, with and without the line above.
  obtain ⟨n, hwith, -⟩ := written_lines_tidy noise hseveral
  have hwith := congrArg List.length hwith
  rw [hsame, hfull, List.length_map, List.length_cons] at hwith
  by_cases hsingle : (lines code).length ≤ 1
  · have htrim : tidy noise code = trim code := if_pos hsingle
    have hle : (written (lines (trim code))).length ≤ 1 :=
      (List.length_filter_le _ _).trans (Text.length_lines_le_one (Text.isLine_trim hsingle))
    rw [htrim] at hwith hsame
    have hplain : plain = [] := List.length_eq_zero_iff.mp (by omega)
    have hkept := keptLines_eq_singleton_iff.mpr (hfull.trans (congrArg (above :: ·) hplain))
    rw [(tidy_of_keptLines noise hseveral hkept).2.1] at hsame
    have hdropped := dropped_of_filter_eq_nil hsingle hplain
    rw [← hsame, allBlank_drop (Nat.le_refl _) hblank, isNoiseLine, trim_drop (Nat.le_refl _)]
      at hdropped
    exact absurd (hdropped.resolve_left Bool.false_ne_true) (Bool.eq_false_iff.mp hnoise)
  · have hcode : 2 ≤ (lines code).length := by omega
    obtain ⟨m, hwithout, -⟩ := written_lines_tidy noise hcode
    have hlength : (written (lines (tidy noise code))).length = plain.length := by
      rw [hwithout, List.length_map]
    omega

/-- Of a code with a line above it the same is left as of the code alone if and only if there is no
trace of the line. -/
theorem tidy_append_iff (habove : IsLine above) :
    tidy noise (above ++ '\n' :: code) = tidy noise code ↔ LeavesNoTrace noise above code := by
  have hfull : lines (above ++ '\n' :: code) = above :: lines code :=
    Text.lines_append_lineFeed habove code
  by_cases hdropped : allBlank above = true ∨ isNoiseLine noise above = true
  · by_cases hnil : code = []
    · subst hnil
      have htidy : tidy noise (above ++ ['\n']) = trim above := by
        have hsingle : (lines (above ++ ['\n'])).length ≤ 1 := hfull ▸ Nat.le_refl 1
        rw [tidy, if_pos hsingle, Text.trim_append_blank (List.all_eq_true.mp rfl)]
      rw [htidy]
      show trim above = [] ↔ _
      rw [Text.trim_eq_nil_iff]
      exact ⟨fun h => ⟨.inl h, fun _ => List.forall_mem_nil _⟩,
        fun h => h.1.resolve_right fun h => h.2 rfl⟩
    · have hdropped' : allBlank above = true ∨ isNoiseLine noise above = true ∧ code ≠ [] :=
        hdropped.imp_right fun hnoise => ⟨hnoise, hnil⟩
      by_cases hsingle : (lines code).length ≤ 1
      · obtain ⟨line, hline⟩ : ∃ line, lines code = [line] :=
          List.length_eq_one_iff.mp <| Nat.le_antisymm hsingle <|
            List.length_pos_iff.mpr fun h => hnil (Text.eq_nil_of_lines h)
        rw [tidy_append_iff_of_single habove hdropped hline, LeavesNoTrace, hline]
        exact ⟨fun h => ⟨hdropped', fun _ => h⟩, fun h => h.2 (Nat.le_refl 1)⟩
      · refine iff_of_true ?_ ⟨hdropped', fun h => absurd h hsingle⟩
        have hseveral : ¬ (lines (above ++ '\n' :: code)).length ≤ 1 := by
          rw [hfull, List.length_cons]
          omega
        rw [tidy, tidy, if_neg hseveral, if_neg hsingle, tidyLines_eq, tidyLines_eq, hfull,
          keptLines_cons_of_dropped hdropped]
  · obtain ⟨hblank, hnoise⟩ := not_or.mp hdropped
    exact iff_of_false
      (tidy_append_ne habove (Bool.eq_false_iff.mpr hblank) (Bool.eq_false_iff.mpr hnoise))
      fun h => hdropped (h.1.imp_right And.left)

end Listing

namespace Library

open Apidoc.Files (Path)
open Apidoc.Model (CompilationUnit Declaration Located)
open Apidoc.Model.Position (Solid linesAbove ownLines)
open Apidoc.Text (decode hasPlainBreaks)
open Apidoc.Sample.Listing (LeavesNoTrace tidy)

variable {noise : List String} {path : Path} {content : Bytes} {trailing : List String}
  {member : Option String} {found : Located}

/-! ### What is asked for -/

/-- Where a member is looked for: in all of a unit, or in the first type with the given name. -/
def searched (unit : CompilationUnit) : Option String → List Located
  | none => unit.flatten
  | some type => ((findType? unit.flatten type).map fun scope =>
      scope.enclosed.flatMap Located.flatten).getD []

/-- The declaration of a unit that a request for a member or a nested type selects. `trailing` are
the segments of the name that do not belong to the path. -/
def selected? (unit : CompilationUnit) (trailing : List String) :
    (member : Option String) → Option Located
  | some descriptor => findDeclaration? (searched unit trailing.getLast?) descriptor
  | none => trailing.getLast?.bind fun descriptor => findDeclaration? unit.flatten descriptor

/-- A request for a member or a nested type lists what it selects. -/
theorem listingIn?_eq (hrequest : trailing ≠ [] ∨ member ≠ none) :
    listingIn? noise path content trailing member =
      (selected? (CompilationUnit.read path (Clean.clean noise content)) trailing member).map
        fun found => listing noise found.declaration (Clean.clean noise content) := by
  unfold listingIn? selected?
  cases htype : trailing.getLast? with
  | none =>
    cases member with
    | none =>
      rw [List.getLast?_eq_none_iff] at htype
      exact absurd hrequest (by simp [htype])
    | some descriptor => simp [searched, Option.map_eq_bind]
  | some type =>
    cases member with
    | none => simp [Option.map_eq_bind]
    | some descriptor =>
      cases hscope : findType?
          (CompilationUnit.read path (Clean.clean noise content)).flatten type with
      | none =>
        have hnone : findDeclaration? [] descriptor = none := rfl
        simp [searched, hscope, hnone]
      | some scope => simp [searched, hscope, Option.map_eq_bind]

theorem mem_of_findType? {candidates : List Located} {name : String}
    (h : found ∈ findType? candidates name) : found ∈ candidates :=
  List.mem_of_find?_eq_some h

/-- A method goes before a type, and a type before a field. -/
theorem findDeclaration?_eq (candidates : List Located) (descriptor : String) :
    findDeclaration? candidates descriptor =
      (candidates.find? fun l => l.declaration.kind = .method &&
        l.declaration.signature = Java.Descriptor.normalized descriptor).or
        ((findType? candidates descriptor).or (candidates.find? fun l =>
          l.declaration.kind = .field && descriptor ∈ l.declaration.variableNames)) := by
  rw [findDeclaration?, Option.orElse_eq_orElse, Option.orElse_eq_or, Option.orElse_eq_or]

theorem mem_of_findDeclaration? {candidates : List Located} {descriptor : String}
    (h : found ∈ findDeclaration? candidates descriptor) : found ∈ candidates := by
  rw [findDeclaration?_eq] at h
  rcases Option.or_eq_some_iff.mp h with h | ⟨-, h⟩
  · exact List.mem_of_find?_eq_some h
  · rcases Option.or_eq_some_iff.mp h with h | ⟨-, h⟩
    · exact mem_of_findType? h
    · exact List.mem_of_find?_eq_some h

/-- What is searched is declared in the unit. -/
theorem mem_flatten_of_mem_searched {unit : CompilationUnit} {m : Located} {type : Option String}
    (hm : m ∈ searched unit type) : m ∈ unit.flatten := by
  cases type with
  | none => exact hm
  | some name =>
    rw [searched] at hm
    cases hscope : findType? unit.flatten name with
    | none =>
      rw [hscope] at hm
      cases hm
    | some scope =>
      rw [hscope] at hm
      refine (CompilationUnit.infix_flatten (mem_of_findType? hscope)).subset ?_
      rw [Located.flatten_eq_cons]
      exact List.mem_cons_of_mem scope hm

/-- What a request selects is a declaration of the unit. -/
theorem mem_flatten_of_selected? {unit : CompilationUnit}
    (h : found ∈ selected? unit trailing member) : found ∈ unit.flatten := by
  cases member with
  | some descriptor => exact mem_flatten_of_mem_searched (mem_of_findDeclaration? h)
  | none =>
    obtain ⟨descriptor, -, h⟩ := Option.bind_eq_some_iff.mp h
    exact mem_of_findDeclaration? h

/-! ### The lines of what is asked for -/

/-- The line above a field that its listing takes too. -/
def takenAbove? (content : Bytes) (d : Declaration) : Option (List Char) :=
  if d.kind = .field then (linesAbove content d.span).getLast?.filter belongsToField else none

theorem mem_takenAbove? {d : Declaration} {line : List Char} :
    line ∈ takenAbove? content d ↔ d.kind = .field ∧ belongsToField line = true ∧
      line ∈ (linesAbove content d.span).getLast? := by
  rw [takenAbove?]
  by_cases hfield : d.kind = .field
  · rw [if_pos hfield, Option.mem_def, Option.filter_eq_some_iff, Option.mem_def]
    exact ⟨fun h => ⟨hfield, h.2, h.1⟩, fun h => ⟨h.2.2, h.2.1⟩⟩
  · rw [if_neg hfield]
    exact ⟨nofun, fun h => absurd h.1 hfield⟩

/-- A listing has the lines of the declaration, and the one above that a field takes. -/
theorem listing_eq {d : Declaration} (h : Solid content d.span)
    (hplain : hasPlainBreaks (decode content) = true) :
    listing noise d content =
      String.ofList (tidy noise (unlines
        ((takenAbove? content d).toList ++ ownLines content d.span))) := by
  let ls := Model.Position.textLines content (d.declarationLines content).1
    (d.declarationLines content).2
  have hkept : (if d.kind = .field ∧ (d.declarationLines content).1 <
        (Model.Position.lineRange content d.span.start d.span.stop).1 ∧
          ¬ belongsToField (ls.headD []) then ls.drop 1 else ls) =
      (takenAbove? content d).toList ++ ownLines content d.span := by
    have hls : ls = _ := Declaration.textLines_declarationLines h hplain
    by_cases hfield : d.kind = .field
    · obtain ⟨-, -, habove, -⟩ := Model.Position.lines_eq h hplain
      rw [hls, Declaration.declarationLines_eq, Model.Position.lineRange_eq, takenAbove?,
        if_pos hfield, if_pos hfield, if_pos hfield, ← habove]
      by_cases hnil : linesAbove content d.span = []
      · rw [hnil]
        exact if_neg (by simp)
      · -- Only with a line above it a field begins below the first line that it takes.
        have hpos := List.length_pos_iff.mpr hnil
        rw [List.getLast?_eq_some_getLast hnil]
        by_cases htaken : belongsToField ((linesAbove content d.span).getLast hnil) = true
        · simp [Option.filter, htaken]
        · have hbelow : (linesAbove content d.span).length - 1 + 1 <
              (linesAbove content d.span).length + 1 := by omega
          simp [Option.filter, hfield, htaken, hbelow]
    · rw [if_neg (by simp [hfield]), hls, takenAbove?, if_neg hfield, if_neg hfield]
      rfl
  rw [← hkept]
  rfl

/-- A listing is that of exactly the lines that the declaration covers if and only if laying out
leaves no trace of a line above that is taken. -/
theorem listing_ownLines_iff {d : Declaration} (h : Solid content d.span)
    (hplain : hasPlainBreaks (decode content) = true) :
    listing noise d content = String.ofList (tidy noise (unlines (ownLines content d.span))) ↔
      ∀ line ∈ takenAbove? content d,
        LeavesNoTrace noise line (unlines (ownLines content d.span)) := by
  have hown : ownLines content d.span ≠ [] := fun hnil =>
    Text.decode_ne_nil h.covered_ne_nil (Text.eq_nil_of_lines hnil)
  rw [listing_eq h hplain, String.ofList_inj]
  cases htaken : takenAbove? content d with
  | none => exact iff_of_true rfl nofun
  | some line =>
    have hline : IsLine line :=
      Text.isLine_of_mem_lines (List.mem_of_getLast? (mem_takenAbove?.mp htaken).2.2)
    have hunlines : unlines ((some line).toList ++ ownLines content d.span) =
        line ++ '\n' :: unlines (ownLines content d.span) := by
      rw [unlines, Option.toList_some, List.singleton_append, Text.join_cons hown,
        List.singleton_append]
      rfl
    rw [hunlines, Listing.tidy_append_iff hline]
    exact ⟨fun h l hl => Option.mem_some.mp hl ▸ h, fun h => h line rfl⟩

/-- A request for a member or a nested type lists what it selects. The listing is that of exactly
the lines that the declaration covers, unless it is a field, the line above is blank or begins like
a comment or an annotation, and laying out leaves a trace of it. -/
theorem listingIn?_ownLines_iff (hrequest : trailing ≠ [] ∨ member ≠ none)
    (hplain : hasPlainBreaks (decode (Clean.clean noise content)) = true)
    (hfound : found ∈
      selected? (CompilationUnit.read path (Clean.clean noise content)) trailing member) :
    ∃ code, listingIn? noise path content trailing member = some code ∧
      (code = String.ofList (tidy noise (unlines
          (ownLines (Clean.clean noise content) found.declaration.span))) ↔
        ∀ line ∈ (linesAbove (Clean.clean noise content) found.declaration.span).getLast?,
          found.declaration.kind = .field → belongsToField line = true →
            LeavesNoTrace noise line
              (unlines (ownLines (Clean.clean noise content) found.declaration.span))) := by
  refine ⟨listing noise found.declaration (Clean.clean noise content), ?_, ?_⟩
  · rw [listingIn?_eq hrequest, hfound]
    rfl
  · have hsolid := CompilationUnit.solid_of_mem_flatten (mem_flatten_of_selected? hfound)
    rw [listing_ownLines_iff hsolid hplain]
    simp only [mem_takenAbove?]
    exact ⟨fun h line hline hfield hbelongs => h line ⟨hfield, hbelongs, hline⟩,
      fun h line hline => h line hline.2.2 hline.1 hline.2.1⟩

/-- A class with two fields, the first of which is annotated on its own line. -/
def twoFields : Bytes := Text.encode "class S \x7b\n@Deprecated int a;\nint b;\n\x7d"

/-- The first field is listed alone, since the line above does not begin like an annotation. -/
theorem listingIn?_ownLines_iff_firstField :
    hasPlainBreaks (decode (Clean.clean noiseAnnotations twoFields)) = true ∧
      (∃ found ∈ selected? (CompilationUnit.read (Path.ofString "S.java")
          (Clean.clean noiseAnnotations twoFields)) [] (some "a"),
        found.declaration.span = ⟨10, 28⟩) ∧
      listingIn? noiseAnnotations (Path.ofString "S.java") twoFields [] (some "a") =
        some (String.ofList (tidy noiseAnnotations (unlines
          (ownLines (Clean.clean noiseAnnotations twoFields) ⟨10, 28⟩)))) := by
  have hplain : hasPlainBreaks (decode (Clean.clean noiseAnnotations twoFields)) = true := by
    decide +kernel
  have hspan : (selected? (CompilationUnit.read (Path.ofString "S.java")
      (Clean.clean noiseAnnotations twoFields)) [] (some "a")).map (·.declaration.span) =
        some ⟨10, 28⟩ := by
    decide +kernel
  obtain ⟨found, hfound, hspan⟩ := Option.map_eq_some_iff.mp hspan
  obtain ⟨code, hcode, hiff⟩ :=
    listingIn?_ownLines_iff (.inr (Option.some_ne_none "a")) hplain hfound
  have habove : (linesAbove (Clean.clean noiseAnnotations twoFields) ⟨10, 28⟩).getLast? =
      some "class S \x7b".toList := by
    decide +kernel
  rw [hspan, habove] at hiff
  refine ⟨hplain, ⟨found, hfound, hspan⟩, hcode.trans (congrArg some (hiff.mpr ?_))⟩
  rintro line hline - hbelongs
  rw [← Option.mem_some.mp hline] at hbelongs
  exact absurd hbelongs (by decide)

/-- The second field takes the line of the first one, which begins with an annotation. -/
theorem listing_takes_other_field :
    listingIn? noiseAnnotations (Path.ofString "S.java") twoFields [] (some "b") =
        some "@Deprecated int a;\nint b;" ∧
      (selected? (CompilationUnit.read (Path.ofString "S.java")
        (Clean.clean noiseAnnotations twoFields)) [] (some "b")).map (fun found =>
          String.ofList (tidy noiseAnnotations (unlines
            (ownLines (Clean.clean noiseAnnotations twoFields) found.declaration.span)))) =
        some "int b;" := by
  decide +kernel

end Library

end Apidoc.Sample
