import Apidoc.Proofs.Java.Layout
import Apidoc.Sample.Clean

/-!
# `Apidoc.Proofs.Sample.Mark`: marking what is removed, and dropping the lines it leaves empty

Each byte that is removed leaves marks at most (`Marked`). Of the lines of the marked text those are
dropped that hold a mark and nothing but blanks beside it. From left to right that is `below`, as
long as the line may still be dropped, and `onward` behind a byte that keeps it. A token passes both
as it is (`below_append`, `onward_append`). Between two tokens only blanks are left, and they are
not lost altogether (`exists_below_gap`, `exists_onward_gap`).
-/

set_option autoImplicit false

namespace Apidoc.Sample.Clean

open Apidoc.Java (Span Piece)
open Apidoc.Java.Lexer
open Apidoc.Text (Bytes)

/-! ### Marks -/

/-- A source from an offset on, in which what is removed is replaced by marks. -/
inductive Marked (removed : Nat → Prop) : Nat → Bytes → Bytes → Prop
  | nil {i : Nat} : Marked removed i [] []
  | kept {i : Nat} {b : UInt8} {s m : Bytes} (h : ¬ removed i) (hm : Marked removed (i + 1) s m) :
      Marked removed i (b :: s) (b :: m)
  | cut {i : Nat} {b : UInt8} {s m : Bytes} (h : removed i) (hm : Marked removed (i + 1) s m) :
      Marked removed i (b :: s) m
  | put {i : Nat} {b : UInt8} {s m : Bytes} (h : removed i) (hm : Marked removed i (b :: s) m) :
      Marked removed i (b :: s) (mark :: m)

variable {removed : Nat → Prop} {i : Nat} {s t m gap out line : Bytes}

theorem Marked.append_kept (ht : ∀ j, i ≤ j → j < i + t.length → ¬ removed j)
    (h : Marked removed (i + t.length) s m) : Marked removed i (t ++ s) (t ++ m) := by
  induction t generalizing i with
  | nil => exact h
  | cons b t ih =>
    rw [List.length_cons] at ht h
    refine .kept (ht i (Nat.le_refl i) (by omega)) ?_
    refine ih (fun j hj hj' => ht j (by omega) (by omega)) ?_
    rwa [Nat.add_assoc, Nat.add_comm 1]

theorem Marked.append_cut (ht : ∀ j, i ≤ j → j < i + t.length → removed j)
    (h : Marked removed (i + t.length) s m) : Marked removed i (t ++ s) m := by
  induction t generalizing i with
  | nil => exact h
  | cons b t ih =>
    rw [List.length_cons] at ht h
    refine .cut (ht i (Nat.le_refl i) (by omega)) ?_
    refine ih (fun j hj hj' => ht j (by omega) (by omega)) ?_
    rwa [Nat.add_assoc, Nat.add_comm 1]

/-- A text of which nothing is removed stands in the marked text as it is. -/
theorem Marked.exists_kept (ht : ∀ j, i ≤ j → j < i + t.length → ¬ removed j)
    (h : Marked removed i (t ++ s) m) :
    ∃ m', m = t ++ m' ∧ Marked removed (i + t.length) s m' := by
  induction t generalizing i m with
  | nil => exact ⟨m, rfl, h⟩
  | cons b t ih =>
    rw [List.length_cons] at ht
    have hi := ht i (Nat.le_refl i) (by omega)
    cases h with
    | kept _ hm =>
      obtain ⟨m', rfl, hm'⟩ := ih (fun j hj hj' => ht j (by omega) (by omega)) hm
      refine ⟨m', rfl, ?_⟩
      rwa [List.length_cons, Nat.add_comm t.length, ← Nat.add_assoc]
    | cut h _ => exact absurd h hi
    | put h _ => exact absurd h hi

/-- A byte stands in the marked text as it is, or marks stand there for it. -/
theorem Marked.cons_cases {b : UInt8} (h : Marked removed i (b :: s) m) :
    (¬ removed i ∧ ∃ m', m = b :: m' ∧ Marked removed (i + 1) s m') ∨
      (removed i ∧ ∃ marks m', (∀ c ∈ marks, c = mark) ∧ m = marks ++ m' ∧
        Marked removed (i + 1) s m') := by
  generalize hsource : b :: s = source at h
  induction h with
  | nil => cases hsource
  | kept hi hm =>
    cases hsource
    exact .inl ⟨hi, _, rfl, hm⟩
  | cut hi hm =>
    cases hsource
    exact .inr ⟨hi, [], _, List.forall_mem_nil _, rfl, hm⟩
  | put hi _ ih =>
    -- One more mark stands in front of the others.
    rcases ih hsource with ⟨hkept, -⟩ | ⟨-, marks, m', hmarks, rfl, hm'⟩
    · exact absurd hi hkept
    · exact .inr ⟨hi, mark :: marks, m', List.forall_mem_cons.mpr ⟨rfl, hmarks⟩, rfl, hm'⟩

/-- Of any text some bytes stand in the marked text, and marks. A text without marks leaves only
marks if all of it is removed. -/
theorem Marked.exists_rest (h : Marked removed i (t ++ s) m) :
    ∃ gap m', m = gap ++ m' ∧
      (∀ b ∈ gap, b = mark ∨ b ∈ t ∧ ∃ j, i ≤ j ∧ j < i + t.length ∧ ¬ removed j) ∧
      (mark ∉ t → (∀ b ∈ gap, b = mark) → ∀ j, i ≤ j → j < i + t.length → removed j) ∧
      Marked removed (i + t.length) s m' := by
  induction t generalizing i m with
  | nil => exact ⟨[], m, rfl, nofun, fun _ _ j hj hj' => absurd hj (Nat.not_le_of_lt hj'), h⟩
  | cons c t ih =>
    have hlength : i + (c :: t).length = i + 1 + t.length := by
      rw [List.length_cons]
      omega
    rw [hlength]
    rcases h.cons_cases with ⟨hi, m', rfl, hm'⟩ | ⟨hi, marks, m', hmarks, rfl, hm'⟩
    · obtain ⟨gap, m', rfl, hgap, -, hm'⟩ := ih hm'
      refine ⟨c :: gap, m', rfl, ?_, fun hmark hall => ?_, hm'⟩
      · refine List.forall_mem_cons.mpr ⟨.inr ⟨List.mem_cons_self, i, by omega, by omega, hi⟩, ?_⟩
        intro d hd
        refine (hgap d hd).imp_right ?_
        rintro ⟨hd, j, hj, hj', hr⟩
        exact ⟨List.mem_cons_of_mem c hd, j, by omega, hj', hr⟩
      · exact absurd (hall c List.mem_cons_self ▸ List.mem_cons_self) hmark
    · obtain ⟨gap, m', rfl, hgap, hremoved, hm'⟩ := ih hm'
      refine ⟨marks ++ gap, m', (List.append_assoc _ _ _).symm, ?_, ?_, hm'⟩
      · refine List.forall_mem_append.mpr ⟨fun d hd => .inl (hmarks d hd), fun d hd => ?_⟩
        refine (hgap d hd).imp_right ?_
        rintro ⟨hd, j, hj, hj', hr⟩
        exact ⟨List.mem_cons_of_mem c hd, j, by omega, hj', hr⟩
      · intro hmark hall j hj hj'
        rw [List.mem_cons, not_or] at hmark
        rcases hj.eq_or_lt with rfl | hlt
        · exact hi
        · exact hremoved hmark.2 (List.forall_mem_append.mp hall).2 j hlt hj'

/-- One part of a text is replaced by a mark. -/
theorem Marked.replace {first last : Nat} (hfirst : i ≤ first) (hlt : first < last)
    (hlast : last ≤ i + t.length) (hkept : ∀ j, i ≤ j → j < first → ¬ removed j)
    (hcut : ∀ j, first ≤ j → j < last → removed j)
    (h : Marked removed last (t.drop (last - i)) m) :
    Marked removed i t (t.take (first - i) ++ mark :: m) := by
  -- The part in front is kept, the mark put before the part that is cut.
  have hfront : i + (t.take (first - i)).length = first := by
    rw [List.length_take_of_le (by omega)]
    omega
  have hmiddle : first + ((t.drop (first - i)).take (last - first)).length = last := by
    rw [List.length_take_of_le (by rw [List.length_drop]; omega)]
    omega
  have hback : ((t.drop (first - i)).drop (last - first)) = t.drop (last - i) := by
    rw [List.drop_drop]
    congr 1
    omega
  have hrest : Marked removed first (t.drop (first - i)) m := by
    rw [← List.take_append_drop (last - first) (t.drop (first - i)), hback]
    refine .append_cut (fun j hj hj' => hcut j hj ?_) ?_
    · rwa [hmiddle] at hj'
    · rwa [hmiddle]
  have hput : Marked removed first (t.drop (first - i)) (mark :: m) := by
    cases hcase : t.drop (first - i) with
    | nil =>
      rw [List.drop_eq_nil_iff] at hcase
      omega
    | cons b u =>
      rw [hcase] at hrest
      exact .put (hcut first (Nat.le_refl first) hlt) hrest
  have hall : Marked removed i (t.take (first - i) ++ t.drop (first - i))
      (t.take (first - i) ++ mark :: m) := by
    refine .append_kept (fun j hj hj' => hkept j hj ?_) ?_
    · rwa [hfront] at hj'
    · rwa [hfront]
  rwa [List.take_append_drop] at hall

/-- The spans cover an offset. -/
def Covers (spans : List Span) (i : Nat) : Prop := ∃ s ∈ spans, s.start ≤ i ∧ i < s.stop

instance (spans : List Span) : DecidablePred (Covers spans) := fun i =>
  inferInstanceAs (Decidable (∃ s ∈ spans, s.start ≤ i ∧ i < s.stop))

/-- No span is empty, and one that begins inside of another one ends there. -/
structure Nested (spans : List Span) : Prop where
  positive : ∀ s ∈ spans, s.start < s.stop
  within : ∀ s ∈ spans, ∀ t ∈ spans, t.start ≤ s.start → s.start < t.stop → s.stop ≤ t.stop

theorem covers_cons {s : Span} {spans : List Span} {j : Nat} :
    Covers (s :: spans) j ↔ (s.start ≤ j ∧ j < s.stop) ∨ Covers spans j := by
  simp [Covers]

theorem Nested.tail {s : Span} {spans : List Span} (h : Nested (s :: spans)) : Nested spans :=
  ⟨fun u hu => h.positive u (List.mem_cons_of_mem s hu), fun u hu v hv =>
    h.within u (List.mem_cons_of_mem s hu) v (List.mem_cons_of_mem s hv)⟩

/-- Replacing the spans one after the other removes whatever one of them covers. -/
theorem marked_markSpans {spans : List Span} (hnested : Nested spans)
    (hsorted : spans.Pairwise fun a b => a.start ≤ b.start)
    (hstop : ∀ s ∈ spans, s.stop ≤ i + t.length) (hpast : ∀ s ∈ spans, s.start < i → s.stop ≤ i)
    (hremoved : ∀ j, i ≤ j → (removed j ↔ Covers spans j)) :
    Marked removed i t (markSpans i t spans) := by
  induction spans generalizing i t with
  | nil =>
    rw [markSpans]
    have hkept : Marked removed i (t ++ []) (t ++ []) := .append_kept ?_ .nil
    · rwa [List.append_nil] at hkept
    · intro j hj _ hr
      obtain ⟨s, hs, -⟩ := (hremoved j hj).mp hr
      cases hs
  | cons s rest ih =>
    rw [List.pairwise_cons] at hsorted
    have hpositive := hnested.positive s List.mem_cons_self
    have hs := hstop s List.mem_cons_self
    -- Behind the span the other ones cover whatever is covered.
    have hbehind : ∀ j, i ≤ j → s.stop ≤ j → (removed j ↔ Covers rest j) := by
      intro j hj hle
      rw [hremoved j hj, covers_cons]
      exact or_iff_right fun hcovered => absurd hcovered.2 (by omega)
    rw [markSpans]
    split
    · -- The span is within what was replaced before.
      rename_i hlt
      have hend := hpast s List.mem_cons_self hlt
      exact ih hnested.tail hsorted.2 (fun u hu => hstop u (List.mem_cons_of_mem s hu))
        (fun u hu => hpast u (List.mem_cons_of_mem s hu)) fun j hj => hbehind j hj (by omega)
    · rename_i hge
      refine .replace (Nat.le_of_not_lt hge) hpositive hs ?_ (fun j hj hj' => ?_) ?_
      · intro j hj hj' hr
        rcases covers_cons.mp ((hremoved j hj).mp hr) with hcovered | ⟨u, hu, hcovered⟩
        · omega
        · have hsorted := hsorted.1 u hu
          omega
      · exact (hremoved j (by omega)).mpr (covers_cons.mpr (.inl ⟨hj, hj'⟩))
      · refine ih hnested.tail hsorted.2 (fun u hu => ?_) (fun u hu hlt => ?_) fun j hj => ?_
        · have hu := hstop u (List.mem_cons_of_mem s hu)
          rw [List.length_drop]
          omega
        · exact hnested.within u (List.mem_cons_of_mem s hu) s List.mem_cons_self
            (hsorted.1 u hu) hlt
        · exact hbehind j (by omega) hj

/-! ### Lines -/

/-- A line with the line feed before it, if the line is kept. -/
def emit (line : Bytes) : Bytes :=
  match unmark line with
  | some kept => 10 :: kept
  | none => []

/-- The kept lines of a marked text, each with a line feed before it. The first line has already
begun. -/
def below (line : Bytes) : Bytes → Bytes
  | [] => emit line
  | b :: m => if b = 10 then emit line ++ below [] m else below (line ++ [b]) m

/-- What is left of a marked text whose first line is kept in any case. -/
def onward : Bytes → Bytes
  | [] => []
  | b :: m => if b = 10 then below [] m else if b = mark then onward m else b :: onward m

/-- No text is without lines. -/
theorem exists_byteLines (m : Bytes) : ∃ first others, byteLines m = first :: others := by
  cases m with
  | nil => exact ⟨[], [], rfl⟩
  | cons b m =>
    rw [byteLines]
    split
    · exact ⟨_, _, rfl⟩
    · split <;> exact ⟨_, _, rfl⟩

theorem below_eq {first : Bytes} {others : List Bytes} (line : Bytes)
    (h : byteLines m = first :: others) :
    below line m = emit (line ++ first) ++ others.flatMap emit := by
  induction m generalizing line first others with
  | nil =>
    cases h
    simp [below]
  | cons b m ih =>
    obtain ⟨next, more, hm⟩ := exists_byteLines m
    rw [byteLines, hm] at h
    rw [below]
    split at h
    · cases h
      rw [if_pos ‹_›, ih [] hm, List.append_nil, List.flatMap_cons, List.nil_append]
    · cases h
      rw [if_neg ‹_›, ih _ hm, List.append_assoc, List.singleton_append]

theorem intercalate_cons (line : Bytes) (ls : List Bytes) :
    List.intercalate [10] (line :: ls) = line ++ ls.flatMap (10 :: ·) := by
  induction ls generalizing line with
  | nil => simp [List.intercalate]
  | cons next ls ih =>
    have hnext := ih next
    simp only [List.intercalate, List.intersperse_cons_cons, List.flatten_cons, List.flatMap_cons,
      List.cons_append, List.nil_append] at hnext ⊢
    rw [hnext]

/-- The kept lines are separated by line feeds. -/
theorem clean_eq (noise : List String) (content : Bytes) :
    clean noise content =
      (below [] (markSpans 0 content ((removals noise content).mergeSort spanLe))).tail := by
  have hjoin : ∀ ls : List Bytes,
      List.intercalate [10] (ls.filterMap unmark) = (ls.flatMap emit).tail := by
    intro ls
    have hflat : ls.flatMap emit = (ls.filterMap unmark).flatMap (10 :: ·) := by
      induction ls with
      | nil => rfl
      | cons l ls ih =>
        rw [List.flatMap_cons, ih, emit]
        cases hunmark : unmark l with
        | none => rw [List.filterMap_cons_none hunmark]; rfl
        | some kept => rw [List.filterMap_cons_some hunmark]; rfl
    rw [hflat]
    cases ls.filterMap unmark with
    | nil => rfl
    | cons line ls =>
      rw [intercalate_cons, List.flatMap_cons]
      rfl
  rw [clean, hjoin]
  generalize markSpans 0 content ((removals noise content).mergeSort spanLe) = m
  obtain ⟨first, others, hlines⟩ := exists_byteLines m
  rw [below_eq [] hlines, hlines]
  rfl

/-- The byte is neither a blank nor a mark. -/
def IsSolid (b : UInt8) : Prop := b ≠ mark ∧ isBlankByte b = false

theorem IsSolid.ne_lineFeed {b : UInt8} (h : IsSolid b) : b ≠ 10 := by
  rintro rfl
  exact absurd h.2 (by decide)

/-- A line that holds something is kept. -/
theorem emit_of_solid {b : UInt8} (hb : b ∈ line) (hsolid : IsSolid b) :
    emit line = 10 :: line.filter (· ≠ mark) := by
  rw [emit, unmark]
  split
  · rename_i kept hkept
    split at hkept
    · dsimp only at hkept
      split at hkept
      · cases hkept
      · cases hkept
        rfl
    · rename_i hmark
      cases hkept
      rw [List.filter_eq_self.mpr]
      intro c hc
      simpa using fun heq : c = mark => hmark (heq ▸ hc)
  · rename_i hnone
    split at hnone
    · dsimp only at hnone
      split at hnone
      · rename_i hblank
        -- The byte is left, and is no blank.
        have hkept : b ∈ line.filter (· ≠ mark) := List.mem_filter.mpr ⟨hb, by simpa using hsolid.1⟩
        have hnot := List.all_eq_true.mp hblank b hkept
        exact absurd hnot (by rw [show isAsciiBlank b = isBlankByte b from rfl, hsolid.2]; decide)
      · cases hnone
    · cases hnone

theorem emit_of_not_mem (h : mark ∉ line) : emit line = 10 :: line := by
  rw [emit, unmark, if_neg h]

/-- A line of blanks and marks is dropped or leaves blanks. -/
theorem emit_of_gap (h : ∀ b ∈ line, isBlankByte b = true ∨ b = mark) :
    ∀ b ∈ emit line, isBlankByte b = true := by
  by_cases hmark : mark ∈ line
  · have hnone : unmark line = none := by
      rw [unmark, if_pos hmark]
      refine if_pos (List.all_eq_true.mpr fun b hb => ?_)
      rw [List.mem_filter, decide_eq_true_eq] at hb
      exact (h b hb.1).resolve_right hb.2
    rw [emit, hnone]
    exact nofun
  · rw [emit_of_not_mem hmark]
    refine List.forall_mem_cons.mpr ⟨by decide, fun b hb => (h b hb).resolve_right ?_⟩
    rintro rfl
    exact hmark hb

/-- Behind something that is kept the rest of the line is kept too. -/
theorem below_of_solid {b : UInt8} (hb : b ∈ line) (hsolid : IsSolid b) (m : Bytes) :
    below line m = 10 :: (line.filter (· ≠ mark) ++ onward m) := by
  induction m generalizing line with
  | nil => rw [below, onward, List.append_nil, emit_of_solid hb hsolid]
  | cons c m ih =>
    rw [below, onward]
    split
    · rw [emit_of_solid hb hsolid]
      rfl
    · rw [ih (List.mem_append_left _ hb), List.filter_append, List.append_assoc]
      split
      · rename_i hmark
        rw [hmark]
        rfl
      · rename_i hmark
        rw [List.filter_cons_of_pos (by simpa using hmark)]
        rfl

/-- A token is kept with the line feeds that it holds. It ends with no blank, or ends the text. -/
theorem below_append (ht : mark ∉ t) (hline : mark ∉ line)
    (hlast : m = [] ∨ ∃ b ∈ t.getLast?, isBlankByte b = false) :
    below line (t ++ m) = 10 :: (line ++ (t ++ onward m)) := by
  -- A line feed within the token ends a line that has no mark, so that line is kept as it is.
  induction t generalizing line with
  | nil =>
    obtain rfl : m = [] := hlast.resolve_right (by rintro ⟨b, hb, -⟩; cases hb)
    rw [List.nil_append, below, emit_of_not_mem hline, onward, List.nil_append, List.append_nil]
  | cons b t ih =>
    rw [List.mem_cons, not_or] at ht
    rw [List.cons_append, below]
    have hmore : t ≠ [] ∨ m = [] → m = [] ∨ ∃ b ∈ t.getLast?, isBlankByte b = false := by
      rintro (hne | hm)
      · rw [List.getLast?_cons_of_ne_nil hne] at hlast
        exact hlast
      · exact .inl hm
    by_cases hend : t ≠ [] ∨ m = []
    · have hlast := hmore hend
      split
      · rename_i hfeed
        rw [emit_of_not_mem hline, ih ht.2 List.not_mem_nil hlast, hfeed, List.nil_append]
        rfl
      · rw [ih ht.2 (by simp [hline, ht.1]) hlast, List.append_assoc]
        rfl
    · -- The last byte of the token keeps the line.
      rw [not_or, not_not] at hend
      obtain ⟨rfl, hm⟩ := hend
      obtain ⟨c, hc, hblank⟩ := hlast.resolve_left hm
      cases hc
      have hsolid : IsSolid b := ⟨Ne.symm ht.1, hblank⟩
      rw [if_neg hsolid.ne_lineFeed, List.nil_append,
        below_of_solid (List.mem_append_right _ (List.mem_singleton_self b)) hsolid,
        List.filter_eq_self.mpr]
      · rw [List.append_assoc]
      · intro c hc
        rw [List.mem_append, List.mem_singleton] at hc
        rcases hc with hc | rfl
        · simpa using fun heq : c = mark => hline (heq ▸ hc)
        · simpa using hsolid.1

/-- A token is kept as it is behind something that keeps its line. -/
theorem onward_append (ht : mark ∉ t) (hlast : m = [] ∨ ∃ b ∈ t.getLast?, isBlankByte b = false) :
    onward (t ++ m) = t ++ onward m := by
  induction t with
  | nil => rfl
  | cons b t ih =>
    rw [List.mem_cons, not_or] at ht
    have hmore : t ≠ [] → m = [] ∨ ∃ b ∈ t.getLast?, isBlankByte b = false := by
      intro hne
      rw [List.getLast?_cons_of_ne_nil hne] at hlast
      exact hlast
    rw [List.cons_append, onward, if_neg (Ne.symm ht.1)]
    split
    · rename_i hfeed
      have hlast : m = [] ∨ ∃ b ∈ t.getLast?, isBlankByte b = false := by
        by_cases hne : t = []
        · -- The token does not end with a line feed.
          subst hne hfeed
          refine hlast.imp_right ?_
          rintro ⟨b, hb, hblank⟩
          cases hb
          cases hblank
        · exact hmore hne
      rw [below_append ht.2 List.not_mem_nil hlast, hfeed]
      rfl
    · by_cases hne : t = []
      · rw [hne]
        rfl
      · rw [ih ht.2 (hmore hne)]
        rfl

/-- What is left of blanks and marks is blank, and is not nothing before something that is kept. -/
theorem exists_below_gap (hgap : ∀ b ∈ gap, isBlankByte b = true ∨ b = mark)
    (hline : ∀ b ∈ line, isBlankByte b = true ∨ b = mark)
    (hm : m = [] ∨ ∃ b ∈ m.head?, IsSolid b) :
    ∃ gap', below line (gap ++ m) = gap' ++ onward m ∧ (∀ b ∈ gap', isBlankByte b = true) ∧
      (m ≠ [] → gap' ≠ []) := by
  -- The line feed in front of the line that the next token begins on is kept in any case.
  induction gap generalizing line with
  | nil =>
    rcases hm with rfl | ⟨b, hb, hsolid⟩
    · refine ⟨emit line, ?_, emit_of_gap hline, fun hne => absurd rfl hne⟩
      rw [List.nil_append, below, onward, List.append_nil]
    · obtain ⟨m, rfl⟩ := List.head?_eq_some_iff.mp hb
      refine ⟨10 :: line.filter (· ≠ mark), ?_, ?_, fun _ => List.cons_ne_nil _ _⟩
      · rw [List.nil_append, below, onward, if_neg hsolid.ne_lineFeed, if_neg hsolid.ne_lineFeed,
          if_neg hsolid.1,
          below_of_solid (List.mem_append_right _ (List.mem_singleton_self b)) hsolid,
          List.filter_append, List.filter_cons_of_pos (by simpa using hsolid.1), List.filter_nil,
          List.append_assoc]
        rfl
      · refine List.forall_mem_cons.mpr ⟨by decide, fun c hc => ?_⟩
        rw [List.mem_filter, decide_eq_true_eq] at hc
        exact (hline c hc.1).resolve_right hc.2
  | cons b gap ih =>
    obtain ⟨hb, hgap⟩ := List.forall_mem_cons.mp hgap
    rw [List.cons_append, below]
    split
    · obtain ⟨gap', heq, hblank, hne⟩ := ih hgap (List.forall_mem_nil _)
      refine ⟨emit line ++ gap', by rw [heq, List.append_assoc], ?_, fun hm => ?_⟩
      · exact List.forall_mem_append.mpr ⟨emit_of_gap hline, hblank⟩
      · exact List.append_ne_nil_of_right_ne_nil _ (hne hm)
    · exact ih hgap (List.forall_mem_append.mpr ⟨hline, List.forall_mem_singleton.mpr hb⟩)

/-- The same behind something that is kept, if there is a blank at all. -/
theorem exists_onward_gap (hgap : ∀ b ∈ gap, isBlankByte b = true ∨ b = mark)
    (hm : m = [] ∨ ∃ b ∈ m.head?, IsSolid b) :
    ∃ gap', onward (gap ++ m) = gap' ++ onward m ∧ (∀ b ∈ gap', isBlankByte b = true) ∧
      (gap' = [] → m ≠ [] → ∀ b ∈ gap, isBlankByte b = false) ∧ (gap = [] → gap' = []) := by
  induction gap with
  | nil => exact ⟨[], rfl, nofun, fun _ _ => nofun, fun _ => rfl⟩
  | cons b gap ih =>
    obtain ⟨hb, hgap⟩ := List.forall_mem_cons.mp hgap
    rw [List.cons_append, onward]
    split
    · obtain ⟨gap', heq, hblank, hne⟩ := exists_below_gap hgap (List.forall_mem_nil _) hm
      exact ⟨gap', heq, hblank, fun hnil hm => absurd hnil (hne hm), nofun⟩
    obtain ⟨gap', heq, hblank, hnone, -⟩ := ih hgap
    split
    · rename_i hmark
      refine ⟨gap', heq, hblank, fun hnil hm => ?_, nofun⟩
      exact List.forall_mem_cons.mpr ⟨by rw [hmark]; decide, hnone hnil hm⟩
    · rename_i hmark
      refine ⟨b :: gap', by rw [heq, List.cons_append], ?_, nofun, nofun⟩
      exact List.forall_mem_cons.mpr ⟨hb.resolve_right hmark, hblank⟩

end Apidoc.Sample.Clean
