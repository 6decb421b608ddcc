import Apidoc.Comment.Doc
import Apidoc.Proofs.Comment.Brace
import Apidoc.Proofs.Text.Lines
import Mathlib.Algebra.Order.Group.Int

/-!
# `Apidoc.Proofs.Comment.Doc`: where block tags begin

A line that looks like a block tag begins one if no brace is open before it, counted line by
line over the whole comment (`mem_starts_sections`). Running text pairs the braces of its
inline tags and no others. The two readings agree on comments in which every brace outside of
the inline tags is closed on its line (`starts_read_iff_not_beginsInTag`): there a line begins
a block tag if it looks like one and does not begin inside an inline tag.

They do not agree on all comments (`braces_miscounted`). A brace that prose leaves open hides
the block tags below, and a brace that prose closes too early shows one inside an inline tag.
-/

set_option autoImplicit false

namespace Apidoc.Comment

open Apidoc.Text

/-! ### Counting braces -/

variable {cs front back body after : List Char}

/-- The balance before each line feed of a text, where `start` is the balance before the text. -/
def feedBalances (start : Int) : List Char → List Int
  | [] => []
  | c :: rest =>
    if c = '\n' then start :: feedBalances start rest else feedBalances (start + braceStep c) rest

theorem feedBalances_append (start : Int) (front back : List Char) :
    feedBalances start (front ++ back) =
      feedBalances start front ++ feedBalances (start + balance front) back := by
  induction front generalizing start with
  | nil => rw [balance_nil, add_zero]; rfl
  | cons c rest ih =>
    rw [List.cons_append, feedBalances, feedBalances, balance_cons]
    split
    · rename_i hfeed
      have hstep : braceStep c = 0 := by rw [hfeed]; rfl
      rw [ih, hstep, zero_add, List.cons_append]
    · rw [ih, add_assoc]

theorem balance_replicate (n : Nat) : balance (List.replicate n '\n') = 0 := by
  induction n with
  | zero => rfl
  | succ n ih => rw [List.replicate_succ, balance_cons, ih]; rfl

/-- A line feed leaves the balance alone. -/
theorem feedBalances_replicate (start : Int) (n : Nat) :
    feedBalances start (List.replicate n '\n') = List.replicate n start := by
  induction n with
  | zero => rfl
  | succ n ih => rw [List.replicate_succ, feedBalances, if_pos rfl, ih, List.replicate_succ]

theorem length_feedBalances (start : Int) (cs : List Char) :
    (feedBalances start cs).length = cs.count '\n' := by
  induction cs generalizing start with
  | nil => rfl
  | cons c rest ih =>
    rw [feedBalances, List.count_cons]
    split
    · rename_i hfeed
      rw [List.length_cons, ih, hfeed, beq_self_eq_true, if_pos rfl]
    · rename_i hfeed
      rw [ih, if_neg (by simpa using hfeed), Nat.add_zero]

/-- Every line feed has the balance of what stands before it. -/
theorem mem_feedBalances_iff {start d : Int} : d ∈ feedBalances start cs ↔
    ∃ front back, cs = front ++ '\n' :: back ∧ d = start + balance front := by
  constructor
  swap
  · rintro ⟨front, back, rfl, rfl⟩
    rw [feedBalances_append, feedBalances, if_pos rfl]
    exact List.mem_append_right _ List.mem_cons_self
  intro h
  induction cs generalizing start with
  | nil => cases h
  | cons c rest ih =>
    rw [feedBalances] at h
    split at h
    · rename_i hfeed
      subst hfeed
      rcases List.mem_cons.mp h with rfl | h
      · exact ⟨[], rest, rfl, by rw [balance_nil, add_zero]⟩
      · obtain ⟨front, back, rfl, hd⟩ := ih h
        exact ⟨'\n' :: front, back, rfl, by rw [hd, balance_cons]; simp [braceStep]⟩
    · obtain ⟨front, back, rfl, hd⟩ := ih h
      exact ⟨c :: front, back, rfl, by rw [hd, balance_cons, add_assoc]⟩

/-- The marks say for each line feed whether a brace is open there, and none was closed too
early. -/
def MarksOpenBraces (start : Int) (text : List Char) (marks : List Bool) : Prop :=
  marks = (feedBalances start text).map (fun d => decide (d ≠ 0)) ∧
    ∀ d ∈ feedBalances start text, 0 ≤ d

/-! ### The braces of inline tags -/

namespace Inline

/-- The text that a part is read from. -/
def source : Inline → List Char
  | .char c => [c]
  | .tag body => '\x7b' :: '@' :: body ++ ['\x7d']

/-- What of a part stands outside of tags. Of a tag, only the ends of its lines are left. -/
def outside : Inline → List Char
  | .char c => [c]
  | .tag body => List.replicate (body.count '\n') '\n'

/-- For each line feed of a part, whether it stands in a tag. -/
def feedsInTag : Inline → List Bool
  | .char c => if c = '\n' then [false] else []
  | .tag body => List.replicate (body.count '\n') true

/-- A text that closes `depth` more braces than it opens, and never more than that, as far as the
balance before its line feeds shows. -/
structure Closes (depth : Nat) (cs : List Char) : Prop where
  balance_eq : balance cs = -depth
  le_feedBalances : ∀ start, ∀ d ∈ feedBalances start cs, start - depth ≤ d

/-- What stands between an open brace and the one that closes it closes each brace that it opens. -/
theorem closes_of_closeBrace {depth : Nat} (h : closeBrace depth cs = some (body, after)) :
    cs = body ++ '\x7d' :: after ∧ Closes depth body := by
  obtain ⟨hcs, hbalance, hfronts⟩ := closeBrace_eq_some_iff.mp h
  refine ⟨hcs, hbalance, fun start d hd => ?_⟩
  obtain ⟨front, back, rfl, rfl⟩ := mem_feedBalances_iff.mp hd
  have hfront := hfronts front ((List.mem_inits _ _).mpr (List.prefix_append _ _))
  omega

theorem flatMap_source_char (cs : List Char) : (cs.map char).flatMap source = cs := by
  induction cs with
  | nil => rfl
  | cons c rest ih => exact congrArg (c :: ·) ih

/-- The parts of a text are read from all of it. -/
theorem flatMap_source_parts (cs : List Char) : (parts cs).flatMap source = cs := by
  fun_induction parts cs with
  | case1 => rfl
  | case2 rest body after h _ ih =>
    obtain ⟨rfl, -⟩ := closes_of_closeBrace h
    rw [List.flatMap_cons, ih, source]
    simp
  | case3 rest h => exact flatMap_source_char _
  | case4 c rest hpair ih => exact congrArg (c :: ·) ih

/-- A tag closes each brace that it opens. -/
theorem closes_of_mem_parts (h : tag body ∈ parts cs) : Closes 0 body := by
  fun_induction parts cs with
  | case1 => cases h
  | case2 rest other after hother _ ih =>
    rcases List.mem_cons.mp h with hsame | h
    · cases hsame
      exact (closes_of_closeBrace hother).2
    · exact ih h
  | case3 rest hnone =>
    obtain ⟨c, -, hc⟩ := List.mem_map.mp h
    cases hc
  | case4 c rest hpair ih =>
    rcases List.mem_cons.mp h with hc | h
    · cases hc
    · exact ih h

/-- The braces of each tag are closed inside of it. -/
def IsClosed : Inline → Prop
  | .char _ => True
  | .tag body => Closes 0 body

theorem isClosed_of_mem_parts {part : Inline} (h : part ∈ parts cs) : part.IsClosed := by
  cases part with
  | char c => trivial
  | tag body => exact closes_of_mem_parts h

/-- A tag as a whole leaves the balance alone. -/
theorem balance_source {part : Inline} (h : part.IsClosed) :
    balance part.source = balance part.outside := by
  cases part with
  | char c => rfl
  | tag body =>
    have hbody : balance body = 0 := h.balance_eq
    rw [source, outside, balance_replicate]
    simp [hbody, braceStep]

/-- The line feeds of a tag are those of its body, behind one more open brace. -/
theorem feedBalances_tag (start : Int) (body : List Char) :
    feedBalances start (tag body).source = feedBalances (start + 1) body := by
  have hend : ∀ d, feedBalances d ['\x7d'] = [] := fun _ => rfl
  have hsign : feedBalances start (tag body).source =
      feedBalances (start + 1 + 0) (body ++ ['\x7d']) :=
    rfl
  rw [hsign, feedBalances_append, hend, List.append_nil, add_zero]

theorem marksOpenBraces_part {part : Inline} {start : Int} (hclosed : part.IsClosed)
    (hlines : ∀ d ∈ feedBalances start part.outside, d = 0) :
    MarksOpenBraces start part.source part.feedsInTag := by
  cases part with
  | char c =>
    rw [MarksOpenBraces, feedsInTag, source]
    rw [outside] at hlines
    by_cases hfeed : c = '\n'
    · subst hfeed
      have hstart : start = 0 := hlines start List.mem_cons_self
      subst hstart
      exact ⟨rfl, by simp [feedBalances]⟩
    · rw [feedBalances, if_neg hfeed, if_neg hfeed]
      exact ⟨rfl, nofun⟩
  | tag body =>
    rw [outside, feedBalances_replicate] at hlines
    rw [MarksOpenBraces, feedBalances_tag]
    by_cases hnone : body.count '\n' = 0
    · have hfeeds : feedBalances (start + 1) body = [] := by
        rw [← List.length_eq_zero_iff, length_feedBalances, hnone]
      rw [hfeeds, feedsInTag, hnone]
      exact ⟨rfl, nofun⟩
    · -- The tag goes on in the next line, so no brace is open in front of it.
      have hstart : start = 0 := hlines start (List.mem_replicate.mpr ⟨hnone, rfl⟩)
      subst hstart
      have hpos : ∀ d ∈ feedBalances (0 + 1) body, 1 ≤ d := hclosed.le_feedBalances (0 + 1)
      refine ⟨?_, fun d hd => (by omega : (0 : Int) ≤ 1).trans (hpos d hd)⟩
      refine (List.eq_replicate_iff.mpr ⟨?_, fun b hb => ?_⟩).symm
      · rw [List.length_map, length_feedBalances]
      · obtain ⟨d, hd, rfl⟩ := List.mem_map.mp hb
        have hle := hpos d hd
        exact decide_eq_true (by omega)

/-- Where no brace outside of tags is open at the end of a line, a line feed stands in a tag if and
only if a brace is open there. -/
theorem marksOpenBraces_parts {ps : List Inline} {start : Int}
    (hclosed : ∀ part ∈ ps, part.IsClosed)
    (hlines : ∀ d ∈ feedBalances start (ps.flatMap outside), d = 0) :
    MarksOpenBraces start (ps.flatMap source) (ps.flatMap feedsInTag) := by
  induction ps generalizing start with
  | nil => exact ⟨rfl, nofun⟩
  | cons part ps ih =>
    rw [List.flatMap_cons, feedBalances_append] at hlines
    have hpart := hclosed part List.mem_cons_self
    obtain ⟨hfirst, hfirst'⟩ := marksOpenBraces_part hpart fun d hd =>
      hlines d (List.mem_append_left _ hd)
    have hmore : ∀ other ∈ ps, other.IsClosed := fun other hother =>
      hclosed other (List.mem_cons_of_mem part hother)
    obtain ⟨hrest, hrest'⟩ := ih hmore
      fun d hd => hlines d (List.mem_append_right _ hd)
    rw [← balance_source hpart] at hrest hrest'
    rw [MarksOpenBraces, List.flatMap_cons, List.flatMap_cons, feedBalances_append, List.map_append]
    refine ⟨by rw [hfirst, hrest], fun d hd => ?_⟩
    rcases List.mem_append.mp hd with hd | hd
    · exact hfirst' d hd
    · exact hrest' d hd

end Inline

/-! ### Where block tags begin -/

/-- A line of running text begins inside an inline tag: the line feed in front of it stands in one.
Nothing stands in front of the first line. -/
def BeginsInTag (text : List Char) (k : Nat) : Prop :=
  (false :: (Inline.parts text).flatMap Inline.feedsInTag)[k]? = some true

/-- Wherever a line ends, the braces outside of inline tags are closed again. -/
def LinesCloseBraces (text : List Char) : Prop :=
  ∀ front back, (Inline.parts text).flatMap Inline.outside = front ++ '\n' :: back →
    front.count '\x7b' = front.count '\x7d'

theorem linesCloseBraces_iff {text : List Char} : LinesCloseBraces text ↔
    ∀ d ∈ feedBalances 0 ((Inline.parts text).flatMap Inline.outside), d = 0 := by
  constructor
  · intro h d hd
    obtain ⟨front, back, htext, rfl⟩ := mem_feedBalances_iff.mp hd
    rw [balance, h front back htext]
    omega
  · intro h front back htext
    have hd := h _ (mem_feedBalances_iff.mpr ⟨front, back, htext, rfl⟩)
    rw [balance] at hd
    omega

/-- At the end of a line a brace is open if and only if the line feed stands in a tag. -/
theorem marksOpenBraces_of_linesCloseBraces {text : List Char} (h : LinesCloseBraces text) :
    MarksOpenBraces 0 text ((Inline.parts text).flatMap Inline.feedsInTag) := by
  have hmarks := Inline.marksOpenBraces_parts (fun _ => Inline.isClosed_of_mem_parts)
    (linesCloseBraces_iff.mp h)
  rwa [Inline.flatMap_source_parts] at hmarks

namespace Doc

variable {ls : List (List Char)} {line : List Char}

/-- The lines at which sections begin, the first of them at line `n`. -/
def startsFrom (n : Nat) : List Section → List Nat
  | [] => []
  | s :: rest => n :: startsFrom (n + s.lines.length) rest

/-- The lines at which block tags begin, counted from zero. The first one follows the lines before
all tags, and each further one the lines of the tag before it. -/
def starts (cut : List (List Char) × List Section) : List Nat := startsFrom cut.1.length cut.2

/-- A line looks like a block tag: a sign and a word stand behind its blanks. -/
def LooksLikeTag (line : List Char) : Prop :=
  ∃ c rest, trim line = '@' :: c :: rest ∧ isWord c = true

theorem isSome_tagStart?_iff : (tagStart? (trim line)).isSome = true ↔ LooksLikeTag line := by
  rw [LooksLikeTag]
  generalize trim line = cs
  fun_cases tagStart? cs with
  | case1 rest name hname =>
    refine ⟨nofun, ?_⟩
    rintro ⟨c, more, hcs, hword⟩
    obtain ⟨-, rfl⟩ := List.cons.inj hcs
    rw [show name = c :: more.takeWhile isWord from List.takeWhile_cons_of_pos hword] at hname
    cases hname
  | case2 rest name hname =>
    refine ⟨fun _ => ?_, fun _ => rfl⟩
    cases rest with
    | nil => exact absurd rfl hname
    | cons c more =>
      refine ⟨c, more, rfl, ?_⟩
      by_contra hword
      exact hname (List.takeWhile_cons_of_neg hword)
  | case3 cs hsign =>
    refine ⟨nofun, ?_⟩
    rintro ⟨c, more, rfl, -⟩
    exact (hsign _ rfl).elim

theorem startsFrom_succ (n : Nat) (tags : List Section) :
    startsFrom (n + 1) tags = (startsFrom n tags).map (· + 1) := by
  induction tags generalizing n with
  | nil => rfl
  | cons s rest ih =>
    rw [startsFrom, startsFrom, List.map_cons, ← ih, Nat.add_right_comm]

/-- A line in front of the others begins a block tag or not, and moves the others by one. -/
theorem starts_sections_cons (depth : Nat) (line : List Char) (below : List (List Char)) :
    starts (sections depth (line :: below)) =
      (if depth = 0 ∧ (tagStart? (trim line)).isSome = true then [0] else []) ++
        (starts (sections (bracesAfter depth line) below)).map (· + 1) := by
  have hmove : ∀ cut : List (List Char) × List Section,
      startsFrom (cut.1.length + 1) cut.2 = (starts cut).map (· + 1) := fun cut =>
    startsFrom_succ cut.1.length cut.2
  rw [sections, ← hmove]
  dsimp only
  by_cases hdepth : depth = 0
  · rw [if_pos hdepth]
    cases tagStart? (trim line) with
    | none => rw [if_neg (by simp)]; rfl
    | some tag =>
      rw [if_pos ⟨hdepth, rfl⟩, List.singleton_append, starts, startsFrom, List.length_cons,
        List.length_nil, Nat.zero_add]
  · rw [if_neg hdepth, if_neg (fun h => hdepth h.1)]
    rfl

/-- A line begins a block tag if and only if it looks like one and no brace is open before it. -/
theorem mem_starts_sections (depth : Nat) (ls : List (List Char)) (k : Nat) :
    k ∈ starts (sections depth ls) ↔ ∃ line, ls[k]? = some line ∧ LooksLikeTag line ∧
      (ls.take k).foldl bracesAfter depth = 0 := by
  induction ls generalizing depth k with
  | nil => simp [sections, starts, startsFrom]
  | cons line below ih =>
    rw [starts_sections_cons, List.mem_append, List.mem_map]
    cases k with
    | zero =>
      simp [isSome_tagStart?_iff, and_comm]
    | succ k =>
      simp [ih]

/-- The number of open braces before a line is the balance at the line feed in front of it, if no
brace is closed too early. -/
theorem getElem?_feedBalances {depth : Nat} (hls : ∀ line ∈ ls, '\n' ∉ line)
    (hnonneg : ∀ d ∈ feedBalances depth (unlines ls), 0 ≤ d) {k : Nat} (hk : k < ls.length) :
    ((depth : Int) :: feedBalances depth (unlines ls))[k]? =
      some (((ls.take k).foldl bracesAfter depth : Nat) : Int) := by
  -- On every line the count starts with what is open there, so the induction is for any `depth`.
  induction ls generalizing depth k with
  | nil => cases hk
  | cons line rest ih =>
    cases k with
    | zero => rfl
    | succ k =>
      have hrest : rest ≠ [] := by
        rintro rfl
        simp at hk
      have hnone : feedBalances depth line = [] := by
        rw [← List.length_eq_zero_iff, length_feedBalances, List.count_eq_zero]
        exact hls line List.mem_cons_self
      have hfeeds : feedBalances depth (unlines (line :: rest)) =
          (depth + balance line) :: feedBalances (depth + balance line) (unlines rest) := by
        rw [unlines, join_cons hrest, feedBalances_append, hnone, List.nil_append,
          List.singleton_append, feedBalances, if_pos rfl]
        rfl
      rw [hfeeds] at hnonneg ⊢
      have hdepth : (depth : Int) + balance line = (bracesAfter depth line : Nat) := by
        have hle := hnonneg _ List.mem_cons_self
        rw [balance] at hle ⊢
        rw [bracesAfter]
        omega
      rw [hdepth] at hnonneg ⊢
      rw [List.getElem?_cons_succ, List.take_succ_cons, List.foldl_cons]
      exact ih (fun l hl => hls l (List.mem_cons_of_mem line hl))
        (fun d hd => hnonneg d (List.mem_cons_of_mem _ hd)) (Nat.lt_of_succ_lt_succ hk)

/-- Nothing is added where the star in front of a line is left out. -/
theorem mem_of_mem_dropStar {c : Char} (h : c ∈ dropStar line) : c ∈ line := by
  have hstart : trimStart line ⊆ line := (List.dropWhile_sublist _).subset
  unfold dropStar at h
  split at h
  · rename_i rest htrim
    exact hstart (htrim ▸ List.mem_cons_of_mem _ (List.mem_cons_of_mem _ h))
  · rename_i rest _ htrim
    exact hstart (htrim ▸ List.mem_cons_of_mem _ h)
  · exact h

/-- No line of a comment holds a line feed. -/
theorem lineFeed_not_mem {raw : List Char} (h : line ∈ bodyLines raw) : '\n' ∉ line := by
  obtain ⟨l, hl, rfl⟩ := List.mem_map.mp h
  intro hfeed
  have hbreak := isLine_of_mem_lines hl '\n' (mem_of_mem_dropStar hfeed)
  cases hbreak

/-- Lines begin inside inline tags exactly where braces are open, if the other braces are closed on
their lines. -/
theorem beginsInTag_iff (hls : ∀ line ∈ ls, '\n' ∉ line) (h : LinesCloseBraces (unlines ls))
    {k : Nat} (hk : k < ls.length) :
    BeginsInTag (unlines ls) k ↔ (ls.take k).foldl bracesAfter 0 ≠ 0 := by
  obtain ⟨hmarks, hnonneg⟩ := marksOpenBraces_of_linesCloseBraces h
  have hbalance : ((0 : Int) :: feedBalances 0 (unlines ls))[k]? =
      some (((ls.take k).foldl bracesAfter 0 : Nat) : Int) := getElem?_feedBalances hls hnonneg hk
  have hline : (false :: (Inline.parts (unlines ls)).flatMap Inline.feedsInTag) =
      ((0 : Int) :: feedBalances 0 (unlines ls)).map fun d => decide (d ≠ 0) := by
    rw [hmarks]
    rfl
  rw [BeginsInTag, hline, List.getElem?_map, hbalance, Option.map_some]
  simp

/-- The comment is cut into its description and its tags. -/
theorem read_eq (raw : String) :
    read raw = ⟨String.ofList (trim (unlines (sections 0 (bodyLines raw.toList)).1)),
      (sections 0 (bodyLines raw.toList)).2.map Section.tag⟩ := by
  rw [read]
  split
  · rename_i hempty
    rw [hempty]
    rfl
  · rfl

/-- In a comment whose lines close all braces outside of inline tags, a line begins a block tag if
and only if it looks like one and does not begin inside an inline tag. -/
theorem starts_read_iff_not_beginsInTag (raw : String)
    (h : LinesCloseBraces (unlines (bodyLines raw.toList))) :
    read raw = ⟨String.ofList (trim (unlines (sections 0 (bodyLines raw.toList)).1)),
        (sections 0 (bodyLines raw.toList)).2.map Section.tag⟩ ∧
      ∀ k line, (bodyLines raw.toList)[k]? = some line →
        (k ∈ starts (sections 0 (bodyLines raw.toList)) ↔
          LooksLikeTag line ∧ ¬ BeginsInTag (unlines (bodyLines raw.toList)) k) := by
  refine ⟨read_eq raw, fun k line hline => ?_⟩
  obtain ⟨hk, -⟩ := List.getElem?_eq_some_iff.mp hline
  rw [mem_starts_sections, beginsInTag_iff (fun _ => lineFeed_not_mem) h hk, not_not]
  constructor
  · rintro ⟨other, hother, hlooks, hdepth⟩
    rw [hline] at hother
    cases hother
    exact ⟨hlooks, hdepth⟩
  · rintro ⟨hlooks, hdepth⟩
    exact ⟨line, hline, hlooks, hdepth⟩

/-- A comment with an annotation inside an inline tag, braces in its prose, and a block tag. -/
def taggedComment : String :=
  "/**\n * Use \x7b@code\n * @Test\x7d or \x7bso\x7d.\n * @since 1\n */"

theorem parts_taggedComment : Inline.parts (unlines (bodyLines taggedComment.toList)) =
    "\nUse ".toList.map .char ++ .tag "code\n@Test".toList ::
      " or \x7bso\x7d.\n@since 1\n ".toList.map .char := by
  have htext : unlines (bodyLines taggedComment.toList) =
      "\nUse \x7b@code\n@Test\x7d or \x7bso\x7d.\n@since 1\n ".toList := by decide
  rw [htext]
  simp [Inline.parts, Inline.closeBrace]

/-- The annotation begins no block tag, and the line below does. -/
theorem starts_read_taggedComment :
    LinesCloseBraces (unlines (bodyLines taggedComment.toList)) ∧
      2 ∉ starts (sections 0 (bodyLines taggedComment.toList)) ∧
      3 ∈ starts (sections 0 (bodyLines taggedComment.toList)) := by
  have hcloses : LinesCloseBraces (unlines (bodyLines taggedComment.toList)) := by
    rw [linesCloseBraces_iff, parts_taggedComment]
    decide
  have hstarts := (starts_read_iff_not_beginsInTag taggedComment hcloses).2
  have hinside : BeginsInTag (unlines (bodyLines taggedComment.toList)) 2 := by
    rw [BeginsInTag, parts_taggedComment]
    decide
  have houtside : ¬ BeginsInTag (unlines (bodyLines taggedComment.toList)) 3 := by
    rw [BeginsInTag, parts_taggedComment]
    decide
  have htest := hstarts 2 "@Test\x7d or \x7bso\x7d.".toList (by decide)
  have hsince := hstarts 3 "@since 1".toList (by decide)
  refine ⟨hcloses, fun hmem => (htest.mp hmem).2 hinside, hsince.mpr ⟨?_, houtside⟩⟩
  exact ⟨'s', "ince 1".toList, by decide, by decide⟩

/-- A brace that prose leaves open in front of a block tag. -/
def openedInProse : String := "/** a \x7b b\n * @since 1 */"

/-- A brace that prose closes in front of an inline tag of two lines. -/
def closedInProse : String := "/** \x7d \x7b@code x\n * @since 1\x7d */"

/-- A brace that stays open in prose hides the block tag below it, and one that is closed in prose
lets a line inside an inline tag begin a block tag. -/
theorem braces_miscounted :
    ((bodyLines openedInProse.toList)[1]? = some "@since 1 ".toList ∧
      LooksLikeTag "@since 1 ".toList ∧
      ¬ BeginsInTag (unlines (bodyLines openedInProse.toList)) 1 ∧
      1 ∉ starts (sections 0 (bodyLines openedInProse.toList))) ∧
    (BeginsInTag (unlines (bodyLines closedInProse.toList)) 1 ∧
      1 ∈ starts (sections 0 (bodyLines closedInProse.toList))) := by
  have hopened : unlines (bodyLines openedInProse.toList) = " a \x7b b\n@since 1 ".toList := by
    decide
  have hclosed : unlines (bodyLines closedInProse.toList) =
      " \x7d \x7b@code x\n@since 1\x7d ".toList := by decide
  refine ⟨⟨by decide, ⟨'s', "ince 1".toList, by decide, by decide⟩, ?_, by decide⟩, ?_, by decide⟩
  · rw [BeginsInTag, hopened]
    simp [Inline.parts, Inline.feedsInTag]
  · rw [BeginsInTag, hclosed]
    simp [Inline.parts, Inline.closeBrace, Inline.feedsInTag]

end Doc

end Apidoc.Comment
