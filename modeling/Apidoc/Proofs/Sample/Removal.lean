import Apidoc.Proofs.Java.Lookahead
import Apidoc.Proofs.Sample.Mark
import Apidoc.Proofs.Sample.Noise

/-!
# `Apidoc.Proofs.Sample.Removal`: the spans that are removed from a source

The comments are removed, and the noise annotations of methods and constructors with the blanks
behind them (`mem_removals`). Such a span reaches from one token or comment to another (`Bounds`), so
that a token lies within it or beside it, and one that begins inside of another one ends there
(`nested_removals`). A token is removed altogether or not at all (`not_covers_of_keeps`,
`covers_of_not_keeps`).
-/

set_option autoImplicit false

namespace Apidoc.Sample.Clean

open Apidoc.Java Apidoc.Java.Lexer Apidoc.Java.Measure
open Apidoc.Java.Tree (Tail annotationSpan ordered_ofSource piece_mem_of_mem_tokens tokensAll)
open Apidoc.Text (Bytes)

variable {noise : List String} {content : Bytes} {p q : Piece} {s t : Span}

/-! ### Spans -/

theorem length_takeWhile_le {f : UInt8 → Bool} {b : UInt8} (hb : f b = false) {bytes : Bytes}
    {n : Nat} (h : (bytes.drop n).head? = some b) : (bytes.takeWhile f).length ≤ n := by
  induction bytes generalizing n with
  | nil => exact Nat.zero_le n
  | cons c bytes ih =>
    by_cases hc : f c = true
    · cases n with
      | zero =>
        cases h
        rw [hb] at hc
        cases hc
      | succ n =>
        rw [List.takeWhile_cons_of_pos hc]
        exact Nat.succ_le_succ (ih h)
    · rw [List.takeWhile_cons_of_neg hc]
      exact Nat.zero_le n

/-- The blanks behind an annotation do not reach into the next token or comment. -/
theorem blanksAfter_le {i : Nat} (hp : p ∈ pieces content) (hblank : p.kind ≠ .blank)
    (hi : i ≤ p.start) : i + blanksAfter content i ≤ p.start := by
  obtain ⟨hdrop, hfits⟩ := standsIn_of_mem_pieces hp hblank
  obtain ⟨b, more, htext⟩ := hfits.exists_cons
  rw [htext] at hdrop hfits
  have hb : isBlankByte b = false := Bool.not_eq_true _ ▸ fun h => hblank (hfits.blank_iff.mpr h)
  have hplain : (b = 32 || b = 9 : Bool) = false := by
    rw [Bool.eq_false_iff]
    intro h
    rw [Bool.or_eq_true, decide_eq_true_eq, decide_eq_true_eq] at h
    rcases h with rfl | rfl <;> cases hb
  have hhead : ((content.drop i).drop (p.start - i)).head? = some b := by
    rw [List.drop_drop, Nat.add_sub_of_le hi, hdrop]
    rfl
  have hle : blanksAfter content i ≤ p.start - i := length_takeWhile_le hplain hhead
  omega

theorem blanksAfter_le_length (i : Nat) : i + blanksAfter content i ≤ max i content.length := by
  have hle := (List.takeWhile_prefix (l := content.drop i) fun b => b = 32 || b = 9).length_le
  rw [List.length_drop] at hle
  have hlength : blanksAfter content i ≤ content.length - i := hle
  omega

/-- The annotations of methods and constructors that are noise. -/
def memberNoise (noise : List String) (content : Bytes) : List Annotation :=
  ((allMemberModifiers (Reader.items content)).flatMap (·.annotations)).filter fun a =>
    Model.CompilationUnit.annotationName a ∈ noise

/-- An annotation with the blanks behind it. -/
def withBlanks (content : Bytes) (a : Annotation) : Span :=
  ⟨a.span.start, a.span.stop + blanksAfter content a.span.stop⟩

/-- What is removed are the comments and the noise annotations. -/
theorem mem_removals :
    s ∈ removals noise content ↔
      (∃ p ∈ pieces content, p.isComment = true ∧ s = ⟨p.start, p.stop⟩) ∨
        ∃ a ∈ memberNoise noise content, s = withBlanks content a := by
  have hspans : ∀ ms : Modifiers, s ∈ noiseSpans noise content ms ↔
      ∃ a ∈ ms.annotations, Model.CompilationUnit.annotationName a ∈ noise ∧
        s = withBlanks content a := by
    intro ms
    rw [noiseSpans, List.mem_filterMap]
    refine exists_congr fun a => and_congr_right fun _ => ?_
    split
    · rename_i hnoise
      rw [Option.some_inj]
      exact ⟨fun h => ⟨hnoise, h.symm⟩, fun h => h.2.symm⟩
    · rename_i hnoise
      exact ⟨nofun, fun h => absurd h.1 hnoise⟩
  rw [removals, List.mem_append, List.mem_map, List.mem_flatMap]
  refine or_congr (exists_congr fun p => ?_) ?_
  · rw [List.mem_filter, and_assoc]
    exact and_congr_right fun _ => and_congr_right fun _ => eq_comm
  · simp only [hspans, memberNoise, List.mem_filter, List.mem_flatMap, decide_eq_true_eq]
    constructor
    · rintro ⟨ms, hms, a, ha, hnoise, hs⟩
      exact ⟨a, ⟨⟨ms, hms, ha⟩, hnoise⟩, hs⟩
    · rintro ⟨a, ⟨⟨ms, hms, ha⟩, hnoise⟩, hs⟩
      exact ⟨ms, hms, a, ha, hnoise, hs⟩

/-- A noise annotation is an annotation of the trees. -/
theorem exists_tail_of_mem_memberNoise {a : Annotation} (h : a ∈ memberNoise noise content) :
    ∃ us, Tail us (Tree.ofSource content) ∧ annotationRun us ≠ 0 ∧ a.span = annotationSpan us := by
  rw [memberNoise, List.mem_filter] at h
  obtain ⟨ms, hms, ha⟩ := List.mem_flatMap.mp h.1
  exact allStand_items content ms hms a ha

/-- The span reaches from one token or comment to another, and over blanks behind it at most. -/
structure Bounds (content : Bytes) (s : Span) (first last : Piece) : Prop where
  first_mem : first ∈ pieces content
  last_mem : last ∈ pieces content
  first_kind : first.kind ≠ .blank
  last_kind : last.kind ≠ .blank
  start : s.start = first.start
  order : first.start ≤ last.start
  stop : last.stop ≤ s.stop
  blanks : ∀ r ∈ pieces content, r.kind ≠ .blank → last.stop ≤ r.start → s.stop ≤ r.start
  length : s.stop ≤ content.length

theorem bounds_comment (hp : p ∈ pieces content) (hcomment : p.isComment = true) :
    Bounds content ⟨p.start, p.stop⟩ p p := by
  have hkind : p.kind ≠ .blank := by
    intro hblank
    rw [Piece.isComment, hblank] at hcomment
    cases hcomment
  exact ⟨hp, hp, hkind, hkind, rfl, Nat.le_refl _, Nat.le_refl _, fun _ _ _ h => h,
    (bounds_of_mem_pieces hp).2⟩

/-- A noise annotation begins with its sign. The blanks behind it do not reach into a token. -/
theorem exists_bounds_of_noise {a : Annotation} (h : a ∈ memberNoise noise content) :
    ∃ us, Tail us (Tree.ofSource content) ∧ annotationRun us ≠ 0 ∧ a.span = annotationSpan us ∧
      ∃ sign last, a.span = ⟨sign.start, last.stop⟩ ∧ sign.isTrivia = false ∧
        Bounds content (withBlanks content a) sign last := by
  obtain ⟨us, htail, hrun, ha⟩ := exists_tail_of_mem_memberNoise h
  obtain ⟨sign, rest, hus, -, final, hfinal, hspan⟩ := Tree.exists_annotationSpan hrun
  have hsign : sign ∈ tokensAll us := hus ▸ List.mem_cons_self
  obtain ⟨hsign_mem, hsign_trivia⟩ := piece_mem_of_mem_tokens (htail.tokens_subset hsign)
  obtain ⟨hfinal_mem, hfinal_trivia⟩ := piece_mem_of_mem_tokens (htail.tokens_subset hfinal)
  have hblank := (isToken_of_not_trivia hfinal_trivia).1
  have hspan : a.span = ⟨sign.piece.start, final.piece.stop⟩ := ha.trans hspan
  have horder : sign.piece.start ≤ final.piece.start := by
    have hordered := (ordered_ofSource content).of_sublist htail.tokens_sublist
    rw [hus] at hfinal hordered
    rcases List.mem_cons.mp hfinal with rfl | hfinal
    · exact Nat.le_refl _
    · have hbefore := hordered.before (List.mem_singleton_self sign) hfinal
      exact (hordered.positive sign List.mem_cons_self).le.trans hbefore
  refine ⟨us, htail, hrun, ha, sign.piece, final.piece, hspan, hsign_trivia, ?_⟩
  refine ⟨hsign_mem, hfinal_mem, (isToken_of_not_trivia hsign_trivia).1, hblank, ?_, horder, ?_, ?_,
    ?_⟩
  · rw [withBlanks, hspan]
  · rw [withBlanks, hspan]
    exact Nat.le_add_right _ _
  · intro r hr hkind hle
    rw [withBlanks, hspan]
    exact blanksAfter_le hr hkind hle
  · have hlength := (bounds_of_mem_pieces hfinal_mem).2
    have hle : _ ≤ max final.piece.stop content.length := blanksAfter_le_length final.piece.stop
    rw [withBlanks, hspan]
    dsimp only
    omega

/-- A token or comment lies within a span or beside it. -/
theorem Bounds.within_or_beside {first last : Piece} (h : Bounds content s first last)
    (hp : p ∈ pieces content) (hkind : p.kind ≠ .blank) :
    s.start ≤ p.start ∧ p.stop ≤ last.stop ∨ p.stop ≤ s.start ∨ s.stop ≤ p.start := by
  have hpositive := (bounds_of_mem_pieces hp).1
  have hlast := (bounds_of_mem_pieces h.last_mem).1
  have hstart := h.start
  rcases before_or_eq_or_behind hp h.first_mem with hbefore | hfirst
  · exact .inr (.inl (by omega))
  -- Behind the first one, it is compared with the last one.
  have hstart : s.start ≤ p.start := by
    rcases hfirst with rfl | hbehind
    · exact h.start.le
    · have hpositive := (bounds_of_mem_pieces h.first_mem).1
      have hequal := h.start
      omega
  rcases before_or_eq_or_behind hp h.last_mem with hbefore | rfl | hbehind
  · exact .inl ⟨hstart, by omega⟩
  · exact .inl ⟨hstart, Nat.le_refl _⟩
  · exact .inr (.inr (h.blanks p hp hkind hbehind))

/-- What is removed reaches from one token or comment to another. -/
theorem exists_bounds (h : s ∈ removals noise content) :
    ∃ first last, Bounds content s first last := by
  rcases mem_removals.mp h with ⟨p, hp, hcomment, rfl⟩ | ⟨a, ha, rfl⟩
  · exact ⟨p, p, bounds_comment hp hcomment⟩
  · obtain ⟨-, -, -, -, sign, last, -, -, hbounds⟩ := exists_bounds_of_noise ha
    exact ⟨sign, last, hbounds⟩

/-- A comment that begins inside of a span ends there. -/
theorem stop_le_of_comment {first last : Piece} (h : Bounds content s first last)
    (hp : p ∈ pieces content) (hcomment : p.isComment = true) (hstart : s.start ≤ p.start)
    (hstop : p.start < s.stop) : p.stop ≤ s.stop := by
  have hpositive := (bounds_of_mem_pieces hp).1
  have hlast := h.stop
  rcases h.within_or_beside hp (bounds_comment hp hcomment).first_kind with hwithin | hbeside
  · exact hwithin.2.trans hlast
  · omega

/-- No annotation begins inside of a comment. -/
theorem not_within_comment {sign last : Piece} (h : Bounds content s sign last)
    (htrivia : sign.isTrivia = false) (hp : p ∈ pieces content) (hcomment : p.isComment = true)
    (hstart : p.start ≤ s.start) : p.stop ≤ s.start := by
  have hsign := h.start
  have hpositive := (bounds_of_mem_pieces h.first_mem).1
  rcases before_or_eq_or_behind h.first_mem hp with hbefore | heq | hbehind
  · omega
  · rw [Piece.isTrivia, heq, hcomment, Bool.or_true] at htrivia
    cases htrivia
  · omega

/-- A noise annotation that begins inside of another one ends there, with the blanks behind it. -/
theorem stop_le_of_annotation {a b : Annotation} (ha : a ∈ memberNoise noise content)
    (hb : b ∈ memberNoise noise content)
    (hstart : (withBlanks content b).start ≤ (withBlanks content a).start)
    (hstop : (withBlanks content a).start < (withBlanks content b).stop) :
    (withBlanks content a).stop ≤ (withBlanks content b).stop := by
  obtain ⟨us, htail, hrun, hspan, sign, last, ha', -, hbounds⟩ := exists_bounds_of_noise ha
  obtain ⟨vs, htail', hrun', hspan', sign', last', hb', -, hbounds'⟩ := exists_bounds_of_noise hb
  have hsign := hbounds.start
  have hsign' := hbounds'.start
  have hinside : sign.start < last'.stop := by
    by_contra hnot
    have hbeside := hbounds'.blanks sign hbounds.first_mem hbounds.first_kind
      (Nat.le_of_not_lt hnot)
    omega
  have hnested := Tree.nested (ordered_ofSource content) htail' htail hrun' hrun
  rw [← hspan, ← hspan', ha', hb'] at hnested
  dsimp only at hnested
  rcases hnested (by omega) hinside with rfl | ⟨c, hc, hcstart, hcstop⟩
  · have hsame : a.span = b.span := hspan.trans hspan'.symm
    rw [withBlanks, withBlanks, hsame]
  · -- The blanks end before the parenthesis that closes the other one.
    obtain ⟨hcmem, hctrivia⟩ := piece_mem_of_mem_tokens hc
    have hcpositive := (bounds_of_mem_pieces hcmem).1
    have hastop : a.span.stop ≤ c.piece.start := by rwa [ha']
    have hle := blanksAfter_le hcmem (isToken_of_not_trivia hctrivia).1 hastop
    have hbstop : c.piece.stop ≤ b.span.stop := by rwa [hb']
    show a.span.stop + _ ≤ b.span.stop + _
    omega

/-- Of two spans that are removed, one that begins inside of the other ends there. -/
theorem nested_removals (noise : List String) (content : Bytes) :
    Nested (removals noise content) := by
  constructor
  · intro s hs
    obtain ⟨first, last, h⟩ := exists_bounds hs
    have hpositive := (bounds_of_mem_pieces h.last_mem).1
    have hstart := h.start
    have horder := h.order
    have hstop := h.stop
    omega
  · intro s hs t ht hstart hstop
    rcases mem_removals.mp hs with ⟨p, hp, hcomment, rfl⟩ | ⟨a, ha, rfl⟩
    · obtain ⟨first, last, hbounds⟩ := exists_bounds ht
      exact stop_le_of_comment hbounds hp hcomment hstart hstop
    · rcases mem_removals.mp ht with ⟨p, hp, hcomment, rfl⟩ | ⟨b, hb, rfl⟩
      · obtain ⟨-, -, -, -, sign, last, -, htrivia, hbounds⟩ := exists_bounds_of_noise ha
        have hbefore := not_within_comment hbounds htrivia hp hcomment hstart
        exact absurd hstop (Nat.not_lt_of_le hbefore)
      · exact stop_le_of_annotation ha hb hstart hstop

/-! ### Pieces that are kept -/

/-- What a source is to keep: its tokens, but for those of noise annotations in front of methods and
constructors. -/
def keeps (noise : List String) (content : Bytes) (p : Piece) : Bool :=
  !p.isTrivia && !(memberNoise noise content).any fun a =>
    a.span.start ≤ p.start && p.stop ≤ a.span.stop

/-- Nothing of a piece that is to be kept is removed. -/
theorem not_covers_of_keeps (hp : p ∈ pieces content) (h : keeps noise content p = true) {i : Nat}
    (hstart : p.start ≤ i) (hstop : i < p.stop) : ¬ Covers (removals noise content) i := by
  rw [keeps, Bool.and_eq_true, Bool.not_eq_true', Bool.not_eq_true', List.any_eq_false] at h
  obtain ⟨htrivia, hnoise⟩ := h
  rintro ⟨s, hs, hstart', hstop'⟩
  rcases mem_removals.mp hs with ⟨q, hq, hcomment, rfl⟩ | ⟨a, ha, rfl⟩
  · dsimp only at hstart' hstop'
    rcases before_or_eq_or_behind hp hq with hbefore | rfl | hbehind
    · omega
    · rw [Piece.isTrivia, hcomment, Bool.or_true] at htrivia
      cases htrivia
    · omega
  · obtain ⟨-, -, -, -, sign, last, ha', -, hbounds⟩ := exists_bounds_of_noise ha
    refine hnoise a ha ?_
    rw [Bool.and_eq_true, decide_eq_true_eq, decide_eq_true_eq]
    have hkind := (isToken_of_not_trivia htrivia).1
    rcases hbounds.within_or_beside hp hkind with hwithin | hbeside | hbeside
    · rw [ha']
      exact ⟨hbounds.start ▸ hwithin.1, hwithin.2⟩
    · omega
    · omega

/-- A piece that is not to be kept is a blank, or all of it is removed. -/
theorem covers_of_not_keeps (hp : p ∈ pieces content) (h : keeps noise content p = false) :
    p.kind = .blank ∨ ∀ i, p.start ≤ i → i < p.stop → Covers (removals noise content) i := by
  rw [keeps, Bool.and_eq_false_iff, Bool.not_eq_false', Bool.not_eq_false', List.any_eq_true] at h
  rcases h with htrivia | ⟨a, ha, hwithin⟩
  · rw [Piece.isTrivia, Bool.or_eq_true, decide_eq_true_eq] at htrivia
    refine htrivia.imp_right fun hcomment i hstart hstop => ?_
    exact ⟨_, mem_removals.mpr (.inl ⟨p, hp, hcomment, rfl⟩), hstart, hstop⟩
  · rw [Bool.and_eq_true, decide_eq_true_eq, decide_eq_true_eq] at hwithin
    refine .inr fun i hstart hstop => ⟨_, mem_removals.mpr (.inr ⟨a, ha, rfl⟩), ?_, ?_⟩
    · exact hwithin.1.trans hstart
    · rw [withBlanks]
      dsimp only
      omega

theorem spanLe_iff :
    spanLe s t = true ↔ s.start < t.start ∨ s.start = t.start ∧ s.stop ≤ t.stop := by
  rw [spanLe, Bool.or_eq_true, Bool.and_eq_true, decide_eq_true_eq, decide_eq_true_eq,
    decide_eq_true_eq]

/-- The source with marks for what is removed. -/
theorem marked_removals (noise : List String) (content : Bytes) :
    Marked (Covers (removals noise content)) 0 content
      (markSpans 0 content ((removals noise content).mergeSort spanLe)) := by
  have hmem : ∀ s, s ∈ (removals noise content).mergeSort spanLe ↔ s ∈ removals noise content :=
    fun s => List.mem_mergeSort
  have hnested := nested_removals noise content
  have hnested' : Nested ((removals noise content).mergeSort spanLe) :=
    ⟨fun s hs => hnested.positive s ((hmem s).mp hs), fun s hs t ht =>
      hnested.within s ((hmem s).mp hs) t ((hmem t).mp ht)⟩
  refine marked_markSpans hnested' ?_ (fun s hs => ?_) (fun s _ hlt => ?_) fun i _ => ?_
  · have hsorted :
        ((removals noise content).mergeSort spanLe).Pairwise fun a b => spanLe a b = true :=
      List.pairwise_mergeSort (fun a b c hab hbc => ?_) (fun a b => ?_) _
    · refine hsorted.imp fun hle => ?_
      have hle := spanLe_iff.mp hle
      omega
    · rw [spanLe_iff] at hab hbc ⊢
      omega
    · rw [Bool.or_eq_true, spanLe_iff, spanLe_iff]
      omega
  · obtain ⟨first, last, hbounds⟩ := exists_bounds ((hmem s).mp hs)
    rw [Nat.zero_add]
    exact hbounds.length
  · exact absurd hlt (Nat.not_lt_zero _)
  · exact exists_congr fun s => and_congr_left fun _ => (hmem s).symm

end Apidoc.Sample.Clean
