import Apidoc.Java.Piece
import Mathlib.Data.List.TakeWhile

/-!
# `Apidoc.Proofs.Java.Piece`: the pieces of a source

The lexer cuts a source into pieces that follow one another without a gap (`cutInto_piecesFrom`). A
piece stands in the source at its offset, and what follows it there is what it was read before
(`CutInto.part`). Whatever is read as a piece before some bytes is the first piece of the source
that the two make together (`piecesFrom_append`).
-/

set_option autoImplicit false

namespace Apidoc.Java

open Apidoc.Text (Bytes)

/-- Neither a blank nor a comment. -/
def PieceKind.IsToken (kind : PieceKind) : Prop :=
  kind ≠ .blank ∧ kind ≠ .lineComment ∧ kind ≠ .blockComment

namespace Lexer

variable {b : UInt8} {s rest rest' text more : Bytes} {kind : PieceKind}

/-- What holds of each of the 256 bytes holds of every byte. -/
theorem forall_byte {P : UInt8 → Prop} (h : ∀ n < 256, P (UInt8.ofNat n)) (b : UInt8) : P b := by
  have hb := h b.toNat b.toNat_lt
  rwa [UInt8.ofNat_toNat] at hb

theorem startsWith_iff {lead : String} : startsWith lead s = true ↔ Text.encode lead <+: s :=
  List.isPrefixOf_iff_prefix

/-! ### Lengths -/

theorem blockCommentRest_le (s : Bytes) : blockCommentRest s ≤ s.length := by
  fun_induction blockCommentRest s with
  | case1 => exact Nat.le_refl _
  | case2 b rest h =>
    cases rest with
    | nil => simp at h
    | cons c rest => simp only [List.length_cons]; omega
  | case3 b rest h ih => simp only [List.length_cons]; omega

theorem quotedRest_le (quote : UInt8) (s : Bytes) : quotedRest quote s ≤ s.length := by
  fun_induction quotedRest quote s <;> simp only [List.length_cons, List.length_nil] <;> omega

theorem textBlockRest_le (s : Bytes) : textBlockRest s ≤ s.length := by
  fun_induction textBlockRest s with
  | case2 b rest h =>
    rw [Bool.and_eq_true] at h
    have hquotes := (startsWith_iff.mp h.2).length_le
    have htwo : (Text.encode "\"\"").length = 2 := rfl
    simp only [List.length_cons]
    omega
  | _ => simp only [List.length_cons, List.length_nil]; omega

theorem numberRest_le (hex : Bool) (last : UInt8) (s : Bytes) :
    numberRest hex last s ≤ s.length := by
  fun_induction numberRest hex last s <;> simp only [List.length_cons, List.length_nil] <;> omega

/-- A piece is not longer than the source. -/
theorem measure_le (b : UInt8) (rest : Bytes) : (measure b rest).2 ≤ rest.length := by
  -- One case for each branch of the lexer, in its order.
  have htake : ∀ p : UInt8 → Bool, (rest.takeWhile p).length ≤ rest.length := fun p =>
    (List.takeWhile_prefix p).length_le
  fun_cases measure b rest with
  | case1 | case2 => exact htake _
  | case3 h₁ h₂ h =>
    have hrest := blockCommentRest_le rest.tail
    cases rest with
    | nil => simp at h
    | cons c rest =>
      simp only [List.tail_cons, List.length_cons] at hrest ⊢
      omega
  | case4 | case5 => exact numberRest_le _ _ _
  | case6 h₁ h₂ h₃ h₄ h₅ h₆ word after h =>
    simp only [Bool.and_eq_true, decide_eq_true_eq] at h
    have hword := congrArg List.length h.1
    have hafter : _ ≤ (rest.dropWhile isWordByte).length := (startsWith_iff.mp h.2).length_le
    have hsplit : (rest.takeWhile isWordByte ++ rest.dropWhile isWordByte).length = rest.length :=
      congrArg List.length List.takeWhile_append_dropWhile
    have hnon : (Text.encode "non").length = 3 := rfl
    have hsealed : (Text.encode "-sealed").length = 7 := rfl
    rw [List.length_append] at hsplit
    rw [hnon, List.length_cons] at hword
    show 9 ≤ rest.length
    omega
  | case7 h₁ h₂ h₃ h₄ h₅ h₆ word => exact htake _
  | case8 h₁ h₂ h₃ h₄ h₅ h₆ h =>
    rw [Bool.and_eq_true] at h
    exact (startsWith_iff.mp h.2).length_le
  | case9 h₁ h₂ h₃ h₄ h₅ h₆ h₇ h₈ h =>
    have hquotes := (startsWith_iff.mp h).length_le
    have htwo : (Text.encode "\"\"").length = 2 := rfl
    have hrest := textBlockRest_le (rest.drop 2)
    rw [List.length_drop] at hrest
    show 2 + textBlockRest (rest.drop 2) ≤ rest.length
    omega
  | case10 | case11 => exact quotedRest_le _ _
  | case12 h₁ h₂ h₃ h₄ h₅ h₆ h₇ h₈ h₉ symbol h =>
    have hstarts : startsWith symbol (b :: rest) = true :=
      List.find?_some (p := fun symbol => startsWith symbol (b :: rest)) h
    have hlength := (startsWith_iff.mp hstarts).length_le
    have hsame : ∀ symbol ∈ longSymbols, symbol.length = (Text.encode symbol).length := by
      decide +kernel
    have hsymbol := hsame symbol (List.mem_of_find?_eq_some h)
    rw [List.length_cons] at hlength
    show symbol.length - 1 ≤ rest.length
    omega
  | case13 => exact Nat.zero_le _

/-! ### Pieces one after the other -/

/-- Where `rest` follows the text, the text is read as a piece of the given kind. -/
def Fits (kind : PieceKind) (text rest : Bytes) : Prop :=
  match text with
  | [] => False
  | b :: more => measure b (more ++ rest) = (kind, more.length)

instance (kind : PieceKind) (text rest : Bytes) : Decidable (Fits kind text rest) :=
  match text with
  | [] => .isFalse id
  | b :: more => inferInstanceAs (Decidable (measure b (more ++ rest) = (kind, more.length)))

theorem fits_cons : Fits kind (b :: more) rest ↔ measure b (more ++ rest) = (kind, more.length) :=
  Iff.rfl

theorem Fits.exists_cons (h : Fits kind text rest) : ∃ b more, text = b :: more := by
  cases text with
  | nil => exact h.elim
  | cons b more => exact ⟨b, more, rfl⟩

theorem Fits.ne_nil (h : Fits kind text rest) : text ≠ [] := by
  obtain ⟨b, more, rfl⟩ := h.exists_cons
  exact List.cons_ne_nil b more

/-- The source is these pieces, the first of which starts at the given offset. -/
inductive CutInto : Nat → Bytes → List Piece → Prop
  | nil {start : Nat} : CutInto start [] []
  | cons {start : Nat} {kind : PieceKind} {text rest : Bytes} {ps : List Piece}
      (h : Fits kind text rest) (hrest : CutInto (start + text.length) rest ps) :
      CutInto start (text ++ rest) (⟨kind, start, text⟩ :: ps)

/-- The lexer cuts a source into its pieces. -/
theorem cutInto_piecesFrom (start : Nat) (s : Bytes) : CutInto start s (piecesFrom start s) := by
  induction start, s using piecesFrom.induct with
  | case1 start =>
    rw [piecesFrom]
    exact .nil
  | case2 start b rest kind n hmeasure piece ih =>
    rw [piecesFrom, hmeasure]
    have hn : (rest.take n).length = n := by
      have hle := measure_le b rest
      rw [hmeasure] at hle
      exact List.length_take_of_le hle
    have hfits : Fits kind (b :: rest.take n) (rest.drop n) := by
      rw [fits_cons, List.take_append_drop, hmeasure, hn]
    have hcut : CutInto start ((b :: rest.take n) ++ rest.drop n) (piece :: _) := .cons hfits ih
    rwa [List.cons_append, List.take_append_drop] at hcut

/-- A text that fits is the first piece. -/
theorem piecesFrom_append (start : Nat) (h : Fits kind text rest) :
    piecesFrom start (text ++ rest) =
      ⟨kind, start, text⟩ :: piecesFrom (start + text.length) rest := by
  obtain ⟨b, more, rfl⟩ := h.exists_cons
  rw [fits_cons] at h
  rw [List.cons_append, piecesFrom, h]
  simp only [List.take_left, List.drop_left]
  rfl

variable {start : Nat} {ps : List Piece} {p : Piece}

/-- A piece lies within the source. -/
theorem CutInto.bounds (h : CutInto start s ps) (hp : p ∈ ps) :
    start ≤ p.start ∧ p.start < p.stop ∧ p.stop ≤ start + s.length := by
  induction h with
  | nil => cases hp
  | @cons start kind text rest ps h hrest ih =>
    have hpos := List.length_pos_iff.mpr h.ne_nil
    rw [List.length_append]
    rcases List.mem_cons.mp hp with rfl | hp
    · simp only [Piece.stop]
      omega
    · have hbounds := ih hp
      omega

/-- A piece stops before the next one starts. -/
theorem CutInto.pairwise (h : CutInto start s ps) : ps.Pairwise fun p q => p.stop ≤ q.start := by
  induction h with
  | nil => exact .nil
  | cons h hrest ih => exact .cons (fun q hq => (hrest.bounds hq).1) ih

/-- A piece stands in the source at its offset, and is read there. -/
theorem CutInto.part (h : CutInto start s ps) (hp : p ∈ ps) :
    s.drop (p.start - start) = p.text ++ s.drop (p.stop - start) ∧
      Fits p.kind p.text (s.drop (p.stop - start)) := by
  induction h with
  | nil => cases hp
  | @cons start kind text rest ps h hrest ih =>
    rcases List.mem_cons.mp hp with rfl | hp
    · have hstop : start + text.length - start = text.length := by omega
      simp only [Piece.stop, Nat.sub_self, List.drop_zero, hstop, List.drop_left]
      exact ⟨trivial, h⟩
    · have hbounds := hrest.bounds hp
      have hfar : ∀ i, start + text.length ≤ i →
          (text ++ rest).drop (i - start) = rest.drop (i - (start + text.length)) := by
        intro i hi
        rw [List.drop_append, List.drop_eq_nil_of_le (by omega), List.nil_append, Nat.sub_sub]
      rw [hfar _ hbounds.1, hfar _ (by omega)]
      exact ih hp

/-- A piece at the place where the source has it. -/
def StandsIn (source : Bytes) (p : Piece) : Prop :=
  source.drop p.start = p.text ++ source.drop p.stop ∧ Fits p.kind p.text (source.drop p.stop)

/-- A source begins with a byte order mark, which is a blank, or is cut into its pieces at once. -/
theorem pieces_cases (source : Bytes) :
    (¬ byteOrderMark <+: source ∧ pieces source = piecesFrom 0 source) ∨
      ∃ s, source = byteOrderMark ++ s ∧
        pieces source = ⟨.blank, 0, byteOrderMark⟩ :: piecesFrom byteOrderMark.length s := by
  by_cases hmark : byteOrderMark.isPrefixOf source = true
  · obtain ⟨s, rfl⟩ := List.isPrefixOf_iff_prefix.mp hmark
    refine .inr ⟨s, rfl, ?_⟩
    rw [pieces, if_pos hmark]
    rfl
  · refine .inl ⟨fun hprefix => hmark (List.isPrefixOf_iff_prefix.mpr hprefix), ?_⟩
    rw [pieces, if_neg hmark]

variable {source : Bytes} {q : Piece}

/-- A piece of a source lies within it. -/
theorem bounds_of_mem_pieces (h : p ∈ pieces source) :
    p.start < p.stop ∧ p.stop ≤ source.length := by
  rcases pieces_cases source with ⟨-, hpieces⟩ | ⟨s, rfl, hpieces⟩
  · rw [hpieces] at h
    have hbounds := (cutInto_piecesFrom 0 source).bounds h
    omega
  · rw [hpieces] at h
    rw [List.length_append]
    rcases List.mem_cons.mp h with rfl | h
    · exact ⟨Nat.zero_lt_succ 2, Nat.le_add_right 3 _⟩
    · have hbounds := (cutInto_piecesFrom _ s).bounds h
      omega

/-- The pieces of a source follow one another. -/
theorem pairwise_pieces (source : Bytes) :
    (pieces source).Pairwise fun p q => p.stop ≤ q.start := by
  rcases pieces_cases source with ⟨-, hpieces⟩ | ⟨s, rfl, hpieces⟩
  · rw [hpieces]
    exact (cutInto_piecesFrom 0 source).pairwise
  · have hcut := cutInto_piecesFrom byteOrderMark.length s
    rw [hpieces]
    exact .cons (fun q hq => (hcut.bounds hq).1) hcut.pairwise

/-- Of two pieces, one stops before the other one starts, or they are the same. -/
theorem before_or_eq_or_behind (hp : p ∈ pieces source) (hq : q ∈ pieces source) :
    p.stop ≤ q.start ∨ p = q ∨ q.stop ≤ p.start := by
  have hpairwise : (pieces source).Pairwise fun p q =>
      p.stop ≤ q.start ∨ p = q ∨ q.stop ≤ p.start := (pairwise_pieces source).imp .inl
  refine hpairwise.forall_of_forall_of_flip (fun p _ => .inr (.inl rfl)) ?_ hp hq
  exact (pairwise_pieces source).imp fun h => .inr (.inr h)

/-- A piece that is no blank is read where it stands. -/
theorem standsIn_of_mem_pieces (h : p ∈ pieces source) (hblank : p.kind ≠ .blank) :
    StandsIn source p := by
  rcases pieces_cases source with ⟨-, hpieces⟩ | ⟨s, rfl, hpieces⟩
  · rw [hpieces] at h
    exact (cutInto_piecesFrom 0 source).part h
  · rw [hpieces] at h
    rcases List.mem_cons.mp h with rfl | h
    · exact absurd rfl hblank
    · have hbounds := (cutInto_piecesFrom _ s).bounds h
      have hpart := (cutInto_piecesFrom _ s).part h
      have hdrop : ∀ i, byteOrderMark.length ≤ i →
          (byteOrderMark ++ s).drop i = s.drop (i - byteOrderMark.length) := by
        intro i hi
        rw [List.drop_append, List.drop_eq_nil_of_le hi, List.nil_append]
      rw [StandsIn, hdrop _ hbounds.1, hdrop _ (by omega)]
      exact hpart

/-- A piece is blank if and only if its first byte is. -/
theorem measure_blank_iff : (measure b rest).1 = .blank ↔ isBlankByte b = true := by
  fun_cases measure b rest <;> simp_all only [reduceCtorEq, Bool.not_eq_true, Bool.false_eq_true]

theorem Fits.blank_iff (h : Fits kind (b :: more) rest) : kind = .blank ↔ isBlankByte b = true := by
  rw [fits_cons] at h
  have hiff : (measure b (more ++ rest)).1 = .blank ↔ isBlankByte b = true := measure_blank_iff
  rw [← hiff, h]

/-- A blank piece has only blanks. -/
theorem Fits.all_blank (h : Fits .blank text rest) : ∀ b ∈ text, isBlankByte b = true := by
  obtain ⟨b, more, rfl⟩ := h.exists_cons
  have hb := h.blank_iff.mp rfl
  rw [fits_cons, measure, if_pos hb] at h
  have hmore : (more ++ rest).takeWhile isBlankByte = more :=
    (List.prefix_of_prefix_length_le (List.takeWhile_prefix _) (List.prefix_append more rest)
      (Prod.mk.inj h).2.le).eq_of_length (Prod.mk.inj h).2
  refine List.forall_mem_cons.mpr ⟨hb, fun c hc => ?_⟩
  rw [← hmore] at hc
  exact List.mem_takeWhile_imp hc

/-- A word is not the sign of an annotation. -/
theorem not_sign_of_fits : ¬ Fits .word (Text.encode "@") rest := by
  intro h
  have h : (if startsWith "interface" rest = true then (PieceKind.word, 9) else (.symbol, 0)) =
      (PieceKind.word, 0) := h
  split at h <;> cases h

/-- What is no trivia is a token. -/
theorem isToken_of_not_trivia (h : p.isTrivia = false) : p.kind.IsToken := by
  refine ⟨?_, ?_, ?_⟩ <;>
    · intro hkind
      rw [Piece.isTrivia, Piece.isComment, hkind] at h
      cases h

end Lexer

end Apidoc.Java
