import Apidoc.Proofs.Sample.Removal
import Apidoc.Sample.Listing

/-!
# `Apidoc.Proofs.Sample.Clean`: the tokens of a cleaned source

The marked text of a source holds the tokens that are to be kept and fillers between them
(`laid_of_marked`), and without the marks and the lines they leave empty blanks stand between them
(`exists_laid_clean`). Where that sets no two tokens side by side that join, the cleaned source is
read as these tokens.

## What the hypothesis leaves out

Nothing is put in the place of a comment, so two words that only a comment keeps apart become one
(`Separable.apart`). The byte that marks what is removed is dropped from the tokens of a source too
(`Separable.unmarked`). A token that begins with a byte order mark is read without it where it comes
to begin the source (`Separable.noOrderMark`).
-/

set_option autoImplicit false

namespace Apidoc.Sample.Clean

open Apidoc.Java (Piece PieceKind)
open Apidoc.Java.Lexer
open Apidoc.Text (Bytes)

variable {noise : List String} {content source s m gap : Bytes} {removed : Nat → Prop} {i : Nat}
  {ps : List Piece}

/-- A blank or a mark. -/
def isFiller (b : UInt8) : Bool := isBlankByte b || b = mark

theorem isFiller_iff {b : UInt8} : isFiller b = true ↔ isBlankByte b = true ∨ b = mark := by
  rw [isFiller, Bool.or_eq_true, decide_eq_true_eq]

/-! ### What is left of the pieces -/

/-- Fillers in front widen the first gap. -/
theorem laid_prepend {j : Nat} (h : Laid isFiller source removed j ps m) (hij : i ≤ j)
    (hgap : ∀ b ∈ gap, isFiller b = true) (hend : source.drop i ≠ [])
    (hremoved : (∀ b ∈ gap, isBlankByte b = false) → ∀ k, i ≤ k → k < j → removed k) :
    Laid isFiller source removed i ps (gap ++ m) := by
  cases h with
  | nil hgap' hend' =>
    exact .nil (List.forall_mem_append.mpr ⟨hgap, hgap'⟩) fun hnil => absurd hnil hend
  | @cons j gap' p ps out hgap' hle hnear h =>
    rw [← List.append_assoc]
    have hgaps := List.forall_mem_append.mpr ⟨hgap, hgap'⟩
    refine .cons hgaps (hij.trans hle) (fun hnone k hk hk' => ?_) h
    rw [List.forall_mem_append] at hnone
    rcases Nat.lt_or_ge k j with hlt | hge
    · exact hremoved hnone.1 k hk hlt
    · exact hnear hnone.2 k hge hk'

/-- The marked text of a source holds the pieces that are to be kept, and fillers between them. -/
theorem laid_of_marked {keeps : Piece → Bool} (hcut : CutInto i s ps) (hsource : source.drop i = s)
    (hm : Marked removed i s m)
    (hkept : ∀ p ∈ ps, keeps p = true → ∀ j, p.start ≤ j → j < p.stop → ¬ removed j)
    (hother : ∀ p ∈ ps, keeps p = false →
      p.kind = .blank ∨ ∀ j, p.start ≤ j → j < p.stop → removed j) :
    Laid isFiller source removed i (ps.filter keeps) m := by
  -- One piece after the other: it is kept, or what is left of it widens the gap.
  induction hcut generalizing m with
  | nil =>
    cases hm
    exact .nil nofun fun _ => rfl
  | @cons i kind text rest ps hfits hcut ih =>
    have hrest : source.drop (i + text.length) = rest := by
      rw [← List.drop_drop, hsource, List.drop_left]
    have hnext : ∀ {m' : Bytes}, Marked removed (i + text.length) rest m' →
        Laid isFiller source removed (i + text.length) (ps.filter keeps) m' := fun hm' =>
      ih hrest hm' (fun p hp => hkept p (List.mem_cons_of_mem _ hp))
        fun p hp => hother p (List.mem_cons_of_mem _ hp)
    by_cases hp : keeps ⟨kind, i, text⟩ = true
    · rw [List.filter_cons_of_pos hp]
      obtain ⟨m', rfl, hm'⟩ := hm.exists_kept (hkept _ List.mem_cons_self hp)
      refine .cons (List.forall_mem_nil _) (Nat.le_refl i) (fun _ j hj hj' => ?_) (hnext hm')
      exact absurd hj (Nat.not_le_of_lt hj')
    · rw [List.filter_cons_of_neg hp]
      rw [Bool.not_eq_true] at hp
      obtain ⟨gap, m', rfl, hgap, hremoved, hm'⟩ := hm.exists_rest
      have hend : source.drop i ≠ [] := by
        rw [hsource]
        exact List.append_ne_nil_of_left_ne_nil hfits.ne_nil rest
      rcases hother _ List.mem_cons_self hp with hblank | hall
      · -- Blanks may stay.
        dsimp only at hblank
        subst hblank
        have hfiller : ∀ b ∈ gap, isFiller b = true := fun b hb => isFiller_iff.mpr <|
          (hgap b hb).symm.imp_left fun hkept => hfits.all_blank b hkept.1
        refine laid_prepend (hnext hm') (Nat.le_add_right _ _) hfiller hend fun hnone => ?_
        refine hremoved (fun hmark => ?_) fun b hb => ?_
        · exact absurd (hfits.all_blank mark hmark) (by decide)
        · refine (isFiller_iff.mp (hfiller b hb)).resolve_left ?_
          rw [hnone b hb]
          nofun
      · -- Of a comment or a noise annotation only marks stay.
        have hfiller : ∀ b ∈ gap, isFiller b = true := fun b hb => isFiller_iff.mpr <| .inr <|
          (hgap b hb).resolve_right fun ⟨_, j, hj, hj', hkept⟩ => hkept (hall j hj hj')
        exact laid_prepend (hnext hm') (Nat.le_add_right _ _) hfiller hend fun _ => hall

/-- Nothing is left behind the end of the source. -/
theorem eq_nil_of_laid (h : Laid isFiller source removed i ps m)
    (hstands : ∀ p ∈ ps, StandsIn source p) (hend : source.drop i = []) : m = [] := by
  cases h with
  | nil _ hnil => exact hnil hend
  | @cons i gap p ps out _ hle _ h =>
    obtain ⟨hdrop, hfits⟩ := hstands p List.mem_cons_self
    have hnil : source.drop p.start = [] :=
      List.drop_eq_nil_of_le ((List.drop_eq_nil_iff.mp hend).trans hle)
    rw [hnil] at hdrop
    exact absurd (List.append_eq_nil_iff.mp hdrop.symm).1 hfits.ne_nil

/-- A token without marks begins with a byte that is kept, and a line is kept for it. -/
theorem solid_of_standsIn {p : Piece} (hp : StandsIn source p) (hkind : p.kind.IsToken)
    (hmark : mark ∉ p.text) (rest : Bytes) : ∃ b ∈ (p.text ++ rest).head?, IsSolid b := by
  obtain ⟨-, hfits⟩ := hp
  obtain ⟨b, more, hcons⟩ := hfits.exists_cons
  rw [hcons] at hmark hfits ⊢
  refine ⟨b, rfl, fun heq => hmark (heq ▸ List.mem_cons_self), ?_⟩
  exact Bool.not_eq_true _ ▸ fun hblank => hkind.1 (hfits.blank_iff.mpr hblank)

/-- A token is kept as it is. -/
theorem onward_token {p : Piece} {out : Bytes} (hp : StandsIn source p) (hkind : p.kind.IsToken)
    (hmark : mark ∉ p.text) (h : Laid isFiller source removed p.stop ps out)
    (hstands : ∀ q ∈ ps, StandsIn source q) : onward (p.text ++ out) = p.text ++ onward out := by
  refine onward_append hmark ?_
  by_cases hend : source.drop p.stop = []
  · exact .inl (eq_nil_of_laid h hstands hend)
  · have hlast := List.getLast?_eq_some_getLast hp.2.ne_nil
    exact .inr ⟨_, hlast, hp.2.getLast? hkind hend _ hlast⟩

/-- Dropping marks and empty lines changes only the gaps. -/
theorem laid_onward (h : Laid isFiller source removed i ps m)
    (hstands : ∀ p ∈ ps, StandsIn source p ∧ p.kind.IsToken) (hmark : ∀ p ∈ ps, mark ∉ p.text) :
    Laid isBlankByte source removed i ps (onward m) := by
  -- The gap and the token pass one after the other, and each leaves the rest to be read onward.
  induction h with
  | @nil i gap hgap hend =>
    obtain ⟨gap', heq, hblank, -, hnil⟩ := exists_onward_gap (m := [])
      (fun b hb => isFiller_iff.mp (hgap b hb)) (.inl rfl)
    rw [List.append_nil, Clean.onward, List.append_nil] at heq
    rw [heq]
    exact .nil hblank fun h => hnil (hend h)
  | @cons i gap p ps out hgap hle hnear h ih =>
    obtain ⟨hp, hkind⟩ := hstands p List.mem_cons_self
    obtain ⟨hunmarked, hmark⟩ := List.forall_mem_cons.mp hmark
    have hps : ∀ q ∈ ps, StandsIn source q ∧ q.kind.IsToken := fun q hq =>
      hstands q (List.mem_cons_of_mem p hq)
    obtain ⟨gap', heq, hblank, hnone, -⟩ := exists_onward_gap
      (fun b hb => isFiller_iff.mp (hgap b hb)) (.inr (solid_of_standsIn hp hkind hunmarked out))
    rw [heq, onward_token hp hkind hunmarked h fun q hq => (hps q hq).1]
    refine .cons hblank hle (fun hall => hnear ?_) (ih hps hmark)
    -- Where no blank is left, there was none.
    have hnil : gap' = [] := List.eq_nil_iff_forall_not_mem.mpr fun b hb => by
      have hb' := hblank b hb
      rw [hall b hb] at hb'
      cases hb'
    exact hnone hnil (List.append_ne_nil_of_left_ne_nil hp.2.ne_nil out)

/-- Nothing stands before the first piece that could be joined to it, so the lines before it may be
dropped. -/
theorem laid_tail_below (h : Laid isFiller source removed i ps m)
    (hstands : ∀ p ∈ ps, StandsIn source p ∧ p.kind.IsToken) (hmark : ∀ p ∈ ps, mark ∉ p.text) :
    ∃ j, Laid isBlankByte source removed j ps (below [] m).tail := by
  cases h with
  | nil hgap hend =>
    obtain ⟨gap', heq, hblank, -⟩ := exists_below_gap (m := [])
      (fun b hb => isFiller_iff.mp (hgap b hb)) (List.forall_mem_nil _) (.inl rfl)
    rw [List.append_nil, Clean.onward, List.append_nil] at heq
    refine ⟨i, .nil (fun b hb => ?_) fun hnil => ?_⟩
    · rw [heq] at hb
      exact hblank b (List.mem_of_mem_tail hb)
    · rw [hend hnil]
      rfl
  | @cons i gap p ps out hgap hle hnear h =>
    obtain ⟨hp, hkind⟩ := hstands p List.mem_cons_self
    obtain ⟨hunmarked, hmark⟩ := List.forall_mem_cons.mp hmark
    have hps : ∀ q ∈ ps, StandsIn source q ∧ q.kind.IsToken := fun q hq =>
      hstands q (List.mem_cons_of_mem p hq)
    obtain ⟨gap', heq, hblank, hne⟩ := exists_below_gap
      (fun b hb => isFiller_iff.mp (hgap b hb)) (List.forall_mem_nil _)
      (.inr (solid_of_standsIn hp hkind hunmarked out))
    have hne := hne (List.append_ne_nil_of_left_ne_nil hp.2.ne_nil out)
    rw [heq, onward_token hp hkind hunmarked h fun q hq => (hps q hq).1,
      List.tail_append_of_ne_nil hne]
    refine ⟨p.start, .cons (fun b hb => hblank b (List.mem_of_mem_tail hb)) (Nat.le_refl _) ?_
      (laid_onward h hps hmark)⟩
    exact fun _ j hj hj' => absurd hj (Nat.not_le_of_lt hj')

/-! ### The tokens of a cleaned source -/

/-- The bytes of a source that are removed. -/
abbrev Removed (noise : List String) (content : Bytes) : Nat → Prop :=
  Covers (removals noise content)

/-- The pieces of a source that are to be kept. -/
def keptTokens (noise : List String) (content : Bytes) : List Piece :=
  (pieces content).filter (keeps noise content)

/-- The tokens of a source can do without what is removed between them. -/
structure Separable (noise : List String) (content : Bytes) : Prop where
  /-- No token holds the byte that marks what is removed. -/
  unmarked : ∀ p ∈ keptTokens noise content, mark ∉ p.text
  /-- No token could be taken for a byte order mark if it came to begin the source. -/
  noOrderMark : ∀ p ∈ keptTokens noise content, ¬ byteOrderMark <+: p.text
  /-- No two tokens join that only comments and noise annotations keep apart. -/
  apart : Apart (Removed noise content) (keptTokens noise content)

/-- What is to be kept are tokens of the source. -/
theorem standsIn_of_mem_keptTokens {p : Piece} (hp : p ∈ keptTokens noise content) :
    StandsIn content p ∧ p.kind.IsToken := by
  obtain ⟨hmem, hkeeps⟩ := List.mem_filter.mp hp
  rw [keeps, Bool.and_eq_true, Bool.not_eq_true'] at hkeeps
  have hkind := isToken_of_not_trivia hkeeps.1
  exact ⟨standsIn_of_mem_pieces hmem hkind.1, hkind⟩

/-- What is left of a source does not begin with a byte order mark, unless a token does. -/
theorem not_byteOrderMark_of_laid {out : Bytes} (h : Laid isBlankByte source removed i ps out)
    (hstands : ∀ p ∈ ps, StandsIn source p ∧ p.kind.IsToken) (hapart : Apart removed ps)
    (hmark : ∀ p ∈ ps, ¬ byteOrderMark <+: p.text) : ¬ byteOrderMark <+: out := by
  have hblank : ∀ {gap rest : Bytes}, gap ≠ [] → (∀ b ∈ gap, isBlankByte b = true) →
      ¬ byteOrderMark <+: gap ++ rest := by
    intro gap rest hne hgap
    obtain ⟨b, gap, rfl⟩ := List.exists_cons_of_ne_nil hne
    have hled : BlankLed (b :: gap ++ rest) := by
      rintro c hc
      cases hc
      exact hgap b List.mem_cons_self
    exact hled.not_prefix (by decide)
  cases h with
  | nil hgap _ =>
    by_cases hne : out = []
    · rw [hne, List.prefix_nil]
      decide
    · rw [← List.append_nil out]
      exact hblank hne hgap
  | @cons i gap p ps out hgap _ _ h =>
    by_cases hne : gap = []
    · intro hprefix
      rw [hne, List.nil_append] at hprefix
      have hfits := (h.fits hstands hapart rfl).1
      refine hmark p List.mem_cons_self (prefix_of_word ?_ ?_ hfits hprefix) <;> decide +kernel
    · exact hblank hne hgap

/-- A byte order mark is a blank, and stays. -/
theorem not_removed_of_byteOrderMark {ps : List Piece}
    (h : pieces content = ⟨.blank, 0, byteOrderMark⟩ :: ps) {j : Nat}
    (hj : j < byteOrderMark.length) : ¬ Removed noise content j := by
  rintro ⟨s, hs, hstart, -⟩
  obtain ⟨first, last, hbounds⟩ := exists_bounds hs
  have hpairwise := pairwise_pieces content
  have hfirst := hbounds.first_mem
  rw [h] at hpairwise hfirst
  rcases List.mem_cons.mp hfirst with rfl | hfirst
  · exact hbounds.first_kind rfl
  · have hbehind : byteOrderMark.length ≤ first.start :=
      (List.pairwise_cons.mp hpairwise).1 first hfirst
    rw [hbounds.start] at hstart
    exact absurd hstart (Nat.not_le_of_lt (hj.trans_le hbehind))

/-- What is left of a source: the tokens that are to be kept, and blanks between them. A byte order
mark stays in front of them. -/
theorem exists_laid_clean (hmark : ∀ p ∈ keptTokens noise content, mark ∉ p.text) :
    ∃ j out, Laid isBlankByte content (Removed noise content) j (keptTokens noise content) out ∧
      (clean noise content = out ∨ clean noise content = byteOrderMark ++ out) := by
  have hstands : ∀ p ∈ keptTokens noise content, StandsIn content p ∧ p.kind.IsToken :=
    fun p hp => standsIn_of_mem_keptTokens hp
  have hkept : ∀ p ∈ pieces content, keeps noise content p = true →
      ∀ j, p.start ≤ j → j < p.stop → ¬ Removed noise content j := fun p hp hkeeps j hj hj' =>
    not_covers_of_keeps hp hkeeps hj hj'
  have hother : ∀ p ∈ pieces content, keeps noise content p = false →
      p.kind = .blank ∨ ∀ j, p.start ≤ j → j < p.stop → Removed noise content j := fun p hp =>
    covers_of_not_keeps hp
  have hmarked := marked_removals noise content
  rw [clean_eq]
  generalize markSpans 0 content ((removals noise content).mergeSort spanLe) = m at hmarked ⊢
  -- A byte order mark is the first piece if there is one. It is not removed, so it stays in front.
  rcases pieces_cases content with ⟨-, hpieces⟩ | ⟨s, hcontent, hpieces⟩
  · rw [hpieces] at hkept hother
    have hlaid := laid_of_marked (cutInto_piecesFrom 0 content) rfl hmarked hkept hother
    rw [← hpieces] at hlaid
    obtain ⟨j, hlaid⟩ := laid_tail_below hlaid hstands hmark
    exact ⟨j, _, hlaid, .inl rfl⟩
  · have horder : ∀ j, 0 ≤ j → j < 0 + byteOrderMark.length → ¬ Removed noise content j :=
      fun j _ hj => not_removed_of_byteOrderMark hpieces (by omega)
    have hfilter : keptTokens noise content =
        (piecesFrom byteOrderMark.length s).filter (keeps noise content) := by
      rw [keptTokens, hpieces, List.filter_cons_of_neg (by simp [keeps, Piece.isTrivia])]
    have hdrop : content.drop byteOrderMark.length = s := by rw [hcontent, List.drop_left]
    have hmem : ∀ p ∈ piecesFrom byteOrderMark.length s, p ∈ pieces content := fun p hp => by
      rw [hpieces]
      exact List.mem_cons_of_mem _ hp
    rw [hcontent] at hmarked
    obtain ⟨m', rfl, hmarked'⟩ := Marked.exists_kept (hcontent ▸ horder) hmarked
    rw [Nat.zero_add, ← hcontent] at hmarked'
    have hlaid := laid_of_marked (cutInto_piecesFrom _ s) hdrop hmarked'
      (fun p hp => hkept p (hmem p hp)) fun p hp => hother p (hmem p hp)
    rw [← hfilter] at hlaid
    refine ⟨_, _, laid_onward hlaid hstands hmark, .inr ?_⟩
    rw [below_append (t := byteOrderMark) (by decide) List.not_mem_nil (.inr ⟨0xBF, rfl, rfl⟩)]
    rfl

/-- The tokens of a cleaned source are those of the source, without the comments and without the
noise annotations in front of methods and constructors: no other token is lost, changed, split or
glued to its neighbour. -/
theorem tokens_of_clean (h : Separable noise content) :
    written (pieces (clean noise content)) =
      (keptTokens noise content).map fun p => (p.kind, p.text) := by
  have hstands : ∀ p ∈ keptTokens noise content, StandsIn content p ∧ p.kind.IsToken :=
    fun p hp => standsIn_of_mem_keptTokens hp
  obtain ⟨j, out, hlaid, hclean⟩ := exists_laid_clean h.unmarked
  have hnone := not_byteOrderMark_of_laid hlaid hstands h.apart h.noOrderMark
  rcases pieces_cases (clean noise content) with ⟨hplain, hpieces⟩ | ⟨s, hs, hpieces⟩
  · rcases hclean with hclean | hclean
    · rw [hpieces, hclean]
      exact hlaid.written_eq hstands h.apart 0
    · exact absurd (hclean ▸ List.prefix_append byteOrderMark out) hplain
  · rcases hclean with hclean | hclean
    · exact absurd ⟨s, hs.symm.trans hclean⟩ hnone
    · obtain rfl : s = out := List.append_cancel_left (hs.symm.trans hclean)
      rw [hpieces]
      exact hlaid.written_eq hstands h.apart byteOrderMark.length

/-- A method under a noise annotation, with comments in its lines and between its tokens. -/
def commentedMethod : Bytes := Text.encode
  "class Dog \x7b\n  @Override // from\n  /* a\n b */ void bark(/* to */ int n/**/) /**/\n \x7b \x7d\n\x7d"

/-- The method keeps its tokens. -/
theorem tokens_of_clean_commentedMethod :
    Separable noiseAnnotations commentedMethod ∧
      (written (pieces (clean noiseAnnotations commentedMethod))).map (·.2) =
        ["class", "Dog", "\x7b", "void", "bark", "(", "int", "n", ")", "\x7b", "\x7d", "\x7d"].map
          Text.encode := by
  have hseparable : Separable noiseAnnotations commentedMethod :=
    ⟨by decide +kernel, by decide +kernel, by decide +kernel⟩
  refine ⟨hseparable, ?_⟩
  rw [tokens_of_clean hseparable]
  decide +kernel

/-- A field with nothing but a comment between its type and its name. -/
def commentedField : Bytes := Text.encode "class C \x7b int/**/x; \x7d"

/-- A comment between two words may be all that keeps them apart. -/
theorem clean_glues_words :
    (written (pieces (clean noiseAnnotations commentedField)) ≠
        (keptTokens noiseAnnotations commentedField).map fun p => (p.kind, p.text)) ∧
      (keptTokens noiseAnnotations commentedField).map (·.text) =
        ["class", "C", "\x7b", "int", "x", ";", "\x7d"].map Text.encode ∧
      clean noiseAnnotations commentedField = Text.encode "class C \x7b intx; \x7d" := by
  decide +kernel

end Apidoc.Sample.Clean
