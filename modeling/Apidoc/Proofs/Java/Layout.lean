import Apidoc.Proofs.Java.Lookahead

/-!
# `Apidoc.Proofs.Java.Layout`: tokens with other gaps between them

A source from which some bytes between its tokens are taken out, and whose blanks are set anew, has
the same tokens in the same order (`Laid.written_eq`), as long as no two tokens that come to stand
side by side join. Two tokens join if the first one is read differently directly before the second
one, or if they may be the inner parts of `non-sealed` or of an ellipsis.
-/

set_option autoImplicit false

namespace Apidoc.Java.Lexer

open Apidoc.Text (Bytes)

variable {b : UInt8} {s rest rest' text more : Bytes} {kind : PieceKind}

/-! ### Tokens side by side -/

/-- A word at the front is within the piece there. -/
theorem prefix_of_word {w : Bytes} (hw : ∀ c ∈ w, isWordByte c = true)
    (hfirst : ∀ c ∈ w.head?, isDigitByte c = false ∧ c ≠ byte 'n') (h : Fits kind text rest)
    (hbegins : w <+: text ++ rest) : w <+: text := by
  rcases Nat.lt_or_ge text.length w.length with hlonger | hle
  · exfalso
    obtain ⟨b, more, rfl⟩ := h.exists_cons
    obtain ⟨w, rfl⟩ :=
      List.prefix_of_prefix_length_le (List.prefix_append _ rest) hbegins hlonger.le
    obtain ⟨hdigit, hn⟩ := hfirst b rfl
    obtain ⟨hword, hrest⟩ := List.forall_mem_append.mp hw
    rw [fits_cons, measure_word (hword b List.mem_cons_self) hdigit, if_neg] at h
    · obtain ⟨d, w, rfl⟩ : ∃ d tail, w = d :: tail :=
        List.exists_cons_of_ne_nil (by rintro rfl; simp at hlonger)
      have hend := (takeWhile_of_length (Prod.mk.inj h).2).2
      obtain ⟨tail, htail⟩ := (List.prefix_append_right_inj (b :: more)).mp hbegins
      have hd := hend d (by rw [← htail]; rfl)
      rw [hrest d List.mem_cons_self] at hd
      cases hd
    · intro hnon
      rw [Bool.and_eq_true, decide_eq_true_eq] at hnon
      exact hn (List.cons.inj hnon.1).1
  · exact prefix_left hbegins hle

/-- The letters behind the hyphen of `non-sealed` are within one piece. -/
theorem prefix_of_sealed (h : Fits kind text rest)
    (hbegins : Text.encode "sealed" <+: text ++ rest) : Text.encode "sealed" <+: text :=
  prefix_of_word (by decide +kernel) (by decide +kernel) h hbegins

/-- The letters behind the sign of `@interface` are within one piece. -/
theorem prefix_of_interface (h : Fits kind text rest)
    (hbegins : Text.encode "interface" <+: text ++ rest) : Text.encode "interface" <+: text :=
  prefix_of_word (by decide +kernel) (by decide +kernel) h hbegins

/-- Pairs of tokens that stand side by side inside a longer token. -/
def innerPairs : List (String × String) := [("non", "-"), ("-", "sealed"), (".", ".")]

/-- Directly before `q` the token `p` is not read as it is, or the two may be parts of one token
that is longer still. -/
def Joins (p q : Piece) : Prop :=
  ¬ Fits p.kind p.text q.text ∨
    ∃ pair ∈ innerPairs, p.text = Text.encode pair.1 ∧ Text.encode pair.2 <+: q.text

instance (p q : Piece) : Decidable (Joins p q) := inferInstanceAs (Decidable (_ ∨ _))

/-- What a token does not go on with by itself, but as a part of a longer one. -/
def Inert (text rest rest' : Bytes) : Prop :=
  (text = Text.encode "-" → Text.encode "sealed" <+: rest' → Text.encode "sealed" <+: rest) ∧
    (text = Text.encode "." → Text.encode "." <+: rest' → Text.encode "." <+: rest)

variable {next : Bytes} {nextKind : PieceKind}

/-- The bytes behind the next token lure a token only if the two are parts of a longer one. -/
theorem unlured_append (h : Fits nextKind next rest')
    (hsealed : text = Text.encode "non" → next = Text.encode "-" →
      Text.encode "sealed" <+: rest' → Text.encode "sealed" <+: rest)
    (hdots : text = Text.encode "." → next = Text.encode "." →
      Text.encode "." <+: rest' → Text.encode "." <+: rest) :
    Unlured text (next ++ rest) (next ++ rest') := by
  intro lure hlure htext hbegins
  obtain ⟨b, more, rfl⟩ := h.exists_cons
  simp only [lures, List.mem_cons, List.not_mem_nil, or_false] at hlure
  rcases hlure with rfl | rfl | rfl
  · obtain ⟨rfl, htail⟩ := List.cons_prefix_cons.mp hbegins
    cases more with
    | nil => exact List.cons_prefix_cons.mpr ⟨rfl, hsealed htext rfl htail⟩
    | cons c more =>
      -- A minus and a letter are two tokens.
      obtain ⟨rfl, -⟩ := List.cons_prefix_cons.mp htail
      cases (Prod.mk.inj (h : (PieceKind.symbol, 0) = (nextKind, more.length + 1))).2
  · exact (prefix_of_interface h hbegins).trans (List.prefix_append _ rest)
  · cases more with
    | nil =>
      obtain ⟨rfl, htail⟩ := List.cons_prefix_cons.mp hbegins
      exact List.cons_prefix_cons.mpr ⟨rfl, hdots htext rfl htail⟩
    | cons c more =>
      exact (prefix_left hbegins (Nat.le_add_left 2 _)).trans (List.prefix_append _ rest)

/-- A part of a longer token is at most as long as the next token. -/
theorem inert_append (h : Fits nextKind next rest') : Inert text next (next ++ rest') := by
  refine ⟨fun _ hbegins => prefix_of_sealed h hbegins, fun _ hbegins => ?_⟩
  exact prefix_left hbegins (List.length_pos_iff.mpr h.ne_nil)

/-- What is left of a source behind an offset: some of its pieces, and fillers between them. Where
no blank is left between two of them, everything between them was removed. -/
inductive Laid (filler : UInt8 → Bool) (source : Bytes) (removed : Nat → Prop) :
    Nat → List Piece → Bytes → Prop
  | nil {i : Nat} {gap : Bytes} (hgap : ∀ b ∈ gap, filler b = true)
      (hend : source.drop i = [] → gap = []) : Laid filler source removed i [] gap
  | cons {i : Nat} {gap : Bytes} {p : Piece} {ps : List Piece} {out : Bytes}
      (hgap : ∀ b ∈ gap, filler b = true) (hle : i ≤ p.start)
      (hnear : (∀ b ∈ gap, isBlankByte b = false) → ∀ j, i ≤ j → j < p.start → removed j)
      (h : Laid filler source removed p.stop ps out) :
      Laid filler source removed i (p :: ps) (gap ++ (p.text ++ out))

/-- No two of the pieces join if all that stands between them is removed. -/
def Apart (removed : Nat → Prop) (ps : List Piece) : Prop :=
  ∀ p ∈ ps, ∀ q ∈ ps, p.stop < q.start → (∀ j, p.stop ≤ j → j < q.start → removed j) → ¬ Joins p q

instance (removed : Nat → Prop) [DecidablePred removed] (ps : List Piece) :
    Decidable (Apart removed ps) := inferInstanceAs (Decidable (∀ p ∈ ps, ∀ q ∈ ps, _))

/-- The pieces of a text that are no blanks: their kinds and texts. -/
def written (ps : List Piece) : List (PieceKind × Bytes) :=
  (ps.filter fun p => p.kind ≠ .blank).map fun p => (p.kind, p.text)

/-- The bytes begin with a blank, if there are any. -/
def BlankLed (s : Bytes) : Prop := ∀ b ∈ s.head?, isBlankByte b = true

theorem BlankLed.not_prefix (h : BlankLed s) (hb : isBlankByte b = false) : ¬ b :: more <+: s := by
  rintro ⟨tail, rfl⟩
  have hblank := h b rfl
  rw [hb] at hblank
  cases hblank

/-- Blanks change no token. -/
theorem Fits.of_blankLed (h : Fits kind text rest) (hkind : kind.IsToken) (hblank : BlankLed rest')
    (hends : rest = [] → rest' = []) : Fits kind text rest' ∧ Inert text rest rest' := by
  refine ⟨h.of_follows hkind ⟨hends, fun b hb hnot => ?_⟩ fun lure hlure _ hbegins => ?_, ?_, ?_⟩
  · rw [hblank b hb] at hnot
    cases hnot
  · simp only [lures, List.mem_cons, List.not_mem_nil, or_false] at hlure
    rcases hlure with rfl | rfl | rfl <;> exact absurd hbegins (hblank.not_prefix (by decide))
  · exact fun _ hbegins => absurd hbegins (hblank.not_prefix (by decide))
  · exact fun _ hbegins => absurd hbegins (hblank.not_prefix (by decide))

/-- A token stays as it is directly before a token that followed it already. -/
theorem Fits.of_next (h : Fits kind text (next ++ rest)) (hkind : kind.IsToken)
    (hnext : Fits nextKind next rest') (hinert : Inert next rest rest') :
    Fits kind text (next ++ rest') ∧ Inert text (next ++ rest) (next ++ rest') := by
  obtain ⟨b, more, rfl⟩ := hnext.exists_cons
  refine ⟨h.of_follows hkind ⟨nofun, fun c hc _ => hc⟩ (unlured_append hnext ?_ ?_), ?_⟩
  · exact fun _ hminus => hinert.1 hminus
  · exact fun _ hdot => hinert.2 hdot
  · have htrans : Inert text (b :: more) (b :: more ++ rest') := inert_append hnext
    exact ⟨fun htext hbegins => (htrans.1 htext hbegins).trans (List.prefix_append _ rest),
      fun htext hbegins => (htrans.2 htext hbegins).trans (List.prefix_append _ rest)⟩

/-- A token stays as it is directly before a token that it does not join. -/
theorem fits_of_not_joins {p q : Piece} (h : ¬ Joins p q) (hp : p.kind.IsToken)
    (hq : Fits q.kind q.text rest') :
    Fits p.kind p.text (q.text ++ rest') ∧ ∀ rest, Inert p.text rest (q.text ++ rest') := by
  rw [Joins, not_or, not_not] at h
  obtain ⟨hfits, hpairs⟩ := h
  have hpair : ∀ pair ∈ innerPairs, p.text = Text.encode pair.1 →
      ¬ Text.encode pair.2 <+: q.text := fun pair hpair htext hbegins =>
    hpairs ⟨pair, hpair, htext, hbegins⟩
  have hinert : Inert p.text q.text (q.text ++ rest') := inert_append hq
  constructor
  · rw [← List.append_nil q.text] at hfits
    obtain ⟨b, more, hcons⟩ := hq.exists_cons
    refine hfits.of_follows hp ⟨?_, ?_⟩ (unlured_append hq ?_ ?_)
    · simp [hcons]
    · simp [hcons]
    · exact fun htext hnext =>
        absurd (hnext ▸ List.prefix_refl q.text) (hpair ("non", "-") (by decide) htext)
    · exact fun htext hnext =>
        absurd (hnext ▸ List.prefix_refl q.text) (hpair (".", ".") (by decide) htext)
  · intro rest
    constructor
    · intro htext hbegins
      exact absurd (hinert.1 htext hbegins) (hpair ("-", "sealed") (by decide) htext)
    · intro htext hbegins
      exact absurd (hinert.2 htext hbegins) (hpair (".", ".") (by decide) htext)

variable {source : Bytes} {removed : Nat → Prop} {i : Nat} {ps : List Piece} {out : Bytes}

/-- A token before what is left of the source behind it. -/
theorem Laid.fits (h : Laid isBlankByte source removed i ps out) {t : Piece}
    (hstands : ∀ p ∈ t :: ps, StandsIn source p ∧ p.kind.IsToken)
    (hapart : Apart removed (t :: ps)) (ht : t.stop = i) :
    Fits t.kind t.text out ∧ Inert t.text (source.drop i) out := by
  -- From the last token to the first. That a token is inert is carried along because the token
  -- before it looks beyond it where the two may be parts of a longer one.
  induction h generalizing t with
  | @nil i gap hgap hend =>
    obtain ⟨⟨-, hfits⟩, hkind⟩ := hstands t List.mem_cons_self
    rw [ht] at hfits
    exact hfits.of_blankLed hkind (fun b hb => hgap b (List.mem_of_head? hb)) hend
  | @cons i gap p ps out hgap hle hnear h ih =>
    obtain ⟨⟨-, hfits⟩, hkind⟩ := hstands t List.mem_cons_self
    have hps : ∀ q ∈ p :: ps, StandsIn source q ∧ q.kind.IsToken := fun q hq =>
      hstands q (List.mem_cons_of_mem t hq)
    obtain ⟨hdrop, hpfits⟩ := (hps p List.mem_cons_self).1
    obtain ⟨hnew, hinert⟩ := ih hps (fun a ha b hb =>
      hapart a (List.mem_cons_of_mem t ha) b (List.mem_cons_of_mem t hb)) rfl
    rw [ht] at hfits
    by_cases hempty : gap = []
    · subst hempty
      rw [List.nil_append]
      rcases hle.eq_or_lt with heq | hlt
      · -- The two tokens were neighbours before.
        rw [heq, hdrop] at hfits ⊢
        exact hfits.of_next hkind hnew hinert
      · have hjoins := hapart t List.mem_cons_self p (by simp) (ht ▸ hlt) (ht ▸ hnear nofun)
        have hside := fits_of_not_joins hjoins hkind hnew
        exact ⟨hside.1, hside.2 _⟩
    · obtain ⟨b, gap, rfl⟩ := List.exists_cons_of_ne_nil hempty
      refine hfits.of_blankLed hkind (fun c hc => ?_) fun hend => ?_
      · obtain rfl : b = c := Option.some.inj hc
        exact hgap b List.mem_cons_self
      · -- The source goes on with the next token.
        have hnil : source.drop p.start = [] :=
          List.drop_eq_nil_of_le ((List.drop_eq_nil_iff.mp hend).trans hle)
        rw [hdrop] at hnil
        exact absurd (List.append_eq_nil_iff.mp hnil).1 hpfits.ne_nil

/-- Blanks up to the next token are one piece. -/
theorem fits_gap {gap : Bytes} (hgap : ∀ b ∈ gap, isBlankByte b = true) (hne : gap ≠ [])
    (hrest : ∀ b ∈ rest.head?, isBlankByte b = false) : Fits .blank gap rest := by
  obtain ⟨b, gap, rfl⟩ := List.exists_cons_of_ne_nil hne
  obtain ⟨hb, hgap⟩ := List.forall_mem_cons.mp hgap
  have hnil : rest.takeWhile isBlankByte = [] := by
    cases rest with
    | nil => rfl
    | cons c rest => exact List.takeWhile_cons_of_neg (by simp [hrest c rfl])
  rw [fits_cons, measure, if_pos hb, List.takeWhile_append_of_pos hgap, hnil, List.append_nil]

/-- A gap does not count. -/
theorem written_gap {gap : Bytes} (hgap : ∀ b ∈ gap, isBlankByte b = true)
    (hrest : ∀ b ∈ rest.head?, isBlankByte b = false) (start : Nat) :
    ∃ start', written (piecesFrom start (gap ++ rest)) = written (piecesFrom start' rest) := by
  by_cases hne : gap = []
  · exact ⟨start, by rw [hne, List.nil_append]⟩
  · exact ⟨start + gap.length, by rw [piecesFrom_append start (fits_gap hgap hne hrest)]; rfl⟩

/-- The tokens of what is left of a source are the pieces that are left. -/
theorem Laid.written_eq (h : Laid isBlankByte source removed i ps out)
    (hstands : ∀ p ∈ ps, StandsIn source p ∧ p.kind.IsToken) (hapart : Apart removed ps)
    (start : Nat) : written (piecesFrom start out) = ps.map fun p => (p.kind, p.text) := by
  -- Each token is the first piece of what is left from it on, and the gap before it one blank.
  induction h generalizing start with
  | @nil i gap hgap hend =>
    have hnone : ∀ b ∈ ([] : Bytes).head?, isBlankByte b = false := nofun
    obtain ⟨start', heq⟩ := written_gap hgap hnone start
    rw [List.append_nil] at heq
    rw [heq, piecesFrom]
    rfl
  | @cons i gap p ps out hgap hle hnear h ih =>
    have hfits := (h.fits hstands hapart rfl).1
    have hkind := (hstands p List.mem_cons_self).2
    have hhead : ∀ b ∈ (p.text ++ out).head?, isBlankByte b = false := by
      obtain ⟨c, more, htext⟩ := hfits.exists_cons
      rw [htext] at hfits ⊢
      rintro b hb
      cases hb
      exact Bool.not_eq_true _ ▸ fun hblank => hkind.1 (hfits.blank_iff.mpr hblank)
    obtain ⟨start', heq⟩ := written_gap hgap hhead start
    have hrest := ih (fun q hq => hstands q (List.mem_cons_of_mem p hq))
      (fun a ha b hb => hapart a (List.mem_cons_of_mem p ha) b (List.mem_cons_of_mem p hb))
      (start' + p.text.length)
    rw [heq, piecesFrom_append start' hfits, List.map_cons, ← hrest]
    simp [written, hkind.1]

end Apidoc.Java.Lexer
