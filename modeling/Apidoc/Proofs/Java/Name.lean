import Apidoc.Proofs.Java.Reading
import Apidoc.Proofs.Text.Utf8
import Mathlib.Data.List.Lemmas

/-!
# `Apidoc.Proofs.Java.Name`: what names begin with

The page of a type is called after the type, so a name that begins with a slash or with dots
would lead out of the directory of pages. No name does. A word begins with a byte of a word,
or with `@` (`lead_of_measure`). Such a byte begins a character that is neither a slash nor a
dot, whether or not the source is UTF-8 (`beginsName_decode`). The names of packages and of
types at the top of a unit begin with a word (`namesBegin_items`).

A name may hold a slash further on, inside a comment between its segments. It is then the
name of no file in the directory, and its page cannot be written.
-/

set_option autoImplicit false

namespace Apidoc

/-- The text is not empty, and begins neither with a slash nor with a dot. -/
def BeginsName (cs : List Char) : Prop := ∃ c rest, cs = c :: rest ∧ c ≠ '/' ∧ c ≠ '.'

/-- A text begins as its front does. -/
theorem BeginsName.append {cs : List Char} (h : BeginsName cs) (more : List Char) :
    BeginsName (cs ++ more) := by
  obtain ⟨c, rest, rfl, hc⟩ := h
  exact ⟨c, rest ++ more, rfl, hc⟩

/-! ### The first character of a byte sequence -/

/-- A text begins as a name if its first byte is neither a slash nor a dot. -/
theorem beginsName_decode {b : UInt8} (hslash : b.toNat ≠ 47) (hdot : b.toNat ≠ 46)
    (bytes : Text.Bytes) : BeginsName (Text.decode (b :: bytes)) := by
  obtain ⟨item, rest, hitems, hitem⟩ := Text.Utf8.head_items (by decide) hslash bytes
  obtain ⟨item', rest', hitems', hitem'⟩ := Text.Utf8.head_items (by decide) hdot bytes
  rw [hitems] at hitems'
  cases hitems'
  refine ⟨item.getD '\uFFFD', rest.map fun item => item.getD '\uFFFD', ?_, ?_⟩
  · rw [Text.decode, hitems, List.map_cons]
  · cases item with
    | none => exact ⟨by decide, by decide⟩
    | some c =>
      refine ⟨?_, ?_⟩
      · rintro rfl
        exact hitem _ rfl rfl
      · rintro rfl
        exact hitem' _ rfl rfl

namespace Java

open Apidoc.Text (Bytes)

/-! ### Words -/

namespace Lexer

/-- A word begins neither with a slash nor with a dot. -/
theorem lead_of_measure {b : UInt8} {rest : Bytes} {n : Nat} (h : measure b rest = (.word, n)) :
    b.toNat ≠ 47 ∧ b.toNat ≠ 46 := by
  have hword : isWordByte b = true ∨ b = byte '@' := by
    unfold measure at h
    split at h
    · cases h
    split at h
    · cases h
    split at h
    · cases h
    split at h
    · cases h
    split at h
    · cases h
    split at h
    · exact Or.inl ‹_›
    split at h
    · rename_i hat
      simp only [Bool.and_eq_true, decide_eq_true_eq] at hat
      exact Or.inr hat.1
    split at h
    · split at h <;> cases h
    split at h
    · cases h
    · split at h <;> cases h
  -- Neither byte is a byte of a word.
  refine ⟨fun hb => ?_, fun hb => ?_⟩
  · have hb : b = 47 := UInt8.toNat_inj.mp hb
    subst hb
    revert hword
    decide
  · have hb : b = 46 := UInt8.toNat_inj.mp hb
    subst hb
    revert hword
    decide

/-- A piece that is a word has a first byte that is neither a slash nor a dot. -/
def BeginsWord (p : Piece) : Prop :=
  p.kind = .word → ∃ b rest, p.text = b :: rest ∧ b.toNat ≠ 47 ∧ b.toNat ≠ 46

/-- All words of a source begin as words do. -/
theorem beginsWord_piecesFrom (start : Nat) (s : Bytes) :
    ∀ p ∈ piecesFrom start s, BeginsWord p := by
  induction start, s using piecesFrom.induct with
  | case1 start =>
    intro p hp
    rw [piecesFrom] at hp
    cases hp
  | case2 start b rest kind n hmeasure piece ih =>
    intro p hp
    rw [piecesFrom, hmeasure] at hp
    rcases List.mem_cons.mp hp with rfl | hp
    · rintro rfl
      exact ⟨b, rest.take n, rfl, lead_of_measure hmeasure⟩
    · exact ih p hp

/-- All words of a source begin as words do. The byte order mark is no word. -/
theorem beginsWord_pieces (source : Bytes) : ∀ p ∈ pieces source, BeginsWord p := by
  intro p hp
  unfold pieces at hp
  split at hp
  · rcases List.mem_cons.mp hp with rfl | hp
    · exact nofun
    · exact beginsWord_piecesFrom _ _ p hp
  · exact beginsWord_piecesFrom _ _ p hp

end Lexer

/-- A token is one of the pieces. -/
theorem Token.piece_mem_of_mem_ofPieces {t : Token} (ps : List Piece) {before : List Piece}
    (h : t ∈ ofPieces before ps) : t.piece ∈ ps := by
  induction ps generalizing before with
  | nil => cases h
  | cons p rest ih =>
    rw [ofPieces] at h
    split at h
    · exact List.mem_cons_of_mem _ (ih h)
    · rcases List.mem_cons.mp h with rfl | h
      · exact List.mem_cons_self
      · exact List.mem_cons_of_mem _ (ih h)

namespace Tree

/-- A token that was given up with the brackets around it was there before. -/
theorem token_mem_of_mem_abandon {t : Token} (opened : List Open) {done : List Tree}
    (h : .token t ∈ abandon opened done) :
    .token t ∈ done ∨ ∃ o ∈ opened, t = o.opening ∨ .token t ∈ o.before := by
  induction opened generalizing done with
  | nil => exact Or.inl h
  | cons o outer ih =>
    rcases ih h with hinner | ⟨other, hother, hmem⟩
    · rcases List.mem_append.mp hinner with hdone | hopen
      · exact Or.inl hdone
      · refine Or.inr ⟨o, List.mem_cons_self, ?_⟩
        rcases List.mem_cons.mp hopen with hsame | hbefore
        · cases hsame
          exact Or.inl rfl
        · exact Or.inr hbefore
    · exact Or.inr ⟨other, List.mem_cons_of_mem _ hother, hmem⟩

/-- Grouping makes no tokens: one that stands alone was given, or was there before. -/
theorem token_mem_of_mem_nest {t : Token} (tokens : List Token) {opened : List Open}
    {done : List Tree} (h : .token t ∈ nest opened done tokens) :
    t ∈ tokens ∨ .token t ∈ done ∨ ∃ o ∈ opened, t = o.opening ∨ .token t ∈ o.before := by
  induction tokens generalizing opened done with
  | nil =>
    rw [nest, List.mem_reverse] at h
    exact Or.inr (token_mem_of_mem_abandon opened h)
  | cons u rest ih =>
    have hfirst : t = u → t ∈ u :: rest := fun heq => heq ▸ List.mem_cons_self
    unfold nest at h
    split at h
    -- An opening bracket waits, with the trees before it.
    · rcases ih h with hrest | hdone | ⟨o, ho, hmem⟩
      · exact Or.inl (List.mem_cons_of_mem _ hrest)
      · cases hdone
      · rcases List.mem_cons.mp ho with rfl | ho
        · rcases hmem with hopening | hbefore
          · exact Or.inl (hfirst hopening)
          · exact Or.inr (Or.inl hbefore)
        · exact Or.inr (Or.inr ⟨o, ho, hmem⟩)
    split at h
    -- A closing bracket ends the group of the innermost one that waits, if there is one.
    · split at h
      · rcases ih h with hrest | hdone | ⟨o, ho, -⟩
        · exact Or.inl (List.mem_cons_of_mem _ hrest)
        · rcases List.mem_cons.mp hdone with hsame | hdone
          · cases hsame
            exact Or.inl List.mem_cons_self
          · exact Or.inr (Or.inl hdone)
        · cases ho
      · rename_i o outer
        rcases ih h with hrest | hdone | ⟨other, hother, hmem⟩
        · exact Or.inl (List.mem_cons_of_mem _ hrest)
        · rcases List.mem_cons.mp hdone with hgroup | hbefore
          · cases hgroup
          · exact Or.inr (Or.inr ⟨o, List.mem_cons_self, Or.inr hbefore⟩)
        · exact Or.inr (Or.inr ⟨other, List.mem_cons_of_mem _ hother, hmem⟩)
    -- Any other token stands alone.
    · rcases ih h with hrest | hdone | hopen
      · exact Or.inl (List.mem_cons_of_mem _ hrest)
      · rcases List.mem_cons.mp hdone with hsame | hdone
        · cases hsame
          exact Or.inl List.mem_cons_self
        · exact Or.inr (Or.inl hdone)
      · exact Or.inr (Or.inr hopen)

/-- A run that begins with one of these trees begins as a name, if that tree is a word. -/
def WordsBegin (ts : List Tree) : Prop :=
  ∀ t ∈ ts, t.isWord = true → ∀ more, BeginsName (text (t :: more)).toList

/-- The words of a source begin as names do. -/
theorem wordsBegin_ofSource (source : Bytes) : WordsBegin (ofSource source) := by
  intro t ht hword more
  cases t with
  | group opening items closing => cases hword
  | token t =>
    have hmem : t ∈ Token.ofPieces [] (Lexer.pieces source) := by
      rcases token_mem_of_mem_nest _ ht with hmem | hdone | ⟨o, ho, -⟩
      · exact hmem
      · cases hdone
      · cases ho
    have hkind : t.piece.kind = .word := of_decide_eq_true hword
    obtain ⟨b, rest, htext, hslash, hdot⟩ :=
      Lexer.beginsWord_pieces source _ (Token.piece_mem_of_mem_ofPieces _ hmem) hkind
    -- The trivia before the token are left out, so the text begins with its piece.
    have hpieces : (piecesAll (.token t :: more)).drop t.before.length =
        t.piece :: piecesAll more := by
      rw [piecesAll, pieces, List.append_assoc, List.drop_left]
      rfl
    have hrun : text (.token t :: more) = Text.decodeString
        (b :: (rest ++ (piecesAll more).flatMap Piece.text)) := by
      show Text.decodeString (((piecesAll (.token t :: more)).drop t.before.length).flatMap
        Piece.text) = _
      rw [hpieces, List.flatMap_cons, htext, List.cons_append]
    rw [hrun, Text.decodeString, String.toList_ofList]
    exact beginsName_decode hslash hdot _

/-- What holds of the words of a run holds of those of its end. -/
theorem WordsBegin.drop {ts : List Tree} (h : WordsBegin ts) (n : Nat) : WordsBegin (ts.drop n) :=
  fun t ht => h t (List.mem_of_mem_drop ht)

end Tree

/-! ### Names of a unit -/

namespace Reader

open Apidoc.Java.Measure
open Apidoc.Java.Tree (WordsBegin)

/-- The name of a package begins as a name, or is empty. So does that of a type, which is not. -/
def NamesBegin : Item → Prop
  | .package _ name => name = "" ∨ BeginsName name.toList
  | .type head _ => BeginsName head.name.toList
  | .rest .. => False
  | _ => True

/-- The keyword of a type is followed by a word. -/
theorem head_of_typeKind? {ts : List Tree} {kind : TypeKind} (h : typeKind? ts = some kind) :
    ∃ t name more, ts = t :: name :: more ∧ name.isWord = true := by
  unfold typeKind? at h
  split at h
  · cases h
  · rename_i t rest
    split at h
    · cases h
    · rename_i hname
      cases rest with
      | nil => simp at hname
      | cons name more => exact ⟨t, name, more, rfl, by simpa using hname⟩

/-- The name of a type begins as a name. -/
theorem beginsName_of_typeHead? {ts : List Tree} (hts : WordsBegin ts) {start n : Nat}
    {front : List (List Tree)} {head : TypeSyntax} {body : List Tree}
    (h : typeHead? start front ts = some (head, body, n)) : BeginsName head.name.toList := by
  unfold typeHead? at h
  obtain ⟨kind, hkind, h⟩ := Option.bind_eq_some_iff.mp h
  obtain ⟨last, -, h⟩ := Option.bind_eq_some_iff.mp h
  cases h
  obtain ⟨t, name, more, rfl, hname⟩ := head_of_typeKind? hkind
  exact hts name (List.mem_cons_of_mem _ List.mem_cons_self) hname []

/-- A dotted name begins as a name, or is empty. -/
theorem beginsName_dotted {ts : List Tree} (hts : WordsBegin ts) :
    Tree.text (ts.take (dotted ts)) = "" ∨ BeginsName (Tree.text (ts.take (dotted ts))).toList := by
  cases ts with
  | nil => exact Or.inl rfl
  | cons w rest =>
    rw [dotted]
    split
    · rename_i hword
      rw [Nat.add_comm, List.take_succ_cons]
      exact Or.inr (hts w List.mem_cons_self hword _)
    · exact Or.inl rfl

/-- The names of the first item of a unit begin as names do. -/
theorem namesBegin_unitItem {t : Tree} {rest : List Tree} (hts : WordsBegin (t :: rest)) :
    NamesBegin (unitItem t rest).1 := by
  have hstep := unitStep t rest
  generalize unitItem t rest = item at hstep ⊢
  cases hstep with
  | package => exact beginsName_dotted (hts.drop _)
  | type hhead => exact beginsName_of_typeHead? (hts.drop _) hhead
  | imported | module | method | code => trivial

/-- The names of all items of a unit begin as names do. -/
theorem namesBegin_unitItems (fuel : Nat) (ts : List Tree) :
    WordsBegin ts → ∀ item ∈ unitItems fuel ts, NamesBegin item := by
  have hcomments (t : Tree) : ∀ item ∈ commentItems t, NamesBegin item := by
    intro item hitem
    obtain ⟨p, -, rfl⟩ := List.mem_map.mp hitem
    trivial
  refine unitItems_induction
    (P := fun ts items => WordsBegin ts → ∀ item ∈ items, NamesBegin item) ?_ ?_ ?_ fuel ts
  · exact fun _ _ => List.forall_mem_nil _
  · intro t rest items ih hts
    exact List.forall_mem_append.mpr ⟨hcomments t, ih (hts.drop 1)⟩
  · intro t rest items ih hts
    exact List.forall_mem_append.mpr ⟨hcomments t,
      List.forall_mem_cons.mpr ⟨namesBegin_unitItem hts, ih ((hts.drop 1).drop _)⟩⟩

/-- The names of packages and of types at the top of a source begin as names do. -/
theorem namesBegin_items (source : Bytes) : ∀ item ∈ items source, NamesBegin item :=
  namesBegin_unitItems _ _ (Tree.wordsBegin_ofSource source)

end Reader

end Java

end Apidoc
