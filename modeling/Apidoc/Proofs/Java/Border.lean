import Apidoc.Proofs.Java.Head
import Apidoc.Proofs.Text.Utf8

/-!
# `Apidoc.Proofs.Java.Border`: where two pieces of a source meet

A source is cut into pieces by its bytes, and read as a text as a whole. The two go together,
because no character has bytes in two pieces. A byte above ASCII is a byte of a word, and words do
not border on one another (`Fits.border`). The byte order mark is the one piece of other bytes, and
it is a character of its own. So a source can be read in parts that are cut at its tokens
(`decode_take_append_drop`).

A type at the top of a unit ends with the bracket that closes its body
(`Reader.endsWithGroup_of_mem_items`, `Tree.final_of_isGroup`), so it does not end with a blank even
where the source ends.
-/

set_option autoImplicit false

namespace Apidoc.Java

open Apidoc.Text (AsciiBorder Bytes decode)

namespace Lexer

variable {b : UInt8} {s text rest more : Bytes} {kind : PieceKind}

/-! ### The last byte of a piece and the first one behind it -/

/-- The bytes of words include all those above ASCII. -/
theorem ascii_of_not_word : ∀ b : UInt8, isWordByte b = false → b.toNat < 0x80 :=
  forall_byte (by decide +kernel)

/-- A block comment that stops before the end of the source is closed. -/
theorem blockCommentRest_append (h : blockCommentRest (more ++ rest) = more.length) :
    rest = [] ∨ more.getLast? = some (byte '/') := by
  by_cases hrest : rest = []
  · exact .inl hrest
  right
  induction more with
  | nil =>
    obtain ⟨b, tail, rfl⟩ := List.exists_cons_of_ne_nil hrest
    rw [List.nil_append, blockCommentRest] at h
    split at h
    · cases h
    · rw [List.length_nil] at h
      omega
  | cons b more ih =>
    rw [List.cons_append, blockCommentRest] at h
    split at h
    · rename_i hclose
      simp only [Bool.and_eq_true, decide_eq_true_eq] at hclose
      obtain ⟨c, rfl⟩ : ∃ c, more = [c] := List.length_eq_one_iff.mp (by simpa using h.symm)
      rw [List.singleton_append, List.head?_cons] at hclose
      rw [← Option.some.inj hclose.2]
      rfl
    · rw [List.length_cons] at h
      exact getLast?_cons_of_eq_some (ih (by omega))

/-- A number takes all bytes of words behind it. -/
theorem numberRest_head? {hex : Bool} {last : UInt8}
    (h : numberRest hex last (more ++ rest) = more.length) :
    ∀ c ∈ rest.head?, isWordByte c = false := by
  induction more generalizing last with
  | nil =>
    cases rest with
    | nil => exact nofun
    | cons c tail =>
      rw [List.nil_append, numberRest_cons] at h
      split at h
      · rw [List.length_nil] at h
        omega
      · rename_i hgoes
        rintro _ ⟨⟩
        by_contra hword
        rw [Bool.not_eq_false] at hword
        exact hgoes (by simp [goesOn, hword])
  | cons c more ih =>
    rw [List.cons_append, numberRest_cons, List.length_cons] at h
    split at h
    · have hmore : numberRest hex c (more ++ rest) = more.length := by omega
      exact ih hmore
    · cases h

/-- No operator of several characters has others than those of ASCII. -/
theorem ascii_of_mem_symbol :
    ∀ symbol ∈ longSymbols, ∀ c ∈ Text.encode symbol, c.toNat < 0x80 := by decide +kernel

/-- On one side of the border behind a piece there is an ASCII byte. -/
theorem Fits.border (h : Fits kind text rest) (hrest : rest ≠ []) : AsciiBorder text rest := by
  obtain ⟨next, tail, rfl⟩ := List.exists_cons_of_ne_nil hrest
  have hlast : ∀ {d : UInt8}, text.getLast? = some d → d.toNat < 0x80 →
      AsciiBorder text (next :: tail) := fun hd hascii => .inl ⟨_, hd, hascii⟩
  have hall : (∀ c ∈ text, c.toNat < 0x80) → AsciiBorder text (next :: tail) := fun hall =>
    .inl ⟨_, List.getLast?_eq_some_getLast h.ne_nil, hall _ (List.getLast_mem h.ne_nil)⟩
  have hnext : (∀ c ∈ (next :: tail).head?, isWordByte c = false) →
      AsciiBorder text (next :: tail) := fun hword =>
    .inr ⟨next, rfl, ascii_of_not_word next (hword next rfl)⟩
  obtain ⟨b, more, rfl⟩ := h.exists_cons
  have hmeasure := fits_cons.mp h
  revert hmeasure
  fun_cases measure b (more ++ next :: tail) with
  | case1 =>
    intro hmeasure
    obtain ⟨rfl, -⟩ := Prod.mk.inj hmeasure
    have hblank : ∀ c : UInt8, isBlankByte c = true → c.toNat < 0x80 :=
      forall_byte (by decide +kernel)
    exact hall fun c hc => hblank c (h.all_blank c hc)
  | case2 =>
    -- A line comment stops in front of a line feed.
    intro hmeasure
    have hfeed := (takeWhile_of_length (Prod.mk.inj hmeasure).2).2 next rfl
    have hfeed : next = byte '\n' := by simpa using hfeed
    exact .inr ⟨next, rfl, by rw [hfeed]; decide⟩
  | case3 hblank hline hcomment =>
    intro hmeasure
    have hlength := (Prod.mk.inj hmeasure).2
    cases more with
    | nil =>
      rw [List.length_nil] at hlength
      omega
    | cons star more =>
      change 1 + blockCommentRest (more ++ next :: tail) = more.length + 1 at hlength
      have hstop : blockCommentRest (more ++ next :: tail) = more.length := by omega
      have hslash := (blockCommentRest_append hstop).resolve_left hrest
      have hascii : (byte '/').toNat < 0x80 := by decide
      exact hlast (getLast?_cons_of_eq_some (getLast?_cons_of_eq_some hslash)) hascii
  | case4 | case5 =>
    exact fun hmeasure => hnext (numberRest_head? (Prod.mk.inj hmeasure).2)
  | case6 hblank hline hcomment hdigit hdot hword word after hnon =>
    intro hmeasure
    rw [eq_nonSealed hnon (Prod.mk.inj hmeasure).2.symm] at hall ⊢
    exact hall (by decide +kernel)
  | case7 hblank hline hcomment hdigit hdot hword word after hnon =>
    exact fun hmeasure => hnext (takeWhile_of_length (Prod.mk.inj hmeasure).2).2
  | case8 hblank hline hcomment hdigit hdot hword hat =>
    intro hmeasure
    rw [eq_interface hat (Prod.mk.inj hmeasure).2.symm] at hall ⊢
    exact hall (by decide +kernel)
  | case9 hblank hline hcomment hdigit hdot hword hat hquote hblock =>
    intro hmeasure
    obtain ⟨inner, rfl, hinner⟩ := exists_textBlock hblock (Prod.mk.inj hmeasure).2
    have hclosed := ((textBlockRest_append hinner).resolve_left hrest).1
    have hend : (Text.encode "\"\"" ++ inner).getLast? = some (byte '"') :=
      getLast?_cons_of_eq_some (getLast?_cons_of_eq_some hclosed)
    exact hlast (getLast?_cons_of_eq_some hend) (by decide)
  | case10 hblank hline hcomment hdigit hdot hword hat hquote hblock =>
    intro hmeasure
    have hclosed := ((quotedRest_append (Prod.mk.inj hmeasure).2).resolve_left hrest).1
    exact hlast (getLast?_cons_of_eq_some hclosed) (by rw [hquote]; decide)
  | case11 hblank hline hcomment hdigit hdot hword hat hquote hapostrophe =>
    intro hmeasure
    have hclosed := ((quotedRest_append (Prod.mk.inj hmeasure).2).resolve_left hrest).1
    exact hlast (getLast?_cons_of_eq_some hclosed) (by rw [hapostrophe]; decide)
  | case12 hblank hline hcomment hdigit hdot hword hat hquote hapostrophe symbol hfind =>
    intro hmeasure
    have hsymbol := List.mem_of_find?_eq_some hfind
    rw [← encode_of_find? hfind (Prod.mk.inj hmeasure).2] at hall ⊢
    exact hall (ascii_of_mem_symbol symbol hsymbol)
  | case13 hblank hline hcomment hdigit hdot hword =>
    intro hmeasure
    obtain rfl : more = [] := List.length_eq_zero_iff.mp (Prod.mk.inj hmeasure).2.symm
    rw [Bool.not_eq_true] at hword
    exact hlast rfl (ascii_of_not_word b hword)

/-! ### Reading a source in parts -/

/-- A byte order mark is a character of its own. -/
theorem decode_byteOrderMark (back : Bytes) :
    decode (byteOrderMark ++ back) = decode byteOrderMark ++ decode back := rfl

/-- A piece begins the source, or there is a border in front of it. -/
theorem CutInto.border {start : Nat} {ps : List Piece} {p : Piece} (h : CutInto start s ps)
    (hp : p ∈ ps) :
    p.start = start ∨ AsciiBorder (s.take (p.start - start)) (s.drop (p.start - start)) := by
  induction h with
  | nil => cases hp
  | @cons start kind text rest ps hfits hcut ih =>
    rcases List.mem_cons.mp hp with rfl | hp
    · exact .inl rfl
    right
    have hbounds := hcut.bounds hp
    have hstart : p.start - start = text.length + (p.start - (start + text.length)) := by omega
    rw [hstart, List.drop_append, List.take_length_add_append, List.drop_eq_nil_of_le (by omega),
      List.nil_append, Nat.add_sub_cancel_left]
    rcases ih hp with hfirst | hborder
    · -- The piece is the first one behind the text.
      have hrest : rest ≠ [] := by
        rintro rfl
        rw [List.length_nil] at hbounds
        omega
      rw [hfirst, Nat.sub_self, List.take_zero, List.append_nil, List.drop_zero]
      exact hfits.border hrest
    · exact hborder.prepend text

variable {source : Bytes} {p : Piece}

/-- What stands in front of a token is read apart from the rest. -/
theorem decode_take_append_drop (hp : p ∈ pieces source) (htrivia : p.isTrivia = false) :
    decode source = decode (source.take p.start) ++ decode (source.drop p.start) := by
  have hread : ∀ s, AsciiBorder (s.take p.start) (s.drop p.start) →
      decode s = decode (s.take p.start) ++ decode (s.drop p.start) := fun s hborder => by
    rw [← Text.decode_append hborder, List.take_append_drop]
  rcases pieces_cases source with ⟨-, hpieces⟩ | ⟨s, rfl, hpieces⟩
  · rw [hpieces] at hp
    rcases (cutInto_piecesFrom 0 source).border hp with hfirst | hborder
    · rw [hfirst]
      rfl
    · exact hread source hborder
  · rw [hpieces] at hp
    rcases List.mem_cons.mp hp with rfl | hp
    · cases htrivia
    have hstart := ((cutInto_piecesFrom _ s).bounds hp).1
    rcases (cutInto_piecesFrom _ s).border hp with hfirst | hborder
    · rw [hfirst, List.take_left, List.drop_left]
      exact decode_byteOrderMark s
    · refine hread _ ?_
      rw [List.take_append, List.take_of_length_le hstart, List.drop_append,
        List.drop_eq_nil_of_le hstart, List.nil_append]
      exact hborder.prepend byteOrderMark

/-- A token does not begin with a blank. -/
theorem head?_drop (hp : p ∈ pieces source) (htrivia : p.isTrivia = false) :
    ∀ b ∈ (source.drop p.start).head?, isBlankByte b = false := by
  have hkind := (isToken_of_not_trivia htrivia).1
  obtain ⟨hdrop, hfits⟩ := standsIn_of_mem_pieces hp hkind
  obtain ⟨b, more, htext⟩ := hfits.exists_cons
  rw [htext] at hdrop hfits
  rw [hdrop]
  rintro _ ⟨⟩
  by_contra hblank
  rw [Bool.not_eq_false] at hblank
  exact hkind (hfits.blank_iff.mpr hblank)

/-- What ends with a token has the last byte of the token. -/
theorem getLast?_take (hp : p ∈ pieces source) (htrivia : p.isTrivia = false) :
    (source.take p.stop).getLast? = p.text.getLast? := by
  obtain ⟨hdrop, hfits⟩ := standsIn_of_mem_pieces hp (isToken_of_not_trivia htrivia).1
  have htake : source.take p.stop = source.take p.start ++ p.text := by
    rw [Piece.stop, List.take_add, hdrop, List.take_left]
  rw [htake, List.getLast?_append_of_ne_nil _ hfits.ne_nil]

/-- What ends with a token is read apart from what stands behind it. -/
theorem decode_drop_append {i : Nat} (hp : p ∈ pieces source) (htrivia : p.isTrivia = false)
    (hi : i < p.stop) :
    decode (source.drop i) =
      decode ((source.take p.stop).drop i) ++ decode (source.drop p.stop) := by
  have hstop := (bounds_of_mem_pieces hp).2
  have hsplit : (source.take p.stop).drop i ++ source.drop p.stop = source.drop i := by
    conv_rhs => rw [← List.take_append_drop p.stop source]
    rw [List.drop_append_of_le_length]
    rw [List.length_take]
    omega
  by_cases hrest : source.drop p.stop = []
  · rw [hrest, List.append_nil] at hsplit
    rw [hrest, hsplit]
    exact (List.append_nil _).symm
  have hfits := (standsIn_of_mem_pieces hp (isToken_of_not_trivia htrivia).1).2
  rw [← hsplit]
  refine Text.decode_append ?_
  rcases hfits.border hrest with ⟨b, hlast, hascii⟩ | hhead
  · refine .inl ⟨b, ?_, hascii⟩
    rw [List.getLast?_drop, if_neg (by rw [List.length_take]; omega), getLast?_take hp htrivia]
    exact hlast
  · exact .inr hhead

end Lexer

namespace Tree

/-! ### Closing brackets -/

/-- A group ends with a bracket. -/
def EndsWithBracket : Tree → Prop
  | .token _ => True
  | .group _ _ closing =>
    (closing.is ")" || closing.is "]" || closing.is "\x7d") = true

/-- Groups are closed by brackets. The induction is on the tokens, with what stands before them. -/
theorem endsWithBracket_of_mem_nest (ts : List Token) (opened : List Open) (done : List Tree)
    (hopened : ∀ o ∈ opened, ∀ t ∈ o.before, t.EndsWithBracket)
    (hdone : ∀ t ∈ done, t.EndsWithBracket) : ∀ t ∈ nest opened done ts, t.EndsWithBracket := by
  induction ts generalizing opened done with
  | nil =>
    intro t ht
    rw [nest, List.mem_reverse, abandon_eq] at ht
    rcases List.mem_append.mp ht with ht | ht
    · exact hdone t ht
    · obtain ⟨o, ho, ht⟩ := List.mem_flatMap.mp ht
      rcases List.mem_cons.mp ht with rfl | ht
      · trivial
      · exact hopened o ho t ht
  | cons token rest ih =>
    unfold nest
    split
    · exact ih _ _ (List.forall_mem_cons.mpr ⟨hdone, hopened⟩) (List.forall_mem_nil _)
    split
    · rename_i hclosing
      cases opened with
      | nil => exact ih _ _ (List.forall_mem_nil _) (List.forall_mem_cons.mpr ⟨trivial, hdone⟩)
      | cons o outer =>
        obtain ⟨hbefore, houter⟩ := List.forall_mem_cons.mp hopened
        exact ih _ _ houter (List.forall_mem_cons.mpr ⟨hclosing, hbefore⟩)
    · exact ih _ _ hopened (List.forall_mem_cons.mpr ⟨trivial, hdone⟩)

theorem endsWithBracket_of_mem_ofSource {source : Bytes} {t : Tree} (h : t ∈ ofSource source) :
    t.EndsWithBracket :=
  endsWithBracket_of_mem_nest _ [] [] (List.forall_mem_nil _) (List.forall_mem_nil _) t h

/-- A group at the top of a source does not end with a blank. -/
theorem final_of_isGroup {source : Bytes} {t : Tree} {bracket : String} (h : t ∈ ofSource source)
    (hgroup : t.isGroup bracket = true) :
    ∀ b ∈ (source.take t.stop).getLast?, Lexer.isBlankByte b = false := by
  obtain ⟨hpiece, htrivia⟩ :=
    piece_mem_of_mem_tokens (tokens_subset_of_mem h (last_mem_tokens t))
  have hbracket := endsWithBracket_of_mem_ofSource h
  show ∀ b ∈ (source.take t.last.piece.stop).getLast?, _
  rw [Lexer.getLast?_take hpiece htrivia]
  cases t with
  | token t => cases hgroup
  | group opening items closing =>
    simp only [EndsWithBracket, Token.is, Bool.or_eq_true, decide_eq_true_eq] at hbracket
    show ∀ b ∈ closing.piece.text.getLast?, _
    rcases hbracket with (htext | htext) | htext
    all_goals
      rw [htext]
      decide +kernel

end Tree

namespace Reader

variable {ts : List Tree} {t : Tree} {rest : List Tree}

/-- A type ends with one of the trees, which is a group. -/
def EndsWithGroup (ts : List Tree) : Item → Prop
  | .type head _ => ∃ u ∈ ts, u.isGroup "\x7b" = true ∧ head.span.stop = u.stop
  | .rest .. => False
  | _ => True

theorem endsWithGroup_of_subset {us : List Tree} (hsub : ts ⊆ us) :
    (item : Item) → EndsWithGroup ts item → EndsWithGroup us item
  | .type _ _, ⟨u, hu, hgroup, hstop⟩ => ⟨u, hsub hu, hgroup, hstop⟩
  | .rest .., h => h
  | .comment _, _ | .package .., _ | .imported .., _ | .module .., _ | .method .., _
  | .constructor .., _ | .field .., _ | .constant .., _ | .code .., _ => trivial

theorem endsWithGroup_unitItem (t : Tree) (rest : List Tree) :
    EndsWithGroup (t :: rest) (unitItem t rest).1 := by
  have hstep := unitStep t rest
  generalize unitItem t rest = item at hstep ⊢
  cases hstep with
  | package | imported | module | method | code => trivial
  | type hhead =>
    obtain ⟨run, u, after, hrun, -, hgroup, -, hspan, -⟩ := exists_run_of_typeHead? hhead
    have hu := List.mem_append_right run (List.mem_cons_self (a := u) (l := after))
    rw [← hrun] at hu
    exact ⟨u, List.mem_of_mem_drop hu, hgroup, by rw [hspan]⟩

/-- The types at the top of a unit end with trees at the top. -/
theorem endsWithGroup_of_mem_unitItems (fuel : Nat) (ts : List Tree) :
    ∀ item ∈ unitItems fuel ts, EndsWithGroup ts item := by
  have hcomments (t : Tree) (ts : List Tree) : ∀ item ∈ commentItems t, EndsWithGroup ts item := by
    intro item hitem
    obtain ⟨p, -, rfl⟩ := List.mem_map.mp hitem
    trivial
  have hlater {t : Tree} {rest : List Tree} {items : List Item} (n : Nat)
      (h : ∀ item ∈ items, EndsWithGroup (rest.drop n) item) :
      ∀ item ∈ items, EndsWithGroup (t :: rest) item := fun item hitem =>
    endsWithGroup_of_subset (List.subset_cons_of_subset t (List.drop_subset n rest)) item
      (h item hitem)
  refine unitItems_induction (P := fun ts items => ∀ item ∈ items, EndsWithGroup ts item)
    ?_ ?_ ?_ fuel ts
  · exact fun _ => List.forall_mem_nil _
  · intro t rest items ih
    exact List.forall_mem_append.mpr ⟨hcomments t _, hlater 0 ih⟩
  · intro t rest items ih
    exact List.forall_mem_append.mpr ⟨hcomments t _,
      List.forall_mem_cons.mpr ⟨endsWithGroup_unitItem t rest, hlater _ ih⟩⟩

theorem endsWithGroup_of_mem_items (source : Bytes) :
    ∀ item ∈ items source, EndsWithGroup (Tree.ofSource source) item :=
  endsWithGroup_of_mem_unitItems _ _

end Reader

end Apidoc.Java
