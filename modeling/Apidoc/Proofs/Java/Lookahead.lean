import Apidoc.Proofs.Java.Piece
import Mathlib.Data.List.Lemmas

/-!
# `Apidoc.Proofs.Java.Lookahead`: what the reading of a token depends on

A token is read by its own bytes and by what stands directly behind it. The first byte decides where
a word, a number or an operator ends, and only three tokens look further: `non`, which may begin
`non-sealed`, the sign of an annotation, which may begin `@interface`, and a dot, which may begin
an ellipsis. Other bytes that follow make no difference (`Fits.of_follows`). A literal that stops
before the end of the source is closed, whatever comes behind it.
-/

set_option autoImplicit false

namespace Apidoc.Java.Lexer

open Apidoc.Text (Bytes)

variable {b : UInt8} {s rest rest' text more : Bytes} {kind : PieceKind}

/-! ### Where a token ends -/

/-- The bytes that may follow a text in place of others: they begin with the same byte or with a
blank. They are missing if the others are. -/
structure Follows (rest rest' : Bytes) : Prop where
  ends : rest = [] → rest' = []
  head : ∀ b ∈ rest'.head?, isBlankByte b = false → b ∈ rest.head?

theorem Follows.head_append (h : Follows rest rest') (hb : isBlankByte b = false)
    (hhead : b ∈ (more ++ rest').head?) : b ∈ (more ++ rest).head? := by
  cases more with
  | nil => exact h.head b hhead hb
  | cons c more => exact hhead

/-- A number whose last byte is given goes on with the next one. -/
def goesOn (hex : Bool) (last b : UInt8) : Bool :=
  isWordByte b || b = byte '.' || ((b = byte '+' || b = byte '-') &&
    if hex then last = byte 'p' || last = byte 'P' else last = byte 'e' || last = byte 'E')

theorem numberRest_cons (hex : Bool) (last b : UInt8) (rest : Bytes) :
    numberRest hex last (b :: rest) =
      if goesOn hex last b = true then 1 + numberRest hex b rest else 0 := rfl

/-- No number goes on with a blank. -/
theorem not_blank_of_goesOn {hex : Bool} {last : UInt8} (h : goesOn hex last b = true) :
    isBlankByte b = false := by
  have hbytes : ∀ b : UInt8, isWordByte b = true ∨ b = byte '.' ∨ b = byte '+' ∨ b = byte '-' →
      isBlankByte b = false := forall_byte (by decide +kernel)
  simp only [goesOn, Bool.or_eq_true, Bool.and_eq_true, decide_eq_true_eq] at h
  rcases h with (hword | hdot) | ⟨hsign, -⟩
  · exact hbytes b (.inl hword)
  · exact hbytes b (.inr (.inl hdot))
  · exact hbytes b (.inr (.inr hsign))

/-- A number stays as it is. -/
theorem numberRest_append {hex : Bool} {last : UInt8} (hf : Follows rest rest')
    (h : numberRest hex last (more ++ rest) = more.length) :
    numberRest hex last (more ++ rest') = more.length := by
  induction more generalizing last with
  | nil =>
    cases rest' with
    | nil => rfl
    | cons b rest' =>
      rw [List.nil_append, numberRest_cons]
      refine if_neg fun hgoes => ?_
      -- The number would have gone on with this byte in the old place too.
      obtain ⟨tail, rfl⟩ := List.head?_eq_some_iff.mp (hf.head b rfl (not_blank_of_goesOn hgoes))
      rw [List.nil_append, numberRest_cons, if_pos hgoes, List.length_nil] at h
      omega
  | cons c more ih =>
    rw [List.cons_append, numberRest_cons, List.length_cons] at h ⊢
    split at h
    · rename_i hgoes
      rw [if_pos hgoes, ih (by omega)]
      omega
    · cases h

theorem quotedRest_pos (quote : UInt8) (h : s ≠ []) : 0 < quotedRest quote s := by
  fun_cases quotedRest quote s with
  | case1 => exact absurd rfl h
  | _ => omega

theorem textBlockRest_pos (h : s ≠ []) : 0 < textBlockRest s := by
  fun_cases textBlockRest s with
  | case1 => exact absurd rfl h
  | _ => omega

theorem quotedRest_quote (quote : UInt8) (rest : Bytes) : quotedRest quote (quote :: rest) = 1 := by
  rw [quotedRest.eq_def]
  exact if_pos rfl

theorem quotedRest_escaped {quote : UInt8} (hq : byte '\\' ≠ quote) (c : UInt8) (rest : Bytes) :
    quotedRest quote (byte '\\' :: c :: rest) = 2 + quotedRest quote rest := by
  rw [quotedRest.eq_def]
  exact (if_neg hq).trans (if_pos rfl)

theorem quotedRest_plain {quote : UInt8} (hq : b ≠ quote) (hb : b ≠ byte '\\') (rest : Bytes) :
    quotedRest quote (b :: rest) = 1 + quotedRest quote rest := by
  rw [quotedRest.eq_def]
  exact (if_neg hq).trans (if_neg hb)

/-- A list ends as its tail does, if that has a last element. -/
theorem getLast?_cons_of_eq_some {c last : UInt8} (h : more.getLast? = some last) :
    (c :: more).getLast? = some last := by
  rw [List.getLast?_cons, h]
  rfl

/-- A literal that stops before the end of the source is closed, whatever follows it. -/
theorem quotedRest_append {quote : UInt8} (h : quotedRest quote (more ++ rest) = more.length) :
    rest = [] ∨ more.getLast? = some quote ∧
      ∀ rest', quotedRest quote (more ++ rest') = more.length := by
  -- Along the literal as it is read. A backslash takes the next byte along, so what follows the
  -- literal is read with it only where the backslash is its last byte.
  induction more using quotedRest.induct quote with
  | case1 =>
    cases rest with
    | nil => exact .inl rfl
    | cons b rest =>
      rw [List.nil_append, List.length_nil] at h
      exact absurd h (quotedRest_pos quote (List.cons_ne_nil b rest)).ne'
  | case2 more =>
    rw [List.cons_append, quotedRest_quote, List.length_cons] at h
    obtain rfl : more = [] := List.length_eq_zero_iff.mp (by omega)
    exact .inr ⟨rfl, fun rest' => quotedRest_quote quote rest'⟩
  | case3 hq =>
    cases rest with
    | nil => exact .inl rfl
    | cons c rest =>
      rw [List.singleton_append, quotedRest_escaped hq, List.length_singleton] at h
      omega
  | case4 c more hq ih =>
    rw [List.cons_append, List.cons_append, quotedRest_escaped hq, List.length_cons,
      List.length_cons] at h
    refine (ih (by omega)).imp_right fun ⟨hlast, hmore⟩ =>
      ⟨getLast?_cons_of_eq_some (getLast?_cons_of_eq_some hlast), fun rest' => ?_⟩
    rw [List.cons_append, List.cons_append, quotedRest_escaped hq, hmore, List.length_cons,
      List.length_cons]
    omega
  | case5 b more hq hs ih =>
    rw [List.cons_append, quotedRest_plain hq hs, List.length_cons] at h
    refine (ih (by omega)).imp_right fun ⟨hlast, hmore⟩ =>
      ⟨getLast?_cons_of_eq_some hlast, fun rest' => ?_⟩
    rw [List.cons_append, quotedRest_plain hq hs, hmore, List.length_cons]
    omega

theorem textBlockRest_escaped (c : UInt8) (rest : Bytes) :
    textBlockRest (byte '\\' :: c :: rest) = 2 + textBlockRest rest := rfl

theorem textBlockRest_plain (hq : ¬ (b = byte '"' && startsWith "\"\"" rest) = true)
    (hb : b ≠ byte '\\') : textBlockRest (b :: rest) = 1 + textBlockRest rest := by
  rw [textBlockRest.eq_def]
  exact (if_neg hq).trans (if_neg hb)

/-- A text block that stops before the end of the source holds its closing quotes. -/
theorem three_le_textBlockRest (h : textBlockRest s < s.length) : 3 ≤ textBlockRest s := by
  fun_induction textBlockRest s with
  | case1 => cases h
  | case2 => exact Nat.le_refl _
  | case3 => exact absurd h (by simp)
  | case4 c rest hq ih =>
    rw [List.length_cons, List.length_cons] at h
    have hthree := ih (by omega)
    omega
  | case5 b rest hq hs ih =>
    rw [List.length_cons] at h
    have hthree := ih (by omega)
    omega

/-- A text that is long enough to hold a front of itself and of what follows it. -/
theorem prefix_left {front : Bytes} (h : front <+: text ++ rest)
    (hlength : front.length ≤ text.length) : front <+: text :=
  List.prefix_of_prefix_length_le h (List.prefix_append text rest) hlength

/-- A text block that stops before the end of the source is closed, whatever follows it. -/
theorem textBlockRest_append (h : textBlockRest (more ++ rest) = more.length) :
    rest = [] ∨ more.getLast? = some (byte '"') ∧
      ∀ rest', textBlockRest (more ++ rest') = more.length := by
  by_cases hrest : rest = []
  · exact .inl hrest
  right
  have hpos := List.length_pos_iff.mpr hrest
  induction more using textBlockRest.induct with
  | case1 => exact absurd h (textBlockRest_pos hrest).ne'
  | case2 b more hq =>
    rw [Bool.and_eq_true, decide_eq_true_eq, startsWith_iff] at hq
    obtain ⟨rfl, more, rfl⟩ := hq
    have hlength : 3 = more.length + 3 := h
    obtain rfl : more = [] := List.length_eq_zero_iff.mp (by omega)
    exact ⟨rfl, fun rest' => rfl⟩
  | case3 =>
    obtain ⟨c, rest, rfl⟩ := List.exists_cons_of_ne_nil hrest
    rw [List.singleton_append, textBlockRest_escaped, List.length_singleton] at h
    omega
  | case4 c more hq ih =>
    rw [List.cons_append, List.cons_append, textBlockRest_escaped, List.length_cons,
      List.length_cons] at h
    obtain ⟨hlast, hmore⟩ := ih (by omega)
    refine ⟨getLast?_cons_of_eq_some (getLast?_cons_of_eq_some hlast), fun rest' => ?_⟩
    rw [List.cons_append, List.cons_append, textBlockRest_escaped, hmore, List.length_cons,
      List.length_cons]
    omega
  | case5 b more hq hs ih =>
    -- What follows the literal would help to close it only if no more than two quotes were left.
    have hopen : ∀ rest', 2 ≤ more.length →
        ¬ (b = byte '"' && startsWith "\"\"" (more ++ rest')) = true := by
      intro rest' htwo
      rw [Bool.and_eq_true, decide_eq_true_eq, startsWith_iff] at hq ⊢
      exact fun hclosed => hq ⟨hclosed.1, prefix_left hclosed.2 htwo⟩
    have hstep : textBlockRest (b :: (more ++ rest)) = 1 + textBlockRest (more ++ rest) :=
      textBlockRest_plain ?_ hs
    · rw [List.cons_append, hstep, List.length_cons] at h
      have hthree := three_le_textBlockRest (s := more ++ rest) (by rw [List.length_append]; omega)
      obtain ⟨hlast, hmore⟩ := ih (by omega)
      refine ⟨getLast?_cons_of_eq_some hlast, fun rest' => ?_⟩
      rw [List.cons_append, textBlockRest_plain (hopen rest' (by omega)) hs, hmore,
        List.length_cons]
      omega
    · intro hclosed
      rw [List.cons_append, textBlockRest.eq_def] at h
      have hthree : 3 = more.length + 1 := (if_pos hclosed).symm.trans h
      exact hopen rest (by omega) hclosed

/-- The tokens whose end depends on more than the next byte, and what makes them longer. -/
def lures : List (String × String) := [("non", "-sealed"), ("@", "interface"), (".", "..")]

/-- Whatever lures the token to go on stood behind it already. -/
def Unlured (text rest rest' : Bytes) : Prop :=
  ∀ lure ∈ lures, text = Text.encode lure.1 → Text.encode lure.2 <+: rest' →
    Text.encode lure.2 <+: rest

/-- No operator of several characters at the front is longer than the text. -/
def IsLongest (text rest : Bytes) : Prop :=
  ∀ symbol ∈ longSymbols, startsWith symbol (text ++ rest) = true →
    (Text.encode symbol).length ≤ text.length

theorem isLongest_of_find?_eq_some {symbol : String}
    (h : longSymbols.find? (fun symbol => startsWith symbol (text ++ rest)) = some symbol)
    (hlength : (Text.encode symbol).length = text.length) : IsLongest text rest := by
  -- The list begins with the longest operators.
  have hsorted : longSymbols.Pairwise fun a b =>
      (Text.encode b).length ≤ (Text.encode a).length := by decide +kernel
  obtain ⟨-, before, after, hsplit, hbefore⟩ := List.find?_eq_some_iff_append.mp h
  intro other hother hstarts
  rw [hsplit] at hother hsorted
  rw [← hlength]
  rcases List.mem_append.mp hother with hbefore' | hafter
  · exact absurd hstarts (by simpa using hbefore other hbefore')
  · rcases List.mem_cons.mp hafter with rfl | hafter
    · exact Nat.le_refl _
    · exact (List.pairwise_cons.mp (List.pairwise_append.mp hsorted).2.1).1 other hafter

theorem not_blank_of_mem_symbol :
    ∀ symbol ∈ longSymbols, ∀ c ∈ Text.encode symbol, isBlankByte c = false := by decide +kernel

/-- Where no longer operator begins in the old place, none does in the new one, unless the text is
lured. -/
theorem IsLongest.of_follows (h : IsLongest text rest) (hne : text ≠ []) (hf : Follows rest rest')
    (hl : Unlured text rest rest') : IsLongest text rest' := by
  -- The front of an operator that is one byte longer than the text is an operator too, except for
  -- the dots.
  have hfronts : ∀ symbol ∈ longSymbols, ∀ n < (Text.encode symbol).length, n ≠ 0 →
      (∃ front ∈ longSymbols, Text.encode front = (Text.encode symbol).take (n + 1)) ∨
        symbol = "..." ∧ (Text.encode symbol).take n = Text.encode "." := by decide +kernel
  intro symbol hsymbol hstarts
  rw [startsWith_iff] at hstarts
  by_contra hlonger
  rw [not_le] at hlonger
  obtain ⟨w, hw⟩ : text <+: Text.encode symbol :=
    List.prefix_of_prefix_length_le (List.prefix_append text rest') hstarts hlonger.le
  obtain ⟨c, w, rfl⟩ : ∃ c tail, w = c :: tail := by
    refine List.exists_cons_of_ne_nil fun hnil => ?_
    rw [← hw, hnil, List.append_nil] at hlonger
    exact absurd hlonger (lt_irrefl _)
  have hrest' : c :: w <+: rest' := by
    rw [← hw] at hstarts
    exact (List.prefix_append_right_inj text).mp hstarts
  obtain ⟨more, hmore⟩ := hrest'
  have hc : isBlankByte c = false := not_blank_of_mem_symbol symbol hsymbol c (by simp [← hw])
  obtain ⟨tail, htail⟩ := List.head?_eq_some_iff.mp (hf.head c (by simp [← hmore]) hc)
  have htake : ∀ n, (Text.encode symbol).take (text.length + n) = text ++ (c :: w).take n := by
    intro n
    rw [← hw, List.take_length_add_append]
  rcases hfronts symbol hsymbol text.length hlonger (List.length_pos_iff.mpr hne).ne' with
    ⟨front, hfront, heq⟩ | ⟨rfl, hdot⟩
  · rw [htake 1] at heq
    have hle := h front hfront (by
      rw [startsWith_iff, heq, htail]
      exact ⟨tail, by simp⟩)
    have hlength := congrArg List.length heq
    simp only [List.length_append, List.length_take, List.length_cons] at hlength
    omega
  · have hdot : text = Text.encode "." := by
      have hzero := htake 0
      rw [Nat.add_zero, hdot, List.take_zero, List.append_nil] at hzero
      exact hzero.symm
    have hdots : Text.encode ".." <+: rest := by
      refine hl (".", "..") (by decide) hdot ?_
      rw [hdot] at hw
      have hdots : Text.encode "." ++ c :: w = Text.encode "." ++ Text.encode ".." := hw
      have hw : c :: w = Text.encode ".." := List.append_cancel_left hdots
      rw [← hw]
      exact ⟨more, hmore⟩
    have hle := h "..." (by decide) (by
      rw [startsWith_iff, hdot]
      exact (List.prefix_append_right_inj (Text.encode ".")).mpr hdots)
    rw [hdot] at hle
    exact absurd hle (by decide)

/-- The operator that a source begins with depends on its text alone where it is the longest. -/
theorem find?_longSymbols_eq (h : IsLongest text rest) (h' : IsLongest text rest') :
    longSymbols.find? (fun symbol => startsWith symbol (text ++ rest')) =
      longSymbols.find? (fun symbol => startsWith symbol (text ++ rest)) := by
  have hmoves : ∀ {x y : Bytes}, IsLongest text x → ∀ symbol ∈ longSymbols,
      startsWith symbol (text ++ x) = true → startsWith symbol (text ++ y) = true := by
    intro x y hx symbol hsymbol hstarts
    have hlength := hx symbol hsymbol hstarts
    rw [startsWith_iff] at hstarts ⊢
    exact (prefix_left hstarts hlength).trans (List.prefix_append text y)
  rw [← List.head?_filter, ← List.head?_filter]
  refine congrArg _ (List.filter_congr fun symbol hsymbol => Bool.eq_iff_iff.mpr ?_)
  exact ⟨hmoves h' symbol hsymbol, hmoves h symbol hsymbol⟩

/-! ### Tokens before other bytes -/

/-- What does not stand behind the first byte in the old place does not in the new one. -/
theorem Follows.guard (hf : Follows rest rest') {c d : UInt8} (hc : isBlankByte c = false)
    (h : ¬ (b = d && (more ++ rest).head? = some c) = true) :
    ¬ (b = d && (more ++ rest').head? = some c) = true := by
  rw [Bool.and_eq_true, decide_eq_true_eq, decide_eq_true_eq] at h ⊢
  exact fun hnew => h ⟨hnew.1, hf.head_append hc hnew.2⟩

theorem not_blank_of_isWordByte : ∀ b : UInt8, isWordByte b = true → isBlankByte b = false :=
  forall_byte (by decide +kernel)

/-- A number is hexadecimal if it begins so. -/
def isHex (b : UInt8) (rest : Bytes) : Bool :=
  b = byte '0' && (rest.head? = some (byte 'x') || rest.head? = some (byte 'X'))

theorem isHex_append {hex : Bool} (hf : Follows rest rest')
    (h : numberRest hex b (more ++ rest) = more.length) :
    isHex b (more ++ rest') = isHex b (more ++ rest) := by
  cases more with
  | cons c more => rfl
  | nil =>
    -- A number of one digit is followed by no letter.
    have hold : ∀ c, isWordByte c = true → rest.head? ≠ some c := by
      intro c hc hhead
      obtain ⟨tail, rfl⟩ := List.head?_eq_some_iff.mp hhead
      rw [List.nil_append, numberRest_cons, if_pos (by simp [goesOn, hc]), List.length_nil] at h
      omega
    have hnew : ∀ c, isWordByte c = true → rest'.head? ≠ some c := fun c hc hhead =>
      hold c hc (hf.head c hhead (not_blank_of_isWordByte c hc))
    have hlower : isWordByte (byte 'x') = true := rfl
    have hupper : isWordByte (byte 'X') = true := rfl
    simp [isHex, hold _ hlower, hold _ hupper, hnew _ hlower, hnew _ hupper]

theorem measure_digit (hb : isDigitByte b = true) (rest : Bytes) :
    measure b rest = (.number, numberRest (isHex b rest) b rest) := by
  have hother : ∀ b : UInt8, isDigitByte b = true → isBlankByte b = false ∧ b ≠ byte '/' :=
    forall_byte (by decide +kernel)
  have hb' := hother b hb
  simp [measure, hb', hb, isHex]

theorem measure_word (hb : isWordByte b = true) (hdigit : isDigitByte b = false) (rest : Bytes) :
    measure b rest =
      if (b :: rest.takeWhile isWordByte = Text.encode "non" &&
          startsWith "-sealed" (rest.dropWhile isWordByte)) = true then (.word, 9)
      else (.word, (rest.takeWhile isWordByte).length) := by
  have hother : ∀ b : UInt8, isWordByte b = true →
      isBlankByte b = false ∧ b ≠ byte '/' ∧ b ≠ byte '.' := forall_byte (by decide +kernel)
  have hb' := hother b hb
  simp [measure, hb', hb, hdigit]

/-- What `takeWhile` takes of a source ends where the bytes with the property do. -/
theorem takeWhile_of_length {p : UInt8 → Bool}
    (h : ((more ++ rest).takeWhile p).length = more.length) :
    (∀ c ∈ more, p c = true) ∧ ∀ c ∈ rest.head?, p c = false := by
  have hmore : (more ++ rest).takeWhile p = more := by
    have hprefix := List.prefix_of_prefix_length_le (List.takeWhile_prefix p)
      (List.prefix_append more rest) h.le
    exact hprefix.eq_of_length h
  have hall : ∀ c ∈ more, p c = true := by
    intro c hc
    rw [← hmore] at hc
    exact List.mem_takeWhile_imp hc
  refine ⟨hall, fun c hc => ?_⟩
  rw [List.takeWhile_append_of_pos hall] at hmore
  obtain ⟨tail, rfl⟩ := List.head?_eq_some_iff.mp hc
  have hnil : (c :: tail).takeWhile p = [] := List.append_right_eq_self.mp hmore
  by_contra hbyte
  rw [Bool.not_eq_false] at hbyte
  rw [List.takeWhile_cons_of_pos hbyte] at hnil
  cases hnil

theorem takeWhile_word (hmore : ∀ c ∈ more, isWordByte c = true)
    (hrest : ∀ c ∈ rest.head?, isWordByte c = false) :
    (more ++ rest).takeWhile isWordByte = more ∧ (more ++ rest).dropWhile isWordByte = rest := by
  rw [List.takeWhile_append_of_pos hmore, List.dropWhile_append_of_pos hmore]
  cases rest with
  | nil => exact ⟨List.append_nil _, rfl⟩
  | cons c rest =>
    have hc := hrest c rfl
    simp [List.takeWhile, List.dropWhile, hc]

/-- A point that begins a number. -/
theorem measure_point (h : rest.head?.any isDigitByte = true) :
    measure (byte '.') rest = (.number, numberRest false (byte '.') rest) := by
  have hslash : byte '.' ≠ byte '/' := by decide
  have hblank : isBlankByte (byte '.') = false := rfl
  have hdigit : isDigitByte (byte '.') = false := rfl
  simp [measure, hslash, hblank, hdigit, h]

/-- Such a number stays as it is. -/
theorem point_append (hf : Follows rest rest') (hhead : (more ++ rest).head?.any isDigitByte = true)
    (hn : numberRest false (byte '.') (more ++ rest) = more.length) :
    measure (byte '.') (more ++ rest') = (.number, more.length) := by
  cases more with
  | nil =>
    -- The number has the digit that follows the point.
    cases rest with
    | nil => cases hhead
    | cons c rest =>
      have hdigit : isDigitByte c = true := hhead
      have hgoes : goesOn false (byte '.') c = true := by simp [goesOn, isWordByte, hdigit]
      rw [List.nil_append, numberRest_cons, if_pos hgoes, List.length_nil] at hn
      omega
  | cons c more =>
    have hhead' : ((c :: more) ++ rest').head?.any isDigitByte = true := hhead
    rw [measure_point hhead', numberRest_append hf hn]

/-- A word that is not `non-sealed` stays as it is. -/
theorem word_append (hword : isWordByte b = true) (hdigit : isDigitByte b = false)
    (hnon : ¬ (b :: (more ++ rest).takeWhile isWordByte = Text.encode "non" &&
      startsWith "-sealed" ((more ++ rest).dropWhile isWordByte)) = true)
    (hn : ((more ++ rest).takeWhile isWordByte).length = more.length) (hf : Follows rest rest')
    (hl : Text.encode "non" = b :: more → Text.encode "-sealed" <+: rest' →
      Text.encode "-sealed" <+: rest) :
    measure b (more ++ rest') = (.word, more.length) := by
  obtain ⟨hmore, hrest⟩ := takeWhile_of_length hn
  have hrest' : ∀ c ∈ rest'.head?, isWordByte c = false := by
    intro c hc
    by_contra hbyte
    rw [Bool.not_eq_false] at hbyte
    have hold := hrest c (hf.head c hc (not_blank_of_isWordByte c hbyte))
    rw [hbyte] at hold
    cases hold
  rw [measure_word hword hdigit, (takeWhile_word hmore hrest').1, (takeWhile_word hmore hrest').2]
  refine if_neg fun hsealed => hnon ?_
  rw [(takeWhile_word hmore hrest).1, (takeWhile_word hmore hrest).2]
  rw [Bool.and_eq_true, decide_eq_true_eq, startsWith_iff] at hsealed ⊢
  exact ⟨hsealed.1, hl hsealed.1.symm hsealed.2⟩

theorem measure_quote (rest : Bytes) :
    measure (byte '"') rest =
      if startsWith "\"\"" rest = true then (.quoted, 2 + textBlockRest (rest.drop 2))
      else (.quoted, quotedRest (byte '"') rest) := rfl

theorem measure_apostrophe (rest : Bytes) :
    measure (byte '\'') rest = (.quoted, quotedRest (byte '\'') rest) := rfl

/-- A text block holds its opening quotes. -/
theorem exists_textBlock (hblock : startsWith "\"\"" (more ++ rest) = true)
    (hn : 2 + textBlockRest ((more ++ rest).drop 2) = more.length) :
    ∃ inner, more = Text.encode "\"\"" ++ inner ∧
      textBlockRest (inner ++ rest) = inner.length := by
  rw [startsWith_iff] at hblock
  obtain ⟨inner, rfl⟩ := prefix_left hblock (by rw [← hn]; exact Nat.le_add_right 2 _)
  refine ⟨inner, rfl, ?_⟩
  have hlength : 2 + textBlockRest (inner ++ rest) = inner.length + 2 := hn
  omega

/-- A text block stays as it is. -/
theorem textBlock_append (hf : Follows rest rest')
    (hblock : startsWith "\"\"" (more ++ rest) = true)
    (hn : 2 + textBlockRest ((more ++ rest).drop 2) = more.length) :
    measure (byte '"') (more ++ rest') = (.quoted, more.length) := by
  obtain ⟨inner, rfl, hinner⟩ := exists_textBlock hblock hn
  rw [measure_quote]
  show (PieceKind.quoted, 2 + textBlockRest (inner ++ rest')) = (PieceKind.quoted, inner.length + 2)
  rcases textBlockRest_append hinner with rfl | ⟨-, hclosed⟩
  · rw [hf.ends rfl, hinner, Nat.add_comm]
  · rw [hclosed, Nat.add_comm]

/-- A string that is no text block. -/
theorem string_append (hf : Follows rest rest')
    (hopen : ¬ startsWith "\"\"" (more ++ rest) = true)
    (h : quotedRest (byte '"') (more ++ rest) = more.length) :
    ¬ startsWith "\"\"" (more ++ rest') = true ∧
      quotedRest (byte '"') (more ++ rest') = more.length := by
  rcases quotedRest_append h with rfl | ⟨-, hclosed⟩
  · rw [hf.ends rfl]
    exact ⟨hopen, h⟩
  refine ⟨fun hblock => hopen ?_, hclosed rest'⟩
  rw [startsWith_iff] at hblock ⊢
  match more with
  | [] =>
    -- No string is without its closing quote.
    exact absurd (hclosed [byte '"']) (by decide)
  | [c] =>
    obtain ⟨tail, hblock⟩ := hblock
    obtain ⟨rfl, hrest'⟩ := List.cons.inj hblock
    obtain ⟨tail, rfl⟩ := List.head?_eq_some_iff.mp
      (hf.head (byte '"') (List.head?_eq_some_iff.mpr ⟨tail, hrest'.symm⟩) (by decide))
    exact ⟨tail, rfl⟩
  | c :: d :: more =>
    exact (prefix_left hblock (by simp only [List.length_cons]; exact Nat.le_add_left 2 _)).trans
      (List.prefix_append _ rest)

/-- A byte that begins a symbol if the bytes after it do not make it begin something else. -/
structure BeginsSymbol (b : UInt8) (rest : Bytes) : Prop where
  blank : isBlankByte b = false
  line : ¬ (b = byte '/' && rest.head? = some (byte '/')) = true
  comment : ¬ (b = byte '/' && rest.head? = some (byte '*')) = true
  digit : isDigitByte b = false
  point : ¬ (b = byte '.' && rest.head?.any isDigitByte) = true
  word : isWordByte b = false
  sign : ¬ (b = byte '@' && startsWith "interface" rest) = true
  quote : b ≠ byte '"'
  apostrophe : b ≠ byte '\''

theorem BeginsSymbol.measure_eq (h : BeginsSymbol b rest) :
    measure b rest =
      (.symbol, (longSymbols.find? fun symbol => startsWith symbol (b :: rest)).elim 0
        fun symbol => symbol.length - 1) := by
  rw [measure, if_neg (by simp [h.blank]), if_neg h.line, if_neg h.comment,
    if_neg (by simp [h.digit]), if_neg h.point, if_neg (by simp [h.word]), if_neg h.sign,
    if_neg h.quote, if_neg h.apostrophe]
  cases longSymbols.find? fun symbol => startsWith symbol (b :: rest) with
  | none => rfl
  | some symbol => rfl

/-- The operator that is found is the text of the symbol. -/
theorem encode_of_find? {symbol : String}
    (hfind : longSymbols.find? (fun symbol => startsWith symbol (b :: (more ++ rest))) = some symbol)
    (hn : symbol.length - 1 = more.length) : Text.encode symbol = b :: more := by
  have hlengths : ∀ symbol ∈ longSymbols,
      2 ≤ symbol.length ∧ (Text.encode symbol).length = symbol.length := by decide +kernel
  have hsymbol := hlengths symbol (List.mem_of_find?_eq_some hfind)
  have hstarts : startsWith symbol (b :: (more ++ rest)) = true :=
    List.find?_some (p := fun symbol => startsWith symbol (b :: (more ++ rest))) hfind
  rw [startsWith_iff, ← List.cons_append] at hstarts
  have hlength : (Text.encode symbol).length = (b :: more).length := by
    rw [List.length_cons]
    omega
  exact (prefix_left hstarts hlength.le).eq_of_length hlength

/-- No operator at the front of a symbol is longer. -/
theorem BeginsSymbol.isLongest (h : BeginsSymbol b (more ++ rest))
    (hn : measure b (more ++ rest) = (.symbol, more.length)) : IsLongest (b :: more) rest := by
  rw [h.measure_eq] at hn
  cases hfind : longSymbols.find? fun symbol => startsWith symbol (b :: (more ++ rest)) with
  | none => exact fun symbol hsymbol hstarts =>
      absurd hstarts (List.find?_eq_none.mp hfind symbol hsymbol)
  | some symbol =>
    rw [hfind, Option.elim_some] at hn
    refine isLongest_of_find?_eq_some hfind ?_
    rw [encode_of_find? hfind (Prod.mk.inj hn).2]

/-- A symbol stays as it is. -/
theorem symbol_append (h : BeginsSymbol b (more ++ rest))
    (hn : measure b (more ++ rest) = (.symbol, more.length)) (hf : Follows rest rest')
    (hl : Unlured (b :: more) rest rest') :
    measure b (more ++ rest') = (.symbol, more.length) := by
  have hlongest := h.isLongest hn
  have hlongest' := hlongest.of_follows (List.cons_ne_nil b more) hf hl
  have h' : BeginsSymbol b (more ++ rest') := by
    refine { h with
      line := hf.guard rfl h.line, comment := hf.guard rfl h.comment, point := ?_, sign := ?_ }
    · intro hpoint
      rw [Bool.and_eq_true] at hpoint
      cases hhead : (more ++ rest').head? with
      | none =>
        rw [hhead] at hpoint
        cases hpoint.2
      | some c =>
        rw [hhead] at hpoint
        have hdigit : isDigitByte c = true := hpoint.2
        have hblank := not_blank_of_isWordByte c (by simp [isWordByte, hdigit])
        refine h.point (Bool.and_eq_true _ _ ▸ ⟨hpoint.1, ?_⟩)
        rw [hf.head_append hblank hhead]
        exact hdigit
    · intro hsign
      rw [Bool.and_eq_true, decide_eq_true_eq] at hsign
      obtain ⟨rfl, hinterface⟩ := hsign
      -- No operator of several characters begins with the sign of an annotation.
      have hmore : more = [] := by
        rw [h.measure_eq] at hn
        exact List.length_eq_zero_iff.mp (Prod.mk.inj hn).2.symm
      subst hmore
      refine h.sign (Bool.and_eq_true _ _ ▸ ⟨by decide, ?_⟩)
      rw [startsWith_iff] at hinterface ⊢
      exact hl ("@", "interface") (by decide) rfl hinterface
  have hfind := find?_longSymbols_eq hlongest hlongest'
  rw [List.cons_append, List.cons_append] at hfind
  rw [h'.measure_eq, hfind, ← h.measure_eq, hn]

theorem eq_nonSealed
    (h : (b :: (more ++ rest).takeWhile isWordByte = Text.encode "non" &&
      startsWith "-sealed" ((more ++ rest).dropWhile isWordByte)) = true)
    (hlength : more.length = 9) : b :: more = Text.encode "non-sealed" := by
  rw [Bool.and_eq_true, decide_eq_true_eq, startsWith_iff] at h
  obtain ⟨hnon, tail, hsealed⟩ := h
  have hsource : b :: (more ++ rest) = Text.encode "non-sealed" ++ tail := by
    rw [← List.takeWhile_append_dropWhile (p := isWordByte) (l := more ++ rest), ← List.cons_append,
      hnon, ← hsealed]
    rfl
  rw [← List.cons_append] at hsource
  refine List.append_inj_left hsource ?_
  rw [List.length_cons, hlength]
  rfl

theorem eq_interface (h : (b = byte '@' && startsWith "interface" (more ++ rest)) = true)
    (hlength : more.length = 9) : b :: more = Text.encode "@interface" := by
  rw [Bool.and_eq_true, decide_eq_true_eq, startsWith_iff] at h
  obtain ⟨rfl, hinterface⟩ := h
  have hmore : Text.encode "interface" = more :=
    (prefix_left hinterface hlength.ge).eq_of_length hlength.symm
  rw [← hmore]
  rfl

/-- A token stays as it is before other bytes, unless they lure it to go on. -/
theorem Fits.of_follows (h : Fits kind text rest) (hkind : kind.IsToken) (hf : Follows rest rest')
    (hl : Unlured text rest rest') : Fits kind text rest' := by
  -- One case for each branch of the lexer. Blanks and comments are no tokens.
  obtain ⟨b, more, rfl⟩ := h.exists_cons
  rw [fits_cons] at h ⊢
  have hmeasure := h
  revert h
  fun_cases measure b (more ++ rest) with
  | case1 => exact fun h => absurd (Prod.mk.inj h).1.symm hkind.1
  | case2 => exact fun h => absurd (Prod.mk.inj h).1.symm hkind.2.1
  | case3 => exact fun h => absurd (Prod.mk.inj h).1.symm hkind.2.2
  | case4 hblank hline hcomment hdigit hex =>
    intro h
    obtain ⟨rfl, hn⟩ := Prod.mk.inj h
    have hn : numberRest (isHex b (more ++ rest)) b (more ++ rest) = more.length := hn
    rw [measure_digit hdigit, isHex_append hf hn, numberRest_append hf hn]
  | case5 hblank hline hcomment hdigit hdot =>
    intro h
    obtain ⟨rfl, hn⟩ := Prod.mk.inj h
    rw [Bool.and_eq_true, decide_eq_true_eq] at hdot
    obtain ⟨rfl, hhead⟩ := hdot
    exact point_append hf hhead hn
  | case6 hblank hline hcomment hdigit hdot hword word after hnon =>
    intro h
    obtain ⟨rfl, hn⟩ := Prod.mk.inj h
    have htext := eq_nonSealed hnon hn.symm
    rw [← fits_cons, htext]
    rfl
  | case7 hblank hline hcomment hdigit hdot hword word after hnon =>
    intro h
    obtain ⟨rfl, hn⟩ := Prod.mk.inj h
    rw [Bool.not_eq_true] at hdigit
    exact word_append hword hdigit hnon hn hf fun hnon =>
      hl ("non", "-sealed") (by decide) hnon.symm
  | case8 hblank hline hcomment hdigit hdot hword hat =>
    intro h
    obtain ⟨rfl, hn⟩ := Prod.mk.inj h
    rw [← fits_cons, eq_interface hat hn.symm]
    rfl
  | case9 hblank hline hcomment hdigit hdot hword hat hquote hblock =>
    intro h
    obtain ⟨rfl, hn⟩ := Prod.mk.inj h
    rw [hquote]
    exact textBlock_append hf hblock hn
  | case10 hblank hline hcomment hdigit hdot hword hat hquote hblock =>
    intro h
    obtain ⟨rfl, hn⟩ := Prod.mk.inj h
    rw [hquote] at hn ⊢
    obtain ⟨hopen, hclosed⟩ := string_append hf hblock hn
    rw [measure_quote, if_neg hopen, hclosed]
  | case11 hblank hline hcomment hdigit hdot hword hat hquote hapostrophe =>
    intro h
    obtain ⟨rfl, hn⟩ := Prod.mk.inj h
    rw [hapostrophe] at hn ⊢
    rw [measure_apostrophe]
    rcases quotedRest_append hn with rfl | ⟨-, hclosed⟩
    · rw [hf.ends rfl, hn]
    · rw [hclosed]
  | case12 hblank hline hcomment hdigit hdot hword hat hquote hapostrophe
  | case13 hblank hline hcomment hdigit hdot hword hat hquote hapostrophe =>
    intro h
    obtain ⟨rfl, -⟩ := Prod.mk.inj h
    rw [Bool.not_eq_true] at hblank hdigit hword
    exact symbol_append ⟨hblank, hline, hcomment, hdigit, hdot, hword, hat, hquote, hapostrophe⟩
      hmeasure hf hl

/-! ### The last byte of a token -/

theorem numberRest_not_blank {hex : Bool} {last : UInt8}
    (h : numberRest hex last (more ++ rest) = more.length) : ∀ c ∈ more, isBlankByte c = false := by
  induction more generalizing last with
  | nil => exact nofun
  | cons c more ih =>
    rw [List.cons_append, numberRest_cons, List.length_cons] at h
    split at h
    · rename_i hgoes
      have hmore : numberRest hex c (more ++ rest) = more.length := by omega
      exact List.forall_mem_cons.mpr ⟨not_blank_of_goesOn hgoes, ih hmore⟩
    · cases h

/-- A token that does not end the source does not end with a blank. -/
theorem Fits.getLast? (h : Fits kind text rest) (hkind : kind.IsToken) (hrest : rest ≠ []) :
    ∀ c ∈ text.getLast?, isBlankByte c = false := by
  have hall : (∀ c ∈ text, isBlankByte c = false) → ∀ c ∈ text.getLast?, isBlankByte c = false :=
    fun hall c hc => hall c (List.mem_of_getLast? hc)
  -- A literal ends with its quote.
  have hquoted : ∀ {b quote : UInt8} {more : Bytes}, text = b :: more → isBlankByte quote = false →
      more.getLast? = some quote → ∀ c ∈ text.getLast?, isBlankByte c = false := by
    rintro b quote more rfl hquote hlast c hc
    rw [getLast?_cons_of_eq_some hlast] at hc
    cases hc
    exact hquote
  obtain ⟨b, more, rfl⟩ := h.exists_cons
  rw [fits_cons] at h
  revert h
  fun_cases measure b (more ++ rest) with
  | case1 => exact fun h => absurd (Prod.mk.inj h).1.symm hkind.1
  | case2 => exact fun h => absurd (Prod.mk.inj h).1.symm hkind.2.1
  | case3 => exact fun h => absurd (Prod.mk.inj h).1.symm hkind.2.2
  | case4 hblank | case5 hblank =>
    intro h
    rw [Bool.not_eq_true] at hblank
    exact hall (List.forall_mem_cons.mpr ⟨hblank, numberRest_not_blank (Prod.mk.inj h).2⟩)
  | case6 hblank hline hcomment hdigit hdot hword word after hnon =>
    intro h
    rw [eq_nonSealed hnon (Prod.mk.inj h).2.symm]
    decide +kernel
  | case7 hblank hline hcomment hdigit hdot hword word after hnon =>
    intro h
    have hmore := (takeWhile_of_length (Prod.mk.inj h).2).1
    exact hall (List.forall_mem_cons.mpr ⟨not_blank_of_isWordByte b hword, fun c hc =>
      not_blank_of_isWordByte c (hmore c hc)⟩)
  | case8 hblank hline hcomment hdigit hdot hword hat =>
    intro h
    rw [eq_interface hat (Prod.mk.inj h).2.symm]
    decide +kernel
  | case9 hblank hline hcomment hdigit hdot hword hat hquote hblock =>
    intro h
    obtain ⟨inner, rfl, hinner⟩ := exists_textBlock hblock (Prod.mk.inj h).2
    have hlast := ((textBlockRest_append hinner).resolve_left hrest).1
    exact hquoted rfl (by decide : isBlankByte (byte '"') = false)
      (getLast?_cons_of_eq_some (getLast?_cons_of_eq_some hlast))
  | case10 hblank hline hcomment hdigit hdot hword hat hquote hblock =>
    intro h
    have hlast := ((quotedRest_append (Prod.mk.inj h).2).resolve_left hrest).1
    exact hquoted rfl (by rw [hquote]; decide) hlast
  | case11 hblank hline hcomment hdigit hdot hword hat hquote hapostrophe =>
    intro h
    have hlast := ((quotedRest_append (Prod.mk.inj h).2).resolve_left hrest).1
    exact hquoted rfl (by rw [hapostrophe]; decide) hlast
  | case12 hblank hline hcomment hdigit hdot hword hat hquote hapostrophe symbol hfind =>
    intro h
    have hsymbol := List.mem_of_find?_eq_some hfind
    rw [← encode_of_find? hfind (Prod.mk.inj h).2]
    exact fun c hc => not_blank_of_mem_symbol symbol hsymbol c (List.mem_of_getLast? hc)
  | case13 hblank =>
    intro h
    rw [Bool.not_eq_true] at hblank
    obtain rfl : more = [] := List.length_eq_zero_iff.mp (Prod.mk.inj h).2.symm
    exact hall (List.forall_mem_singleton.mpr hblank)

/-- There is neither a dot nor a number sign in a word. -/
theorem Fits.word_bytes (h : Fits .word text rest) : ∀ c ∈ text, c ≠ byte '.' ∧ c ≠ byte '#' := by
  have hbyte : ∀ c : UInt8, isWordByte c = true → c ≠ byte '.' ∧ c ≠ byte '#' := by
    intro c hc
    refine ⟨?_, ?_⟩
    · rintro rfl
      revert hc
      decide
    · rintro rfl
      revert hc
      decide
  obtain ⟨b, more, rfl⟩ := h.exists_cons
  rw [fits_cons] at h
  revert h
  fun_cases measure b (more ++ rest) with
  | case6 hblank hline hcomment hdigit hdot hword word after hnon =>
    intro h
    rw [eq_nonSealed hnon (Prod.mk.inj h).2.symm]
    decide +kernel
  | case7 hblank hline hcomment hdigit hdot hword word after hnon =>
    intro h
    have hmore := (takeWhile_of_length (Prod.mk.inj h).2).1
    exact List.forall_mem_cons.mpr ⟨hbyte b hword, fun c hc => hbyte c (hmore c hc)⟩
  | case8 hblank hline hcomment hdigit hdot hword hat =>
    intro h
    rw [eq_interface hat (Prod.mk.inj h).2.symm]
    decide +kernel
  | case1 | case2 | case3 | case4 | case5 | case9 | case10 | case11 | case12 | case13 =>
    exact fun h => absurd (Prod.mk.inj h).1 (by decide)

end Apidoc.Java.Lexer
