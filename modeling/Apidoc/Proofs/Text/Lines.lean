import Apidoc.Proofs.Text.Blank
import Apidoc.Text.Lines

/-!
# `Apidoc.Proofs.Text.Lines`: cutting into lines and joining them

A text is read from its end, one line separator or one other character at a time
(`lines_induction`). No line holds a line separator (`isLine_of_mem_lines`). Lines that are
joined by line feeds are the lines of the text that comes out, if the last one is not empty
(`lines_unlines`): an empty last line cannot be seen. Neither way is anything but blanks lost or
added (`flatMap_squeeze_lines`, `squeeze_unlines`). Where line feeds are the only separators,
with or without a carriage return, there are as many lines as line feeds say (`length_lines`).
-/

set_option autoImplicit false

namespace Apidoc.Text

/-- No character of the text ends a line. -/
def IsLine (cs : List Char) : Prop := ∀ c ∈ cs, isBreak c = false

variable {cs line : List Char}

/-- A carriage return and a line feed end a line together. -/
theorem lines_pair (rest : List Char) : lines ('\r' :: '\n' :: rest) = [] :: lines rest := rfl

/-- A separator that is not the first half of a pair ends an empty line. -/
theorem lines_break {c : Char} (hc : isBreak c = true) {rest : List Char}
    (hpair : c = '\r' → rest.head? ≠ some '\n') : lines (c :: rest) = [] :: lines rest := by
  rw [lines, if_pos hc]
  rintro tail hreturn rfl
  exact hpair hreturn rfl

/-- A character that ends no line goes on with the first line of what follows. -/
theorem lines_cons {c : Char} (hc : isBreak c = false) (rest : List Char) :
    lines (c :: rest) =
      match lines rest with
      | [] => [[c]]
      | line :: below => (c :: line) :: below := by
  rw [lines]
  · exact if_neg (by simp [hc])
  · -- A carriage return ends a line.
    rintro tail rfl
    exact absurd hc (by decide)

/-- Induction from the end of a text: what stands in front of the rest is a pair that ends a line, a
separator alone, or another character. -/
theorem lines_induction {motive : List Char → Prop} (nil : motive [])
    (pair : ∀ rest, motive rest → motive ('\r' :: '\n' :: rest))
    (alone : ∀ c rest, isBreak c = true → (c = '\r' → rest.head? ≠ some '\n') → motive rest →
      motive (c :: rest))
    (other : ∀ c rest, isBreak c = false → motive rest → motive (c :: rest))
    (cs : List Char) : motive cs := by
  induction cs using lines.induct with
  | case1 => exact nil
  | case2 rest ih => exact pair rest ih
  | case3 c rest hpair hc ih =>
    refine alone c rest hc (fun hreturn hhead => ?_) ih
    obtain ⟨tail, rfl⟩ := List.head?_eq_some_iff.mp hhead
    exact hpair tail hreturn rfl
  | case4 c rest hpair hc hrest ih | case5 c rest hpair hc first below hrest ih =>
    exact other c rest (Bool.eq_false_iff.mpr hc) ih

/-- Only the empty text has no lines. -/
theorem eq_nil_of_lines (h : lines cs = []) : cs = [] := by
  cases cs using lines_induction with
  | nil => rfl
  | pair rest => cases h
  | alone c rest hc hpair =>
    rw [lines_break hc hpair] at h
    cases h
  | other c rest hc =>
    rw [lines_cons hc] at h
    split at h <;> cases h

/-- No line holds a line separator. -/
theorem isLine_of_mem_lines (h : line ∈ lines cs) : IsLine line := by
  have hfirst : ∀ {c : Char} {l : List Char}, isBreak c = false → IsLine l → IsLine (c :: l) :=
    fun hc hl x hx => by
      rcases List.mem_cons.mp hx with rfl | hx
      · exact hc
      · exact hl x hx
  induction cs using lines_induction generalizing line with
  | nil => cases h
  | pair rest ih =>
    rw [lines_pair] at h
    rcases List.mem_cons.mp h with rfl | h
    · exact nofun
    · exact ih h
  | alone c rest hc hpair ih =>
    rw [lines_break hc hpair] at h
    rcases List.mem_cons.mp h with rfl | h
    · exact nofun
    · exact ih h
  | other c rest hc ih =>
    rw [lines_cons hc] at h
    cases hrest : lines rest with
    | nil =>
      rw [hrest] at h
      rw [List.mem_singleton.mp h]
      exact hfirst hc nofun
    | cons first below =>
      rw [hrest] at h ih
      rcases List.mem_cons.mp h with rfl | h
      · exact hfirst hc (ih List.mem_cons_self)
      · exact ih (List.mem_cons_of_mem _ h)

/-- A line is cut off at the line feed that follows it. -/
theorem lines_append_lineFeed (h : IsLine line) (rest : List Char) :
    lines (line ++ '\n' :: rest) = line :: lines rest := by
  induction line with
  | nil =>
    exact lines_break rfl fun hreturn => absurd hreturn (by decide)
  | cons c line ih =>
    rw [List.cons_append, lines_cons (h c List.mem_cons_self),
      ih fun x hx => h x (List.mem_cons_of_mem _ hx)]

/-- A text without line separators is its only line. -/
theorem lines_of_isLine (h : IsLine line) (hne : line ≠ []) : lines line = [line] := by
  induction line with
  | nil => exact absurd rfl hne
  | cons c rest ih =>
    rw [lines_cons (h c List.mem_cons_self)]
    by_cases hrest : rest = []
    · rw [hrest]
      rfl
    · rw [ih (fun x hx => h x (List.mem_cons_of_mem _ hx)) hrest]

/-- Whatever ends a line is a blank. -/
theorem isBlank_of_isBreak {c : Char} (h : isBreak c = true) : isBlank c = true := by
  simp only [isBreak, Bool.or_eq_true, Bool.and_eq_true, decide_eq_true_eq] at h
  simp only [isBlank, Bool.or_eq_true, Bool.and_eq_true, decide_eq_true_eq]
  omega

/-- A text of at most one line is a line, and blanks behind it. -/
theorem exists_line_of_length_le_one (h : (lines cs).length ≤ 1) :
    ∃ line blanks, cs = line ++ blanks ∧ IsLine line ∧ (∀ c ∈ blanks, isBlank c = true) ∧
      ∀ l ∈ lines cs, l = line := by
  -- Nothing stands behind a break, as it would be one more line.
  have hempty : ∀ {rest : List Char} {l : List Char}, ([] :: lines rest).length ≤ 1 →
      l ∈ [] :: lines rest → rest = [] ∧ l = [] := by
    intro rest l h hl
    rw [List.length_cons] at h
    have hrest : rest = [] := eq_nil_of_lines (List.length_eq_zero_iff.mp (by omega))
    subst hrest
    exact ⟨rfl, List.mem_singleton.mp hl⟩
  induction cs using lines_induction with
  | nil => exact ⟨[], [], rfl, nofun, nofun, nofun⟩
  | pair rest ih =>
    rw [lines_pair] at h ⊢
    obtain ⟨rfl, -⟩ := hempty h List.mem_cons_self
    exact ⟨[], ['\r', '\n'], rfl, nofun, List.all_eq_true.mp rfl, fun l hl => (hempty h hl).2⟩
  | alone c rest hc hpair ih =>
    rw [lines_break hc hpair] at h ⊢
    obtain ⟨rfl, -⟩ := hempty h List.mem_cons_self
    exact ⟨[], [c], rfl, nofun, List.forall_mem_singleton.mpr (isBlank_of_isBreak hc),
      fun l hl => (hempty h hl).2⟩
  | other c rest hc ih =>
    rw [lines_cons hc] at h ⊢
    cases hrest : lines rest with
    | nil =>
      rw [eq_nil_of_lines hrest]
      exact ⟨[c], [], rfl, List.forall_mem_singleton.mpr hc, nofun,
        fun l hl => List.mem_singleton.mp hl⟩
    | cons first below =>
      rw [hrest] at h ih
      obtain ⟨line, blanks, rfl, hline, hblanks, hall⟩ := ih h
      refine ⟨c :: line, blanks, rfl, List.forall_mem_cons.mpr ⟨hc, hline⟩, hblanks,
        fun l hl => ?_⟩
      obtain rfl : below = [] :=
        List.length_eq_zero_iff.mp (Nat.le_zero.mp (Nat.le_of_succ_le_succ h))
      rw [List.mem_singleton.mp hl, hall first List.mem_cons_self]

/-- A text of at most one line is a line once it is trimmed. -/
theorem isLine_trim (h : (lines cs).length ≤ 1) : IsLine (trim cs) := by
  obtain ⟨line, blanks, rfl, hline, hblanks, -⟩ := exists_line_of_length_le_one h
  rw [trim_append_blank hblanks]
  exact fun c hc => hline c (mem_of_mem_trim hc)

/-- A text of one line is that line once it is trimmed. -/
theorem trim_of_lines (h : lines cs = [line]) : trim cs = trim line := by
  have hsingle : (lines cs).length ≤ 1 := h ▸ Nat.le_refl 1
  obtain ⟨line', blanks, rfl, -, hblanks, hall⟩ := exists_line_of_length_le_one hsingle
  rw [trim_append_blank hblanks, hall line (by rw [h]; exact List.mem_singleton_self line)]

/-- A text without line separators has at most one line. -/
theorem length_lines_le_one (h : IsLine line) : (lines line).length ≤ 1 := by
  by_cases hne : line = []
  · rw [hne]
    exact Nat.zero_le 1
  · rw [lines_of_isLine h hne]
    exact Nat.le_refl 1

/-- Lines that are joined are the lines of the text, if the last one is not empty. -/
theorem lines_unlines {ls : List (List Char)} (h : ∀ l ∈ ls, IsLine l)
    (hlast : ∀ l ∈ ls.getLast?, l ≠ []) : lines (unlines ls) = ls := by
  induction ls with
  | nil => rfl
  | cons first rest ih =>
    by_cases hrest : rest = []
    · rw [hrest] at hlast ⊢
      exact lines_of_isLine (h first List.mem_cons_self) (hlast first rfl)
    · have hbelow : lines (unlines rest) = rest := by
        refine ih (fun l hl => h l (List.mem_cons_of_mem _ hl)) fun l hl => hlast l ?_
        rw [List.getLast?_cons_of_ne_nil hrest]
        exact hl
      rw [unlines, join_cons hrest, List.singleton_append,
        lines_append_lineFeed (h first List.mem_cons_self)]
      exact congrArg _ hbelow

/-- Cutting into lines takes blanks only. -/
theorem flatMap_squeeze_lines (cs : List Char) : (lines cs).flatMap squeeze = squeeze cs := by
  have hcons : ∀ c rest, squeeze (c :: rest) = squeeze [c] ++ squeeze rest := fun c rest =>
    squeeze_append [c] rest
  have hbreak : ∀ {c : Char}, isBreak c = true → ∀ rest, squeeze (c :: rest) = squeeze rest :=
    fun hc rest => List.filter_cons_of_neg (by simp [isBlank_of_isBreak hc])
  induction cs using lines_induction with
  | nil => rfl
  | pair rest ih =>
    rw [lines_pair, List.flatMap_cons, ih, hbreak rfl, hbreak rfl]
    rfl
  | alone c rest hc hpair ih =>
    rw [lines_break hc hpair, List.flatMap_cons, ih, hbreak hc]
    rfl
  | other c rest hc ih =>
    rw [lines_cons hc, hcons, ← ih]
    cases lines rest with
    | nil => rfl
    | cons first below =>
      dsimp only
      rw [List.flatMap_cons, hcons, List.flatMap_cons, List.append_assoc]

/-- Joining lines adds blanks only. -/
theorem squeeze_unlines (ls : List (List Char)) : squeeze (unlines ls) = ls.flatMap squeeze := by
  induction ls with
  | nil => rfl
  | cons line rest ih =>
    by_cases hrest : rest = []
    · rw [hrest]
      exact (List.append_nil (squeeze line)).symm
    · have hfeed : squeeze ['\n'] = [] := by decide
      rw [unlines] at ih ⊢
      rw [join_cons hrest, squeeze_append, squeeze_append, hfeed, List.nil_append, ih,
        List.flatMap_cons]

/-- The last lines, joined, are the end of all of them joined. -/
theorem unlines_suffix (ls ms : List (List Char)) : unlines ms <:+ unlines (ls ++ ms) := by
  induction ls with
  | nil => exact List.suffix_rfl
  | cons line rest ih =>
    by_cases hrest : rest ++ ms = []
    · rw [(List.append_eq_nil_iff.mp hrest).2]
      exact List.nil_suffix
    · have hjoin : unlines (line :: (rest ++ ms)) = line ++ (['\n'] ++ unlines (rest ++ ms)) :=
        join_cons hrest line ['\n']
      rw [List.cons_append, hjoin]
      exact ih.trans ((List.suffix_append _ _).trans (List.suffix_append _ _))

/-! ### Counting lines -/

/-- Every line separator is a line feed, or a carriage return in front of one. -/
def hasPlainBreaks : List Char → Bool
  | [] => true
  | c :: rest =>
    (!isBreak c || c = '\n' || c = '\r' && rest.head? = some '\n') && hasPlainBreaks rest

variable {xs ys : List Char}

theorem hasPlainBreaks_tail {c : Char} (h : hasPlainBreaks (c :: ys) = true) :
    hasPlainBreaks ys = true := by
  rw [hasPlainBreaks, Bool.and_eq_true] at h
  exact h.2

theorem hasPlainBreaks_right (h : hasPlainBreaks (xs ++ ys) = true) : hasPlainBreaks ys = true := by
  induction xs with
  | nil => exact h
  | cons c xs ih => exact ih (hasPlainBreaks_tail h)

/-- Up to a line feed the separators are plain too. -/
theorem hasPlainBreaks_left (h : hasPlainBreaks (xs ++ '\n' :: ys) = true) :
    hasPlainBreaks (xs ++ ['\n']) = true := by
  induction xs with
  | nil => rfl
  | cons c xs ih =>
    rw [List.cons_append, hasPlainBreaks, Bool.and_eq_true] at h ⊢
    refine ⟨?_, ih h.2⟩
    cases xs <;> exact h.1

/-- Only a line feed ends a line alone. -/
theorem eq_lineFeed_of_alone {c : Char} (h : hasPlainBreaks (c :: cs) = true)
    (hbreak : isBreak c = true) (hpair : c = '\r' → cs.head? ≠ some '\n') : c = '\n' := by
  rw [hasPlainBreaks, Bool.and_eq_true] at h
  have hplain := h.1
  simp only [hbreak, Bool.not_true, Bool.false_or, Bool.or_eq_true, Bool.and_eq_true,
    decide_eq_true_eq] at hplain
  exact hplain.resolve_right fun ⟨hreturn, hhead⟩ => hpair hreturn hhead

/-- A text has as many lines as line feeds, and one more if it does not end with one. -/
theorem length_lines (h : hasPlainBreaks cs = true) :
    (lines cs).length = cs.count '\n' + if cs.getLast?.any (· ≠ '\n') then 1 else 0 := by
  induction cs using lines_induction with
  | nil => rfl
  | pair rest ih =>
    have hrest : hasPlainBreaks rest = true := hasPlainBreaks_tail (hasPlainBreaks_tail h)
    have hlast : ('\r' :: '\n' :: rest).getLast?.any (· ≠ '\n') =
        rest.getLast?.any (· ≠ '\n') := by
      cases rest <;> rfl
    have hcount : ('\r' :: '\n' :: rest).count '\n' = rest.count '\n' + 1 := by simp
    rw [lines_pair, List.length_cons, ih hrest, hlast, hcount]
    omega
  | alone c rest hbreak hpair ih =>
    have hc : c = '\n' := eq_lineFeed_of_alone h hbreak hpair
    have hrest : hasPlainBreaks rest = true := hasPlainBreaks_tail h
    have hlast : (c :: rest).getLast?.any (· ≠ '\n') = rest.getLast?.any (· ≠ '\n') := by
      rw [hc]
      cases rest <;> rfl
    rw [lines_break hbreak hpair, List.length_cons, ih hrest, hlast, hc, List.count_cons_self]
    omega
  | other c rest hbreak ih =>
    have hc : c ≠ '\n' := by
      rintro rfl
      cases hbreak
    rw [lines_cons hbreak]
    cases hrest : lines rest with
    | nil =>
      obtain rfl := eq_nil_of_lines hrest
      simp [hc]
    | cons first below =>
      rw [hasPlainBreaks, Bool.and_eq_true] at h
      have hne : rest ≠ [] := fun hnil => by rw [hnil] at hrest; cases hrest
      rw [List.getLast?_cons_of_ne_nil hne, List.count_cons_of_ne hc, ← ih h.2, hrest]
      rfl

/-- The lines behind a line feed are the lines of what stands there. -/
theorem lines_append (xs ys : List Char) :
    lines (xs ++ '\n' :: ys) = lines (xs ++ ['\n']) ++ lines ys := by
  induction xs using lines_induction with
  | nil => rfl
  | pair rest ih =>
    simp only [List.cons_append, lines_pair, ih]
  | alone c rest hc hpair ih =>
    -- A carriage return at the end makes a pair with the line feed.
    by_cases hopen : c = '\r' ∧ rest = []
    · obtain ⟨rfl, rfl⟩ := hopen
      rfl
    · have hlines : ∀ zs, lines (c :: (rest ++ '\n' :: zs)) = [] :: lines (rest ++ '\n' :: zs) := by
        intro zs
        refine lines_break hc fun hreturn hhead => ?_
        cases rest with
        | nil => exact hopen ⟨hreturn, rfl⟩
        | cons d rest => exact hpair hreturn hhead
      rw [List.cons_append, List.cons_append, hlines, hlines, ih]
      rfl
  | other c rest hc ih =>
    have hne : lines (rest ++ ['\n']) ≠ [] := fun hnil =>
      absurd (eq_nil_of_lines hnil) (List.append_ne_nil_of_right_ne_nil rest (List.cons_ne_nil _ _))
    obtain ⟨line, below, hlines⟩ := List.exists_cons_of_ne_nil hne
    rw [List.cons_append, List.cons_append, lines_cons hc, lines_cons hc, ih, hlines]
    rfl

/-- A line feed adds no line behind a text that does not end with a separator, or ends with a
carriage return. -/
theorem lines_append_feed {c : Char} (hlast : xs.getLast? = some c)
    (hc : isBreak c = false ∨ c = '\r') : lines (xs ++ ['\n']) = lines xs := by
  have hend : ∀ {d rest}, (d :: rest).getLast? = some c → rest ≠ [] → rest.getLast? = some c :=
    fun h hne => (List.getLast?_cons_of_ne_nil hne).symm.trans h
  induction xs using lines_induction with
  | nil => cases hlast
  | pair rest ih =>
    have hlast' := hend hlast (List.cons_ne_nil _ _)
    by_cases hrest : rest = []
    · rw [hrest] at hlast'
      cases hlast'
      exact absurd hc (by decide)
    · simp only [List.cons_append, lines_pair, ih (hend hlast' hrest)]
  | alone d rest hbreak hpair ih =>
    by_cases hrest : rest = []
    · subst hrest
      cases hlast
      obtain rfl := hc.resolve_left (by simp [hbreak])
      rfl
    · have hfirst : lines (d :: (rest ++ ['\n'])) = [] :: lines (rest ++ ['\n']) := by
        refine lines_break hbreak fun hreturn hhead => ?_
        obtain ⟨e, rest, rfl⟩ := List.exists_cons_of_ne_nil hrest
        exact hpair hreturn hhead
      rw [List.cons_append, hfirst, lines_break hbreak hpair, ih (hend hlast hrest)]
  | other d rest hbreak ih =>
    rw [List.cons_append, lines_cons hbreak, lines_cons hbreak]
    by_cases hrest : rest = []
    · rw [hrest]
      rfl
    · rw [ih (hend hlast hrest)]

/-! ### Separators read as line feeds -/

/-- A character that does not begin a pair is read alone. -/
theorem unifyBreaks_cons {c : Char} {rest : List Char} (h : c = '\r' → rest.head? ≠ some '\n') :
    unifyBreaks (c :: rest) = (if c = '\r' then '\n' else c) :: unifyBreaks rest := by
  rw [unifyBreaks]
  rintro tail rfl rfl
  exact h rfl rfl

theorem unifyBreaks_ne_nil (h : xs ≠ []) : unifyBreaks xs ≠ [] := by
  fun_cases unifyBreaks xs with
  | case1 => exact absurd rfl h
  | case2 | case3 => exact List.cons_ne_nil _ _

/-- Texts that do not meet in the middle of a pair are read apart. -/
theorem unifyBreaks_append (h : xs.getLast? = some '\r' → ys.head? ≠ some '\n') :
    unifyBreaks (xs ++ ys) = unifyBreaks xs ++ unifyBreaks ys := by
  have hbehind : ∀ (c : Char) {rest : List Char}, rest.getLast? = some '\r' →
      (c :: rest).getLast? = some '\r' := fun c rest hlast => by
    rw [List.getLast?_cons, hlast]
    rfl
  induction xs using unifyBreaks.induct with
  | case1 => rfl
  | case2 rest ih =>
    exact congrArg ('\n' :: ·) (ih fun hlast => h (hbehind _ (hbehind _ hlast)))
  | case3 c rest hpair ih =>
    have hrest : c = '\r' → rest.head? ≠ some '\n' := fun hc hhead => by
      obtain ⟨tail, rfl⟩ := List.head?_eq_some_iff.mp hhead
      exact hpair tail hc rfl
    -- With nothing behind it, the character stands in front of the second text.
    have hmore : c = '\r' → (rest ++ ys).head? ≠ some '\n' := fun hc => by
      cases rest with
      | nil => exact h (congrArg some hc)
      | cons d rest => exact hrest hc
    rw [List.cons_append, unifyBreaks_cons hrest, unifyBreaks_cons hmore,
      ih fun hlast => h (hbehind c hlast)]
    rfl

/-- The lines of a text, joined by line feeds, are the text, but for a line feed at its end. -/
theorem unifyBreaks_eq (h : hasPlainBreaks xs = true) :
    unifyBreaks xs = unlines (lines xs) ++ if xs.getLast? = some '\n' then ['\n'] else [] := by
  -- An empty line in front of the others is a line feed.
  have hfeed : ∀ {rest : List Char}, unifyBreaks rest =
        unlines (lines rest) ++ (if rest.getLast? = some '\n' then ['\n'] else []) →
      '\n' :: unifyBreaks rest = unlines ([] :: lines rest) ++
        if ('\n' :: rest).getLast? = some '\n' then ['\n'] else [] := by
    intro rest ih
    by_cases hrest : rest = []
    · rw [hrest]
      rfl
    · have hlines : lines rest ≠ [] := fun hnil => hrest (eq_nil_of_lines hnil)
      rw [List.getLast?_cons_of_ne_nil hrest, ih]
      simp only [unlines, join_cons hlines]
      rfl
  induction xs using lines_induction with
  | nil => rfl
  | pair rest ih =>
    have hrest := hasPlainBreaks_tail (hasPlainBreaks_tail h)
    rw [lines_pair, List.getLast?_cons_of_ne_nil (List.cons_ne_nil _ _)]
    exact hfeed (ih hrest)
  | alone c rest hbreak hpair ih =>
    obtain rfl := eq_lineFeed_of_alone h hbreak hpair
    rw [unifyBreaks_cons fun heq => absurd heq (by decide), lines_break hbreak hpair]
    exact hfeed (ih (hasPlainBreaks_tail h))
  | other c rest hbreak ih =>
    have hreturn : c ≠ '\r' := by
      rintro rfl
      cases hbreak
    have hc : c ≠ '\n' := by
      rintro rfl
      cases hbreak
    rw [unifyBreaks_cons fun heq => absurd heq hreturn, if_neg hreturn,
      ih (hasPlainBreaks_tail h), lines_cons hbreak]
    cases hlines : lines rest with
    | nil =>
      rw [eq_nil_of_lines hlines]
      simp [unlines, join, hc]
    | cons first below =>
      have hne : rest ≠ [] := by
        rintro rfl
        cases hlines
      rw [List.getLast?_cons_of_ne_nil hne]
      cases below <;> rfl

end Apidoc.Text
