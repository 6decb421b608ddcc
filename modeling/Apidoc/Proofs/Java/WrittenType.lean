import Apidoc.Proofs.Java.TypeName

/-!
# `Apidoc.Proofs.Java.WrittenType`: what erasure leaves of a written type

A type is written with annotations, with type arguments and with blanks anywhere between its tokens
(`WrittenType`). Its name, with the brackets or the ellipsis behind it, is what stands outside of
all these (`WrittenType.name`). Erasure is meant to leave the name and nothing else.

Of most annotations erasure leaves nothing. It does leave something if there is a closing
parenthesis among the arguments, a character in the name that belongs to no word, or a blank in
front of the name or of the arguments (`WrittenAnnotation.IsWritten.isSimple`). Such a remainder
stays in front of what follows, whatever that is, because an annotation is read apart from the rest
(`TypeName.squeeze_dropAnnotations_append`). So erasure is right exactly if it leaves nothing of the
annotations outside of type arguments (`WrittenType.erase_text_eq_name_iff`). This is said of types
where no remainder has an angle bracket, which would also open or close type arguments.
-/

set_option autoImplicit false

namespace Apidoc.Java

open Apidoc.Text
open Apidoc.Java.TypeName (dropAnnotations isAnnotationName)

/-! ### Types as they are written -/

/-- A character that is no part of a name, of its dots or of brackets, but begins or ends something
else. -/
def isMark (c : Char) : Bool := c ∈ ['<', '>', '@', '(', ')']

/-- An annotation of a type. -/
structure WrittenAnnotation where
  /-- What stands behind the sign, up to the arguments. -/
  name : List Char
  /-- What stands between the parentheses, if there are any. -/
  arguments : Option (List Char)

namespace WrittenAnnotation

/-- The text of the arguments, with the parentheses. -/
def argumentsText (a : WrittenAnnotation) : List Char :=
  match a.arguments with
  | none => []
  | some inside => '(' :: (inside ++ [')'])

def text (a : WrittenAnnotation) : List Char := '@' :: (a.name ++ a.argumentsText)

/-- There is no mark in the name, and no blank behind it unless arguments follow. The arguments may
hold anything. -/
structure IsWritten (a : WrittenAnnotation) : Prop where
  name : ∀ c ∈ a.name, isMark c = false
  last : a.arguments = none → ∀ c ∈ a.name.getLast?, isBlank c = false

-- The bounded quantifiers are written as tests, so that no instance runs through all characters.
instance (a : WrittenAnnotation) : Decidable a.IsWritten :=
  decidable_of_iff ((a.name.all fun c => !isMark c) = true ∧
      (a.arguments = none → (a.name.getLast?.all fun c => !isBlank c) = true))
    ⟨fun h => ⟨by simpa using h.1, by simpa [Option.all_eq_true] using h.2⟩,
      fun h => ⟨by simpa using h.name, by simpa [Option.all_eq_true] using h.last⟩⟩

/-- What erasure leaves of the annotation. -/
def left (a : WrittenAnnotation) : List Char := squeeze (dropAnnotations a.text)

/-- The name is made of words and dots, and the arguments begin right behind it and end at the first
closing parenthesis. -/
structure IsSimple (a : WrittenAnnotation) : Prop where
  ne_nil : a.name ≠ []
  name : ∀ c ∈ a.name, isAnnotationName c = true
  arguments : ∀ inside ∈ a.arguments, ')' ∉ inside

end WrittenAnnotation

/-- A type as it is written, from left to right: characters of its name and brackets and blanks, and
between them annotations and type arguments. -/
inductive WrittenType where
  | done
  | char (c : Char) (rest : WrittenType)
  | annotated (a : WrittenAnnotation) (rest : WrittenType)
  | arguments (inside rest : WrittenType)

namespace WrittenType

def text : WrittenType → List Char
  | done => []
  | char c rest => c :: rest.text
  | annotated a rest => a.text ++ rest.text
  | arguments inside rest => '<' :: (inside.text ++ '>' :: rest.text)

/-- The dotted name and the brackets or the ellipsis behind it: all that is no blank and stands
outside of annotations and type arguments. -/
def name : WrittenType → List Char
  | done => []
  | char c rest => squeeze [c] ++ rest.name
  | annotated _ rest => rest.name
  | arguments _ rest => rest.name

/-- Characters in a row, in front of the rest. -/
def chars (cs : List Char) (rest : WrittenType) : WrittenType := cs.foldr char rest

/-- All annotations, those in type arguments included. -/
def annotations : WrittenType → List WrittenAnnotation
  | done => []
  | char _ rest => rest.annotations
  | annotated a rest => a :: rest.annotations
  | arguments inside rest => inside.annotations ++ rest.annotations

/-- The annotations outside of type arguments. -/
def outer : WrittenType → List WrittenAnnotation
  | done => []
  | char _ rest => rest.outer
  | annotated a rest => a :: rest.outer
  | arguments _ rest => rest.outer

/-- Marks stand only where they are meant, and the name of an annotation without arguments does not
go on behind it. -/
def IsWritten : WrittenType → Prop
  | done => True
  | char c rest => isMark c = false ∧ rest.IsWritten
  | annotated a rest => a.IsWritten ∧
      (a.arguments = none → ∀ c ∈ rest.text.head?, isAnnotationName c = false) ∧ rest.IsWritten
  | arguments inside rest => inside.IsWritten ∧ rest.IsWritten

instance decidableIsWritten : (t : WrittenType) → Decidable t.IsWritten
  | done => .isTrue trivial
  | char _ rest =>
    have := decidableIsWritten rest
    inferInstanceAs (Decidable (_ ∧ _))
  | annotated a rest =>
    have := decidableIsWritten rest
    decidable_of_iff (a.IsWritten ∧ (a.arguments = none →
        (rest.text.head?.all fun c => !isAnnotationName c) = true) ∧ rest.IsWritten)
      (by simp [IsWritten, Option.all_eq_true])
  | arguments inside rest =>
    have := decidableIsWritten inside
    have := decidableIsWritten rest
    inferInstanceAs (Decidable (_ ∧ _))

/-- What is left of the text once annotations and blanks are taken out of it. -/
def left : WrittenType → List Char
  | done => []
  | char c rest => squeeze [c] ++ rest.left
  | annotated a rest => a.left ++ rest.left
  | arguments inside rest => '<' :: (inside.left ++ '>' :: rest.left)

end WrittenType

/-! ### Texts that are read apart -/

namespace TypeName

variable {cs front back : List Char}

/-- Every opening parenthesis has a closing one behind it. -/
def IsClosed (cs : List Char) : Prop := ∀ front back, cs = front ++ '(' :: back → ')' ∈ back

theorem IsClosed.suffix {cs ds : List Char} (h : IsClosed cs) (hsuffix : ds <:+ cs) :
    IsClosed ds := by
  obtain ⟨lead, rfl⟩ := hsuffix
  intro front back hds
  exact h (lead ++ front) back (by rw [hds, List.append_assoc])

/-- No name of an annotation goes on from the first text into the second one. -/
def IsBorder (front back : List Char) : Prop :=
  (∀ c ∈ front.getLast?, isAnnotationName c = false ∧ c ≠ '@') ∨
    ∀ c ∈ back.head?, isAnnotationName c = false ∧ c ≠ '('

theorem IsBorder.suffix {ds : List Char} (h : IsBorder front back) (hsuffix : ds <:+ front) :
    IsBorder ds back := by
  refine h.imp_left fun hlast c hc => hlast c ?_
  obtain ⟨lead, rfl⟩ := hsuffix
  rw [List.getLast?_append, hc]
  rfl

theorem squeeze_cons (c : Char) (cs : List Char) : squeeze (c :: cs) = squeeze [c] ++ squeeze cs :=
  squeeze_append [c] cs

theorem dropAnnotations_cons {c : Char} (hc : c ≠ '@') (cs : List Char) :
    dropAnnotations (c :: cs) = c :: dropAnnotations cs := by
  rw [dropAnnotations, if_neg (by simp [hc])]

/-- Blanks in front of a text are taken out of it in any case. -/
theorem squeeze_dropAnnotations_trimStart (cs : List Char) :
    squeeze (dropAnnotations (trimStart cs)) = squeeze (dropAnnotations cs) := by
  induction cs with
  | nil => rfl
  | cons c cs ih =>
    by_cases hc : isBlank c = true
    · have htrim : trimStart (c :: cs) = trimStart cs := List.dropWhile_cons_of_pos hc
      have hsign : c ≠ '@' := ne_of_isBlank hc (by decide)
      have hsqueeze : squeeze [c] = [] := squeeze_of_blank (by simpa using hc)
      rw [htrim, ih, dropAnnotations_cons hsign, squeeze_cons, hsqueeze, List.nil_append]
    · have htrim : trimStart (c :: cs) = c :: cs := List.dropWhile_cons_of_neg hc
      rw [htrim]

/-- What does not begin with arguments is left alone. -/
theorem dropArguments_eq_self (h : ∀ c ∈ cs.head?, c ≠ '(') : dropArguments cs = cs := by
  unfold dropArguments
  split
  · exact absurd rfl (h '(' rfl)
  · rfl

/-- Arguments end at the first closing parenthesis. -/
theorem dropArguments_append {inside : List Char} (h : ')' ∉ inside) (rest : List Char) :
    dropArguments ('(' :: (inside ++ ')' :: rest)) = rest := by
  rw [dropArguments, cutAt_append_cons h]
  rfl

/-- Whether an annotation begins in a text is seen in front of the border. -/
theorem IsBorder.opens_append {c : Char} {more : List Char} (h : IsBorder (c :: more) back) :
    (c = '@' && (more ++ back).head?.any isAnnotationName) =
      (c = '@' && more.head?.any isAnnotationName) := by
  cases more with
  | cons d more => rfl
  | nil =>
    rcases h with hlast | hhead
    · simp [(hlast c rfl).2]
    · cases back with
      | nil => rfl
      | cons d back => simp [(hhead d rfl).1]

/-- The name and the arguments of an annotation end in front of the border. -/
theorem dropArguments_dropWhile_append (hclosed : IsClosed front) (hborder : IsBorder front back)
    (hopens : front.head?.any isAnnotationName = true) :
    dropArguments ((front ++ back).dropWhile isAnnotationName) =
      dropArguments (front.dropWhile isAnnotationName) ++ back := by
  rw [List.dropWhile_append]
  cases hname : front.dropWhile isAnnotationName with
  | nil =>
    -- The name reaches to the border, so nothing behind it belongs to the annotation.
    have hall := List.dropWhile_eq_nil_iff.mp hname
    have hhead : ∀ d ∈ back.head?, isAnnotationName d = false ∧ d ≠ '(' := by
      refine hborder.resolve_left fun hlast => ?_
      have hne : front ≠ [] := by
        rintro rfl
        cases hopens
      have hother := hlast _ (List.getLast?_eq_some_getLast hne)
      rw [hall _ (List.getLast_mem hne)] at hother
      cases hother.1
    rw [List.isEmpty_nil, if_pos rfl, dropWhile_eq_self fun d hd => (hhead d hd).1,
      dropArguments_eq_self fun d hd => (hhead d hd).2]
    rfl
  | cons d rest =>
    rw [List.isEmpty_cons, if_neg Bool.false_ne_true, List.cons_append]
    by_cases hd : d = '('
    · subst hd
      obtain ⟨lead, hlead⟩ : '(' :: rest <:+ front := hname ▸ List.dropWhile_suffix _
      obtain ⟨inside, after, rfl, hinside⟩ :=
        List.eq_append_cons_of_mem (hclosed lead rest hlead.symm)
      rw [List.append_assoc, List.cons_append, dropArguments_append hinside,
        dropArguments_append hinside]
    · have hself : ∀ tail, dropArguments (d :: tail) = d :: tail := fun tail =>
        dropArguments_eq_self (by rintro _ ⟨⟩; exact hd)
      rw [hself, hself, List.cons_append]

/-- Texts with a border between them are read apart. The induction is on the length of the first
one, since a whole annotation is taken out of it at once. -/
theorem squeeze_dropAnnotations_append (hclosed : IsClosed front) (hborder : IsBorder front back) :
    squeeze (dropAnnotations (front ++ back)) =
      squeeze (dropAnnotations front) ++ squeeze (dropAnnotations back) := by
  induction hn : front.length using Nat.strongRecOn generalizing front with
  | _ n ih =>
    cases front with
    | nil =>
      rw [dropAnnotations]
      rfl
    | cons c more =>
      have hmore : more <:+ c :: more := List.suffix_cons c more
      have hlater : ∀ later : List Char, later <:+ more →
          squeeze (dropAnnotations (later ++ back)) =
            squeeze (dropAnnotations later) ++ squeeze (dropAnnotations back) := by
        intro later hsuffix
        have hlength : later.length < n := by
          rw [← hn, List.length_cons]
          exact Nat.lt_succ_of_le hsuffix.length_le
        exact ih _ hlength (hclosed.suffix (hsuffix.trans hmore))
          (hborder.suffix (hsuffix.trans hmore)) rfl
      rw [List.cons_append, dropAnnotations, dropAnnotations, hborder.opens_append]
      split
      · rename_i hopens
        have hname : more.head?.any isAnnotationName = true := (Bool.and_eq_true_iff.mp hopens).2
        rw [afterAnnotationSign, afterAnnotationSign, squeeze_dropAnnotations_trimStart,
          squeeze_dropAnnotations_trimStart,
          dropArguments_dropWhile_append (hclosed.suffix hmore) (hborder.suffix hmore) hname]
        exact hlater _ ((dropArguments_suffix _).trans (List.dropWhile_suffix _))
      · rw [squeeze_cons, hlater more (List.suffix_refl more),
          squeeze_cons c (dropAnnotations more), List.append_assoc]

/-- Blanks may be taken out before or after what stands between angle brackets. -/
theorem squeeze_outsideAngles (depth : Nat) (cs : List Char) :
    squeeze (outsideAngles depth cs) = outsideAngles depth (squeeze cs) := by
  induction cs generalizing depth with
  | nil => rfl
  | cons c cs ih =>
    by_cases hc : isBlank c = true
    · -- A blank is no angle bracket.
      have hopen : c ≠ '<' := ne_of_isBlank hc (by decide)
      have hclose : c ≠ '>' := ne_of_isBlank hc (by decide)
      have hsqueeze : ∀ ds, squeeze (c :: ds) = squeeze ds := fun ds =>
        List.filter_cons_of_neg (by simp [hc])
      rw [outsideAngles, if_neg hopen, if_neg hclose, hsqueeze, ← ih]
      split
      · exact hsqueeze _
      · rfl
    · have hsqueeze : ∀ ds, squeeze (c :: ds) = c :: squeeze ds := fun ds =>
        List.filter_cons_of_pos (by simp [hc])
      rw [hsqueeze, outsideAngles, outsideAngles]
      split
      · exact ih _
      split
      · exact ih _
      split
      · rw [hsqueeze, ih]
      · exact ih _

/-- A text without angle brackets stands inside or outside of them as a whole. -/
theorem outsideAngles_append (h : ∀ c ∈ front, c ≠ '<' ∧ c ≠ '>') (depth : Nat) :
    outsideAngles depth (front ++ back) =
      (if depth = 0 then front else []) ++ outsideAngles depth back := by
  induction front with
  | nil => simp
  | cons c front ih =>
    obtain ⟨⟨hopen, hclose⟩, hfront⟩ := List.forall_mem_cons.mp h
    rw [List.cons_append, outsideAngles, if_neg hopen, if_neg hclose, ih hfront]
    split <;> rfl

end TypeName

open Apidoc.Java.TypeName (IsBorder IsClosed afterAnnotationSign dropArguments erase outsideAngles)

namespace WrittenAnnotation

variable {a : WrittenAnnotation}

theorem IsWritten.not_mem (h : a.IsWritten) {c : Char} (hc : isMark c = true) : c ∉ a.name := by
  intro hmem
  rw [h.name c hmem] at hc
  cases hc

theorem text_of_none (h : a.arguments = none) : a.text = '@' :: a.name := by
  rw [text, argumentsText, h, List.append_nil]

/-- An annotation with arguments ends with the closing parenthesis. -/
theorem text_of_some {inside : List Char} (h : a.arguments = some inside) :
    a.text = '@' :: (a.name ++ '(' :: inside) ++ [')'] := by
  rw [text, argumentsText, h]
  simp

/-- The arguments of an annotation are closed. -/
theorem IsWritten.isClosed_text (h : a.IsWritten) : IsClosed a.text := by
  intro front back htext
  have hname : '(' ∉ '@' :: a.name := by
    have hnot := h.not_mem (c := '(') (by decide)
    simpa using hnot
  cases harguments : a.arguments with
  | none =>
    have hmem : '(' ∈ a.text := htext ▸ List.mem_append_right _ List.mem_cons_self
    rw [text_of_none harguments] at hmem
    exact absurd hmem hname
  | some inside =>
    have hlast : a.text.getLast? = some ')' := by
      rw [text_of_some harguments, List.getLast?_concat]
    rw [htext, List.getLast?_append, List.getLast?_cons] at hlast
    cases hback : back.getLast? with
    | none =>
      rw [hback] at hlast
      cases hlast
    | some c =>
      rw [hback] at hlast
      cases hlast
      exact List.mem_of_getLast? hback

/-- An annotation is read apart from what follows it. -/
theorem IsWritten.squeeze_dropAnnotations (h : a.IsWritten) {back : List Char}
    (hback : a.arguments = none → ∀ c ∈ back.head?, isAnnotationName c = false ∧ c ≠ '(') :
    squeeze (dropAnnotations (a.text ++ back)) = a.left ++ squeeze (dropAnnotations back) := by
  refine TypeName.squeeze_dropAnnotations_append h.isClosed_text ?_
  cases harguments : a.arguments with
  | none => exact .inr (hback harguments)
  | some inside =>
    refine .inl fun c hc => ?_
    rw [text_of_some harguments, List.getLast?_concat] at hc
    cases hc
    decide

/-- Nothing is left of a simple annotation. -/
theorem IsSimple.left_eq_nil (h : a.IsSimple) : a.left = [] := by
  obtain ⟨c, name, hname⟩ := List.exists_cons_of_ne_nil h.ne_nil
  have hopens : ('@' = '@' && (a.name ++ a.argumentsText).head?.any isAnnotationName) = true := by
    rw [hname]
    simpa using h.name c (hname ▸ List.mem_cons_self)
  have harguments : dropArguments (a.argumentsText.dropWhile isAnnotationName) = [] := by
    rw [argumentsText]
    cases hinside : a.arguments with
    | none => rfl
    | some inside => exact TypeName.dropArguments_append (h.arguments inside hinside) []
  rw [left, text, dropAnnotations, if_pos hopens, afterAnnotationSign,
    List.dropWhile_append_of_pos h.name, harguments, TypeName.squeeze_dropAnnotations_trimStart,
    dropAnnotations]
  rfl

/-- An annotation does not end with a blank. -/
theorem IsWritten.not_blank_last (hw : a.IsWritten) :
    ∀ c ∈ (a.name ++ a.argumentsText).getLast?, isBlank c = false := by
  rw [argumentsText]
  cases harguments : a.arguments with
  | none =>
    rw [List.append_nil]
    exact hw.last harguments
  | some inside =>
    intro c hc
    change c ∈ (a.name ++ '(' :: (inside ++ [')'])).getLast? at hc
    rw [← List.cons_append, ← List.append_assoc, List.getLast?_concat] at hc
    cases hc
    decide

/-- If nothing is left of an annotation, the sign opens one, and without a further sign nothing
stands behind what is taken for the annotation. -/
theorem IsWritten.eq_nil_of_left (hw : a.IsWritten) (hsign : '@' ∉ a.argumentsText)
    (h : a.left = []) : (a.name ++ a.argumentsText).head?.any isAnnotationName = true ∧
      dropArguments ((a.name ++ a.argumentsText).dropWhile isAnnotationName) = [] := by
  rw [left, text, dropAnnotations] at h
  split at h
  · rename_i hopens
    refine ⟨by simpa using hopens, ?_⟩
    rw [afterAnnotationSign, TypeName.squeeze_dropAnnotations_trimStart] at h
    have hsuffix : dropArguments ((a.name ++ a.argumentsText).dropWhile isAnnotationName) <:+
        a.name ++ a.argumentsText :=
      (TypeName.dropArguments_suffix _).trans (List.dropWhile_suffix _)
    have hnone : TypeName.HasNoAnnotations
        (dropArguments ((a.name ++ a.argumentsText).dropWhile isAnnotationName)) := by
      intro c _ hpart
      have hmem := hsuffix.subset (hpart.subset List.mem_cons_self)
      exact (List.mem_append.mp hmem).elim (hw.not_mem (by decide)) hsign
    rw [TypeName.dropAnnotations_eq_self_iff.mpr hnone, squeeze, List.filter_eq_nil_iff] at h
    exact eq_nil_of_blank_suffix hw.not_blank_last hsuffix fun c hc => by simpa using h c hc
  · -- The sign itself is left, if it opens nothing.
    rw [TypeName.squeeze_cons] at h
    have hsqueeze : squeeze ['@'] = ['@'] := by decide
    rw [hsqueeze] at h
    cases h

/-- The name of an annotation is made of words and dots if nothing stands behind what is taken for
the annotation. -/
theorem IsWritten.name_of_eq_nil (hw : a.IsWritten)
    (h : dropArguments ((a.name ++ a.argumentsText).dropWhile isAnnotationName) = []) :
    ∀ c ∈ a.name, isAnnotationName c = true := by
  cases hdrop : a.name.dropWhile isAnnotationName with
  | nil => exact List.dropWhile_eq_nil_iff.mp hdrop
  | cons d more =>
    -- The name goes on with something else, which is left.
    have hd : d ∈ a.name := (List.dropWhile_suffix _).subset (hdrop ▸ List.mem_cons_self)
    have hparenthesis : ∀ c ∈ (d :: (more ++ a.argumentsText)).head?, c ≠ '(' := by
      rintro _ ⟨⟩ rfl
      exact hw.not_mem (by decide) hd
    rw [List.dropWhile_append, hdrop, List.isEmpty_cons, if_neg Bool.false_ne_true,
      List.cons_append, TypeName.dropArguments_eq_self hparenthesis] at h
    cases h

/-- Nothing is left of an annotation without a further sign only if it is simple. -/
theorem IsWritten.isSimple (hw : a.IsWritten) (hsign : '@' ∉ a.argumentsText)
    (h : a.left = []) : a.IsSimple := by
  obtain ⟨hhead, hnil⟩ := hw.eq_nil_of_left hsign h
  have hname := hw.name_of_eq_nil hnil
  have hparenthesis : isAnnotationName '(' = false := by decide
  refine ⟨?_, hname, ?_⟩
  · intro hempty
    rw [hempty, argumentsText] at hhead
    cases harguments : a.arguments with
    | none =>
      rw [harguments] at hhead
      cases hhead
    | some inside =>
      rw [harguments] at hhead
      exact Bool.false_ne_true (hparenthesis.symm.trans hhead)
  · intro inside hinside hmem
    -- Behind the first closing parenthesis there is still the last one.
    obtain ⟨front, rest, rfl, hfront⟩ := List.eq_append_cons_of_mem hmem
    have hsplit : a.argumentsText = '(' :: (front ++ ')' :: (rest ++ [')'])) := by
      rw [argumentsText, Option.mem_def.mp hinside]
      simp
    rw [List.dropWhile_append_of_pos hname, hsplit,
      List.dropWhile_cons_of_neg (by simp [hparenthesis]),
      TypeName.dropArguments_append hfront] at hnil
    exact List.append_ne_nil_of_right_ne_nil rest (List.cons_ne_nil _ _) hnil

end WrittenAnnotation

namespace WrittenType

variable {t : WrittenType}

/-- The text of a type does not begin with a parenthesis. -/
theorem IsWritten.head?_text (h : t.IsWritten) : t.text.head? ≠ some '(' := by
  cases t with
  | done => nofun
  | char c rest =>
    intro hhead
    have hmark : isMark '(' = false := Option.some.inj hhead ▸ h.1
    exact absurd hmark (by decide)
  | annotated a rest => nofun
  | arguments inside rest => nofun

/-- Annotations and blanks are taken out of a type piece by piece. -/
theorem IsWritten.squeeze_dropAnnotations (h : t.IsWritten) {back : List Char}
    (hback : ∀ c ∈ back.head?, isAnnotationName c = false ∧ c ≠ '(') :
    squeeze (dropAnnotations (t.text ++ back)) = t.left ++ squeeze (dropAnnotations back) := by
  induction t generalizing back with
  | done => rfl
  | char c rest ih =>
    obtain ⟨hmark, hrest⟩ := h
    have hsign : c ≠ '@' := by
      rintro rfl
      exact absurd hmark (by decide)
    rw [text, left, List.cons_append, TypeName.dropAnnotations_cons hsign, TypeName.squeeze_cons,
      ih hrest hback, List.append_assoc]
  | annotated a rest ih =>
    obtain ⟨ha, hnext, hrest⟩ := h
    rw [text, left, List.append_assoc, ha.squeeze_dropAnnotations, ih hrest hback,
      List.append_assoc]
    intro hnone c hc
    -- What follows the annotation is the rest of the type, or what follows the type.
    cases hcs : rest.text with
    | nil =>
      rw [hcs] at hc
      exact hback c hc
    | cons d more =>
      rw [hcs] at hc
      have hd : rest.text.head? = some c := by rw [hcs]; exact hc
      refine ⟨hnext hnone c hd, ?_⟩
      rintro rfl
      exact hrest.head?_text hd
  | arguments inside rest ihinside ihrest =>
    obtain ⟨hinside, hrest⟩ := h
    have hclose : ∀ c ∈ ('>' :: (rest.text ++ back)).head?,
        isAnnotationName c = false ∧ c ≠ '(' := by
      rintro _ ⟨⟩
      decide
    have hopen : squeeze ['<'] = ['<'] := by decide
    have hclose' : squeeze ['>'] = ['>'] := by decide
    rw [text, left, List.cons_append, List.append_assoc, List.cons_append,
      TypeName.dropAnnotations_cons (by decide), TypeName.squeeze_cons, hopen,
      ihinside hinside hclose, TypeName.dropAnnotations_cons (by decide),
      TypeName.squeeze_cons, hclose', ihrest hrest hback]
    simp

/-- Erasure drops the type arguments from what is left of a type. -/
theorem IsWritten.erase_text (h : t.IsWritten) : erase t.text = outsideAngles 0 t.left := by
  have hleft : squeeze (dropAnnotations (t.text ++ [])) = t.left ++ squeeze (dropAnnotations []) :=
    h.squeeze_dropAnnotations nofun
  have hnil : squeeze (dropAnnotations []) = [] := by
    rw [dropAnnotations]
    rfl
  rw [List.append_nil, hnil, List.append_nil] at hleft
  rw [erase, TypeName.squeeze_outsideAngles, hleft]

/-- No angle bracket is left of any annotation. -/
def KeepsAngles (t : WrittenType) : Prop := ∀ a ∈ t.annotations, ∀ c ∈ a.left, c ≠ '<' ∧ c ≠ '>'

instance (t : WrittenType) : Decidable t.KeepsAngles :=
  decidable_of_iff ((t.annotations.all fun a => a.left.all fun c => c ≠ '<' && c ≠ '>') = true)
    (by simp [KeepsAngles])

/-- What is left outside of type arguments. -/
def outerLeft : WrittenType → List Char
  | done => []
  | char c rest => squeeze [c] ++ rest.outerLeft
  | annotated a rest => a.left ++ rest.outerLeft
  | arguments _ rest => rest.outerLeft

/-- A character of a type that is no mark is no angle bracket. -/
theorem not_angle_of_squeeze {c d : Char} (hc : isMark c = false) (hd : d ∈ squeeze [c]) :
    d ≠ '<' ∧ d ≠ '>' := by
  obtain rfl := List.mem_singleton.mp (List.mem_filter.mp hd).1
  constructor <;>
    · rintro rfl
      cases hc

/-- Inside of type arguments everything is dropped, and outside only the type arguments are. -/
theorem IsWritten.outsideAngles_left (h : t.IsWritten) (hangles : t.KeepsAngles) (depth : Nat)
    (back : List Char) : outsideAngles depth (t.left ++ back) =
      (if depth = 0 then t.outerLeft else []) ++ outsideAngles depth back := by
  induction t generalizing depth back with
  | done =>
    show outsideAngles depth back = (if depth = 0 then [] else []) ++ outsideAngles depth back
    rw [ite_self, List.nil_append]
  | char c rest ih =>
    rw [left, outerLeft, List.append_assoc,
      TypeName.outsideAngles_append (fun d hd => not_angle_of_squeeze h.1 hd), ih h.2 hangles]
    split
    · rw [List.append_assoc]
    · rfl
  | annotated a rest ih =>
    obtain ⟨hleft, hrest⟩ := List.forall_mem_cons.mp hangles
    rw [left, outerLeft, List.append_assoc, TypeName.outsideAngles_append hleft, ih h.2.2 hrest]
    split
    · rw [List.append_assoc]
    · rfl
  | arguments inside rest ihinside ihrest =>
    obtain ⟨hinside, hrest⟩ := List.forall_mem_append.mp hangles
    -- What is inside is dropped one bracket deeper, and the closing bracket leads back.
    have hsplit : (arguments inside rest).left ++ back =
        '<' :: (inside.left ++ '>' :: (rest.left ++ back)) := by
      rw [left]
      simp
    rw [hsplit, outsideAngles, if_pos rfl, ihinside h.1 hinside, if_neg (Nat.succ_ne_zero depth),
      List.nil_append, outsideAngles, if_neg (by decide), if_pos rfl, Nat.add_sub_cancel,
      ihrest h.2 hrest, outerLeft]

/-- Without angle brackets among what is left of annotations, erasure drops type arguments and
nothing else. -/
theorem IsWritten.erase_eq_outerLeft (h : t.IsWritten) (hangles : t.KeepsAngles) :
    erase t.text = t.outerLeft := by
  have houtside := h.outsideAngles_left hangles 0 []
  rw [List.append_nil, if_pos rfl] at houtside
  rw [h.erase_text, houtside, outsideAngles, List.append_nil]

/-- What is left of annotations is left in front of parts of the name. -/
theorem name_sublist_outerLeft : t.name.Sublist t.outerLeft := by
  induction t with
  | done => exact List.Sublist.refl _
  | char c rest ih => exact (List.Sublist.refl _).append ih
  | annotated a rest ih => exact ih.trans (List.sublist_append_right _ _)
  | arguments inside rest _ ih => exact ih

theorem outerLeft_eq_name_iff : t.outerLeft = t.name ↔ ∀ a ∈ t.outer, a.left = [] := by
  induction t with
  | done => exact ⟨fun _ => nofun, fun _ => rfl⟩
  | char c rest ih => rw [outerLeft, name, List.append_right_inj, ih, outer]
  | annotated a rest ih =>
    rw [outerLeft, name, outer, List.forall_mem_cons, ← ih]
    constructor
    · intro h
      -- The name is no longer than what is left of the rest alone.
      have hlength := congrArg List.length h
      have hle := (name_sublist_outerLeft (t := rest)).length_le
      rw [List.length_append] at hlength
      have hnil : a.left = [] := List.length_eq_zero_iff.mp (by omega)
      rw [hnil] at h
      exact ⟨hnil, h⟩
    · rintro ⟨hnil, hrest⟩
      rw [hnil, hrest, List.nil_append]
  | arguments inside rest _ ih => exact ih

theorem mem_annotations_of_mem_outer {a : WrittenAnnotation} (h : a ∈ t.outer) :
    a ∈ t.annotations := by
  induction t with
  | done => exact h
  | char c rest ih => exact ih h
  | annotated b rest ih =>
    rcases List.mem_cons.mp h with rfl | h
    · exact List.mem_cons_self
    · exact List.mem_cons_of_mem _ (ih h)
  | arguments inside rest _ ih => exact List.mem_append_right _ (ih h)

/-- The annotations of a written type are written. -/
theorem IsWritten.of_mem_annotations (h : t.IsWritten) {a : WrittenAnnotation}
    (ha : a ∈ t.annotations) : a.IsWritten := by
  induction t with
  | done => exact absurd ha List.not_mem_nil
  | char c rest ih => exact ih h.2 ha
  | annotated b rest ih =>
    rcases List.mem_cons.mp ha with rfl | ha
    · exact h.1
    · exact ih h.2.2 ha
  | arguments inside rest ihinside ihrest =>
    rcases List.mem_append.mp ha with ha | ha
    · exact ihinside h.1 ha
    · exact ihrest h.2 ha

/-- The erased text of a type with simple annotations only is its name. -/
theorem IsWritten.erase_eq_name (h : t.IsWritten) (hsimple : ∀ a ∈ t.annotations, a.IsSimple) :
    erase t.text = t.name := by
  have hleft : ∀ a ∈ t.annotations, a.left = [] := fun a ha => (hsimple a ha).left_eq_nil
  -- Nothing is left of any annotation, so no angle bracket is.
  have hangles : t.KeepsAngles := by
    intro a ha c hc
    rw [hleft a ha] at hc
    exact absurd hc List.not_mem_nil
  rw [h.erase_eq_outerLeft hangles, outerLeft_eq_name_iff]
  exact fun a ha => hleft a (mem_annotations_of_mem_outer ha)

/-- The erased text of a type is its name exactly if nothing is left of the annotations outside of
type arguments. Nothing is left of an annotation that is simple, and of one without a further sign
only if it is simple. -/
theorem erase_text_eq_name_iff (h : t.IsWritten) (hangles : t.KeepsAngles) :
    (erase t.text = t.name ↔ ∀ a ∈ t.outer, a.left = []) ∧
      ∀ a ∈ t.outer, (a.IsSimple → a.left = []) ∧
        ('@' ∉ a.argumentsText → a.left = [] → a.IsSimple) := by
  refine ⟨?_, fun a ha => ⟨fun hsimple => hsimple.left_eq_nil, fun hsign => ?_⟩⟩
  · rw [h.erase_eq_outerLeft hangles]
    exact outerLeft_eq_name_iff
  · exact (h.of_mem_annotations (mem_annotations_of_mem_outer ha)).isSimple hsign

/-- An annotated name, an annotated type argument with a parenthesis in a string, and an annotated
pair of brackets. -/
def annotatedMap : WrittenType :=
  chars ("java.util.".toList) (annotated ⟨"A".toList, some ("1".toList)⟩ (chars (" Map".toList)
    (arguments (chars ("K, ".toList) (annotated ⟨"B".toList, some ("x = \")\"".toList)⟩
        (chars (" V".toList) done)))
      (chars [' '] (annotated ⟨"C".toList, none⟩ (chars (" []".toList) done))))))

theorem erase_text_eq_name_iff_annotatedMap :
    annotatedMap.text = "java.util.@A(1) Map<K, @B(x = \")\") V> @C []".toList ∧
      annotatedMap.IsWritten ∧ annotatedMap.KeepsAngles ∧
      TypeName.erase annotatedMap.text = "java.util.Map[]".toList := by
  have hwritten : annotatedMap.IsWritten := by decide
  have hangles : annotatedMap.KeepsAngles := by decide +kernel
  have houter : ∀ a ∈ annotatedMap.outer, a.left = [] := by decide +kernel
  have herase := (erase_text_eq_name_iff hwritten hangles).1.mpr houter
  exact ⟨by decide, hwritten, hangles, herase.trans (by decide)⟩

/-- An annotation with an annotation among its arguments. -/
def nestedAnnotation : WrittenType :=
  annotated ⟨"A".toList, some ("x = @B(1)".toList)⟩ (chars (" String".toList) done)

/-- The arguments of an annotation are taken to end with those of the annotation inside of them, and
their own parenthesis remains. -/
theorem erase_text_nestedAnnotation :
    nestedAnnotation.text = "@A(x = @B(1)) String".toList ∧ nestedAnnotation.IsWritten ∧
      nestedAnnotation.name = "String".toList ∧
      TypeName.erase nestedAnnotation.text = ")String".toList :=
  ⟨by decide, by decide, by decide, by decide +kernel⟩

end WrittenType

end Apidoc.Java
