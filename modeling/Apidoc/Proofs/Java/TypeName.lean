import Apidoc.Java.TypeName
import Apidoc.Proofs.Text.Blank

/-!
# `Apidoc.Proofs.Java.TypeName`: texts that erasure leaves alone

Erasure only takes characters away (`erase_sublist`), so a text stays as it is exactly if
there is nothing to take: no annotation, no angle bracket, no blank
(`erase_eq_self_iff`). It follows that whatever lies in one piece in such a text stays as
it is too.

A member is referred to by its signature, and the page knows it by the same signature.
`normalize_signature` shows that the canonical form of a signature is the signature, if
its parameter types are settled: erasing them again changes nothing.
-/

set_option autoImplicit false

namespace Apidoc.Java

open Apidoc.Text

namespace TypeName

variable {cs : List Char}

/-! ### Erasure takes characters away -/

/-- Leaving out the arguments of an annotation leaves an end of the text. -/
theorem dropArguments_suffix (cs : List Char) : dropArguments cs <:+ cs := by
  unfold dropArguments
  split
  · rename_i rest
    rcases cutAt_cases ')' rest with ⟨-, hcut⟩ | ⟨front, after, -, hrest, hcut⟩
    · rw [hcut]
      exact List.suffix_refl _
    · rw [hcut, hrest, Option.getD_some]
      exact ⟨'(' :: front ++ [')'], by simp⟩
  · exact List.suffix_refl _

/-- What follows an annotation is an end of the text. -/
theorem afterAnnotationSign_suffix (cs : List Char) : afterAnnotationSign cs <:+ cs :=
  (List.dropWhile_suffix _).trans ((dropArguments_suffix _).trans (List.dropWhile_suffix _))

theorem dropAnnotations_sublist (cs : List Char) : (dropAnnotations cs).Sublist cs := by
  fun_induction dropAnnotations cs with
  | case1 => exact List.Sublist.refl _
  | case2 c rest _ ih => exact ih.trans ((afterAnnotationSign_suffix rest).sublist.cons c)
  | case3 c rest _ ih => exact ih.cons_cons c

theorem outsideAngles_sublist (depth : Nat) (cs : List Char) :
    (outsideAngles depth cs).Sublist cs := by
  induction cs generalizing depth with
  | nil => exact List.Sublist.refl _
  | cons c rest ih =>
    unfold outsideAngles
    split
    · exact (ih _).cons c
    · split
      · exact (ih _).cons c
      · split
        · exact (ih _).cons_cons c
        · exact (ih _).cons c

/-- Erasure only takes characters away. -/
theorem erase_sublist (cs : List Char) : (erase cs).Sublist cs :=
  List.filter_sublist.trans ((outsideAngles_sublist 0 _).trans (dropAnnotations_sublist cs))

/-! ### Texts that stay as they are -/

/-- Nowhere does the sign of an annotation stand in front of a character of its name. -/
def HasNoAnnotations (cs : List Char) : Prop := ∀ c, isAnnotationName c = true → ¬ ['@', c] <:+: cs

/-- A sign in front of a character of a name opens an annotation. -/
theorem opens_iff {c : Char} {rest : List Char} :
    (c = '@' && rest.head?.any isAnnotationName) = true ↔
      ∃ d, isAnnotationName d = true ∧ ['@', d] <+: c :: rest := by
  cases rest with
  | nil => simp [List.cons_prefix_cons]
  | cons d after =>
    simp only [List.head?_cons, Option.any_some, Bool.and_eq_true, decide_eq_true_eq,
      List.cons_prefix_cons, List.nil_prefix, and_true]
    constructor
    · exact fun h => ⟨d, h.2, h.1.symm, rfl⟩
    · rintro ⟨e, he, hsign, rfl⟩
      exact ⟨hsign.symm, he⟩

/-- A text without annotations stays, and only such a text does. -/
theorem dropAnnotations_eq_self_iff : dropAnnotations cs = cs ↔ HasNoAnnotations cs := by
  induction cs with
  | nil =>
    refine ⟨fun _ c _ h => ?_, fun _ => by rw [dropAnnotations]⟩
    exact absurd h.length_le (by simp)
  | cons c rest ih =>
    have hcons : HasNoAnnotations (c :: rest) ↔
        ¬ (c = '@' && rest.head?.any isAnnotationName) = true ∧ HasNoAnnotations rest := by
      simp only [HasNoAnnotations, List.infix_cons_iff, not_or, opens_iff, not_exists, not_and]
      exact ⟨fun h => ⟨fun d hd => (h d hd).1, fun d hd => (h d hd).2⟩,
        fun h d hd => ⟨h.1 d hd, h.2 d hd⟩⟩
    rw [hcons, dropAnnotations]
    split
    · rename_i hopens
      -- The sign is taken away, so the text gets shorter.
      have hshorter := (dropAnnotations_sublist (afterAnnotationSign rest)).length_le
      have hrest := length_afterAnnotationSign_le rest
      refine ⟨fun h => ?_, fun h => absurd hopens h.1⟩
      have hlength := congrArg List.length h
      rw [List.length_cons] at hlength
      omega
    · rename_i hopens
      rw [List.cons.injEq, ih]
      exact ⟨fun h => ⟨hopens, h.2⟩, fun h => ⟨rfl, h.2⟩⟩

/-- What is left outside angle brackets has none of them. -/
theorem not_angle_of_mem_outsideAngles {depth : Nat} {c : Char} (h : c ∈ outsideAngles depth cs) :
    c ≠ '<' ∧ c ≠ '>' := by
  induction cs generalizing depth with
  | nil => exact absurd h List.not_mem_nil
  | cons d rest ih =>
    unfold outsideAngles at h
    split at h
    · exact ih h
    · rename_i hopen
      split at h
      · exact ih h
      · rename_i hclose
        split at h
        · rcases List.mem_cons.mp h with rfl | h
          · exact ⟨hopen, hclose⟩
          · exact ih h
        · exact ih h

/-- A text without angle brackets lies outside of them. -/
theorem outsideAngles_eq_self (h : ∀ c ∈ cs, c ≠ '<' ∧ c ≠ '>') : outsideAngles 0 cs = cs := by
  induction cs with
  | nil => rfl
  | cons c rest ih =>
    obtain ⟨hopen, hclose⟩ := h c List.mem_cons_self
    rw [outsideAngles, if_neg hopen, if_neg hclose, if_pos rfl,
      ih fun d hd => h d (List.mem_cons_of_mem _ hd)]

/-- Erasure leaves a text alone exactly if it has no annotation, no angle bracket and no blank. -/
theorem erase_eq_self_iff : erase cs = cs ↔
    HasNoAnnotations cs ∧ ∀ c ∈ cs, (c ≠ '<' ∧ c ≠ '>') ∧ isBlank c = false := by
  constructor
  · intro h
    -- Each step only takes away, and at the end nothing is gone, so no step takes anything.
    have hsqueeze : (erase cs).Sublist (outsideAngles 0 (dropAnnotations cs)) := List.filter_sublist
    have hangles := outsideAngles_sublist 0 (dropAnnotations cs)
    have hdrop := dropAnnotations_sublist cs
    rw [h] at hsqueeze
    have hannotations : dropAnnotations cs = cs :=
      hdrop.eq_of_length_le (hsqueeze.trans hangles).length_le
    rw [hannotations] at hsqueeze hangles
    have houtside : outsideAngles 0 cs = cs := hangles.eq_of_length_le hsqueeze.length_le
    rw [erase, hannotations, houtside] at h
    refine ⟨dropAnnotations_eq_self_iff.mp hannotations, fun c hc => ⟨?_, ?_⟩⟩
    · rw [← houtside] at hc
      exact not_angle_of_mem_outsideAngles hc
    · exact squeeze_eq_self_iff.mp h c hc
  · rintro ⟨hannotations, hplain⟩
    rw [erase, dropAnnotations_eq_self_iff.mpr hannotations,
      outsideAngles_eq_self fun c hc => (hplain c hc).1,
      squeeze_eq_self_iff.mpr fun c hc => (hplain c hc).2]

/-- What lies in one piece in a text that erasure leaves alone is left alone too. -/
theorem erase_eq_self_of_infix {part : List Char} (h : erase cs = cs) (hpart : part <:+: cs) :
    erase part = part := by
  obtain ⟨hannotations, hplain⟩ := erase_eq_self_iff.mp h
  exact erase_eq_self_iff.mpr
    ⟨fun c hc hsign => hannotations c hc (hsign.trans hpart), fun c hc => hplain c (hpart.subset hc)⟩

/-- Erasing the type again changes nothing, and no part between its commas is empty. -/
def IsSettled (cs : List Char) : Prop := erase cs = cs ∧ [] ∉ splitOn (· = ',') cs

instance (cs : List Char) : Decidable (IsSettled cs) :=
  inferInstanceAs (Decidable (_ ∧ _))

end TypeName

/-! ### Names -/

/-- A character that neither a reader of type texts nor one of descriptors takes for a mark. -/
def isPlain (c : Char) : Bool :=
  !isBlank c && decide (c ∉ ['#', '(', ')', '<', '>', '@', ',', '[', ']'])

/-- The characters that are not plain. -/
theorem isPlain_iff {c : Char} : isPlain c = true ↔ isBlank c = false ∧ c ≠ '#' ∧ c ≠ '(' ∧
    c ≠ ')' ∧ c ≠ '<' ∧ c ≠ '>' ∧ c ≠ '@' ∧ c ≠ ',' ∧ c ≠ '[' ∧ c ≠ ']' := by
  simp [isPlain]

/-- A text of plain characters that does not end with a dot, such as an identifier or a qualified name
written without blanks. -/
structure IsPlainName (s : String) : Prop where
  nonempty : s ≠ ""
  plain : ∀ c ∈ s.toList, isPlain c = true
  last : s.toList.getLast? ≠ some '.'

instance (s : String) : Decidable (IsPlainName s) :=
  decidable_of_iff (s ≠ "" ∧ s.toList.all isPlain = true ∧ s.toList.getLast? ≠ some '.')
    ⟨fun h => ⟨h.1, List.all_eq_true.mp h.2.1, h.2.2⟩,
      fun h => ⟨h.nonempty, List.all_eq_true.mpr h.plain, h.last⟩⟩

namespace IsPlainName

variable {s : String}

theorem not_blank (h : IsPlainName s) : ∀ c ∈ s.toList, isBlank c = false :=
  fun c hc => (isPlain_iff.mp (h.plain c hc)).1

/-- A plain name has no mark. -/
theorem not_mem (h : IsPlainName s) {c : Char} (hc : isPlain c = false) : c ∉ s.toList := by
  intro hmem
  rw [h.plain c hmem] at hc
  cases hc

theorem toList_ne_nil (h : IsPlainName s) : s.toList ≠ [] := by
  intro hnil
  exact h.nonempty (String.toList_inj.mp hnil)

/-- Erasure leaves a plain name alone. -/
theorem erase_eq (h : IsPlainName s) : TypeName.erase s.toList = s.toList := by
  refine TypeName.erase_eq_self_iff.mpr ⟨fun c _ hsign => ?_, fun c hc => ?_⟩
  · exact h.not_mem (c := '@') (by decide) (hsign.subset List.mem_cons_self)
  · have hplain := isPlain_iff.mp (h.plain c hc)
    exact ⟨⟨hplain.2.2.2.2.1, hplain.2.2.2.2.2.1⟩, hplain.1⟩

end IsPlainName

/-! ### Descriptors -/

namespace Descriptor

/-- A parameter list without angle brackets is split at its commas, if no part is empty. -/
theorem parameters_eq_splitOn {current cs : List Char} (hcurrent : ',' ∉ current)
    (hangles : ∀ c ∈ cs, c ≠ '<' ∧ c ≠ '>') (hparts : [] ∉ splitOn (· = ',') (current ++ cs)) :
    parameters 0 current cs = splitOn (· = ',') (current ++ cs) := by
  induction cs generalizing current with
  | nil =>
    rw [List.append_nil, splitOn_of_not_mem hcurrent] at hparts ⊢
    rw [parameters, if_neg fun h => hparts (List.mem_singleton.mpr h.symm)]
  | cons c rest ih =>
    obtain ⟨hopen, hclose⟩ := hangles c List.mem_cons_self
    have hrest : ∀ d ∈ rest, d ≠ '<' ∧ d ≠ '>' := fun d hd => hangles d (List.mem_cons_of_mem _ hd)
    rw [parameters]
    simp only [if_neg hopen, if_neg hclose]
    by_cases hcomma : c = ','
    · subst hcomma
      rw [splitOn_append_cons (decide_eq_true rfl), splitOn_of_not_mem hcurrent] at hparts ⊢
      rw [if_pos (by decide), ih List.not_mem_nil hrest]
      · rfl
      · exact fun h => hparts (List.mem_append_right _ h)
    · have happend : current ++ c :: rest = current ++ [c] ++ rest := List.append_cons ..
      rw [happend] at hparts ⊢
      rw [if_neg (by simp [hcomma])]
      refine ih ?_ hrest hparts
      rw [List.mem_append, List.mem_singleton, not_or]
      exact ⟨hcurrent, fun h => hcomma h.symm⟩

/-- Only the closing parenthesis is left out at the end of a parameter list. -/
theorem beforeLast_append_singleton (c : Char) (cs : List Char) : beforeLast c (cs ++ [c]) = cs := by
  simp [beforeLast]

/-- A plain name has no sign in front that is left out, whatever follows it. -/
theorem dropWhile_sharp {s : String} (h : IsPlainName s) (rest : List Char) :
    (s.toList ++ rest).dropWhile (· = '#') = s.toList ++ rest := by
  obtain ⟨c, after, hs⟩ := List.exists_cons_of_ne_nil h.toList_ne_nil
  have hc : c ≠ '#' := by
    rintro rfl
    exact h.not_mem (c := '#') (by decide) (hs ▸ List.mem_cons_self)
  rw [hs, List.cons_append, List.dropWhile_cons_of_neg (by simpa using hc)]

/-- A plain name is its own canonical form. -/
theorem normalize_of_plain {s : String} (h : IsPlainName s) : normalize s.toList = s.toList := by
  have hsharp := dropWhile_sharp h []
  rw [List.append_nil] at hsharp
  rw [normalize, trim_eq_self h.not_blank, hsharp,
    cutAt_of_not_mem (h.not_mem (c := '(') (by decide))]
  exact squeeze_eq_self_iff.mpr h.not_blank

/-- Settled parameter types are read back from their list, and erasing them again changes nothing. -/
theorem erase_parameters {types : List (List Char)} (hsettled : ∀ t ∈ types, TypeName.IsSettled t) :
    ((parameters 0 [] (join [','] types)).map TypeName.erase).filter (· ≠ [])
      = parameters 0 [] (join [','] types) ∧
    join [','] (parameters 0 [] (join [','] types)) = join [','] types := by
  by_cases htypes : types = []
  · rw [htypes]
    exact ⟨rfl, rfl⟩
  have hsplit := splitOn_join ',' htypes
  have hparts : [] ∉ splitOn (· = ',') (join [','] types) := by
    rw [hsplit, List.mem_flatMap]
    rintro ⟨t, ht, hempty⟩
    exact (hsettled t ht).2 hempty
  have hangles : ∀ c ∈ join [','] types, c ≠ '<' ∧ c ≠ '>' := by
    intro c hc
    rcases mem_join hc with hcomma | ⟨t, ht, hc⟩
    · rw [List.mem_singleton.mp hcomma]
      decide
    · exact ((TypeName.erase_eq_self_iff.mp (hsettled t ht).1).2 c hc).1
  -- The list is split where the types were joined, and at the commas that a type has itself.
  have hread : parameters 0 [] (join [','] types) = splitOn (· = ',') (join [','] types) :=
    parameters_eq_splitOn List.not_mem_nil hangles hparts
  rw [hread]
  refine ⟨?_, join_splitOn ',' _⟩
  have herase : ∀ part ∈ splitOn (· = ',') (join [','] types), TypeName.erase part = part := by
    intro part hpart
    rw [hsplit, List.mem_flatMap] at hpart
    obtain ⟨t, ht, hpart⟩ := hpart
    exact TypeName.erase_eq_self_of_infix (hsettled t ht).1 (infix_of_mem_splitOn hpart)
  rw [(List.map_congr_left herase).trans (List.map_id' _), List.filter_eq_self]
  intro part hpart
  rw [decide_eq_true_eq]
  rintro rfl
  exact hparts hpart

/-- The signature of a plain name with settled parameter types is its own canonical form. -/
theorem normalize_signature {s : String} (h : IsPlainName s) {types : List (List Char)}
    (hsettled : ∀ t ∈ types, TypeName.IsSettled t) :
    normalize (s.toList ++ '(' :: (join [','] types ++ [')']))
      = s.toList ++ '(' :: (join [','] types ++ [')']) := by
  have hblank : ∀ c ∈ s.toList ++ '(' :: (join [','] types ++ [')']), isBlank c = false := by
    intro c hc
    rcases List.mem_append.mp hc with hc | hc
    · exact h.not_blank c hc
    rcases List.mem_cons.mp hc with rfl | hc
    · decide
    rcases List.mem_append.mp hc with hc | hc
    · rcases mem_join hc with hcomma | ⟨t, ht, hc⟩
      · rw [List.mem_singleton.mp hcomma]
        decide
      · exact ((TypeName.erase_eq_self_iff.mp (hsettled t ht).1).2 c hc).2
    · rw [List.mem_singleton.mp hc]
      decide
  obtain ⟨herase, hjoin⟩ := erase_parameters hsettled
  rw [normalize, trim_eq_self hblank, dropWhile_sharp h,
    cutAt_append_cons (h.not_mem (c := '(') (by decide))]
  simp only [beforeLast_append_singleton, herase, hjoin, trim_eq_self h.not_blank]
  rw [List.append_assoc, List.cons_append]

end Descriptor

end Apidoc.Java
