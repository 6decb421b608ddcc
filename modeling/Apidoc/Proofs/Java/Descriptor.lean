import Apidoc.Proofs.Java.WrittenType

/-!
# `Apidoc.Proofs.Java.Descriptor`: the key that a descriptor stands for

A descriptor names a member and lists its parameter types, each in the way its author writes it.
`WrittenDescriptor` has the pieces of one, with blanks wherever they may stand.

A parameter type has commas only between its angle brackets, so nothing in it is split
(`WrittenType.IsPlain.parameters_text`), and each part of the list is one type with blanks around
it. What its canonical form keeps is the name of the member and the names of the types, and nothing
else (`WrittenDescriptor.IsWritten.normalize_text`). Both can be read back from it
(`WrittenDescriptor.IsWritten.key_eq_key_iff`).
-/

set_option autoImplicit false

namespace Apidoc.Java

open Apidoc.Text
open Apidoc.Java.TypeName (erase outsideAngles)

namespace Descriptor

/-! ### One character of a parameter list -/

variable {depth : Int} {current : List Char} (rest : List Char)

theorem parameters_open : parameters depth current ('<' :: rest) =
    parameters (depth + 1) (current ++ ['<']) rest := rfl

theorem parameters_close : parameters depth current ('>' :: rest) =
    parameters (depth - 1) (current ++ ['>']) rest := rfl

theorem parameters_comma : parameters 0 current (',' :: rest) = current :: parameters 0 [] rest :=
  rfl

theorem parameters_cons {c : Char} (hangle : c ≠ '<' ∧ c ≠ '>') (hcomma : c = ',' → depth ≠ 0) :
    parameters depth current (c :: rest) = parameters depth (current ++ [c]) rest := by
  rw [parameters]
  simp only [if_neg hangle.1, if_neg hangle.2]
  rw [if_neg]
  rw [Bool.and_eq_true, decide_eq_true_eq, decide_eq_true_eq]
  exact fun h => hcomma h.1 h.2

/-- Blanks at the end belong to the last part. -/
theorem parameters_blank {blanks : List Char} (h : ∀ c ∈ blanks, isBlank c = true)
    (current : List Char) : parameters 0 current blanks =
      if current ++ blanks = [] then [] else [current ++ blanks] := by
  induction blanks generalizing current with
  | nil => rw [List.append_nil, parameters]
  | cons c blanks ih =>
    have hc : isBlank c = true := h c List.mem_cons_self
    have hcomma : c ≠ ',' := ne_of_isBlank hc (by decide)
    rw [parameters_cons _ ⟨ne_of_isBlank hc (by decide), ne_of_isBlank hc (by decide)⟩
        fun h => absurd h hcomma,
      ih fun d hd => h d (List.mem_cons_of_mem _ hd), List.append_assoc]
    rfl

end Descriptor

/-! ### Types without annotations -/

/-- A type without annotations. -/
structure WrittenType.IsPlain (t : WrittenType) : Prop where
  isWritten : t.IsWritten
  annotations : t.annotations = []

instance (t : WrittenType) : Decidable t.IsPlain :=
  decidable_of_iff (t.IsWritten ∧ t.annotations.isEmpty = true)
    ⟨fun h => ⟨h.1, List.isEmpty_iff.mp h.2⟩,
      fun h => ⟨h.isWritten, List.isEmpty_iff.mpr h.annotations⟩⟩

/-- Without the sign of an annotation, only blanks and type arguments are taken away. -/
theorem TypeName.erase_of_no_sign {cs : List Char} (h : '@' ∉ cs) :
    erase cs = outsideAngles 0 (squeeze cs) := by
  have hnone : HasNoAnnotations cs := fun c _ hsign => h (hsign.subset List.mem_cons_self)
  rw [erase, dropAnnotations_eq_self_iff.mpr hnone, squeeze_outsideAngles]

/-- What erasure leaves of such a text is erased to itself. -/
theorem TypeName.erase_erase_of_no_sign {cs : List Char} (h : '@' ∉ cs) :
    erase (erase cs) = erase cs := by
  refine erase_eq_self_iff.mpr ⟨fun c _ hsign => ?_, fun c hc => ⟨?_, ?_⟩⟩
  · exact h ((erase_sublist cs).subset (hsign.subset List.mem_cons_self))
  · rw [erase_of_no_sign h] at hc
    exact not_angle_of_mem_outsideAngles hc
  · rw [erase, squeeze, List.mem_filter] at hc
    simpa using hc.2

namespace WrittenType.IsPlain

variable {t : WrittenType}

theorem erase_eq_name (h : t.IsPlain) : erase t.text = t.name := by
  refine h.isWritten.erase_eq_name fun a ha => ?_
  rw [h.annotations] at ha
  exact absurd ha List.not_mem_nil

/-- A type without annotations has no sign of one, and no parentheses. -/
theorem not_mem (h : t.IsPlain) {c : Char} (hmark : isMark c = true)
    (hangle : c ≠ '<' ∧ c ≠ '>') : c ∉ t.text := by
  obtain ⟨hwritten, hannotations⟩ := h
  induction t with
  | done => exact List.not_mem_nil
  | char d rest ih =>
    have hd : c ≠ d := by
      rintro rfl
      exact Bool.false_ne_true (hwritten.1.symm.trans hmark)
    rw [text, List.mem_cons, not_or]
    exact ⟨hd, ih hwritten.2 hannotations⟩
  | annotated a rest _ => cases hannotations
  | arguments inside rest ihinside ihrest =>
    obtain ⟨hinside, hrest⟩ := List.append_eq_nil_iff.mp hannotations
    rw [text, List.mem_cons, List.mem_append, List.mem_cons]
    rintro (hc | hc | hc | hc)
    · exact hangle.1 hc
    · exact ihinside hwritten.1 hinside hc
    · exact hangle.2 hc
    · exact ihrest hwritten.2 hrest hc

/-- Only blanks are taken out of a type without annotations. -/
theorem left_eq (h : t.IsPlain) : t.left = squeeze t.text := by
  obtain ⟨-, hannotations⟩ := h
  induction t with
  | done => rfl
  | char c rest ih => rw [left, text, TypeName.squeeze_cons c rest.text, ih hannotations]
  | annotated a rest _ => cases hannotations
  | arguments inside rest ihinside ihrest =>
    obtain ⟨hinside, hrest⟩ := List.append_eq_nil_iff.mp hannotations
    have hopen : squeeze ['<'] = ['<'] := by decide
    have hclose : squeeze ['>'] = ['>'] := by decide
    rw [left, text, TypeName.squeeze_cons '<', hopen, squeeze_append,
      TypeName.squeeze_cons '>' rest.text, hclose, ihinside hinside, ihrest hrest]
    rfl

/-- What stands behind a type and has no angle brackets is left behind its name. -/
theorem erase_append (h : t.IsPlain) {back : List Char} (hangle : ∀ c ∈ back, c ≠ '<' ∧ c ≠ '>')
    (hsign : '@' ∉ back) : erase (t.text ++ back) = t.name ++ squeeze back := by
  have hangles : t.KeepsAngles := by
    rw [KeepsAngles, h.annotations]
    exact fun _ ha => absurd ha List.not_mem_nil
  have hname : t.outerLeft = t.name := by
    rw [← h.isWritten.erase_eq_outerLeft hangles, h.erase_eq_name]
  have hnone : '@' ∉ t.text ++ back := by
    rw [List.mem_append, not_or]
    exact ⟨h.not_mem (by decide) (by decide), hsign⟩
  have hback : outsideAngles 0 (squeeze back) = squeeze back :=
    TypeName.outsideAngles_eq_self fun c hc => hangle c (List.mem_filter.mp hc).1
  rw [TypeName.erase_of_no_sign hnone, squeeze_append, ← h.left_eq,
    h.isWritten.outsideAngles_left hangles, if_pos rfl, hname, hback]

/-- Nothing in a type is split: its commas are between angle brackets. -/
theorem parameters_text (h : t.IsPlain) {depth : Nat} (hcomma : depth = 0 → ',' ∉ t.name)
    (current back : List Char) : Descriptor.parameters depth current (t.text ++ back) =
      Descriptor.parameters depth (current ++ t.text) back := by
  obtain ⟨hwritten, hannotations⟩ := h
  induction t generalizing depth current back with
  | done => rw [text, List.nil_append, List.append_nil]
  | char c rest ih =>
    have hangle : c ≠ '<' ∧ c ≠ '>' := by
      constructor <;>
        · rintro rfl
          exact Bool.false_ne_true (hwritten.1.symm.trans (by decide))
    have hc : c = ',' → (depth : Int) ≠ 0 := by
      rintro rfl hdepth
      exact hcomma (Int.natCast_eq_zero.mp hdepth) (List.mem_append_left _ (by decide))
    have hrest : depth = 0 → ',' ∉ rest.name := fun hdepth hmem =>
      hcomma hdepth (List.mem_append_right _ hmem)
    rw [text, List.cons_append, Descriptor.parameters_cons _ hangle hc,
      ih hrest _ _ hwritten.2 hannotations, List.append_assoc]
    rfl
  | annotated a rest _ => cases hannotations
  | arguments inside rest ihinside ihrest =>
    obtain ⟨hinside, hrest⟩ := List.append_eq_nil_iff.mp hannotations
    -- One bracket deeper no comma separates, so nothing is asked of the name inside.
    have hdown : ((depth + 1 : Nat) : Int) - 1 = depth := by omega
    rw [text, List.cons_append, List.append_assoc, List.cons_append, Descriptor.parameters_open,
      ← Int.natCast_succ, ihinside (fun hdepth => absurd hdepth (Nat.succ_ne_zero _)) _ _
      hwritten.1 hinside, Descriptor.parameters_close, hdown, ihrest hcomma _ _ hwritten.2 hrest]
    simp

end WrittenType.IsPlain

/-! ### Parameter types -/

/-- A type that a parameter can have. It has a name, and commas only between angle brackets. -/
structure WrittenType.IsParameterType (t : WrittenType) : Prop extends t.IsPlain where
  name_ne_nil : t.name ≠ []
  comma : ',' ∉ t.name

instance (t : WrittenType) : Decidable t.IsParameterType :=
  decidable_of_iff (t.IsPlain ∧ t.name ≠ [] ∧ ',' ∉ t.name)
    ⟨fun h => ⟨h.1, h.2.1, h.2.2⟩, fun h => ⟨h.toIsPlain, h.name_ne_nil, h.comma⟩⟩

namespace WrittenType.IsParameterType

variable {t : WrittenType}

/-- Blanks behind a type are taken out of its part of the list. -/
theorem erase_append_blank (h : t.IsParameterType) {blanks : List Char}
    (hblank : ∀ c ∈ blanks, isBlank c = true) : erase (t.text ++ blanks) = t.name := by
  have hangle : ∀ c ∈ blanks, c ≠ '<' ∧ c ≠ '>' := fun c hc =>
    ⟨ne_of_isBlank (hblank c hc) (by decide), ne_of_isBlank (hblank c hc) (by decide)⟩
  have hsign : '@' ∉ blanks := not_mem_of_isBlank hblank (by decide)
  rw [h.erase_append hangle hsign, squeeze_of_blank hblank, List.append_nil]

theorem text_ne_nil (h : t.IsParameterType) : t.text ≠ [] := by
  intro hnil
  have hsublist := TypeName.erase_sublist t.text
  rw [h.erase_eq_name, hnil, List.sublist_nil] at hsublist
  exact h.name_ne_nil hsublist

/-- Without open brackets a whole type goes to the part that is read. -/
theorem parameters_zero_text (h : t.IsParameterType) (back : List Char) :
    Descriptor.parameters 0 [] (t.text ++ back) = Descriptor.parameters 0 t.text back := by
  have hcomma : 0 = 0 → ',' ∉ t.name := fun _ => h.comma
  exact h.parameters_text hcomma [] back

/-- The name of a type is settled: it is erased to itself and stays in one part. -/
theorem isSettled_name (h : t.IsParameterType) : TypeName.IsSettled t.name := by
  have hsign : '@' ∉ t.text := h.not_mem (by decide) (by decide)
  constructor
  · rw [← h.erase_eq_name]
    exact TypeName.erase_erase_of_no_sign hsign
  · rw [splitOn_of_not_mem h.comma, List.mem_singleton]
    exact fun hnil => h.name_ne_nil hnil.symm

end WrittenType.IsParameterType

namespace Descriptor

/-- The parts of a list of types are the types, the last one with the blanks behind it. -/
theorem erase_parameters_join {types : List WrittenType} {blanks : List Char}
    (h : ∀ t ∈ types, t.IsParameterType) (hblank : ∀ c ∈ blanks, isBlank c = true) :
    ((parameters 0 [] (join [','] (types.map WrittenType.text) ++ blanks)).map erase).filter
      (· ≠ []) = types.map WrittenType.name := by
  induction types with
  | nil =>
    -- Without types there is at most one part, and it is blank.
    have hnone : erase blanks = [] := by
      have hsign : '@' ∉ blanks := not_mem_of_isBlank hblank (by decide)
      rw [TypeName.erase_of_no_sign hsign, squeeze_of_blank hblank]
      rfl
    show ((parameters 0 [] blanks).map erase).filter (· ≠ []) = []
    rw [parameters_blank hblank]
    split
    · rfl
    · simp [hnone]
  | cons t rest ih =>
    obtain ⟨ht, hrest⟩ := List.forall_mem_cons.mp h
    have hname : decide (t.name ≠ []) = true := decide_eq_true ht.name_ne_nil
    cases rest with
    | nil =>
      -- The part of the last type goes to the end.
      have hpart : t.text ++ blanks ≠ [] := List.append_ne_nil_of_left_ne_nil ht.text_ne_nil _
      show ((parameters 0 [] (t.text ++ blanks)).map erase).filter (· ≠ []) = [t.name]
      rw [ht.parameters_zero_text, parameters_blank hblank, if_neg hpart, List.map_singleton,
        ht.erase_append_blank hblank, List.filter_cons, if_pos hname]
      rfl
    | cons u more =>
      -- The part of any other type ends at the comma behind it.
      have hne : (u :: more).map WrittenType.text ≠ [] := List.cons_ne_nil _ _
      rw [List.map_cons, join_cons hne, List.append_assoc, ht.parameters_zero_text,
        List.singleton_append, List.cons_append, parameters_comma, List.map_cons,
        ht.erase_eq_name, List.filter_cons, if_pos hname, ih hrest]
      rfl

end Descriptor

/-! ### Descriptors as they are written -/

/-- A descriptor as it is written: a number of signs, a name and a list of types, with blanks in
five places. -/
structure WrittenDescriptor where
  lead : List Char
  /-- How many signs stand in front of the name. -/
  signs : Nat
  /-- What stands between the signs and the name. -/
  gap : List Char
  name : String
  /-- What stands between the name and the parenthesis. -/
  behind : List Char
  types : List WrittenType
  /-- What stands behind the last type. -/
  inner : List Char
  trail : List Char

namespace WrittenDescriptor

/-- The list of types, up to the closing parenthesis. -/
def listText (d : WrittenDescriptor) : List Char :=
  join [','] (d.types.map WrittenType.text) ++ d.inner

/-- The text from the name to the closing parenthesis. -/
def core (d : WrittenDescriptor) : List Char :=
  d.name.toList ++ (d.behind ++ '(' :: (d.listText ++ [')']))

def text (d : WrittenDescriptor) : List Char :=
  d.lead ++ (List.replicate d.signs '#' ++ (d.gap ++ d.core) ++ d.trail)

/-- The text, as a string. -/
def string (d : WrittenDescriptor) : String := String.ofList d.text

/-- The name and the names of the types. -/
def key (d : WrittenDescriptor) : List Char :=
  d.name.toList ++ '(' :: (join [','] (d.types.map WrittenType.name) ++ [')'])

/-- Only blanks stand in the five places, the name is plain, and parameters can have the types. -/
structure IsWritten (d : WrittenDescriptor) : Prop where
  blank : ∀ c ∈ d.lead ++ d.gap ++ d.behind ++ d.inner ++ d.trail, isBlank c = true
  name : IsPlainName d.name
  types : ∀ t ∈ d.types, t.IsParameterType

instance (d : WrittenDescriptor) : Decidable d.IsWritten :=
  decidable_of_iff (allBlank (d.lead ++ d.gap ++ d.behind ++ d.inner ++ d.trail) = true ∧
      IsPlainName d.name ∧ ∀ t ∈ d.types, t.IsParameterType)
    ⟨fun h => ⟨List.all_eq_true.mp h.1, h.2.1, h.2.2⟩,
      fun h => ⟨List.all_eq_true.mpr h.blank, h.name, h.types⟩⟩

namespace IsWritten

variable {d e : WrittenDescriptor}

theorem blank_of_mem (h : d.IsWritten) : (∀ c ∈ d.lead, isBlank c = true) ∧
    (∀ c ∈ d.gap, isBlank c = true) ∧ (∀ c ∈ d.behind, isBlank c = true) ∧
      (∀ c ∈ d.inner, isBlank c = true) ∧ ∀ c ∈ d.trail, isBlank c = true := by
  have hblank := h.blank
  simp only [List.forall_mem_append, and_assoc] at hblank
  exact hblank

/-- The text between signs and blanks begins with the name and ends with the parenthesis. -/
theorem ends_core (h : d.IsWritten) : (∀ c ∈ d.core.head?, isBlank c = false ∧ c ≠ '#') ∧
    d.core.getLast? = some ')' := by
  obtain ⟨c, more, hname⟩ := List.exists_cons_of_ne_nil h.name.toList_ne_nil
  have hc := isPlain_iff.mp (h.name.plain c (hname ▸ List.mem_cons_self))
  constructor
  · rw [core, hname]
    rintro _ ⟨⟩
    exact ⟨hc.1, hc.2.1⟩
  · rw [core, ← List.append_assoc, ← List.cons_append, ← List.append_assoc, List.getLast?_concat]

/-- No sign follows the signs, with blanks behind them or without. -/
theorem head_ne_sign (h : d.IsWritten) : ∀ c ∈ (d.gap ++ d.core).head?, c ≠ '#' := by
  intro c hc
  cases hgap : d.gap with
  | nil =>
    rw [hgap] at hc
    exact (h.ends_core.1 c hc).2
  | cons b more =>
    rw [hgap] at hc
    cases hc
    exact ne_of_isBlank (h.blank_of_mem.2.1 _ (hgap ▸ List.mem_cons_self)) (by decide)

/-- The signs and the blanks around a descriptor are taken out of it. Blanks may remain between the
signs and the name. -/
theorem dropWhile_trim (h : d.IsWritten) : ∃ blanks, (∀ c ∈ blanks, isBlank c = true) ∧
    (trim d.text).dropWhile (· = '#') = blanks ++ d.core := by
  obtain ⟨hlead, hgap, -, -, htrail⟩ := h.blank_of_mem
  obtain ⟨hhead, hlast⟩ := h.ends_core
  have hfinal : ∀ front : List Char, ∀ c ∈ (front ++ d.core).getLast?, isBlank c = false := by
    intro front c hc
    rw [List.getLast?_append, hlast] at hc
    cases hc
    decide
  rw [text, trim_blank_append hlead, trim_append_blank htrail]
  cases d.signs with
  | zero =>
    -- Without a sign, the blanks in front of the name are trimmed as well.
    have hcore : trim d.core = d.core :=
      trim_eq_self_of_ends (fun c hc => (hhead c hc).1) (hfinal [])
    refine ⟨[], nofun, ?_⟩
    rw [List.replicate_zero, List.nil_append, trim_blank_append hgap, hcore, List.nil_append]
    exact dropWhile_eq_self fun c hc => decide_eq_false (hhead c hc).2
  | succ n =>
    have hsigns : trim (List.replicate (n + 1) '#' ++ (d.gap ++ d.core)) =
        List.replicate (n + 1) '#' ++ (d.gap ++ d.core) := by
      refine trim_eq_self_of_ends ?_ ?_
      · rintro _ ⟨⟩
        decide
      · rw [← List.append_assoc]
        exact hfinal _
    have hall : ∀ c ∈ List.replicate (n + 1) '#', decide (c = '#') = true := fun c hc =>
      decide_eq_true (List.eq_of_mem_replicate hc)
    refine ⟨d.gap, hgap, ?_⟩
    rw [hsigns, List.dropWhile_append_of_pos hall]
    exact dropWhile_eq_self fun c hc => decide_eq_false (h.head_ne_sign c hc)

/-- The canonical form of a descriptor is its key. -/
theorem normalize_text (h : d.IsWritten) : Descriptor.normalize d.text = d.key := by
  obtain ⟨-, -, hbehind, hinner, -⟩ := h.blank_of_mem
  obtain ⟨blanks, hblanks, htrim⟩ := h.dropWhile_trim
  have hfront : '(' ∉ blanks ++ (d.name.toList ++ d.behind) := by
    rw [List.mem_append, List.mem_append, not_or, not_or]
    exact ⟨not_mem_of_isBlank hblanks (by decide), h.name.not_mem (by decide),
      not_mem_of_isBlank hbehind (by decide)⟩
  have hcore : blanks ++ d.core =
      (blanks ++ (d.name.toList ++ d.behind)) ++ '(' :: (d.listText ++ [')']) := by
    rw [core]
    simp only [List.append_assoc]
  have hname : trim (blanks ++ (d.name.toList ++ d.behind)) = d.name.toList := by
    rw [trim_blank_append hblanks, trim_append_blank hbehind, trim_eq_self h.name.not_blank]
  rw [Descriptor.normalize, htrim, hcore, cutAt_append_cons hfront]
  simp only [hname, Descriptor.beforeLast_append_singleton, listText,
    Descriptor.erase_parameters_join h.types hinner]
  rw [key, List.append_assoc, List.cons_append]

/-- The key is its own canonical form. -/
theorem normalize_key (h : d.IsWritten) : Descriptor.normalize d.key = d.key := by
  refine Descriptor.normalize_signature h.name fun name hname => ?_
  obtain ⟨t, ht, rfl⟩ := List.mem_map.mp hname
  exact (h.types t ht).isSettled_name

/-- The name of the member and the names of the types are read back from the key. -/
theorem key_eq_key_iff (h : d.IsWritten) (he : e.IsWritten) : d.key = e.key ↔
    d.name = e.name ∧ d.types.map WrittenType.name = e.types.map WrittenType.name := by
  constructor
  · intro hkey
    -- A plain name has no parenthesis, so the first one is that of the list.
    have hcut := congrArg (cutAt '(') hkey
    rw [key, key, cutAt_append_cons (h.name.not_mem (by decide)),
      cutAt_append_cons (he.name.not_mem (by decide)), Prod.mk.injEq, Option.some_inj,
      List.append_cancel_right_eq] at hcut
    obtain ⟨hname, hlist⟩ := hcut
    -- The name of a type is not empty and has no comma, so the list is split where it was joined.
    have hread : ∀ {f : WrittenDescriptor}, f.IsWritten →
        (splitOn (· = ',') (join [','] (f.types.map WrittenType.name))).filter (· ≠ []) =
          f.types.map WrittenType.name := fun hf => filter_splitOn_join fun name hmem => by
      obtain ⟨t, ht, rfl⟩ := List.mem_map.mp hmem
      exact ⟨(hf.types t ht).name_ne_nil, (hf.types t ht).comma⟩
    refine ⟨String.toList_inj.mp hname, ?_⟩
    rw [← hread h, hlist, hread he]
  · rintro ⟨hname, htypes⟩
    rw [key, key, hname, htypes]

end IsWritten

end WrittenDescriptor

end Apidoc.Java
