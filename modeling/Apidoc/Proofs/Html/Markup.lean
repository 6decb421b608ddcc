import Apidoc.Html.Node

/-!
# `Apidoc.Proofs.Html.Markup`: fragments in which every element is closed

`IsMarkup` is a grammar for the fragments that comments turn into. An element is `a`, `code` or
`pre`, it has nothing but `href` and `class` for attributes, and it is closed behind what it holds.
Inside of elements and in attribute values no angle and no quote stands for itself.

A node of text and of such elements is written as such a fragment, whatever the text and the values
are, because both are escaped (`IsSafe.isMarkup`).
-/

set_option autoImplicit false

namespace Apidoc.Html

variable {P Q : Char → Prop} {xs ys : List Char} {n : Node} {nodes : List Node}

/-! ### The grammar -/

/-- A character that neither begins nor ends a tag or an attribute value. -/
def IsInert (c : Char) : Prop := c ∉ ['<', '>', '"', '\'']

/-- A character that neither begins nor ends a tag. -/
def IsPlain (c : Char) : Prop := c ∉ ['<', '>']

instance (c : Char) : Decidable (IsInert c) := inferInstanceAs (Decidable (_ ∉ _))

instance (c : Char) : Decidable (IsPlain c) := inferInstanceAs (Decidable (_ ∉ _))

/-- The elements of comments. -/
def elementNames : List String := ["a", "code", "pre"]

/-- The attributes of these elements. -/
def attributeNames : List String := ["href", "class"]

/-- An attribute with its value between quotes. -/
def attributeChars (a : String × List Char) : List Char :=
  ' ' :: a.1.toList ++ '=' :: '"' :: a.2 ++ ['"']

/-- What an element begins with. -/
def startTag (tag : String) (attributes : List (String × List Char)) : List Char :=
  '<' :: tag.toList ++ attributes.flatMap attributeChars ++ ['>']

/-- What an element ends with. -/
def endTag (tag : String) : List Char := '<' :: '/' :: tag.toList ++ ['>']

/-- Characters with the property `P`, and elements among them that hold inert characters and further
elements. -/
inductive IsMarkup : (Char → Prop) → List Char → Prop
  | nil {P : Char → Prop} : IsMarkup P []
  | char {P : Char → Prop} {c : Char} {rest : List Char} (hc : P c) (hrest : IsMarkup P rest) :
      IsMarkup P (c :: rest)
  | element {P : Char → Prop} {tag : String} {attributes : List (String × List Char)}
      {inner rest : List Char} (htag : tag ∈ elementNames)
      (hattributes : ∀ a ∈ attributes, a.1 ∈ attributeNames ∧ ∀ c ∈ a.2, IsInert c)
      (hinner : IsMarkup IsInert inner) (hrest : IsMarkup P rest) :
      IsMarkup P (startTag tag attributes ++ inner ++ endTag tag ++ rest)

/-- Fragments one after the other are a fragment. -/
theorem IsMarkup.append (hxs : IsMarkup P xs) (hys : IsMarkup P ys) : IsMarkup P (xs ++ ys) := by
  induction hxs with
  | nil => exact hys
  | char hc _ ih => exact .char hc (ih hys)
  | element htag hattributes hinner _ _ ih =>
    rw [List.append_assoc]
    exact .element htag hattributes hinner (ih hys)

/-- More characters may be allowed outside of the elements. -/
theorem IsMarkup.mono (h : ∀ c, P c → Q c) (hxs : IsMarkup P xs) : IsMarkup Q xs := by
  induction hxs with
  | nil => exact .nil
  | char hc _ ih => exact .char (h _ hc) (ih h)
  | element htag hattributes hinner _ _ ih => exact .element htag hattributes hinner (ih h)

/-- A text of allowed characters is a fragment. -/
theorem isMarkup_of_forall (h : ∀ c ∈ xs, P c) : IsMarkup P xs := by
  induction xs with
  | nil => exact .nil
  | cons c rest ih =>
    exact .char (h c List.mem_cons_self) (ih fun d hd => h d (List.mem_cons_of_mem c hd))

/-- An angle that opens begins one of the elements, or the end of one. -/
theorem IsMarkup.of_angle {rest : List Char} (hP : ¬ P '<') (h : IsMarkup P ('<' :: rest)) :
    ∃ tag ∈ elementNames, tag.toList <+: rest := by
  generalize hxs : '<' :: rest = xs at h
  cases h with
  | nil => cases hxs
  | char hc =>
    obtain ⟨rfl, -⟩ := List.cons.inj hxs
    exact absurd hc hP
  | @element _ tag attributes inner more htag =>
    rw [startTag, List.append_assoc, List.append_assoc, List.append_assoc, List.append_assoc,
      List.cons_append] at hxs
    exact ⟨tag, htag, (List.cons.inj hxs).2 ▸ List.prefix_append _ _⟩

/-- Behind another character the fragment goes on. -/
theorem IsMarkup.of_char {c : Char} {rest : List Char} (hc : c ≠ '<') (h : IsMarkup P (c :: rest)) :
    IsMarkup P rest := by
  generalize hxs : c :: rest = xs at h
  cases h with
  | nil => cases hxs
  | char _ hrest =>
    obtain ⟨-, rfl⟩ := List.cons.inj hxs
    exact hrest
  | element =>
    rw [startTag, List.append_assoc, List.append_assoc, List.append_assoc, List.append_assoc,
      List.cons_append] at hxs
    exact absurd (List.cons.inj hxs).1 hc

/-- Behind a text without tags the fragment goes on. -/
theorem IsMarkup.of_append (hxs : ∀ c ∈ xs, c ≠ '<') (h : IsMarkup P (xs ++ ys)) :
    IsMarkup P ys := by
  induction xs with
  | nil => exact h
  | cons c rest ih =>
    exact ih (fun d hd => hxs d (List.mem_cons_of_mem c hd)) (h.of_char (hxs c List.mem_cons_self))

/-! ### Nodes -/

/-- No character of an escaped text is markup. -/
theorem isInert_of_mem_escape {s : String} {c : Char} (h : c ∈ (escape s).toList) : IsInert c := by
  have hchar : ∀ x : Char, ∀ c ∈ escapeChar x, IsInert c := by
    intro x
    fun_cases escapeChar x with
    | case6 x hand hless hgreater hquote hapostrophe =>
      intro c hc
      rw [List.mem_singleton.mp hc]
      simp only [IsInert, List.mem_cons, List.not_mem_nil, or_false, not_or]
      exact ⟨hless, hgreater, hquote, hapostrophe⟩
    | case1 | case2 | case3 | case4 | case5 => simp [IsInert]
  rw [escape, String.toList_ofList] at h
  obtain ⟨x, -, hc⟩ := List.mem_flatMap.mp h
  exact hchar x c hc

/-- Nothing is written as it is, and elements and attributes are those of comments. -/
inductive IsSafe : Node → Prop
  | text (s : String) : IsSafe (.text s)
  | element {tag : String} {attributes : List (String × String)} {children : List Node}
      (htag : tag ∈ elementNames) (hattributes : ∀ a ∈ attributes, a.1 ∈ attributeNames)
      (hchildren : ∀ n ∈ children, IsSafe n) : IsSafe (.element tag attributes children)

/-- Fragments of nodes are fragments together. -/
theorem isMarkup_renderAll (h : ∀ n ∈ nodes, IsMarkup P n.render.toList) :
    IsMarkup P (renderAll nodes).toList := by
  induction nodes with
  | nil => exact .nil
  | cons n rest ih =>
    rw [renderAll, String.toList_append]
    exact (h n List.mem_cons_self).append (ih fun m hm => h m (List.mem_cons_of_mem n hm))

/-- The attributes of a node are written with their values escaped. -/
theorem toList_join_attributeText (attributes : List (String × String)) :
    (String.join (attributes.map attributeText)).toList =
      (attributes.map fun a => (a.1, (escape a.2).toList)).flatMap attributeChars := by
  induction attributes with
  | nil => rfl
  | cons a rest ih =>
    rw [List.map_cons, List.map_cons, List.flatMap_cons, ← ih]
    simp [attributeText, attributeChars]

/-- An element is written between its start tag and its end tag. -/
theorem toList_render_element (tag : String) (attributes : List (String × String))
    (children : List Node) :
    (Node.element tag attributes children).render.toList =
      startTag tag (attributes.map fun a => (a.1, (escape a.2).toList)) ++
        (renderAll children).toList ++ endTag tag := by
  rw [Node.render, startTag, endTag, ← toList_join_attributeText]
  simp

/-- A safe node is written as a fragment without quotes outside of its tags. -/
theorem IsSafe.isMarkup (h : IsSafe n) : IsMarkup IsInert n.render.toList := by
  induction h with
  | text s => exact isMarkup_of_forall fun c => isInert_of_mem_escape
  | @element tag attributes children htag hattributes hchildren ih =>
    rw [toList_render_element, ← List.append_nil (_ ++ endTag tag)]
    refine .element htag (fun a ha => ?_) (isMarkup_renderAll ih) .nil
    obtain ⟨b, hb, rfl⟩ := List.mem_map.mp ha
    exact ⟨hattributes b hb, fun c => isInert_of_mem_escape⟩

/-- Code is safe. -/
theorem isSafe_code (s : String) : IsSafe (code s) :=
  .element (by decide) nofun fun n hn => by
    rw [List.mem_singleton.mp hn]
    exact .text s

end Apidoc.Html
