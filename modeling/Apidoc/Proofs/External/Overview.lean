import Apidoc.External.Overview

/-!
# `Apidoc.Proofs.External.Overview`: the links that an overview page lists

A page whose elements nest is a forest (`Html.Content`). Its elements stand in the order of
their start tags, each with the tags around it (`Content.elements`), and the links that the
page lists are read off from there (`listed`).

The reader sees the events only. Of the elements around an event it remembers one tag that
carries the class, how many elements with the name of that tag are open, and the text of an
open link. `Stands` says what these are in terms of the tags around. No event of a whole
element changes them, and the names that it adds are those of the links in it
(`foldl_events`). So the reader agrees with the forest (`namesOf_events`) wherever no link
lies inside another one.
-/

set_option autoImplicit false

namespace Apidoc.Html

/-- A start tag. -/
structure Tag where
  name : List Char
  attributes : List Attribute
  deriving DecidableEq, Repr

/-- What a page holds: texts, and elements with what they hold. -/
inductive Content where
  | text (content : List Char)
  | element (tag : Tag) (children : List Content)

/-- An element and the start tags of those around it, the nearest one first. -/
structure Placed where
  around : List Tag
  tag : Tag
  children : List Content

namespace Content

mutual

/-- The events of a piece of a page: its text, or a start tag, what is inside, and an end tag. -/
def events : Content → List Event
  | .text content => [.text content]
  | .element tag children =>
    .start tag.name tag.attributes :: (eventsAll children ++ [.finish tag.name])

/-- The events of several pieces, one after another. -/
def eventsAll : List Content → List Event
  | [] => []
  | c :: cs => c.events ++ eventsAll cs

end

mutual

/-- The text of a piece of a page, without any tags. -/
def innerText : Content → List Char
  | .text content => content
  | .element _ children => innerTextAll children

/-- The text of several pieces. -/
def innerTextAll : List Content → List Char
  | [] => []
  | c :: cs => c.innerText ++ innerTextAll cs

end

mutual

/-- The elements of a piece of a page, in the order of their start tags. -/
def elements (around : List Tag) : Content → List Placed
  | .text _ => []
  | .element tag children => ⟨around, tag, children⟩ :: elementsAll (tag :: around) children

/-- The elements of several pieces. -/
def elementsAll (around : List Tag) : List Content → List Placed
  | [] => []
  | c :: cs => c.elements around ++ elementsAll around cs

end

mutual

/-- Whatever is in a piece of a page has around it what is around the piece. -/
theorem around_of_mem_elements (around : List Tag) :
    (c : Content) → ∀ e ∈ c.elements around, around ⊆ e.around
  | .text _ => nofun
  | .element tag children => by
    intro e he
    rw [elements] at he
    rcases List.mem_cons.mp he with rfl | he
    · exact List.Subset.refl around
    · exact List.Subset.trans (List.subset_cons_self tag around)
        (around_of_mem_elementsAll (tag :: around) children e he)

/-- Companion for several pieces. -/
theorem around_of_mem_elementsAll (around : List Tag) :
    (cs : List Content) → ∀ e ∈ elementsAll around cs, around ⊆ e.around
  | [] => nofun
  | c :: cs => by
    intro e he
    rw [elementsAll] at he
    rcases List.mem_append.mp he with he | he
    · exact around_of_mem_elements around c e he
    · exact around_of_mem_elementsAll around cs e he

end

end Content

end Apidoc.Html

namespace Apidoc.External.Overview

open Apidoc.Html (Content Event Placed Tag)
open Apidoc.Html.Content (elementsAll eventsAll innerTextAll)
open Apidoc.Text (trim)

/-! ### What a page lists -/

/-- The element has the class. -/
def carries (selector : String) (tag : Tag) : Bool :=
  (classes tag.attributes).contains selector.toList

/-- The element is a link inside an element with the class. -/
def isListed (selector : String) (e : Placed) : Bool :=
  e.tag.name = linkTag && e.around.any (carries selector)

/-- The trimmed text of an element, unless nothing is left of it. -/
def nameOf? (e : Placed) : Option String :=
  let name := trim (innerTextAll e.children)
  if name = [] then none else some (String.ofList name)

/-- The names of the links inside an element with the class, in page order. -/
def listed (selector : String) (elements : List Placed) : List String :=
  (elements.filter (isListed selector)).filterMap nameOf?

/-- No link lies inside another one. -/
def LinksApart (elements : List Placed) : Prop :=
  ∀ e ∈ elements, e.tag.name = linkTag → ∀ tag ∈ e.around, tag.name ≠ linkTag

instance (elements : List Placed) : Decidable (LinksApart elements) :=
  inferInstanceAs (Decidable
    (∀ e ∈ elements, e.tag.name = linkTag → ∀ tag ∈ e.around, tag.name ≠ linkTag))

variable {selector : String} {around : List Tag} {tag : Tag} {children : List Content}
  {o : Overview}

theorem listed_append (es fs : List Placed) :
    listed selector (es ++ fs) = listed selector es ++ listed selector fs := by
  rw [listed, List.filter_append, List.filterMap_append]
  rfl

theorem listed_cons_of_pos {e : Placed} (es : List Placed) (h : isListed selector e = true) :
    listed selector (e :: es) = (nameOf? e).toList ++ listed selector es := by
  rw [listed, List.filter_cons_of_pos h, List.filterMap_cons]
  cases nameOf? e <;> rfl

theorem listed_cons_of_neg {e : Placed} (es : List Placed) (h : isListed selector e = false) :
    listed selector (e :: es) = listed selector es := by
  rw [listed, List.filter_cons_of_neg (Bool.not_eq_true _ ▸ h)]
  rfl

/-- Inside a link there are no names of links. -/
theorem listed_elementsAll_of_link (htag : tag.name = linkTag)
    (h : LinksApart (elementsAll (tag :: around) children)) :
    listed selector (elementsAll (tag :: around) children) = [] := by
  have hnone : (elementsAll (tag :: around) children).filter (isListed selector) = [] := by
    refine List.filter_eq_nil_iff.mpr fun e he hlisted => ?_
    rw [isListed, Bool.and_eq_true, decide_eq_true_eq] at hlisted
    have haround := Content.around_of_mem_elementsAll _ _ e he List.mem_cons_self
    exact h e he hlisted.1 tag haround htag
  rw [listed, hnone]
  rfl

/-! ### What the reader remembers -/

/-- What is remembered of the tags around. Without the class among them it is nothing, and else
the name of one of them is counted. Without a link among them no link is open. -/
structure Stands (selector : String) (around : List Tag) (o : Overview) : Prop where
  outside : around.any (carries selector) = false → o.container = none ∧ o.link = none
  inside : around.any (carries selector) = true →
    ∃ tag ∈ around, ∃ others, o.container = some (tag.name, others + 1)
  closed : (∀ tag ∈ around, tag.name ≠ linkTag) → o.link = none

/-- Before the first event there is nothing to remember. -/
theorem stands_initial (selector : String) : Stands selector [] initial :=
  ⟨fun _ => ⟨rfl, rfl⟩, nofun, fun _ => rfl⟩

/-- The reader after some events with the given text and elements. -/
def extended (selector : String) (o : Overview) (text : List Char) (elements : List Placed) :
    Overview :=
  { o with link := o.link.map (· ++ text), names := o.names ++ listed selector elements }

theorem extended_nil (o : Overview) : extended selector o [] [] = o := by
  cases o with
  | mk container link names => cases link <;> simp [extended, listed]

theorem extended_extended (text more : List Char) (es fs : List Placed) :
    extended selector (extended selector o text es) more fs =
      extended selector o (text ++ more) (es ++ fs) := by
  cases o with
  | mk container link names => cases link <;> simp [extended, listed_append]

/-- What is remembered does not depend on the names so far, or on the text of an open link. -/
theorem Stands.extended (h : Stands selector around o) (text : List Char) (es : List Placed) :
    Stands selector around (extended selector o text es) where
  outside := fun hnone => ⟨(h.outside hnone).1, by rw [Overview.extended, (h.outside hnone).2]; rfl⟩
  inside := h.inside
  closed := fun hnone => by rw [Overview.extended, h.closed hnone]; rfl

/-! ### One event -/

/-- Where nothing is counted a start tag counts if it has the class. -/
theorem step_start_of_none (h : o.container = none) :
    step selector o (.start tag.name tag.attributes) =
      if carries selector tag then { o with container := some (tag.name, 1) } else o := by
  rw [step, h]
  rfl

/-- Where a name is counted a start tag is counted, opens a link, or does nothing. -/
theorem step_start_of_some {counted : List Char} {depth : Nat}
    (h : o.container = some (counted, depth)) :
    step selector o (.start tag.name tag.attributes) =
      if tag.name = counted then { o with container := some (counted, depth + 1) }
      else if tag.name = linkTag then { o with link := some [] }
      else o := by
  rw [step, h]

/-- Where nothing is counted an end tag does nothing. -/
theorem step_finish_of_none (h : o.container = none) (name : List Char) :
    step selector o (.finish name) = o := by
  rw [step, h]

/-- An end tag that closes no link is counted or does nothing. -/
theorem step_finish_of_some {counted name : List Char} {depth : Nat}
    (h : o.container = some (counted, depth)) (hlink : name = linkTag → o.link = none) :
    step selector o (.finish name) =
      if name = counted then
        { o with container := if depth ≤ 1 then none else some (counted, depth - 1) }
      else o := by
  have hnone : (if name = linkTag then o.link else none) = none := by
    split
    · exact hlink ‹_›
    · rfl
  rw [step, h]
  simp only [hnone]

/-- The end tag of a link adds its name. -/
theorem step_finish_link (counted : List Char × Nat) {text : List Char}
    (h : o.container = some counted) (hlink : o.link = some text) :
    step selector o (.finish linkTag) =
      { o with
        link := none
        names := if trim text = [] then o.names else o.names ++ [String.ofList (trim text)] } := by
  rw [step, h]
  simp only [if_true, hlink]

/-! ### The events of elements -/

/-- What is inside an element adds the names in it. -/
def InsideAdds (selector : String) (around : List Tag) (children : List Content) : Prop :=
  ∀ o, Stands selector around o → (eventsAll children).foldl (step selector) o =
    extended selector o (innerTextAll children) (elementsAll around children)

/-- The events of an element are its tags and the events of what is inside. -/
theorem foldl_element_of_start {started : Overview}
    (hstart : step selector o (.start tag.name tag.attributes) = started)
    (hstands : Stands selector (tag :: around) started)
    (hchildren : InsideAdds selector (tag :: around) children) :
    (Content.element tag children).events.foldl (step selector) o =
      step selector (extended selector started (innerTextAll children)
        (elementsAll (tag :: around) children)) (.finish tag.name) := by
  rw [Content.events, List.foldl_cons, List.foldl_append, hstart, hchildren started hstands]
  rfl

/-- An element outside the class is not listed. What is inside is, if the element has the class. -/
theorem foldl_element_outside (h : Stands selector around o)
    (haround : around.any (carries selector) = false)
    (hchildren : InsideAdds selector (tag :: around) children) :
    (Content.element tag children).events.foldl (step selector) o =
      extended selector o (innerTextAll children)
        ((Content.element tag children).elements around) := by
  obtain ⟨hcontainer, hlink⟩ := h.outside haround
  have hlisted : isListed selector ⟨around, tag, children⟩ = false := by
    rw [isListed, haround, Bool.and_false]
  have hstart : step selector o (.start tag.name tag.attributes) = _ := step_start_of_none hcontainer
  rw [Content.elements, extended, listed_cons_of_neg _ hlisted]
  cases hclass : carries selector tag with
  | false =>
    rw [hclass, if_neg Bool.false_ne_true] at hstart
    have hstands : Stands selector (tag :: around) o := {
      outside := fun _ => ⟨hcontainer, hlink⟩
      inside := by rw [List.any_cons, hclass, haround]; nofun
      closed := fun _ => hlink }
    rw [foldl_element_of_start hstart hstands hchildren]
    exact step_finish_of_none (o := extended selector o _ _) hcontainer _
  | true =>
    rw [hclass, if_pos rfl] at hstart
    have hstands : Stands selector (tag :: around) { o with container := some (tag.name, 1) } := {
      outside := by rw [List.any_cons, hclass]; nofun
      inside := fun _ => ⟨tag, List.mem_cons_self, 0, rfl⟩
      closed := fun _ => hlink }
    rw [foldl_element_of_start hstart hstands hchildren]
    -- The end tag of the element is the one at which the count ends.
    refine (step_finish_of_some rfl fun _ => ?_).trans ?_
    · rw [extended, hlink]
      rfl
    · rw [if_pos rfl, hcontainer]
      rfl

/-- A link inside the class is listed, and nothing inside of it is. -/
theorem foldl_link_inside (h : Stands selector around o)
    (haround : around.any (carries selector) = true) (hlink : tag.name = linkTag)
    (hapart : LinksApart ((Content.element tag children).elements around))
    (hchildren : InsideAdds selector (tag :: around) children) :
    (Content.element tag children).events.foldl (step selector) o =
      extended selector o (innerTextAll children)
        ((Content.element tag children).elements around) := by
  obtain ⟨counted, hcounted, others, hcontainer⟩ := h.inside haround
  rw [Content.elements] at hapart ⊢
  obtain ⟨hself, hlater⟩ := List.forall_mem_cons.mp hapart
  -- There is no other link around it, so it is not counted, and no link is open.
  have hcount : tag.name ≠ counted.name := fun hsame => hself hlink counted hcounted (hsame ▸ hlink)
  have hnone : o.link = none := h.closed (hself hlink)
  have hlisted : isListed selector ⟨around, tag, children⟩ = true := by
    rw [isListed, haround, Bool.and_true]
    exact decide_eq_true hlink
  have hstart : step selector o (.start tag.name tag.attributes) = { o with link := some [] } := by
    rw [step_start_of_some hcontainer, if_neg hcount, if_pos hlink]
  have hstands : Stands selector (tag :: around) { o with link := some [] } := {
    outside := by simp [haround]
    inside := fun _ => ⟨counted, List.mem_cons_of_mem tag hcounted, others, hcontainer⟩
    closed := fun hnone => absurd hlink (hnone tag List.mem_cons_self) }
  rw [foldl_element_of_start hstart hstands hchildren, hlink, extended, extended,
    listed_cons_of_pos _ hlisted, listed_elementsAll_of_link hlink hlater, nameOf?, hnone]
  refine (step_finish_link (counted.name, others + 1) ?_ rfl).trans ?_
  · exact hcontainer
  · simp only [List.nil_append]
    by_cases hname : trim (innerTextAll children) = [] <;> simp [hname]

/-- Any other element inside the class is not listed. -/
theorem foldl_element_inside (h : Stands selector around o)
    (haround : around.any (carries selector) = true) (hlink : tag.name ≠ linkTag)
    (hchildren : InsideAdds selector (tag :: around) children) :
    (Content.element tag children).events.foldl (step selector) o =
      extended selector o (innerTextAll children)
        ((Content.element tag children).elements around) := by
  obtain ⟨counted, hcounted, others, hcontainer⟩ := h.inside haround
  have hcounted' : counted ∈ tag :: around := List.mem_cons_of_mem tag hcounted
  have hclosed : (∀ t ∈ tag :: around, t.name ≠ linkTag) → o.link = none := fun hnone =>
    h.closed fun t ht => hnone t (List.mem_cons_of_mem tag ht)
  have hlisted : isListed selector ⟨around, tag, children⟩ = false := by
    rw [isListed, decide_eq_false hlink, Bool.false_and]
  have hstart : step selector o (.start tag.name tag.attributes) = _ := step_start_of_some hcontainer
  rw [Content.elements, extended, listed_cons_of_neg _ hlisted]
  -- The end tag takes back what the start tag did.
  by_cases hcount : tag.name = counted.name
  · rw [if_pos hcount] at hstart
    have hstands : Stands selector (tag :: around)
        { o with container := some (counted.name, others + 1 + 1) } := {
      outside := by simp [haround]
      inside := fun _ => ⟨counted, hcounted', others + 1, rfl⟩
      closed := hclosed }
    rw [foldl_element_of_start hstart hstands hchildren]
    refine (step_finish_of_some rfl fun hl => absurd hl hlink).trans ?_
    rw [if_pos hcount, hcontainer]
    rfl
  · rw [if_neg hcount, if_neg hlink] at hstart
    have hstands : Stands selector (tag :: around) o := {
      outside := by simp [haround]
      inside := fun _ => ⟨counted, hcounted', others, hcontainer⟩
      closed := hclosed }
    rw [foldl_element_of_start hstart hstands hchildren]
    exact (step_finish_of_some (o := extended selector o _ _) hcontainer
      fun hl => absurd hl hlink).trans (if_neg hcount)

mutual

/-- The events of a piece of a page add the names in it. -/
theorem foldl_events (selector : String) (around : List Tag) :
    (c : Content) → LinksApart (c.elements around) → ∀ o, Stands selector around o →
      c.events.foldl (step selector) o = extended selector o c.innerText (c.elements around)
  | .text content, _ => fun o _ => by
    rw [Content.events, Content.innerText, Content.elements, extended]
    simp [listed, step]
  | .element tag children, hapart => fun o h => by
    have hlater : LinksApart (elementsAll (tag :: around) children) := by
      rw [Content.elements] at hapart
      exact fun e he => hapart e (List.mem_cons_of_mem _ he)
    have hchildren := foldl_eventsAll selector (tag :: around) children hlater
    rw [Content.innerText]
    cases haround : around.any (carries selector) with
    | false => exact foldl_element_outside h haround hchildren
    | true =>
      by_cases hlink : tag.name = linkTag
      · exact foldl_link_inside h haround hlink hapart hchildren
      · exact foldl_element_inside h haround hlink hchildren

/-- Companion for several pieces. -/
theorem foldl_eventsAll (selector : String) (around : List Tag) :
    (cs : List Content) → LinksApart (elementsAll around cs) → InsideAdds selector around cs
  | [], _ => fun o _ => by
    rw [eventsAll, innerTextAll, elementsAll, extended_nil]
    rfl
  | c :: cs, hapart => fun o h => by
    rw [elementsAll] at hapart
    obtain ⟨hfirst, hrest⟩ := List.forall_mem_append.mp hapart
    rw [eventsAll, List.foldl_append, foldl_events selector around c hfirst o h,
      foldl_eventsAll selector around cs hrest _ (h.extended ..), extended_extended, innerTextAll,
      elementsAll]

end

/-- The reader lists what the page lists. From the events of a forest in which no link lies inside
another one it gets the names of the links that lie inside an element with the class: of each of them
once, in page order, the trimmed text, unless nothing is left of it. So it does from a page that is
read as these events. -/
theorem namesOf_events (selector : String) (forest : List Content)
    (h : LinksApart (elementsAll [] forest)) :
    namesOf selector (eventsAll forest) = listed selector (elementsAll [] forest) ∧
    ∀ page : String, Event.read? page.toList = some (eventsAll forest) →
      read? selector page = some (listed selector (elementsAll [] forest)) := by
  have hnames : namesOf selector (eventsAll forest) = listed selector (elementsAll [] forest) := by
    rw [namesOf, foldl_eventsAll selector [] forest h _ (stands_initial selector)]
    rfl
  refine ⟨hnames, fun page hpage => ?_⟩
  rw [read?, hpage, Option.map_some, hnames]

/-- A list with the class, in it another one, and lists inside a link and after it. -/
def nestedLists : List Content :=
  let list (value : String) : Tag := ⟨"ul".toList, [⟨"class".toList, some value.toList⟩]⟩
  let plain (name : String) : Tag := ⟨name.toList, []⟩
  let text (content : String) : Content := .text content.toList
  [.element (list "menu horizontal") [
    .element (plain "li") [.element ⟨linkTag, [⟨"href".toList, some "x".toList⟩]⟩ [text " com.acme "]],
    .element (list "horizontal") [
      .element (plain "a") [.element (plain "b") [.element (plain "ul") [text "Out"]], text "er"]],
    .element (plain "a") [text " "],
    .element (plain "a") [text "Last"]],
  .element (plain "a") [text "none"]]

theorem namesOf_events_nestedLists :
    LinksApart (elementsAll [] nestedLists) ∧
    read? "horizontal"
        ("<ul class='menu horizontal'><li><a href=x> com.acme </a></li><ul class=horizontal>" ++
          "<a><b><ul>Out</ul></b>er</a></ul><a> </a><a>Last</a></ul><a>none</a>") =
      some ["com.acme", "Outer", "Last"] := by
  have hapart : LinksApart (elementsAll [] nestedLists) := by decide +kernel
  refine ⟨hapart, ((namesOf_events "horizontal" nestedLists hapart).2 _ ?_).trans ?_⟩ <;>
    decide +kernel

end Apidoc.External.Overview
