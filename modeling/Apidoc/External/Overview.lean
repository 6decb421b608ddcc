import Apidoc.Html.Event

/-!
# `Apidoc.External.Overview`: the names that an overview page lists

An overview page lists packages and types as links inside an element of a certain class. The names are
the texts of those links, trimmed, in page order. Only one such element is open at a time; elements
with its tag inside it are counted, so that its end is found.
-/

set_option autoImplicit false

namespace Apidoc.External

open Apidoc.Html (Attribute Event)
open Apidoc.Text

/-- How far the reading of an overview page has come. -/
structure Overview where
  /-- The tag of the open element of the class, and how many elements with this tag are open since. -/
  container : Option (List Char × Nat)
  /-- The text of the open link. -/
  link : Option (List Char)
  /-- The names so far. -/
  names : List String
  deriving DecidableEq, Repr

namespace Overview

/-- The class of the element that holds the links. -/
def listClass : String := "horizontal"

/-- Before the first event. -/
def initial : Overview := ⟨none, none, []⟩

/-- The classes of an element. The last of several class attributes counts. -/
def classes (attributes : List Attribute) : List (List Char) :=
  match attributes.reverse.find? fun a => a.name = "class".toList with
  | some a => words (a.value.getD [])
  | none => []

/-- The tag of links. -/
def linkTag : List Char := ['a']

/-- Takes one event. -/
def step (selector : String) (o : Overview) : Event → Overview
  | .start tag attributes =>
    match o.container with
    | none =>
      if (classes attributes).contains selector.toList then { o with container := some (tag, 1) } else o
    | some (container, depth) =>
      if tag = container then { o with container := some (container, depth + 1) }
      else if tag = linkTag then { o with link := some [] }
      else o
  | .finish tag =>
    match o.container with
    | none => o
    | some (container, depth) =>
      match (if tag = linkTag then o.link else none) with
      | some text =>
        let name := trim text
        { o with
          link := none
          names := if name = [] then o.names else o.names ++ [String.ofList name] }
      | none =>
        if tag = container then
          { o with container := if depth ≤ 1 then none else some (container, depth - 1) }
        else o
  | .text content => { o with link := o.link.map (· ++ content) }

/-- The names that events list. -/
def namesOf (selector : String) (events : List Event) : List String :=
  (events.foldl (step selector) initial).names

/-- The names that a page lists, unless the page cannot be read. -/
def read? (selector : String) (page : String) : Option (List String) :=
  (Event.read? page.toList).map (namesOf selector)

end Overview

end Apidoc.External
