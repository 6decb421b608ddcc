import Apidoc.Proofs.Java.Name
import Apidoc.Proofs.Model.Unit

/-!
# `Apidoc.Proofs.Model.Name`: what qualified names begin with

A qualified name is built from the outside in: the name of whatever stands in a type is that of the
type, and more. So what holds of the names of the types at the top and of all longer names holds of
every name (`holds_of_mem_flatten`). The types at the top begin as the package does, or as names do
if there is no package. So no declaration of a unit has a qualified name that begins with a slash or
a dot (`beginsName_of_mem_flatten`), and each one begins with the package and a dot, if there is a
package (`lead_prefix_of_mem_flatten`).
-/

set_option autoImplicit false

namespace Apidoc.Model.CompilationUnit

open Apidoc.Java (Item)
open Apidoc.Java.Item (everywhereAll_of_forall)
open Apidoc.Java.Reader (NamesBegin)

section Longer

variable {P : String → Prop}

/-- What holds of a name holds of all longer ones. -/
def HoldsOfLonger (P : String → Prop) : Prop := ∀ name more, P name → P (name ++ more)

/-- What is declared inside of a type has a name that is longer than that of the type. -/
theorem invariant_longer (hlonger : HoldsOfLonger P) {source : SourceFile} {Q : Item → Prop} :
    Invariant source Q (fun owners => ∃ o rest, owners = o :: rest ∧ P o.qualifiedName)
      (fun l => P l.declaration.qualifiedName) where
  here := by
    rintro _ e ⟨o, rest, rfl, ho⟩ he
    show P e.declaration.qualifiedName
    rw [he.qualifiedName]
    exact hlonger _ _ (hlonger _ _ ho)
  inside := by
    rintro _ doc head ⟨o, rest, rfl, ho⟩
    exact ⟨_, _, rfl, hlonger _ head.name (hlonger _ "." ho)⟩

/-- What holds of the names of the types at the top and of all longer names holds of the names of
whatever a unit declares. -/
theorem holds_of_mem_flatten (hlonger : HoldsOfLonger P) {path : Files.Path} {content : Text.Bytes}
    (htype : ∀ head members, .type head members ∈ Java.Reader.items content →
      P (qualifiedTypeName (read path content).source none head.name))
    {l m : Located} (h : l ∈ (read path content).located) (hm : m ∈ l.flatten) :
    P m.declaration.qualifiedName := by
  have hrest : ∀ s members, Item.rest s members ∉ Java.Reader.items content :=
    fun s members hmem => Java.Reader.namesBegin_items content _ hmem
  obtain ⟨e, he, rfl⟩ := List.mem_map.mp h
  obtain ⟨doc, head, members, hmem, rfl⟩ := exists_type_of_mem_ofItems hrest e he
  have hname := htype head members hmem
  have hinside := declares_of_mem_ofItems (read path content).source
    [typeDeclaration (read path content).source none doc head] none members
    (everywhereAll_of_forall (fun _ => trivial) members)
  rw [Located.flatten_eq_cons] at hm
  rcases List.mem_cons.mp hm with rfl | hm
  · exact hname
  obtain ⟨inner, hinner, hm⟩ := List.mem_flatMap.mp hm
  obtain ⟨e, he, rfl⟩ := List.mem_map.mp hinner
  exact (invariant_longer hlonger).of_mem_flatten ⟨_, [], rfl, hname⟩ (hinside e he) hm

end Longer

/-! ### Names -/

/-- A name that goes on after a name still begins as one. -/
theorem beginsName_append {name : String} (h : BeginsName name.toList) (more : String) :
    BeginsName (name ++ more).toList := by
  rw [String.toList_append]
  exact h.append more.toList

/-- The package of a unit begins as a name, or is empty. -/
theorem beginsName_packageOf {items : List Item} (h : ∀ item ∈ items, NamesBegin item) :
    packageOf items = "" ∨ BeginsName (packageOf items).toList := by
  unfold packageOf
  cases hlast : List.getLast? _ with
  | none => exact Or.inl rfl
  | some name =>
    obtain ⟨item, hitem, hname⟩ := List.mem_filterMap.mp (List.mem_of_getLast? hlast)
    have hbegins := h item hitem
    split at hname
    · cases hname
      exact hbegins
    · cases hname

/-- Whatever a unit declares has a qualified name that begins as a name. -/
theorem beginsName_of_mem_flatten {path : Files.Path} {content : Text.Bytes} {l m : Located}
    (h : l ∈ (read path content).located) (hm : m ∈ l.flatten) :
    BeginsName m.declaration.qualifiedName.toList := by
  have hitems := Java.Reader.namesBegin_items content
  have hlonger : HoldsOfLonger fun name => BeginsName name.toList := fun _ more hname =>
    beginsName_append hname more
  refine holds_of_mem_flatten hlonger (fun head members hmem => ?_) h hm
  show BeginsName (if packageOf (Java.Reader.items content) = "" then head.name
    else packageOf (Java.Reader.items content) ++ "." ++ head.name).toList
  split
  · exact hitems _ hmem
  · rename_i hnamed
    exact beginsName_append (beginsName_append ((beginsName_packageOf hitems).resolve_left hnamed) ".")
      head.name

/-! ### Packages -/

/-- What a package puts in front of the names in it. -/
def lead (package : String) : String := if package = "" then "" else package ++ "."

/-- Whatever a unit declares has a qualified name that begins with the lead of its package. -/
theorem lead_prefix_of_mem_flatten {path : Files.Path} {content : Text.Bytes} {l m : Located}
    (h : l ∈ (read path content).located) (hm : m ∈ l.flatten) :
    (lead m.source.package).toList <+: m.declaration.qualifiedName.toList := by
  have hsource : m.source = (read path content).source := by
    obtain ⟨e, -, rfl⟩ := List.mem_map.mp h
    exact Located.source_of_mem_flatten hm
  rw [hsource]
  have hlonger : HoldsOfLonger fun name =>
      (lead (read path content).source.package).toList <+: name.toList := by
    intro name more hname
    rw [String.toList_append]
    exact hname.trans (List.prefix_append _ _)
  refine holds_of_mem_flatten hlonger (fun head members _ => ?_) h hm
  have hname : qualifiedTypeName (read path content).source none head.name =
      lead (read path content).source.package ++ head.name := by
    rw [lead, qualifiedTypeName]
    split
    · rw [String.empty_append]
    · rfl
  rw [hname, String.toList_append]
  exact List.prefix_append _ _

end Apidoc.Model.CompilationUnit
