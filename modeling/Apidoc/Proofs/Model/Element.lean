import Apidoc.Model.Element
import Mathlib.Data.List.Basic
import Mathlib.Logic.Relation

/-!
# `Apidoc.Proofs.Model.Element`: what lies in an element

Depth first, an element comes in front of what lies in the elements directly inside of it
(`Located.flatten_eq_cons`). So something lies in an element exactly if it is reached in steps from
an element to one directly inside (`Located.mem_flatten_iff`), and what a step preserves holds of all
that lies in an element.
-/

set_option autoImplicit false

namespace Apidoc.Model

open Relation (ReflTransGen)

/-- Several elements are flattened one after another. -/
theorem flattenAll_eq_flatMap (source : SourceFile) (owners : List Declaration)
    (es : List Element) : flattenAll source owners es =
      (es.map fun e => (⟨source, owners, e⟩ : Located)).flatMap Located.flatten := by
  induction es with
  | nil =>
    rw [flattenAll]
    rfl
  | cons e es ih =>
    rw [flattenAll, ih]
    rfl

/-- The elements before and after a cut can be looked at apart. -/
theorem flattenAll_append {source : SourceFile} {owners : List Declaration} (es fs : List Element) :
    flattenAll source owners (es ++ fs)
      = flattenAll source owners es ++ flattenAll source owners fs := by
  rw [flattenAll_eq_flatMap, flattenAll_eq_flatMap, flattenAll_eq_flatMap, List.map_append,
    List.flatMap_append]

namespace Located

/-- The second element is directly inside of the first one. -/
def Holds (outer inner : Located) : Prop := inner ∈ outer.enclosed

/-- An element comes in front of what lies in it. -/
theorem flatten_eq_cons (l : Located) : l.flatten = l :: l.enclosed.flatMap Located.flatten := by
  obtain ⟨source, owners, d, es⟩ := l
  rw [Located.flatten, Element.flatten, flattenAll_eq_flatMap]
  rfl

/-- An element lies in itself. -/
theorem mem_flatten_self (l : Located) : l ∈ l.flatten := by
  rw [flatten_eq_cons]
  exact List.mem_cons_self

/-- What lies in an element comes together where the element lies. -/
theorem Holds.infix_flatten {outer inner : Located} (h : outer.Holds inner) :
    inner.flatten <:+: outer.flatten := by
  rw [flatten_eq_cons outer]
  exact List.infix_cons (List.infix_flatMap_of_mem h flatten)

/-- Something lies in an element exactly if steps from outside to inside lead to it. -/
theorem mem_flatten_iff {l m : Located} : m ∈ l.flatten ↔ ReflTransGen Holds l m := by
  constructor
  · intro h
    induction hlength : l.flatten.length using Nat.strongRecOn generalizing l with
    | ind n ih =>
      rw [flatten_eq_cons] at h
      rcases List.mem_cons.mp h with rfl | h
      · exact .refl
      obtain ⟨inner, hinner, hm⟩ := List.mem_flatMap.mp h
      have hshorter : inner.flatten.length < n := by
        rw [← hlength, flatten_eq_cons l, List.length_cons]
        exact Nat.lt_succ_of_le (List.infix_flatMap_of_mem hinner flatten).length_le
      exact .head hinner (ih _ hshorter hm rfl)
  · intro h
    induction h using ReflTransGen.head_induction_on with
    | refl => exact mem_flatten_self m
    | head hinner _ ih => exact hinner.infix_flatten.subset ih

variable {l m : Located}

/-- Whatever lies in an element comes together with all that lies in it. -/
theorem infix_flatten (h : m ∈ l.flatten) : m.flatten <:+: l.flatten := by
  rw [mem_flatten_iff] at h
  induction h using ReflTransGen.head_induction_on with
  | refl => exact List.infix_rfl
  | head hinner _ ih => exact ih.trans hinner.infix_flatten

/-- Everything in an element but the element itself is directly inside of something in it. -/
theorem placed_of_mem_flatten (h : m ∈ l.flatten) :
    m = l ∨ ∃ owner ∈ l.flatten, m ∈ owner.enclosed :=
  (mem_flatten_iff.mp h).cases_tail.imp_right fun ⟨owner, howner, hinner⟩ =>
    ⟨owner, mem_flatten_iff.mpr howner, hinner⟩

/-- What is directly inside something in an element lies in the element too. -/
theorem mem_flatten_of_mem_enclosed {inner : Located} (hm : m ∈ l.flatten)
    (hinner : inner ∈ m.enclosed) : inner ∈ l.flatten :=
  mem_flatten_iff.mpr ((mem_flatten_iff.mp hm).tail hinner)

/-- Whatever lies in an element is in the same file. -/
theorem source_of_mem_flatten (h : m ∈ l.flatten) : m.source = l.source := by
  rw [mem_flatten_iff] at h
  induction h using ReflTransGen.head_induction_on with
  | refl => rfl
  | head hinner _ ih =>
    obtain ⟨e, -, rfl⟩ := List.mem_map.mp hinner
    exact ih

/-- What lies in an element has the element and what is around it as its outermost levels. -/
theorem chain_of_mem_flatten (h : m ∈ l.flatten) :
    ∃ inner, m.scope.chain = inner ++ l.scope.chain := by
  rw [mem_flatten_iff] at h
  induction h using ReflTransGen.head_induction_on with
  | refl => exact ⟨[], rfl⟩
  | head hinner _ ih =>
    obtain ⟨inner, hchain⟩ := ih
    obtain ⟨e, -, rfl⟩ := List.mem_map.mp hinner
    exact ⟨inner ++ [e.declaration], by rw [hchain]; simp [scope, Scope.chain, declaration]⟩

end Located

end Apidoc.Model
