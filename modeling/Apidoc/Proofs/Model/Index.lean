import Apidoc.Model.Index

/-!
# `Apidoc.Proofs.Model.Index`: what an index knows

An index is filled one type at a time, and the first type of a name stays. So a
lookup after any number of additions finds the first type of that name among all
that were added (`get?_addAll`).

Nothing that reads an index sees more of it than its lookups. Two indexes with the
same lookups (`Agrees`) resolve every name alike (`Agrees.qualify_eq`). Types with
distinct names may be added in any order (`agrees_addAll_of_perm`).
-/

set_option autoImplicit false

namespace Apidoc.Model

namespace Index

/-! ### Lookups -/

/-- What a lookup finds has the name that was asked for. -/
theorem qualifiedName_of_get? {index : Index} {name : String} {l : Located}
    (h : index.get? name = some l) : l.declaration.qualifiedName = name := by
  simpa using List.find?_some h

/-- What a lookup finds is one of the types of the index. -/
theorem mem_types_of_get? {index : Index} {name : String} {l : Located}
    (h : index.get? name = some l) : l ∈ index.types :=
  List.mem_of_find?_eq_some h

/-- An index knows a name if a lookup of it finds something. -/
theorem contains_iff {index : Index} {name : String} :
    index.contains name = true ↔ ∃ l, index.get? name = some l :=
  Option.isSome_iff_exists

/-- The empty index finds nothing. -/
@[simp] theorem get?_empty (name : String) : empty.get? name = none := rfl

/-- Adding a type matters for its own name only, and only if that name was free. -/
theorem get?_insert (index : Index) (l : Located) (name : String) :
    (index.insert l).get? name
      = (index.get? name).or (if l.declaration.qualifiedName = name then some l else none) := by
  unfold insert
  -- A type of a known name changes nothing, and the lookup finds the earlier one.
  by_cases hknown : index.contains l.declaration.qualifiedName = true
  · rw [if_pos hknown]
    show index.get? name = _
    split
    · rename_i hname
      obtain ⟨first, hfirst⟩ := contains_iff.mp hknown
      rw [← hname, hfirst]
      rfl
    · rw [Option.or_none]
  · rw [if_neg hknown]
    show (index.types ++ [l]).find? _ = _
    rw [List.find?_append, List.find?_singleton]
    simp [get?]

/-- After several additions a lookup finds the first type of the name. -/
theorem get?_foldl_insert (ls : List Located) (index : Index) (name : String) :
    (ls.foldl insert index).get? name
      = (index.get? name).or (ls.find? fun l => l.declaration.qualifiedName = name) := by
  induction ls generalizing index with
  | nil => simp
  | cons l rest ih =>
    rw [List.foldl_cons, ih, get?_insert, Option.or_assoc, List.find?_cons]
    congr 1
    by_cases hname : l.declaration.qualifiedName = name <;> simp [hname]

/-- An index holds no other types than those that were added. -/
theorem mem_types_foldl_insert {ls : List Located} {index : Index} {t : Located}
    (h : t ∈ (ls.foldl insert index).types) : t ∈ index.types ∨ t ∈ ls := by
  induction ls generalizing index with
  | nil => exact .inl h
  | cons l rest ih =>
    rcases ih h with hinsert | hrest
    · rw [insert] at hinsert
      split at hinsert
      · exact .inl hinsert
      · rcases List.mem_append.mp hinsert with hold | hsame
        · exact .inl hold
        · exact .inr (List.mem_singleton.mp hsame ▸ List.mem_cons_self)
    · exact .inr (List.mem_cons_of_mem _ hrest)

/-- The types that adding an element adds: none if it is not a type itself. -/
def typesOf (l : Located) : List Located :=
  if l.declaration.kind.isType then nestedTypes l else []

/-- Adding an element adds the types in it, one after the other. -/
theorem add_eq_foldl_insert (index : Index) (l : Located) :
    index.add l = (typesOf l).foldl insert index := by
  unfold add typesOf
  split <;> rfl

/-- Adding elements adds the types in them, one after the other. -/
theorem addAll_eq_foldl_insert (ls : List Located) (index : Index) :
    index.addAll ls = (ls.flatMap typesOf).foldl insert index := by
  induction ls generalizing index with
  | nil => rfl
  | cons l rest ih =>
    rw [List.flatMap_cons, List.foldl_append, ← ih, ← add_eq_foldl_insert]
    rfl

/-- After adding elements to an empty index, a lookup finds the first type of the name. -/
theorem get?_addAll (ls : List Located) (name : String) :
    (empty.addAll ls).get? name
      = (ls.flatMap typesOf).find? fun l => l.declaration.qualifiedName = name := by
  rw [addAll_eq_foldl_insert, get?_foldl_insert, get?_empty, Option.none_or]

/-- An index knows exactly the names of the types that were added. -/
theorem contains_addAll (ls : List Located) (name : String) :
    (empty.addAll ls).contains name = true ↔
      ∃ l ∈ ls.flatMap typesOf, l.declaration.qualifiedName = name := by
  rw [contains, get?_addAll, List.find?_isSome]
  simp only [decide_eq_true_eq]

/-! ### Indexes with the same lookups -/

/-- Every lookup gives the same in both indexes. -/
def Agrees (i j : Index) : Prop := ∀ name, i.get? name = j.get? name

/-- Indexes with the same lookups know the same names. -/
theorem Agrees.contains_eq {i j : Index} (h : Agrees i j) : i.contains = j.contains := by
  funext name
  rw [contains, contains, h name]

/-- Indexes with the same lookups resolve names alike. -/
theorem Agrees.qualify_eq {i j : Index} (h : Agrees i j) : i.qualify = j.qualify := by
  -- Resolution asks an index only whether it knows a name.
  have hknown : i.firstKnown = j.firstKnown := by
    funext names
    rw [firstKnown, firstKnown, h.contains_eq]
  funext written scope
  simp only [qualify, viaEnclosing, viaPackage, viaOnDemandImport, hknown]

/-- Among types with distinct names, the first of a name is the only one, so that the
order does not matter. -/
theorem find?_name_eq_of_perm {ls ms : List Located} (h : ls.Perm ms)
    (distinct : (ls.map (·.declaration.qualifiedName)).Nodup) (name : String) :
    (ls.find? fun l => l.declaration.qualifiedName = name)
      = ms.find? fun l => l.declaration.qualifiedName = name := by
  induction h with
  | nil => rfl
  | cons l _ ih =>
    rw [List.map_cons, List.nodup_cons] at distinct
    rw [List.find?_cons, List.find?_cons, ih distinct.2]
  | swap l m rest =>
    simp only [List.map_cons, List.nodup_cons, List.mem_cons, not_or] at distinct
    -- At most one of the two swapped types can have the name.
    simp only [List.find?_cons]
    by_cases hm : m.declaration.qualifiedName = name
    · have hl : l.declaration.qualifiedName ≠ name := fun hl => distinct.1.1 (hm.trans hl.symm)
      simp [hm, hl]
    · simp [hm]
  | trans h₁ _ ih₁ ih₂ =>
    exact (ih₁ distinct).trans (ih₂ ((h₁.map _).nodup_iff.mp distinct))

/-- Elements whose types have distinct names may be added in any order. -/
theorem agrees_addAll_of_perm {ls ms : List Located} (h : ls.Perm ms)
    (distinct : ((ls.flatMap typesOf).map (·.declaration.qualifiedName)).Nodup) :
    Agrees (empty.addAll ls) (empty.addAll ms) := by
  intro name
  rw [get?_addAll, get?_addAll]
  exact find?_name_eq_of_perm (h.flatMap_right typesOf) distinct name

end Index

end Apidoc.Model
