import Apidoc.Model.Ancestors
import Apidoc.Proofs.Model.Index
import Mathlib.Data.List.Basic

/-!
# `Apidoc.Proofs.Model.Search`: the search for ancestors comes to its end

`Ancestry.collect` carries fuel. `Walk` is the same search without it: one rule for
each way in which a supertype is handled, and no bound. A derivation of a walk is a
search that came to its end.

* `Walk.unique`: a search has one result.
* `walk_foldl_visit`: with as much fuel as there are indexed types that have not been
  met, `collect` walks.
* `walk_found`: so the fuel of `ancestors` is enough for every index and every type,
  cycles included.
* `Walk.congr`: a search depends on the lookups of the index only.
-/

set_option autoImplicit false

namespace Apidoc.Model

namespace Ancestry

/-- The supertype is passed over: it is the root of all types, or it has been met. -/
def Passes (a : Ancestry) (s : Supertype) : Prop := s.name = rootType ∨ s.name ∈ a.visited

/-- A search through a list of supertypes, from what had been met before to what has been met
after it. -/
inductive Walk (index : Index) : List Supertype → Ancestry → Ancestry → Prop
  | done (a : Ancestry) : Walk index [] a a
  | pass {s : Supertype} {rest : List Supertype} {a b : Ancestry} (hpass : a.Passes s)
      (hrest : Walk index rest a b) : Walk index (s :: rest) a b
  | outside {s : Supertype} {rest : List Supertype} {a b : Ancestry} (hnew : ¬ a.Passes s)
      (hget : index.get? s.name = none) (hrest : Walk index rest (a.meet s.name s.asInterface) b) :
      Walk index (s :: rest) a b
  | inside {s : Supertype} {rest : List Supertype} {a b c : Ancestry} {l : Located}
      (hnew : ¬ a.Passes s) (hget : index.get? s.name = some l)
      (habove : Walk index (directSupertypes index l.scope)
        (a.meet s.name l.declaration.kind.isInterface) b)
      (hrest : Walk index rest b c) : Walk index (s :: rest) a c

@[simp] theorem visited_meet (a : Ancestry) (name : String) (isInterface : Bool) :
    (a.meet name isInterface).visited = a.visited ++ [name] := rfl

namespace Walk

variable {index : Index} {pending : List Supertype} {a b c : Ancestry}

/-- A search has one result. -/
theorem unique (hb : Walk index pending a b) : ∀ {c}, Walk index pending a c → b = c := by
  -- At each supertype the second search has to take the same rule as the first one.
  induction hb with
  | done a =>
    intro c hc
    cases hc
    rfl
  | pass hpass _ ih =>
    intro c hc
    cases hc with
    | pass _ hrest => exact ih hrest
    | outside hnew => exact absurd hpass hnew
    | inside hnew => exact absurd hpass hnew
  | outside hnew hget _ ih =>
    intro c hc
    cases hc with
    | pass hpass => exact absurd hpass hnew
    | outside _ _ hrest => exact ih hrest
    | inside _ hget' =>
      rw [hget] at hget'
      cases hget'
  | inside hnew hget _ _ ihabove ihrest =>
    intro c hc
    cases hc with
    | pass hpass => exact absurd hpass hnew
    | outside _ hget' =>
      rw [hget] at hget'
      cases hget'
    | inside _ hget' habove hrest =>
      rw [hget] at hget'
      cases hget'
      cases ihabove habove
      exact ihrest hrest

/-- What has been met stays met. -/
theorem visited_subset (h : Walk index pending a b) : a.visited ⊆ b.visited := by
  induction h with
  | done a => exact fun _ hn => hn
  | pass _ _ ih => exact ih
  | outside _ _ _ ih => exact fun n hn => ih (List.mem_append_left _ hn)
  | inside _ _ _ _ ihabove ihrest =>
    exact fun n hn => ihrest (ihabove (List.mem_append_left _ hn))

/-- The search depends on the lookups of the index only. -/
theorem congr {other : Index} (agrees : index.Agrees other) (h : Walk index pending a b) :
    Walk other pending a b := by
  have hdirect : directSupertypes index = directSupertypes other := by
    funext scope
    simp only [directSupertypes, agrees.qualify_eq]
  induction h with
  | done a => exact .done a
  | pass hpass _ ih => exact .pass hpass ih
  | outside hnew hget _ ih => exact .outside hnew (agrees _ ▸ hget) ih
  | inside hnew hget _ _ ihabove ihrest =>
    exact .inside hnew (agrees _ ▸ hget) (hdirect ▸ ihabove) ihrest

end Walk

/-! ### The fuel is enough -/

/-- What `collect` does with one supertype, with fuel left for the types above it. -/
def visit (index : Index) (fuel : Nat) (a : Ancestry) (s : Supertype) : Ancestry :=
  if s.name = rootType ∨ s.name ∈ a.visited then a
  else
    match index.get? s.name with
    | some l => collect index fuel l.scope (a.meet s.name l.declaration.kind.isInterface)
    | none => a.meet s.name s.asInterface

/-- Collecting visits the supertypes one after the other. -/
theorem collect_succ (index : Index) (fuel : Nat) (scope : Scope) (a : Ancestry) :
    collect index (fuel + 1) scope a
      = (directSupertypes index scope).foldl (visit index fuel) a := rfl

/-- The indexed types that have not been met. -/
def unmet (index : Index) (visited : List String) : List Located :=
  index.types.filter fun l => l.declaration.qualifiedName ∉ visited

/-- Meeting more leaves no more unmet. -/
theorem length_unmet_le (index : Index) {visited visited' : List String}
    (h : visited ⊆ visited') :
    (unmet index visited').length ≤ (unmet index visited).length := by
  refine List.Sublist.length_le (List.monotone_filter_right index.types fun l hl => ?_)
  rw [decide_eq_true_eq] at hl ⊢
  exact fun hmem => hl (h hmem)

/-- Meeting an indexed type for the first time leaves fewer unmet. -/
theorem length_unmet_append_lt {index : Index} {visited : List String} {name : String}
    {l : Located} (hget : index.get? name = some l) (hnew : name ∉ visited) :
    (unmet index (visited ++ [name])).length < (unmet index visited).length := by
  have hname : l.declaration.qualifiedName = name := Index.qualifiedName_of_get? hget
  have hl : l ∈ unmet index visited :=
    List.mem_filter.mpr ⟨Index.mem_types_of_get? hget, by simpa [hname] using hnew⟩
  -- What is unmet afterwards is what was unmet, without the type of that name.
  have hfilter : unmet index (visited ++ [name])
      = (unmet index visited).filter fun l => l.declaration.qualifiedName ≠ name := by
    rw [unmet, unmet, List.filter_filter]
    refine List.filter_congr fun m _ => ?_
    simp [and_comm]
  rw [hfilter]
  exact List.length_filter_lt_length_iff_exists.mpr ⟨l, hl, by simp [hname]⟩

/-- Visiting supertypes is a search, if collecting above a type is one whenever fewer than `n` types
are unmet. The type has just been met by then, so at most `n` were unmet before. -/
theorem walk_foldl_visit_of_collect {index : Index} {fuel n : Nat}
    (hcollect : ∀ (l : Located) (a : Ancestry), (unmet index a.visited).length < n →
      Walk index (directSupertypes index l.scope) a (collect index fuel l.scope a))
    (pending : List Supertype) :
    ∀ a : Ancestry, (unmet index a.visited).length ≤ n →
      Walk index pending a (pending.foldl (visit index fuel) a) := by
  -- This follows the pending supertypes only. What is above each of them is left to `hcollect`.
  induction pending with
  | nil => exact fun a _ => .done a
  | cons s rest ih =>
    intro a hn
    rw [List.foldl_cons]
    unfold visit
    split
    · rename_i hpass
      exact .pass hpass (ih a hn)
    · rename_i hnew
      split
      · rename_i l hget
        have hlt := length_unmet_append_lt hget (fun hmem => hnew (.inr hmem))
        have habove := hcollect l (a.meet s.name l.declaration.kind.isInterface)
          (Nat.lt_of_lt_of_le hlt hn)
        refine .inside hnew hget habove (ih _ ?_)
        -- The search above has met more, so no more is unmet when the rest is visited.
        have hle := length_unmet_le index habove.visited_subset
        rw [visited_meet] at hle
        omega
      · rename_i hget
        refine .outside hnew hget (ih _ ?_)
        exact Nat.le_trans (length_unmet_le index (List.subset_append_left _ _)) hn

/-- With at least as much fuel as there are unmet types, visiting supertypes is a search. -/
theorem walk_foldl_visit (index : Index) (fuel : Nat) :
    ∀ (pending : List Supertype) (a : Ancestry), (unmet index a.visited).length ≤ fuel →
      Walk index pending a (pending.foldl (visit index fuel) a) := by
  induction fuel with
  | zero =>
    -- Nothing is unmet, so no indexed type is met for the first time and no fuel is asked for.
    exact walk_foldl_visit_of_collect fun _ _ h => absurd h (Nat.not_lt_zero _)
  | succ fuel ih =>
    refine walk_foldl_visit_of_collect fun l a h => ?_
    rw [collect_succ]
    exact ih _ a (Nat.le_of_lt_succ h)

/-- What a search for the ancestors of a type starts from: the type itself has been met. -/
def start (own : String) : Ancestry := ⟨[own], [], []⟩

/-- What the search for the ancestors of a type meets. -/
def found (index : Index) (scope : Scope) : Ancestry :=
  collect index (index.size + 1) scope (start scope.declaration.qualifiedName)

/-- The search for the ancestors of a type comes to its end, whatever the index holds. -/
theorem walk_found (index : Index) (scope : Scope) :
    Walk index (directSupertypes index scope) (start scope.declaration.qualifiedName)
      (found index scope) := by
  rw [found, collect_succ]
  exact walk_foldl_visit index index.size _ _ (List.length_filter_le _ _)

/-- The result of a search is what `found` gives. -/
theorem found_eq_of_walk {index : Index} {scope : Scope} {b : Ancestry}
    (h : Walk index (directSupertypes index scope) (start scope.declaration.qualifiedName) b) :
    found index scope = b :=
  (walk_found index scope).unique h

end Ancestry

end Apidoc.Model
