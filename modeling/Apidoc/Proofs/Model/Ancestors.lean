import Apidoc.Proofs.Model.Search
import Apidoc.Proofs.Sorting
import Mathlib.Data.List.Nodup
import Mathlib.Data.List.Perm.Basic
import Mathlib.Logic.Relation

/-!
# `Apidoc.Proofs.Model.Ancestors`: the ancestors of a type are what is above it

The search for ancestors (`Apidoc.Proofs.Model.Search`) meets every name that one or
more steps to direct supertypes lead to, and no other.

* `Walk.met_of_pending`: only what is above is met.
* `Walk.closed`: what is met for the first time is left with all its supertypes met.
  This is the delicate half. A name that an earlier branch met is passed over, so its
  supertypes have to be met by that branch.
* `Walk.consistent`, `Walk.sorted`: each name is listed once, in the list of its kind.
* `ancestors_eq_reachable` puts these together.
-/

set_option autoImplicit false

namespace Apidoc.Model

namespace Ancestry

/-- Every name met is the start or stands in one of the two lists, and no name twice. -/
structure Consistent (own : String) (a : Ancestry) : Prop where
  names : (own :: (a.classes ++ a.interfaces)).Perm a.visited
  nodup : a.visited.Nodup

/-- Nothing stands in a list at the start. -/
theorem consistent_start (own : String) : Consistent own (start own) :=
  ⟨List.Perm.refl _, List.nodup_singleton own⟩

/-- Meeting a new name keeps the lists consistent. -/
theorem Consistent.meet {own name : String} {a : Ancestry} (h : Consistent own a)
    (isInterface : Bool) (hnew : name ∉ a.visited) : Consistent own (a.meet name isInterface) where
  names := by
    rw [visited_meet]
    refine List.Perm.trans ?_ (h.names.append_right [name])
    cases isInterface with
    | true => simp [Ancestry.meet]
    | false =>
      -- A class comes to stand in front of the interfaces, not at the end.
      have hswap : ([name] ++ a.interfaces).Perm (a.interfaces ++ [name]) := List.perm_append_comm
      simpa [Ancestry.meet] using hswap.append_left a.classes
  nodup := by
    rw [visited_meet]
    rw [← List.concat_eq_append]
    exact h.nodup.concat hnew

/-- A search keeps the lists consistent. -/
theorem Walk.consistent {index : Index} {pending : List Supertype} {a b : Ancestry} {own : String}
    (h : Walk index pending a b) (ha : Consistent own a) : Consistent own b := by
  induction h with
  | done => exact ha
  | pass _ _ ih => exact ih ha
  | outside hnew _ _ ih => exact ih (ha.meet _ fun hmem => hnew (.inr hmem))
  | inside hnew _ _ _ ihabove ihrest =>
    exact ihrest (ihabove (ha.meet _ fun hmem => hnew (.inr hmem)))

/-- Every indexed name stands in the list of its kind. -/
def Sorted (index : Index) (a : Ancestry) : Prop :=
  ∀ name l, index.get? name = some l →
    (name ∈ a.classes → l.declaration.kind.isInterface = false) ∧
    (name ∈ a.interfaces → l.declaration.kind.isInterface = true)

/-- Meeting a name keeps the lists sorted, if an indexed name is met as what it is. -/
theorem Sorted.meet {index : Index} {name : String} {isInterface : Bool} {a : Ancestry}
    (h : Sorted index a)
    (hkind : ∀ l, index.get? name = some l → l.declaration.kind.isInterface = isInterface) :
    Sorted index (a.meet name isInterface) := by
  intro other l hget
  obtain ⟨hclasses, hinterfaces⟩ := h other l hget
  cases isInterface with
  | true =>
    refine ⟨hclasses, fun hmem => ?_⟩
    rcases List.mem_append.mp hmem with hold | hsame
    · exact hinterfaces hold
    · exact hkind l (List.mem_singleton.mp hsame ▸ hget)
  | false =>
    refine ⟨fun hmem => ?_, hinterfaces⟩
    rcases List.mem_append.mp hmem with hold | hsame
    · exact hclasses hold
    · exact hkind l (List.mem_singleton.mp hsame ▸ hget)

/-- A search keeps the lists sorted. -/
theorem Walk.sorted {index : Index} {pending : List Supertype} {a b : Ancestry}
    (h : Walk index pending a b) (ha : Sorted index a) : Sorted index b := by
  induction h with
  | done => exact ha
  | pass _ _ ih => exact ih ha
  | outside _ hget _ ih =>
    refine ih (ha.meet fun l hl => ?_)
    rw [hget] at hl
    cases hl
  | inside _ hget _ _ ihabove ihrest =>
    refine ihrest (ihabove (ha.meet fun l hl => ?_))
    rw [hget] at hl
    cases hl
    rfl

/-- The second name is that of a direct supertype of the type that is indexed under the first, and
not the root of all types. -/
def DirectlyAbove (index : Index) (below above : String) : Prop :=
  ∃ l, index.get? below = some l ∧ (∃ s ∈ directSupertypes index l.scope, s.name = above) ∧
    above ≠ rootType

/-- A search meets nothing but what it was sent to and what is above that: every property of the
pending names that climbs to direct supertypes holds of each name that was met on the way. -/
theorem Walk.met_of_pending {index : Index} {pending : List Supertype} {a b : Ancestry}
    (h : Walk index pending a b) {P : String → Prop}
    (hclimb : ∀ n m, P n → DirectlyAbove index n m → P m)
    (hpending : ∀ s ∈ pending, s.name ≠ rootType → P s.name) :
    ∀ n ∈ b.visited, n ∈ a.visited ∨ P n := by
  induction h with
  | done => exact fun n hn => .inl hn
  | pass _ _ ih => exact ih fun s hs => hpending s (List.mem_cons_of_mem _ hs)
  | outside hnew _ _ ih =>
    intro n hn
    have hs := hpending _ List.mem_cons_self fun hroot => hnew (.inl hroot)
    rcases ih (fun s hs => hpending s (List.mem_cons_of_mem _ hs)) n hn with hmet | hP
    · rcases List.mem_append.mp hmet with hold | hsame
      · exact .inl hold
      · exact .inr (List.mem_singleton.mp hsame ▸ hs)
    · exact .inr hP
  | inside hnew hget _ _ ihabove ihrest =>
    intro n hn
    have hs := hpending _ List.mem_cons_self fun hroot => hnew (.inl hroot)
    -- The supertypes of the type are pending in the search above it, and the property climbs there.
    have habove := ihabove fun t ht hroot => hclimb _ _ hs ⟨_, hget, ⟨t, ht, rfl⟩, hroot⟩
    rcases ihrest (fun t ht => hpending t (List.mem_cons_of_mem _ ht)) n hn with hmet | hP
    · rcases habove n hmet with hmet' | hP
      · rcases List.mem_append.mp hmet' with hold | hsame
        · exact .inl hold
        · exact .inr (List.mem_singleton.mp hsame ▸ hs)
      · exact .inr hP
    · exact .inr hP

/-- A search meets every name that it was sent to, the root of all types apart. -/
theorem Walk.pending_met {index : Index} {pending : List Supertype} {a b : Ancestry}
    (h : Walk index pending a b) : ∀ s ∈ pending, s.name ≠ rootType → s.name ∈ b.visited := by
  induction h with
  | done => exact fun _ hs => absurd hs List.not_mem_nil
  | pass hpass hrest ih =>
    intro s hs hroot
    rcases List.mem_cons.mp hs with rfl | hs
    · exact hrest.visited_subset (hpass.resolve_left hroot)
    · exact ih s hs hroot
  | outside _ _ hrest ih =>
    intro s hs hroot
    rcases List.mem_cons.mp hs with rfl | hs
    · exact hrest.visited_subset (List.mem_append_right _ List.mem_cons_self)
    · exact ih s hs hroot
  | inside _ _ habove hrest _ ihrest =>
    intro s hs hroot
    rcases List.mem_cons.mp hs with rfl | hs
    · exact hrest.visited_subset
        (habove.visited_subset (List.mem_append_right _ List.mem_cons_self))
    · exact ihrest s hs hroot

/-- What a search meets for the first time, it leaves with all its direct supertypes met. Those that
it passes over there were met before. -/
theorem Walk.closed {index : Index} {pending : List Supertype} {a b : Ancestry}
    (h : Walk index pending a b) :
    ∀ n ∈ b.visited, n ∉ a.visited → ∀ m, DirectlyAbove index n m → m ∈ b.visited := by
  induction h with
  | done => exact fun n hn hnew => absurd hn hnew
  | pass _ _ ih => exact ih
  | @outside s rest a b hnew hget _ ih =>
    intro n hn hna m hm
    by_cases hsame : n = s.name
    · -- Nothing is known above a type that is not indexed.
      obtain ⟨l, hl, -⟩ := hm
      rw [hsame, hget] at hl
      cases hl
    · exact ih n hn (by simpa [hna] using hsame) m hm
  | @inside s rest a b c l hnew hget habove hrest ihabove ihrest =>
    intro n hn hna m hm
    -- The name was met in the search above the type, or in the rest.
    by_cases hb : n ∈ b.visited
    · refine hrest.visited_subset ?_
      by_cases hsame : n = s.name
      · -- The supertypes of the type itself were pending in the search above it.
        obtain ⟨l', hl', ⟨t, ht, rfl⟩, hroot⟩ := hm
        rw [hsame, hget] at hl'
        cases hl'
        exact habove.pending_met t ht hroot
      · exact ihabove n hb (by simpa [hna] using hsame) m hm
    · exact ihrest n hn hb m hm

end Ancestry

open Apidoc.Model.Ancestry

/-! ### The ancestors of an indexed type -/

/-- Every name above an indexed type is met. -/
theorem mem_visited_of_reachable {index : Index} {l : Located}
    (held : index.get? l.declaration.qualifiedName = some l) {name : String}
    (h : Relation.TransGen (DirectlyAbove index) l.declaration.qualifiedName name) :
    name ∈ (found index l.scope).visited := by
  have hwalk := walk_found index l.scope
  -- The type itself counts as met from the start, so its supertypes are those that were pending.
  have hown : ∀ m, DirectlyAbove index l.declaration.qualifiedName m →
      m ∈ (found index l.scope).visited := by
    rintro m ⟨l', hl', ⟨s, hs, rfl⟩, hroot⟩
    rw [held] at hl'
    cases hl'
    exact hwalk.pending_met s hs hroot
  induction h with
  | single hstep => exact hown _ hstep
  | @tail n m _ hstep ih =>
    by_cases hn : n = l.declaration.qualifiedName
    · exact hown m (hn ▸ hstep)
    · -- Any other name was met for the first time in this search.
      refine hwalk.closed n ih ?_ m hstep
      exact fun hmem => hn (List.mem_singleton.mp hmem)

/-- The names that the search lists are those above the type, the type itself left out. -/
theorem mem_found_iff {index : Index} {l : Located}
    (held : index.get? l.declaration.qualifiedName = some l) (name : String) :
    name ∈ (found index l.scope).classes ++ (found index l.scope).interfaces ↔
      Relation.TransGen (DirectlyAbove index) l.declaration.qualifiedName name ∧
        name ≠ l.declaration.qualifiedName := by
  have hwalk := walk_found index l.scope
  have hcons := hwalk.consistent (consistent_start l.declaration.qualifiedName)
  have hnodup := hcons.names.nodup_iff.mpr hcons.nodup
  constructor
  · intro hmem
    have hne : name ≠ l.declaration.qualifiedName := by
      rintro rfl
      exact (List.nodup_cons.mp hnodup).1 hmem
    refine ⟨?_, hne⟩
    have hmet := hwalk.met_of_pending
      (P := Relation.TransGen (DirectlyAbove index) l.declaration.qualifiedName)
      (fun n m hn hm => hn.tail hm)
      (fun s hs hroot => .single ⟨l, held, ⟨s, hs, rfl⟩, hroot⟩)
      name (hcons.names.mem_iff.mp (List.mem_cons_of_mem _ hmem))
    exact hmet.resolve_left fun hown => hne (List.mem_singleton.mp hown)
  · rintro ⟨hreach, hne⟩
    have hmem := hcons.names.mem_iff.mpr (mem_visited_of_reachable held hreach)
    exact (List.mem_cons.mp hmem).resolve_left hne

/-- The classes are those that were met, and the interfaces are those that were met, sorted by the
last segments of their names. -/
theorem ancestors_eq_found (index : Index) (scope : Scope) :
    ancestors index scope = ((found index scope).classes,
      Proofs.sortBy (fun name => QualifiedName.lastSegment (QualifiedName.simple name))
        (found index scope).interfaces) := rfl

/-- The interfaces are those that were met, in another order. -/
theorem ancestors_interfaces_perm (index : Index) (scope : Scope) :
    (ancestors index scope).2.Perm (found index scope).interfaces := by
  rw [ancestors_eq_found]
  exact List.mergeSort_perm _ _

/-- Both lists together are those of the search, in another order. -/
theorem ancestors_append_perm (index : Index) (scope : Scope) :
    ((ancestors index scope).1 ++ (ancestors index scope).2).Perm
      ((found index scope).classes ++ (found index scope).interfaces) :=
  (ancestors_interfaces_perm index scope).append_left _

/-- No name is listed twice, and the type itself is not listed. This holds whether or not the type is
the one that is indexed under its name. -/
theorem nodup_cons_ancestors (index : Index) (scope : Scope) :
    (scope.declaration.qualifiedName ::
      ((ancestors index scope).1 ++ (ancestors index scope).2)).Nodup := by
  have hcons := (walk_found index scope).consistent
    (consistent_start scope.declaration.qualifiedName)
  have hperm := ((ancestors_append_perm index scope).cons _).trans hcons.names
  exact hperm.nodup_iff.mpr hcons.nodup

/-- Indexes with the same lookups give the same ancestors. -/
theorem Index.Agrees.ancestors_eq {i j : Index} (h : i.Agrees j) : ancestors i = ancestors j := by
  funext scope
  have hdirect : directSupertypes i scope = directSupertypes j scope := by
    simp only [directSupertypes, h.qualify_eq]
  have hfound : found j scope = found i scope :=
    found_eq_of_walk (hdirect ▸ (walk_found i scope).congr h)
  rw [ancestors_eq_found, ancestors_eq_found, hfound]

/-- The ancestors of an indexed type are the names above it. The search for them comes to its end.
The names in the two lists are exactly those that one or more steps to direct supertypes lead to,
through indexed types and past the root of all types, and the type itself is left out, even where it
lies on a cycle. Each of them is listed once, and an indexed one among the interfaces if and only if
it is an interface or an annotation type. -/
theorem ancestors_eq_reachable (index : Index) (l : Located)
    (held : index.get? l.declaration.qualifiedName = some l) :
    (∃ met, Walk index (directSupertypes index l.scope) (start l.declaration.qualifiedName) met ∧
      (ancestors index l.scope).1 = met.classes ∧
      (ancestors index l.scope).2.Perm met.interfaces) ∧
    (∀ name, name ∈ (ancestors index l.scope).1 ++ (ancestors index l.scope).2 ↔
      Relation.TransGen (DirectlyAbove index) l.declaration.qualifiedName name ∧
        name ≠ l.declaration.qualifiedName) ∧
    ((ancestors index l.scope).1 ++ (ancestors index l.scope).2).Nodup ∧
    ∀ name m, name ∈ (ancestors index l.scope).1 ++ (ancestors index l.scope).2 →
      index.get? name = some m →
      (name ∈ (ancestors index l.scope).2 ↔
        m.declaration.kind = .type .interfaceType ∨ m.declaration.kind = .type .annotationType) := by
  have hwalk := walk_found index l.scope
  refine ⟨⟨_, hwalk, rfl, ancestors_interfaces_perm index l.scope⟩,
    fun name => ?_, (List.nodup_cons.mp (nodup_cons_ancestors index l.scope)).2, ?_⟩
  · rw [(ancestors_append_perm index l.scope).mem_iff]
    exact mem_found_iff held name
  · intro name m hmem hget
    have hsorted := hwalk.sorted (fun _ _ _ => ⟨nofun, nofun⟩) name m hget
    have hinterface : m.declaration.kind.isInterface = true ↔
        m.declaration.kind = .type .interfaceType ∨ m.declaration.kind = .type .annotationType := by
      unfold ElementKind.isInterface
      split <;> simp_all
    rw [← hinterface]
    constructor
    · exact fun hi => hsorted.2 ((ancestors_interfaces_perm index l.scope).mem_iff.mp hi)
    · intro hkind
      -- It stands in one of the two lists, and among the classes there is no interface.
      refine (List.mem_append.mp hmem).resolve_left fun hclass => ?_
      rw [hsorted.1 hclass] at hkind
      cases hkind

/-- A class of the default package that extends another one. -/
def extending (name superclass : String) : Located where
  source := ⟨⟨.workingDirectory, [name]⟩, "", [], []⟩
  owners := []
  element := .mk { Declaration.bare (.type .classType) name name ⟨0, 0⟩ with
    superclass := some superclass } []

/-- Two classes that extend each other. -/
def cycle : Index := Index.empty.addAll [extending "Ping" "Pong", extending "Pong" "Ping"]

/-- On a cycle the search finds the other class, and not the one it started from. -/
theorem ancestors_eq_reachable_cycle :
    cycle.get? "Ping" = some (extending "Ping" "Pong") ∧
    "Pong" ∈ (ancestors cycle (extending "Ping" "Pong").scope).1 ++
      (ancestors cycle (extending "Ping" "Pong").scope).2 ∧
    "Ping" ∉ (ancestors cycle (extending "Ping" "Pong").scope).1 ++
      (ancestors cycle (extending "Ping" "Pong").scope).2 := by
  have hget : cycle.get? "Ping" = some (extending "Ping" "Pong") := rfl
  have hreach := (ancestors_eq_reachable cycle (extending "Ping" "Pong") hget).2.1
  refine ⟨hget, (hreach "Pong").mpr ⟨.single ?_, by decide⟩, fun hmem => ?_⟩
  · exact ⟨extending "Ping" "Pong", hget, ⟨⟨"Pong", false⟩, by decide +kernel, rfl⟩, by decide⟩
  · exact ((hreach "Ping").mp hmem).2 rfl

end Apidoc.Model
