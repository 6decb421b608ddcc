import Apidoc.Proofs.Graph.Symbols
import Mathlib.Data.List.DropRight

/-!
# `Apidoc.Proofs.Graph.History`: a graph after any changes

Records are added to a graph, and it is sorted, connected and cleared, in any order. Its
names and packages stay those of its records (`isFilled_changed`), so a name finds the only
record that has it (`IsFilled.find?_eq_some_iff`). That is the first one that was added with
the name since the graph was cleared last, whatever it has learned of its subtypes
(`remembers_changed`).
-/

set_option autoImplicit false

namespace Apidoc.Graph.Symbols

/-- What can be done to a graph. -/
inductive Change where
  | add (r : Record)
  | sort
  | connect
  | clear

/-- A graph after a change. -/
def change (g : Symbols) : Change → Symbols
  | .add r => g.add r
  | .sort => g.sort
  | .connect => g.connect
  | .clear => empty

/-- An empty graph after some changes. -/
def changed (changes : List Change) : Symbols := changes.foldl change empty

/-- The packages of the records stay as they are when the graph is connected. -/
theorem packages_connect (g : Symbols) :
    g.connect.types.map Record.package = g.types.map Record.package := by
  rw [connect_types, List.map_map]
  refine List.map_congr_left fun r _ => ?_
  obtain ⟨names, hnames⟩ := Record.exists_foldl_learn_eq g.types r
  rw [Function.comp_apply, hnames]
  rfl

/-- Sorting puts names and packages in another order. -/
theorem IsFilled.sort {g : Symbols} (h : g.IsFilled) : g.sort.IsFilled where
  names := (g.types_sort_perm.map Record.qualifiedName).nodup_iff.mpr h.names
  packages := (List.mergeSort_perm g.packages _).nodup_iff.mpr h.packages
  mem_packages package := by
    rw [show g.sort.packages = g.packages.mergeSort _ from rfl, List.mem_mergeSort, h.mem_packages]
    simp only [g.types_sort_perm.mem_iff]

/-- Connecting changes neither names nor packages. -/
theorem IsFilled.connect {g : Symbols} (h : g.IsFilled) : g.connect.IsFilled where
  names := g.names_connect ▸ h.names
  packages := h.packages
  mem_packages package := by
    have hpackages : (∃ r ∈ g.connect.types, r.package = package) ↔
        ∃ r ∈ g.types, r.package = package := by
      rw [← List.mem_map, ← List.mem_map, packages_connect]
    rw [hpackages]
    exact h.mem_packages package

/-- A change keeps the names and the packages those of the records. -/
theorem IsFilled.change {g : Symbols} (h : g.IsFilled) (c : Change) : (g.change c).IsFilled := by
  cases c with
  | add r => exact h.add r
  | sort => exact h.sort
  | connect => exact h.connect
  | clear => exact isFilled_empty

/-- A name finds the record that has it. -/
theorem IsFilled.find?_eq_some_iff {g : Symbols} (h : g.IsFilled) {name : String} {r : Record} :
    g.find? name = some r ↔ r ∈ g.types ∧ r.qualifiedName = name := by
  constructor
  · intro hfind
    exact ⟨List.mem_of_find?_eq_some hfind, by simpa using List.find?_some hfind⟩
  · rintro ⟨hr, hname⟩
    -- Some record is found, and no other one has the name.
    obtain ⟨s, hs⟩ := Option.isSome_iff_exists.mp (contains_iff.mpr ⟨r, hr, hname⟩)
    have hsame : s.qualifiedName = r.qualifiedName := by
      rw [hname]
      simpa using List.find?_some hs
    rw [hs, List.inj_on_of_nodup_map h.names (List.mem_of_find?_eq_some hs) hr hsame]

/-- An added record is found, unless there was one of its name. -/
theorem find?_add (g : Symbols) (r : Record) (name : String) :
    (g.add r).find? name = (g.find? name).or (if r.qualifiedName = name then some r else none) := by
  cases hknown : g.contains r.qualifiedName with
  | true =>
    rw [add, if_pos hknown]
    split
    · rename_i hname
      obtain ⟨s, hs⟩ := Option.isSome_iff_exists.mp hknown
      rw [← hname, hs, Option.some_or]
    · rw [Option.or_none]
  | false =>
    rw [find?, types_add_of_new hknown, List.find?_append, List.find?_singleton]
    simp [find?]

/-- The same record is found after sorting. -/
theorem IsFilled.find?_sort {g : Symbols} (h : g.IsFilled) (name : String) :
    g.sort.find? name = g.find? name := by
  refine Option.ext fun r => ?_
  rw [h.sort.find?_eq_some_iff, h.find?_eq_some_iff, g.types_sort_perm.mem_iff]

/-- After connecting the record is found that has learned from all. -/
theorem find?_connect (g : Symbols) (name : String) :
    g.connect.find? name = (g.find? name).map fun r => g.types.foldl Record.learn r := by
  rw [find?, connect_types, List.find?_map]
  simp only [Function.comp_def, Record.qualifiedName_foldl_learn]
  rfl

/-- Whether a change clears the graph. -/
def Change.isClear : Change → Bool
  | .clear => true
  | _ => false

/-- The record that a change adds. -/
def Change.record? : Change → Option Record
  | .add r => some r
  | _ => none

/-- The records that were offered since the graph was cleared last. -/
def offeredRecords (changes : List Change) : List Record :=
  (changes.rtakeWhile fun c => !c.isClear).filterMap Change.record?

theorem offeredRecords_concat (changes : List Change) {c : Change} (hc : c.isClear = false) :
    offeredRecords (changes ++ [c]) = offeredRecords changes ++ c.record?.toList := by
  rw [offeredRecords, List.rtakeWhile_concat_pos _ _ _ (by rw [hc]; rfl), List.filterMap_append]
  cases h : c.record? with
  | none => rw [List.filterMap_cons_none h]; rfl
  | some r => rw [List.filterMap_cons_some h]; rfl

/-- A graph finds the first record of the name that was offered since it was cleared last. Only its
subtypes may be others. -/
def Remembers (changes : List Change) (g : Symbols) : Prop :=
  ∀ name, ∃ subtypes, g.find? name
    = ((offeredRecords changes).find? (·.qualifiedName = name)).map (·.withSubtypes subtypes)

/-- A change keeps that. -/
theorem Remembers.change {changes : List Change} {g : Symbols} (h : Remembers changes g)
    (hfilled : g.IsFilled) (c : Change) : Remembers (changes ++ [c]) (g.change c) := by
  intro name
  obtain ⟨subtypes, hfind⟩ := h name
  cases c with
  | add r =>
    rw [Symbols.change, find?_add, hfind, offeredRecords_concat changes rfl, List.find?_append]
    cases (offeredRecords changes).find? (·.qualifiedName = name) with
    | some s => exact ⟨subtypes, rfl⟩
    | none =>
      -- The record is the first one of its name, and it is found as it is.
      refine ⟨r.subtypes, ?_⟩
      rw [show (Change.add r).record?.toList = [r] from rfl, List.find?_singleton]
      by_cases hname : r.qualifiedName = name <;> simp [hname, Record.withSubtypes]
  | sort =>
    rw [Symbols.change, hfilled.find?_sort, offeredRecords_concat changes rfl,
      show Change.sort.record?.toList = [] from rfl, List.append_nil]
    exact ⟨subtypes, hfind⟩
  | connect =>
    rw [Symbols.change, find?_connect, hfind, offeredRecords_concat changes rfl,
      show Change.connect.record?.toList = [] from rfl, List.append_nil]
    cases (offeredRecords changes).find? (·.qualifiedName = name) with
    | none => exact ⟨subtypes, rfl⟩
    | some s =>
      -- The record learns, which changes its subtypes and nothing else.
      obtain ⟨names, hnames⟩ := Record.exists_foldl_learn_eq g.types (s.withSubtypes subtypes)
      exact ⟨names, congrArg some hnames⟩
  | clear =>
    refine ⟨[], ?_⟩
    rw [offeredRecords, List.rtakeWhile_concat_neg _ _ _ (by simp [Change.isClear])]
    rfl

end Apidoc.Graph.Symbols
