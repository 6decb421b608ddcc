import Apidoc.Graph.Symbols
import Apidoc.Proofs.Graph.Record

/-!
# `Apidoc.Proofs.Graph.Symbols`: finishing a graph

A graph is filled record by record, sorted, and connected. Connecting walks through
all records and changes others on the way. `connect_types` turns this around: each
record learns (`Record.learn`) from all records in turn, and what it has learned at
the end is the list of those below it (`foldl_learn`).

`IsFinished` is what sorting and connecting leave behind, and neither changes a graph
of which it holds. `subtypes_of_finished` puts together what the subtypes in a
finished graph are.
-/

set_option autoImplicit false

namespace Apidoc.Graph

open Apidoc.Proofs (sortBy pairwise_sortBy sortBy_eq_self sortBy_eq_of_perm pairwise_lt_of_nodup)

/-! ### Learning -/

namespace Record

@[simp] theorem qualifiedName_addSubtype (r : Record) (name : String) :
    (r.addSubtype name).qualifiedName = r.qualifiedName := by
  unfold addSubtype
  split <;> rfl

/-- Listing a subtype again changes nothing. -/
@[simp] theorem addSubtype_addSubtype (r : Record) (name : String) :
    (r.addSubtype name).addSubtype name = r.addSubtype name := by
  have hmem : name ∈ (r.addSubtype name).subtypes := by
    unfold addSubtype
    split
    · assumption
    · exact List.mem_append_right _ List.mem_cons_self
  rw [addSubtype, if_pos hmem]

/-- The record with these subtypes. -/
def withSubtypes (r : Record) (names : List String) : Record := { r with subtypes := names }

@[simp] theorem qualifiedName_withSubtypes (r : Record) (names : List String) :
    (r.withSubtypes names).qualifiedName = r.qualifiedName := rfl

@[simp] theorem ancestors_withSubtypes (r : Record) (names : List String) :
    (r.withSubtypes names).ancestors = r.ancestors := rfl

@[simp] theorem subtypes_withSubtypes (r : Record) (names : List String) :
    (r.withSubtypes names).subtypes = names := rfl

/-- What a record learns from another one: that this is below it, if it is. -/
def learn (r below : Record) : Record :=
  if r.qualifiedName ∈ below.ancestors then r.addSubtype below.qualifiedName else r

/-- A record keeps its name, whatever it learns. -/
theorem qualifiedName_foldl_learn (ps : List Record) (r : Record) :
    (ps.foldl learn r).qualifiedName = r.qualifiedName := by
  induction ps generalizing r with
  | nil => rfl
  | cons p rest ih =>
    rw [List.foldl_cons, ih, learn]
    split
    · exact qualifiedName_addSubtype r p.qualifiedName
    · rfl

/-- Whatever a record learns, only its subtypes change. -/
theorem exists_foldl_learn_eq (ps : List Record) (r : Record) :
    ∃ names, ps.foldl learn r = r.withSubtypes names := by
  induction ps generalizing r with
  | nil => exact ⟨r.subtypes, rfl⟩
  | cons p rest ih =>
    obtain ⟨names, hnames⟩ := ih (learn r p)
    refine ⟨names, ?_⟩
    rw [List.foldl_cons, hnames, learn, addSubtype]
    split
    · split <;> rfl
    · rfl

/-- The names of the records that have `name` above them. -/
def namesBelow (ps : List Record) (name : String) : List String :=
  (ps.filter fun p => name ∈ p.ancestors).map qualifiedName

/-- The names below a name are those of the records that have it above them. -/
theorem mem_namesBelow {ps : List Record} {name below : String} :
    below ∈ namesBelow ps name ↔ ∃ p ∈ ps, name ∈ p.ancestors ∧ p.qualifiedName = below := by
  simp only [namesBelow, List.mem_map, List.mem_filter, decide_eq_true_eq, and_assoc]

/-- The names below a name come in the order of the records. -/
theorem namesBelow_sublist (ps : List Record) (name : String) :
    (namesBelow ps name).Sublist (ps.map qualifiedName) :=
  List.filter_sublist.map qualifiedName

/-- Among records with distinct names, a record is below a name exactly if it has that above it. -/
theorem mem_namesBelow_of_distinct {ps : List Record} (distinct : (ps.map qualifiedName).Nodup)
    {p : Record} (hp : p ∈ ps) (name : String) :
    p.qualifiedName ∈ namesBelow ps name ↔ name ∈ p.ancestors := by
  rw [mem_namesBelow]
  constructor
  · rintro ⟨q, hq, habove, hname⟩
    rw [List.inj_on_of_nodup_map distinct hp hq hname.symm]
    exact habove
  · exact fun habove => ⟨p, hp, habove, rfl⟩

/-- Among records with distinct names, each one below a name is counted once. -/
theorem count_namesBelow {ps : List Record} (distinct : (ps.map qualifiedName).Nodup)
    {p : Record} (hp : p ∈ ps) (name : String) :
    (namesBelow ps name).count p.qualifiedName
      = if name ∈ p.supertypes ∨ name ∈ p.interfaces then 1 else 0 := by
  rw [((namesBelow_sublist ps name).nodup distinct).count]
  have hbelow := mem_namesBelow_of_distinct distinct hp name
  rw [ancestors, List.mem_append] at hbelow
  by_cases h : name ∈ p.supertypes ∨ name ∈ p.interfaces
  · rw [if_pos h, if_pos (hbelow.mpr h)]
  · rw [if_neg h, if_neg (mt hbelow.mp h)]

/-- A record that learns from records with distinct names, none of which it lists, lists those below
it in their order. -/
theorem foldl_learn (ps : List Record) :
    ∀ r : Record, (ps.map qualifiedName).Nodup → (∀ p ∈ ps, p.qualifiedName ∉ r.subtypes) →
      ps.foldl learn r = r.withSubtypes (r.subtypes ++ namesBelow ps r.qualifiedName) := by
  induction ps with
  | nil =>
    intro r _ _
    rw [namesBelow, List.filter_nil, List.map_nil, List.append_nil]
    rfl
  | cons p rest ih =>
    intro r distinct hnew
    rw [List.map_cons, List.nodup_cons] at distinct
    have hrest : ∀ q ∈ rest, q.qualifiedName ∉ r.subtypes :=
      fun q hq => hnew q (List.mem_cons_of_mem _ hq)
    rw [List.foldl_cons]
    by_cases hbelow : r.qualifiedName ∈ p.ancestors
    · have hlearn : r.learn p = r.withSubtypes (r.subtypes ++ [p.qualifiedName]) := by
        rw [learn, if_pos hbelow, addSubtype, if_neg (hnew p List.mem_cons_self)]
        rfl
      have hnames : namesBelow (p :: rest) r.qualifiedName
          = p.qualifiedName :: namesBelow rest r.qualifiedName := by
        rw [namesBelow, List.filter_cons_of_pos (by simpa using hbelow)]
        rfl
      -- The name goes to the end of the list, so the rest are still new to it.
      rw [hlearn, hnames, ih _ distinct.2,
        List.append_cons r.subtypes p.qualifiedName (namesBelow rest r.qualifiedName)]
      · rfl
      · intro q hq hmem
        rcases List.mem_append.mp hmem with hold | hsame
        · exact hrest q hq hold
        · exact distinct.1 (List.mem_singleton.mp hsame ▸ List.mem_map_of_mem hq)
    · have hlearn : r.learn p = r := by rw [learn, if_neg hbelow]
      have hnames : namesBelow (p :: rest) r.qualifiedName
          = namesBelow rest r.qualifiedName := by
        rw [namesBelow, List.filter_cons_of_neg (by simpa using hbelow)]
        rfl
      rw [hlearn, hnames, ih r distinct.2 hrest]

/-- A record is not changed by what it has learned before. -/
theorem foldl_learn_eq_self (ps : List Record) (r : Record)
    (h : ∀ p ∈ ps, r.qualifiedName ∈ p.ancestors → p.qualifiedName ∈ r.subtypes) :
    ps.foldl learn r = r := by
  induction ps with
  | nil => rfl
  | cons p rest ih =>
    have hlearn : r.learn p = r := by
      unfold learn
      split
      · rename_i hbelow
        rw [addSubtype, if_pos (h p List.mem_cons_self hbelow)]
      · rfl
    rw [List.foldl_cons, hlearn]
    exact ih fun q hq => h q (List.mem_cons_of_mem _ hq)

end Record

namespace Symbols

/-- Listing a name below several records at once. -/
theorem foldl_listBelow (below : String) (names : List String) :
    ∀ types : List Record, names.foldl (listBelow below) types
      = types.map fun r => if r.qualifiedName ∈ names then r.addSubtype below else r := by
  induction names with
  | nil => intro types; simp
  | cons name rest ih =>
    intro types
    rw [List.foldl_cons, ih, listBelow, List.map_map]
    refine List.map_congr_left fun r _ => ?_
    by_cases hname : r.qualifiedName = name <;> simp [hname]

/-- Connecting a record tells every record that it is there. -/
theorem connectRecord_eq (types : List Record) (p : Record) :
    connectRecord types p = types.map (·.learn p) :=
  foldl_listBelow p.qualifiedName p.ancestors types

/-- Connecting several records tells every record of all of them in turn. -/
theorem foldl_connectRecord (ps : List Record) :
    ∀ types : List Record, ps.foldl connectRecord types
      = types.map fun r => ps.foldl Record.learn r := by
  induction ps with
  | nil => intro types; simp
  | cons p rest ih =>
    intro types
    rw [List.foldl_cons, ih, connectRecord_eq, List.map_map]
    rfl

/-- In a connected graph every record has learned from all. -/
theorem connect_types (g : Symbols) :
    g.connect.types = g.types.map fun r => g.types.foldl Record.learn r :=
  foldl_connectRecord g.types g.types

/-! ### Adding -/

/-- A graph has a name if one of its records has it. -/
theorem contains_iff {g : Symbols} {name : String} :
    g.contains name = true ↔ ∃ r ∈ g.types, r.qualifiedName = name := by
  rw [contains, find?, List.find?_isSome]
  simp only [decide_eq_true_eq]

/-- Which names a graph has depends on the names of its records only. -/
theorem contains_eq_of_names {g h : Symbols}
    (names : ∀ name, name ∈ g.types.map Record.qualifiedName ↔
      name ∈ h.types.map Record.qualifiedName) (name : String) :
    g.contains name = h.contains name := by
  have hname := names name
  rw [List.mem_map, List.mem_map] at hname
  rw [Bool.eq_iff_iff, contains_iff, contains_iff, hname]

/-- A record with a new name comes to stand at the end. -/
theorem types_add_of_new {g : Symbols} {r : Record} (h : g.contains r.qualifiedName = false) :
    (g.add r).types = g.types ++ [r] := by
  rw [add, if_neg (by rw [h]; exact Bool.false_ne_true)]

/-- Adding a record makes its name known. -/
theorem contains_add (g : Symbols) (r : Record) (name : String) :
    (g.add r).contains name = true ↔ g.contains name = true ∨ r.qualifiedName = name := by
  cases hknown : g.contains r.qualifiedName with
  | true =>
    rw [add, if_pos hknown, or_iff_left_of_imp]
    rintro rfl
    exact hknown
  | false =>
    rw [contains_iff, contains_iff, types_add_of_new hknown]
    simp only [List.mem_append, List.mem_singleton, or_and_right, exists_or, exists_eq_left]

/-- Adding records makes their names known. -/
theorem contains_foldl_add (rs : List Record) (g : Symbols) (name : String) :
    (rs.foldl add g).contains name = true ↔
      g.contains name = true ∨ ∃ r ∈ rs, r.qualifiedName = name := by
  induction rs generalizing g with
  | nil => simp
  | cons r rest ih =>
    rw [List.foldl_cons, ih, contains_add, or_assoc]
    simp only [List.mem_cons, or_and_right, exists_or, exists_eq_left]

/-- The package of a record with a new name comes to stand at the end, unless it is there. -/
theorem packages_add_of_new {g : Symbols} {r : Record}
    (h : g.contains r.qualifiedName = false) :
    (g.add r).packages = if r.package = "" ∨ r.package ∈ g.packages then g.packages
      else g.packages ++ [r.package] := by
  rw [add, if_neg (by rw [h]; exact Bool.false_ne_true)]

/-- Records with new and distinct names come to stand at the end in their order. -/
theorem types_foldl_add (rs : List Record) :
    ∀ g : Symbols, ((g.types ++ rs).map Record.qualifiedName).Nodup →
      (rs.foldl add g).types = g.types ++ rs := by
  induction rs with
  | nil => intro g _; simp
  | cons r rest ih =>
    intro g distinct
    -- A record of the graph with the name of `r` would make two of that name.
    have hnew : g.contains r.qualifiedName = false := by
      rw [Bool.eq_false_iff, ne_eq, contains_iff]
      rintro ⟨s, hs, hname⟩
      rw [List.map_append, List.nodup_append] at distinct
      exact distinct.2.2 _ (List.mem_map_of_mem hs) _ (List.mem_map_of_mem List.mem_cons_self) hname
    have htypes := types_add_of_new hnew
    rw [List.foldl_cons, ih (g.add r) (by rw [htypes]; simpa using distinct), htypes]
    simp

/-- A record of a graph to which records were added is one of its own or one of those. -/
theorem mem_types_foldl_add {rs : List Record} {g : Symbols} {r : Record}
    (h : r ∈ (rs.foldl add g).types) : r ∈ g.types ∨ r ∈ rs := by
  induction rs generalizing g with
  | nil => exact .inl h
  | cons s rest ih =>
    rcases ih h with hadded | hrest
    · unfold add at hadded
      split at hadded
      · exact .inl hadded
      · rcases List.mem_append.mp hadded with hold | hnew
        · exact .inl hold
        · exact .inr (by rw [List.mem_singleton.mp hnew]; exact List.mem_cons_self)
    · exact .inr (List.mem_cons_of_mem _ hrest)

/-- Records with distinct names that are added to a graph without records are its records. -/
theorem types_foldl_add_of_empty {g : Symbols} (hempty : g.types = []) {rs : List Record}
    (distinct : (rs.map Record.qualifiedName).Nodup) : (rs.foldl add g).types = rs := by
  rw [types_foldl_add rs g (by rw [hempty]; exact distinct), hempty, List.nil_append]

/-- Adding records changes neither the docs nor the modules. -/
theorem texts_foldl_add (rs : List Record) (g : Symbols) :
    (rs.foldl add g).docs = g.docs ∧ (rs.foldl add g).modules = g.modules := by
  induction rs generalizing g with
  | nil => exact ⟨rfl, rfl⟩
  | cons r rest ih =>
    obtain ⟨hdocs, hmodules⟩ := ih (g.add r)
    rw [List.foldl_cons, hdocs, hmodules, add]
    split <;> exact ⟨rfl, rfl⟩

/-- The names and the packages of a graph are those of its records. -/
structure IsFilled (g : Symbols) : Prop where
  names : (g.types.map Record.qualifiedName).Nodup
  packages : g.packages.Nodup
  mem_packages : ∀ package, package ∈ g.packages ↔
    package ≠ "" ∧ ∃ r ∈ g.types, r.package = package

/-- The empty graph has no names and no packages. -/
theorem isFilled_empty : IsFilled empty where
  names := List.nodup_nil
  packages := List.nodup_nil
  mem_packages package := by
    constructor
    · intro h
      exact absurd h List.not_mem_nil
    · rintro ⟨-, r, hr, -⟩
      exact absurd hr List.not_mem_nil

/-- Adding a record with a new name adds its name and its package. -/
theorem IsFilled.add_of_new {g : Symbols} (h : g.IsFilled) {r : Record}
    (hnew : g.contains r.qualifiedName = false) : (g.add r).IsFilled where
  names := by
    rw [types_add_of_new hnew, ← List.concat_eq_append, List.map_concat]
    refine h.names.concat fun hmem => ?_
    obtain ⟨s, hs, hname⟩ := List.mem_map.mp hmem
    rw [contains_iff.mpr ⟨s, hs, hname⟩] at hnew
    cases hnew
  packages := by
    rw [packages_add_of_new hnew]
    split
    · exact h.packages
    · rename_i hpackage
      rw [← List.concat_eq_append]
      exact h.packages.concat fun hmem => hpackage (.inr hmem)
  mem_packages package := by
    rw [packages_add_of_new hnew, types_add_of_new hnew]
    simp only [List.mem_append, List.mem_singleton, or_and_right, exists_or, exists_eq_left]
    rw [and_or_left, ← h.mem_packages package]
    split
    · rename_i hpackage
      -- The package of the record was there, or it is the default package.
      refine ⟨.inl, fun hmem => hmem.elim id fun hsame => ?_⟩
      exact hpackage.elim (fun hdefault => absurd (hsame.2 ▸ hdefault) hsame.1)
        fun hold => hsame.2 ▸ hold
    · rename_i hpackage
      rw [List.mem_append, List.mem_singleton]
      refine or_congr_right ⟨fun hsame => ⟨?_, hsame.symm⟩, fun hsame => hsame.2.symm⟩
      rintro rfl
      exact hpackage (.inl hsame.symm)

/-- Adding a record keeps the names and the packages those of the records. -/
theorem IsFilled.add {g : Symbols} (h : g.IsFilled) (r : Record) : (g.add r).IsFilled := by
  cases hknown : g.contains r.qualifiedName with
  | true =>
    rw [Symbols.add, if_pos hknown]
    exact h
  | false => exact h.add_of_new hknown

/-- Adding records keeps the names and the packages those of the records. -/
theorem IsFilled.foldl_add {g : Symbols} (h : g.IsFilled) (rs : List Record) :
    (rs.foldl Symbols.add g).IsFilled := by
  induction rs generalizing g with
  | nil => exact h
  | cons r rest ih => exact ih (h.add r)

/-! ### Sorting and connecting -/

/-- Sorting puts the records in another order. -/
theorem types_sort_perm (g : Symbols) : g.sort.types.Perm g.types := List.mergeSort_perm _ _

/-- The names of the records stay as they are when the graph is connected. -/
theorem names_connect (g : Symbols) :
    g.connect.types.map Record.qualifiedName = g.types.map Record.qualifiedName := by
  rw [connect_types, List.map_map]
  exact List.map_congr_left fun r _ => Record.qualifiedName_foldl_learn g.types r

/-- Sorting and connecting change no name. -/
theorem contains_connect_sort (g : Symbols) (name : String) :
    g.sort.connect.contains name = g.contains name := by
  refine contains_eq_of_names (fun other => ?_) name
  rw [names_connect, (g.types_sort_perm.map Record.qualifiedName).mem_iff]

/-- Sorting and connecting change nothing in a record but its subtypes. -/
theorem mem_types_connect_sort {g : Symbols} {r : Record} (h : r ∈ g.sort.connect.types) :
    ∃ s ∈ g.types, ∃ names, r = s.withSubtypes names := by
  rw [connect_types] at h
  obtain ⟨s, hs, rfl⟩ := List.mem_map.mp h
  exact ⟨s, g.types_sort_perm.mem_iff.mp hs, Record.exists_foldl_learn_eq _ s⟩

/-- Sorting and connecting keep every record, with other subtypes. -/
theorem exists_withSubtypes_mem_connect_sort {g : Symbols} {r : Record} (h : r ∈ g.types) :
    ∃ names, r.withSubtypes names ∈ g.sort.connect.types := by
  obtain ⟨names, hnames⟩ := Record.exists_foldl_learn_eq g.sort.types r
  refine ⟨names, ?_⟩
  rw [connect_types, ← hnames]
  exact List.mem_map_of_mem (g.types_sort_perm.mem_iff.mpr h)

/-- Connecting a graph whose records have distinct names and no subtypes gives each record the names
of those below it. -/
theorem connect_types_of_fresh {g : Symbols} (distinct : (g.types.map Record.qualifiedName).Nodup)
    (fresh : ∀ r ∈ g.types, r.subtypes = []) :
    g.connect.types
      = g.types.map fun r => r.withSubtypes (Record.namesBelow g.types r.qualifiedName) := by
  rw [connect_types]
  refine List.map_congr_left fun r hr => ?_
  rw [Record.foldl_learn g.types r distinct (by simp [fresh r hr]), fresh r hr, List.nil_append]

/-- Graphs with the same records in any order, and the same texts otherwise, are sorted into the same
graph. -/
theorem sort_eq_of_perm {g h : Symbols} (hg : g.IsFilled) (hh : h.IsFilled)
    (types : g.types.Perm h.types) (docs : g.docs = h.docs) (modules : g.modules = h.modules) :
    g.sort = h.sort := by
  -- The packages are those of the records, and those are the same.
  have hpackages : g.packages.Perm h.packages := by
    rw [List.perm_ext_iff_of_nodup hg.packages hh.packages]
    intro package
    rw [hg.mem_packages, hh.mem_packages]
    simp only [types.mem_iff]
  have hsorted : inOrder g.packages = inOrder h.packages :=
    sortBy_eq_of_perm (fun p => p) hpackages (by rw [List.map_id']; exact hg.packages)
  have htypes : g.sort.types = h.sort.types :=
    sortBy_eq_of_perm Record.qualifiedName types hg.names
  calc g.sort = ⟨g.docs, inOrder g.modules, inOrder g.packages, g.sort.types⟩ := rfl
    _ = ⟨h.docs, inOrder h.modules, inOrder h.packages, h.sort.types⟩ := by
      rw [docs, modules, hsorted, htypes]
    _ = h.sort := rfl

/-- Nothing is left to sort or to connect. -/
structure IsFinished (g : Symbols) : Prop where
  modules : g.modules.Pairwise (· ≤ ·)
  packages : g.packages.Pairwise (· ≤ ·)
  types : g.types.Pairwise fun r s => r.qualifiedName ≤ s.qualifiedName
  connected : ∀ r ∈ g.types, ∀ p ∈ g.types, r.qualifiedName ∈ p.ancestors →
    p.qualifiedName ∈ r.subtypes

/-- Sorting does not change a finished graph. -/
theorem IsFinished.sort_eq {g : Symbols} (h : g.IsFinished) : g.sort = g := by
  have hmodules : inOrder g.modules = g.modules := sortBy_eq_self (fun m => m) h.modules
  have hpackages : inOrder g.packages = g.packages := sortBy_eq_self (fun p => p) h.packages
  have htypes : g.sort.types = g.types := sortBy_eq_self Record.qualifiedName h.types
  calc g.sort = ⟨g.docs, inOrder g.modules, inOrder g.packages, g.sort.types⟩ := rfl
    _ = g := by rw [hmodules, hpackages, htypes]

/-- Connecting does not change a finished graph. -/
theorem IsFinished.connect_eq {g : Symbols} (h : g.IsFinished) : g.connect = g := by
  have htypes : g.connect.types = g.types := by
    rw [connect_types]
    refine (List.map_congr_left fun r hr => ?_).trans (List.map_id g.types)
    exact Record.foldl_learn_eq_self g.types r (h.connected r hr)
  calc g.connect = ⟨g.docs, g.modules, g.packages, g.connect.types⟩ := rfl
    _ = g := by rw [htypes]

/-- Sorting and then connecting finishes a graph whose records have distinct names and no subtypes. -/
theorem isFinished_connect_sort {g : Symbols} (distinct : (g.types.map Record.qualifiedName).Nodup)
    (fresh : ∀ r ∈ g.types, r.subtypes = []) : g.sort.connect.IsFinished := by
  have hperm := types_sort_perm g
  have htypes := connect_types_of_fresh (g := g.sort)
    ((hperm.map Record.qualifiedName).nodup_iff.mpr distinct)
    (fun r hr => fresh r (hperm.mem_iff.mp hr))
  refine ⟨pairwise_sortBy (fun m => m) g.modules, pairwise_sortBy (fun p => p) g.packages, ?_, ?_⟩
  · rw [htypes, List.pairwise_map]
    exact pairwise_sortBy Record.qualifiedName g.types
  · rw [htypes]
    intro r hr p hp hbelow
    obtain ⟨r₀, hr₀, rfl⟩ := List.mem_map.mp hr
    obtain ⟨p₀, hp₀, rfl⟩ := List.mem_map.mp hp
    exact Record.mem_namesBelow.mpr ⟨p₀, hp₀, hbelow, rfl⟩

/-- A step of finishing a graph. -/
inductive Finishing where
  | sort
  | connect
  deriving DecidableEq, Repr

/-- Takes a step of finishing. -/
def finishBy (g : Symbols) : Finishing → Symbols
  | .sort => g.sort
  | .connect => g.connect

/-- Further steps do not change a finished graph. -/
theorem IsFinished.foldl_finishBy_eq {g : Symbols} (h : g.IsFinished) (steps : List Finishing) :
    steps.foldl finishBy g = g := by
  induction steps with
  | nil => rfl
  | cons step rest ih =>
    cases step with
    | sort =>
      rw [List.foldl_cons, show g.finishBy .sort = g from h.sort_eq]
      exact ih
    | connect =>
      rw [List.foldl_cons, show g.finishBy .connect = g from h.connect_eq]
      exact ih

/-- The subtypes in a finished graph. Records with distinct names are added in any order, each as it
was made, and the graph is sorted and connected. Then it holds the same names. A record lists another
one exactly once, if it is a supertype or an interface of the other one, and else not at all. What it
lists is strictly increasing, names records of the graph only, and never itself. No further sorting
and connecting changes anything. -/
theorem subtypes_of_finished (g₀ : Symbols) (rs : List Record) (empty : g₀.types = [])
    (made : ∀ r ∈ rs, r.IsMade) (distinct : (rs.map Record.qualifiedName).Nodup) :
    let g := (rs.foldl add g₀).sort.connect
    (g.types.map Record.qualifiedName).Perm (rs.map Record.qualifiedName) ∧
    (∀ r ∈ g.types, ∀ p ∈ g.types, r.subtypes.count p.qualifiedName
      = if r.qualifiedName ∈ p.supertypes ∨ r.qualifiedName ∈ p.interfaces then 1 else 0) ∧
    (∀ r ∈ g.types, r.subtypes.Pairwise (· < ·)) ∧
    (∀ r ∈ g.types, ∀ name ∈ r.subtypes, ∃ p ∈ g.types, p.qualifiedName = name) ∧
    (∀ r ∈ g.types, r.qualifiedName ∉ r.subtypes) ∧
    ∀ steps : List Finishing, steps.foldl finishBy g = g := by
  intro g
  have hadded : (rs.foldl add g₀).types = rs := types_foldl_add_of_empty empty distinct
  rw [← hadded] at made distinct
  have hfresh : ∀ r ∈ (rs.foldl add g₀).types, r.subtypes = [] := fun r hr => (made r hr).subtypes_eq
  -- The records in graph order, before they are connected.
  obtain ⟨ps, hps⟩ : ∃ ps, ps = (rs.foldl add g₀).sort.types := ⟨_, rfl⟩
  have hperm : ps.Perm (rs.foldl add g₀).types := hps ▸ types_sort_perm _
  have hdistinct : (ps.map Record.qualifiedName).Nodup :=
    (hperm.map Record.qualifiedName).nodup_iff.mpr distinct
  have hstrict : ps.Pairwise fun r p => r.qualifiedName < p.qualifiedName :=
    pairwise_lt_of_nodup Record.qualifiedName
      (hps ▸ pairwise_sortBy Record.qualifiedName (rs.foldl add g₀).types) hdistinct
  have htypes : g.types = ps.map fun r => r.withSubtypes (Record.namesBelow ps r.qualifiedName) := by
    rw [hps]
    exact connect_types_of_fresh (hps ▸ hdistinct)
      (fun r hr => hfresh r (hperm.mem_iff.mp (hps ▸ hr)))
  refine ⟨?_, ?_, ?_, ?_, ?_, ?_⟩
  -- Neither sorting nor connecting changes a name.
  · rw [htypes, List.map_map, ← hadded]
    exact hperm.map Record.qualifiedName
  -- Each record counts once for each one above it.
  · rw [htypes]
    refine List.forall_mem_map.mpr fun r _ => List.forall_mem_map.mpr fun p hp => ?_
    exact Record.count_namesBelow hdistinct hp r.qualifiedName
  -- Subtypes come in graph order, which is strictly increasing.
  · rw [htypes]
    refine List.forall_mem_map.mpr fun r _ => ?_
    exact (List.pairwise_map.mpr hstrict).sublist (Record.namesBelow_sublist ps r.qualifiedName)
  · rw [htypes]
    refine List.forall_mem_map.mpr fun r _ name hname => ?_
    obtain ⟨p, hp, -, rfl⟩ := Record.mem_namesBelow.mp hname
    exact ⟨_, List.mem_map_of_mem hp, rfl⟩
  -- To be its own subtype, a record would have to be its own ancestor.
  · rw [htypes]
    refine List.forall_mem_map.mpr fun r hr hself => ?_
    exact (made r (hperm.mem_iff.mp hr)).not_mem_ancestors
      ((Record.mem_namesBelow_of_distinct hdistinct hr r.qualifiedName).mp hself)
  · exact (isFinished_connect_sort distinct hfresh).foldl_finishBy_eq

/-- The records of two classes that extend each other, as they are made. -/
def cycleRecords : List Record :=
  [.make Model.cycle [] (Model.extending "Pong" "Ping").scope [],
    .make Model.cycle [] (Model.extending "Ping" "Pong").scope []]

/-- Also on a cycle no class is its own subtype, and finishing again changes nothing. -/
theorem subtypes_of_finished_cycle :
    (cycleRecords.map Record.qualifiedName).Nodup ∧
    (∀ r ∈ (cycleRecords.foldl add empty).sort.connect.types, r.qualifiedName ∉ r.subtypes) ∧
    ∀ steps : List Finishing, steps.foldl finishBy (cycleRecords.foldl add empty).sort.connect
      = (cycleRecords.foldl add empty).sort.connect := by
  have made : ∀ r ∈ cycleRecords, r.IsMade := by
    intro r hr
    rcases List.mem_cons.mp hr with rfl | hr
    · exact ⟨_, _, _, _, rfl⟩
    · exact ⟨_, _, _, _, List.mem_singleton.mp hr⟩
  have distinct : (cycleRecords.map Record.qualifiedName).Nodup := by decide +kernel
  obtain ⟨-, -, -, -, hself, hsteps⟩ := subtypes_of_finished empty cycleRecords rfl made distinct
  exact ⟨distinct, hself, hsteps⟩

end Symbols

end Apidoc.Graph
