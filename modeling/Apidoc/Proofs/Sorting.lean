import Mathlib.Data.List.Nodup

/-!
# `Apidoc.Proofs.Sorting`: sorting by a name

Modules, packages and records are all sorted by a string. What such a sort gives
is fixed by what is sorted, and not by the order in which it came:

* `pairwise_sortBy`: the result is in order.
* `sortBy_eq_self`: what is in order stays as it is.
* `filter_sortBy`: elements with one name keep the order in which they came.
* `sortBy_eq_of_perm`: two orders of the same elements are sorted into one list,
  if no two elements share a name.
* `pairwise_lt_of_nodup`: with distinct names the order is strict.
-/

set_option autoImplicit false

namespace Apidoc.Proofs

variable {α : Type} (name : α → String)

/-- Elements sorted by their names. -/
abbrev sortBy (xs : List α) : List α := xs.mergeSort fun a b => decide (name a ≤ name b)

theorem decide_le_trans (a b c : α) (hab : decide (name a ≤ name b) = true)
    (hbc : decide (name b ≤ name c) = true) : decide (name a ≤ name c) = true := by
  rw [decide_eq_true_eq] at *
  exact String.le_trans hab hbc

theorem decide_le_total (a b : α) :
    (decide (name a ≤ name b) || decide (name b ≤ name a)) = true := by
  rw [Bool.or_eq_true, decide_eq_true_eq, decide_eq_true_eq]
  exact String.le_total _ _

/-- A sorted list is in order of names. -/
theorem pairwise_sortBy (xs : List α) : (sortBy name xs).Pairwise fun a b => name a ≤ name b := by
  have h : (sortBy name xs).Pairwise fun a b => decide (name a ≤ name b) = true :=
    List.pairwise_mergeSort (decide_le_trans name) (decide_le_total name) xs
  exact h.imp fun hab => of_decide_eq_true hab

/-- Sorting keeps the order of the elements with one name. -/
theorem filter_sortBy (xs : List α) (key : String) :
    (sortBy name xs).filter (name · = key) = xs.filter (name · = key) := by
  -- What has the name is in order, so it comes out as it went in, and nothing else has the name.
  have hordered : (xs.filter (name · = key)).Pairwise fun a b => decide (name a ≤ name b) = true := by
    refine List.pairwise_of_forall_mem_list fun a ha b hb => ?_
    rw [of_decide_eq_true (List.mem_filter.mp ha).2, of_decide_eq_true (List.mem_filter.mp hb).2]
    exact decide_eq_true (String.le_refl _)
  have hsub := (List.sublist_mergeSort (decide_le_trans name) (decide_le_total name) hordered
    List.filter_sublist).filter (name · = key)
  rw [List.filter_filter] at hsub
  simp only [Bool.and_self] at hsub
  exact (hsub.eq_of_length ((List.mergeSort_perm xs _).filter _).length_eq.symm).symm

/-- A list in order of names is not changed by sorting. -/
theorem sortBy_eq_self {xs : List α} (h : xs.Pairwise fun a b => name a ≤ name b) :
    sortBy name xs = xs :=
  List.mergeSort_of_pairwise (h.imp fun hab => decide_eq_true hab)

/-- Two orders of the same elements are sorted into the same list. Elements with one
name would keep the order in which they came, so there must be none. -/
theorem sortBy_eq_of_perm {xs ys : List α} (h : xs.Perm ys)
    (distinct : (xs.map name).Nodup) : sortBy name xs = sortBy name ys := by
  have hperm : (sortBy name xs).Perm (sortBy name ys) :=
    (List.mergeSort_perm xs _).trans (h.trans (List.mergeSort_perm ys _).symm)
  refine hperm.eq_of_pairwise ?_ (pairwise_sortBy name xs) (pairwise_sortBy name ys)
  intro a b ha hb hab hba
  have ha' : a ∈ xs := List.mem_mergeSort.mp ha
  have hb' : b ∈ xs := h.mem_iff.mpr (List.mem_mergeSort.mp hb)
  exact List.inj_on_of_nodup_map distinct ha' hb' (String.le_antisymm hab hba)

/-- Distinct names in order are strictly increasing. -/
theorem pairwise_lt_of_nodup {xs : List α} (h : xs.Pairwise fun a b => name a ≤ name b)
    (distinct : (xs.map name).Nodup) : xs.Pairwise fun a b => name a < name b := by
  rw [List.Nodup, List.pairwise_map] at distinct
  refine h.imp₂ (fun a b hab hne => ?_) distinct
  -- The order of strings is total, so what is neither equal nor above is below.
  by_cases hlt : name a < name b
  · exact hlt
  · exact absurd (String.le_antisymm hab (String.not_lt.mp hlt)) hne

end Apidoc.Proofs
