import Apidoc.Sample.Cache
import Mathlib.Data.List.Induction

/-!
# `Apidoc.Proofs.Sample.Cache`: which listing stays

An open cache takes every listing it is offered (`put_of_open`), and afterwards the
listing for its key is the better one of the old and the new (`find?_keep`). Origins are
totally ordered, so among several listings that are offered in turn, the one that stays
is the first of those with the smallest origin (`exists_firstSmallest`). A sealed cache
refuses every listing (`put_of_sealed`).
-/

set_option autoImplicit false

namespace Apidoc.Sample

/-! ### The order of origins -/

namespace Origin

variable {a b c : Origin}

theorem le_iff : a.le b = true ↔ a.file < b.file ∨ (a.file = b.file ∧ a.line ≤ b.line) := by
  simp [le]

@[simp] theorem le_refl (a : Origin) : a.le a = true := le_iff.mpr (.inr ⟨rfl, Int.le_refl _⟩)

theorem le_trans (hab : a.le b = true) (hbc : b.le c = true) : a.le c = true := by
  rw [le_iff] at hab hbc ⊢
  rcases hab with hab | ⟨hfile, hab⟩
  · rcases hbc with hbc | ⟨hfile, -⟩
    · exact .inl (String.lt_trans hab hbc)
    · exact .inl (hfile ▸ hab)
  · rcases hbc with hbc | ⟨hfile', hbc⟩
    · exact .inl (hfile ▸ hbc)
    · exact .inr ⟨hfile.trans hfile', Int.le_trans hab hbc⟩

theorem le_total (a b : Origin) : a.le b = true ∨ b.le a = true := by
  rw [le_iff, le_iff]
  by_cases hab : a.file < b.file
  · exact .inl (.inl hab)
  by_cases hba : b.file < a.file
  · exact .inr (.inl hba)
  -- In the same file the lines decide.
  have hfile : a.file = b.file := String.le_antisymm (String.not_lt.mp hba) (String.not_lt.mp hab)
  rcases Int.le_total a.line b.line with hline | hline
  · exact .inl (.inr ⟨hfile, hline⟩)
  · exact .inr (.inr ⟨hfile.symm, hline⟩)

theorem le_of_not_le (h : ¬ a.le b = true) : b.le a = true := (le_total a b).resolve_left h

end Origin

/-! ### Offering listings -/

namespace Cache

/-- The listing that stays of the one for a key, if there is one, and a new one. -/
def better (kept : Option Excerpt) (s : Excerpt) : Excerpt :=
  match kept with
  | some k => if k.origin.le s.origin then k else s
  | none => s

/-- Offering the same listing once more changes nothing. -/
@[simp] theorem better_better (kept : Option Excerpt) (s : Excerpt) :
    better (some (better kept s)) s = better kept s := by
  cases kept with
  | none => exact if_pos (Origin.le_refl _)
  | some k =>
    by_cases h : k.origin.le s.origin = true
    · simp [better, h]
    · simp [better, h]

/-- An open cache after it was offered a listing for a key. -/
def keep (c : Cache) (entry : String × Excerpt) : Cache :=
  match c.find? entry.1 with
  | some kept =>
    if kept.origin.le entry.2.origin then c
    else { c with entries := setEntry entry.1 entry.2 c.entries }
  | none => { c with entries := setEntry entry.1 entry.2 c.entries }

/-- An open cache takes every listing. -/
theorem put_of_open {c : Cache} (h : c.isSealed = false) (key : String) (s : Excerpt) :
    c.put key s = .ok (c.keep (key, s)) := by
  unfold put keep
  rw [if_neg (by rw [h]; exact Bool.false_ne_true)]
  cases c.find? key with
  | none => rfl
  | some kept =>
    by_cases hle : kept.origin.le s.origin = true
    · simp [hle]
    · simp [hle]

/-- A sealed cache refuses every listing. -/
theorem put_of_sealed {c : Cache} (h : c.isSealed = true) (key : String) (s : Excerpt) :
    ∃ failure, c.put key s = .error failure := by
  unfold put
  rw [if_pos h]
  exact ⟨_, rfl⟩

/-- Taking a listing does not close a cache. -/
@[simp] theorem isSealed_keep (c : Cache) (entry : String × Excerpt) :
    (c.keep entry).isSealed = c.isSealed := by
  unfold keep
  split
  · split <;> rfl
  · rfl

/-- Setting the listing for a key changes what is found for this key only. -/
theorem find?_setEntry (entry : String × Excerpt) (key : String) (es : List (String × Excerpt)) :
    ((setEntry entry.1 entry.2 es).find? fun e => e.1 = key).map (·.2)
      = if entry.1 = key then some entry.2 else (es.find? fun e => e.1 = key).map (·.2) := by
  induction es with
  | nil =>
    rw [setEntry]
    by_cases hkey : entry.1 = key <;> simp [hkey]
  | cons e rest ih =>
    rw [setEntry]
    by_cases hset : e.1 = entry.1
    · rw [if_pos hset]
      by_cases hkey : entry.1 = key
      · simp [hkey]
      · simp [hkey, hset]
    · rw [if_neg hset]
      by_cases he : e.1 = key
      · have hkey : ¬ entry.1 = key := fun h => hset (he.trans h.symm)
        simp [he, hkey]
      · simpa [he] using ih

/-- After a listing was offered, the better one of the old and the new is found for its key. -/
theorem find?_keep (c : Cache) (entry : String × Excerpt) (key : String) :
    (c.keep entry).find? key
      = if entry.1 = key then some (better (c.find? key) entry.2) else c.find? key := by
  have hset : Cache.find? { c with entries := setEntry entry.1 entry.2 c.entries } key
      = if entry.1 = key then some entry.2 else c.find? key := find?_setEntry entry key c.entries
  unfold keep
  by_cases hkey : entry.1 = key
  · subst hkey
    rw [if_pos rfl] at hset ⊢
    cases hkept : c.find? entry.1 with
    | none => exact hset
    | some kept =>
      by_cases hle : kept.origin.le entry.2.origin = true
      · simpa [better, hle] using hkept
      · simpa [better, hle] using hset
  · rw [if_neg hkey] at hset ⊢
    split
    · split
      · rfl
      · exact hset
    · exact hset

/-- One listing for several keys is offered to each of them once. -/
theorem find?_foldl_keep_same (s : Excerpt) (keys : List String) (c : Cache) (key : String) :
    ((keys.map fun k => (k, s)).foldl keep c).find? key
      = if key ∈ keys then some (better (c.find? key) s) else c.find? key := by
  induction keys generalizing c with
  | nil => rfl
  | cons k rest ih =>
    rw [List.map_cons, List.foldl_cons, ih, find?_keep]
    by_cases hk : k = key
    · subst hk
      simp
    · have hk' : ¬ key = k := fun h => hk h.symm
      simp [hk, hk']

/-! ### Offering in turn -/

/-- The first of the elements with the smallest origin. -/
def FirstSmallest {α : Type} (origin : α → Origin) (as : List α) (best : α) : Prop :=
  ∃ before after, as = before ++ best :: after ∧
    (∀ a ∈ before, ¬ (origin a).le (origin best) = true) ∧
    ∀ a ∈ after, (origin best).le (origin a) = true

/-- Of listings that are offered in turn, the first with the smallest origin stays. -/
theorem exists_firstSmallest {α : Type} (sample : α → Excerpt) {as : List α} (h : as ≠ []) :
    ∃ best, as.foldl (fun kept a => some (better kept (sample a))) none = some (sample best) ∧
      FirstSmallest (fun a => (sample a).origin) as best := by
  induction as using List.reverseRecOn with
  | nil => exact absurd rfl h
  | append_singleton front last ih =>
    rw [List.foldl_append]
    by_cases hfront : front = []
    · subst hfront
      exact ⟨last, rfl, [], [], rfl, nofun, nofun⟩
    obtain ⟨best, hbest, before, after, hsplit, hbefore, hafter⟩ := ih hfront
    rw [hbest]
    by_cases hle : (sample best).origin.le (sample last).origin = true
    -- The last listing is passed over.
    · refine ⟨best, by simp [better, hle], before, after ++ [last], ?_, hbefore, ?_⟩
      · rw [hsplit, List.append_assoc, List.cons_append]
      · intro a ha
        rcases List.mem_append.mp ha with ha | ha
        · exact hafter a ha
        · rw [List.mem_singleton.mp ha]
          exact hle
    -- The last listing is smaller than the best one so far, and so than all of them.
    · refine ⟨last, by simp [better, hle], front, [], rfl, ?_, nofun⟩
      intro a ha hlast
      rw [hsplit] at ha
      rcases List.mem_append.mp ha with ha | ha
      · exact hle (Origin.le_trans (Origin.le_of_not_le (hbefore a ha)) hlast)
      rcases List.mem_cons.mp ha with rfl | ha
      · exact hle hlast
      · exact hle (Origin.le_trans (hafter a ha) hlast)

end Cache

end Apidoc.Sample
