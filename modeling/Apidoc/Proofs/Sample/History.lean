import Apidoc.Proofs.Sample.Cache
import Mathlib.Data.List.DropRight

/-!
# `Apidoc.Proofs.Sample.History`: what a cache holds after any steps

A cache is offered listings, closed, and cleared, in any order. Whether it is closed, and
which listing it has for a key, can be read off the steps since it was cleared last: it is
closed if one of them closes it, and it has taken what was offered before that (`accepted`).
One step keeps this (`reflects_step`), so it holds after any number of them (`reflects_after`).

Which of the listings stays is decided by those with the same origin, in their order
(`FirstSmallest.eq_of_filter_eq`). So offering listings in another order makes no difference
as long as those for one key and of one origin keep theirs (`get?_after`).
-/

set_option autoImplicit false

namespace Apidoc.Sample

theorem Origin.le_antisymm {a b : Origin} (hab : a.le b = true) (hba : b.le a = true) : a = b := by
  rw [le_iff] at hab hba
  obtain ⟨file, line⟩ := a
  obtain ⟨file', line'⟩ := b
  rcases hab with hab | ⟨hfile, hab⟩
  · rcases hba with hba | ⟨hfile, -⟩
    · exact absurd (String.lt_trans hab hba) (String.lt_irrefl _)
    · exact absurd (hfile ▸ hab) (String.lt_irrefl _)
  · rcases hba with hba | ⟨-, hba⟩
    · exact absurd (hfile ▸ hba) (String.lt_irrefl _)
    · rw [Origin.mk.injEq]
      exact ⟨hfile, Int.le_antisymm hab hba⟩

namespace Cache

/-! ### The first of the smallest -/

section
variable {α : Type} {origin : α → Origin} {as bs : List α} {best other : α}

/-- No element has a smaller origin. -/
theorem FirstSmallest.le (h : FirstSmallest origin as best) :
    ∀ a ∈ as, (origin best).le (origin a) = true := by
  obtain ⟨before, after, rfl, hbefore, hafter⟩ := h
  intro a ha
  rcases List.mem_append.mp ha with ha | ha
  · exact Origin.le_of_not_le (hbefore a ha)
  rcases List.mem_cons.mp ha with rfl | ha
  · exact Origin.le_refl _
  · exact hafter a ha

/-- It is the first one of its origin. -/
theorem FirstSmallest.head?_filter (h : FirstSmallest origin as best) :
    (as.filter (origin · = origin best)).head? = some best := by
  obtain ⟨before, after, rfl, hbefore, -⟩ := h
  have hnone : before.filter (origin · = origin best) = [] := by
    rw [List.filter_eq_nil_iff]
    intro a ha hsame
    exact hbefore a ha (of_decide_eq_true hsame ▸ Origin.le_refl _)
  rw [List.filter_append, hnone, List.nil_append,
    List.filter_cons_of_pos (p := (origin · = origin best)) (decide_eq_true rfl), List.head?_cons]

theorem FirstSmallest.mem (h : FirstSmallest origin as best) : best ∈ as := by
  obtain ⟨before, after, rfl, -⟩ := h
  exact List.mem_append_right _ List.mem_cons_self

theorem mem_iff_of_filter_eq (h : ∀ o, as.filter (origin · = o) = bs.filter (origin · = o))
    (a : α) : a ∈ as ↔ a ∈ bs := by
  have hsame : a ∈ as.filter (origin · = origin a) ↔ a ∈ bs.filter (origin · = origin a) := by
    rw [h]
  simpa using hsame

/-- Only the order of elements of one origin matters. -/
theorem FirstSmallest.eq_of_filter_eq (ha : FirstSmallest origin as best)
    (hb : FirstSmallest origin bs other)
    (h : ∀ o, as.filter (origin · = o) = bs.filter (origin · = o)) : best = other := by
  have hmem := mem_iff_of_filter_eq h
  have horigin : origin best = origin other :=
    Origin.le_antisymm (ha.le _ ((hmem _).mpr hb.mem)) (hb.le _ ((hmem _).mp ha.mem))
  have hhead := ha.head?_filter
  rw [h, horigin, hb.head?_filter] at hhead
  exact (Option.some.inj hhead).symm

end

/-! ### Steps -/

/-- What can be done to a cache. -/
inductive Step where
  | put (key : String) (sample : Excerpt)
  | close
  | clear
  deriving DecidableEq

/-- A cache after a step. What it refuses leaves it as it is. -/
def step (c : Cache) : Step → Cache
  | .put key sample => (c.put key sample).toOption.getD c
  | .close => c.close
  | .clear => empty

/-- An empty cache after some steps. -/
def after (steps : List Step) : Cache := steps.foldl step empty

@[simp] theorem after_nil : after [] = empty := rfl

@[simp] theorem after_concat (steps : List Step) (s : Step) :
    after (steps ++ [s]) = (after steps).step s := by
  rw [after, List.foldl_append]
  rfl

/-- The steps since the cache was cleared last. -/
def sinceClear (steps : List Step) : List Step := steps.rtakeWhile (· ≠ .clear)

/-- The listing that a step offers for a key. -/
def offered (key : String) : Step → Option Excerpt
  | .put k sample => if k = key then some sample else none
  | _ => none

/-- The listings for a key that were taken since the cache was cleared last: those that were offered
before it was closed. -/
def accepted (key : String) (steps : List Step) : List Excerpt :=
  ((sinceClear steps).takeWhile (· ≠ .close)).filterMap (offered key)

theorem sinceClear_concat (steps : List Step) {s : Step} (hs : s ≠ .clear) :
    sinceClear (steps ++ [s]) = sinceClear steps ++ [s] :=
  List.rtakeWhile_concat_pos _ _ _ (decide_eq_true hs)

@[simp] theorem sinceClear_clear (steps : List Step) : sinceClear (steps ++ [.clear]) = [] :=
  List.rtakeWhile_concat_neg _ _ _ (by simp)

/-- Offering a listing does not close a cache. -/
@[simp] theorem close_mem_sinceClear_put {steps : List Step} {key : String} {sample : Excerpt} :
    .close ∈ sinceClear (steps ++ [.put key sample]) ↔ .close ∈ sinceClear steps := by
  rw [sinceClear_concat steps (by simp)]
  simp

theorem forall_ne_close {steps : List Step} (h : .close ∉ steps) :
    ∀ s ∈ steps, decide (s ≠ .close) = true :=
  fun s hs => decide_eq_true fun hclose : s = .close => h (hclose ▸ hs)

/-- A closed cache takes nothing, and an open one takes what it is offered. -/
theorem accepted_concat (key : String) (steps : List Step) {s : Step} (hs : s ≠ .clear) :
    accepted key (steps ++ [s])
      = accepted key steps ++ if .close ∈ sinceClear steps then [] else (offered key s).toList := by
  rw [accepted, accepted, sinceClear_concat steps hs]
  by_cases hclosed : .close ∈ sinceClear steps
  · -- What comes behind the first closing does not count, the new step included.
    obtain ⟨before, after, hsplit, hbefore⟩ := List.eq_append_cons_of_mem hclosed
    have hcut : ∀ rest, (before ++ Step.close :: rest).takeWhile (· ≠ .close) = before := by
      intro rest
      rw [List.takeWhile_append_of_pos (forall_ne_close hbefore),
        List.takeWhile_cons_of_neg (by simp), List.append_nil]
    rw [if_pos hclosed, hsplit, List.append_assoc, List.cons_append, hcut, hcut, List.append_nil]
  · have hopen := forall_ne_close hclosed
    rw [if_neg hclosed, List.takeWhile_append_of_pos hopen, List.filterMap_append,
      List.takeWhile_eq_self_iff.mpr hopen]
    congr 1
    cases s with
    | put k sample =>
      show [Step.put k sample].filterMap (offered key) = _
      cases hoffer : offered key (.put k sample) with
      | none => exact List.filterMap_cons_none hoffer
      | some sample => exact List.filterMap_cons_some hoffer
    | close => rfl
    | clear => exact absurd rfl hs

/-- A closed cache refuses a listing, and stays as it is. -/
theorem step_put_of_sealed {c : Cache} (h : c.isSealed = true) (key : String) (sample : Excerpt) :
    c.step (.put key sample) = c := by
  obtain ⟨failure, hput⟩ := put_of_sealed h key sample
  rw [step, hput]
  rfl

/-- An open cache takes a listing. -/
theorem step_put_of_open {c : Cache} (h : c.isSealed = false) (key : String) (sample : Excerpt) :
    c.step (.put key sample) = c.keep (key, sample) := by
  rw [step, put_of_open h]
  rfl

/-- A cache is what the steps say. -/
structure Reflects (steps : List Step) (c : Cache) : Prop where
  isSealed : c.isSealed = true ↔ .close ∈ sinceClear steps
  find? : ∀ key, c.find? key
    = (accepted key steps).foldl (fun kept sample => some (better kept sample)) none

/-- A step keeps that. -/
theorem reflects_step {steps : List Step} {c : Cache} (h : Reflects steps c) (s : Step) :
    Reflects (steps ++ [s]) (c.step s) := by
  cases s with
  | put key sample =>
    cases hc : c.isSealed with
    | true =>
      rw [step_put_of_sealed hc]
      refine ⟨h.isSealed.trans close_mem_sinceClear_put.symm, fun k => ?_⟩
      rw [accepted_concat k steps (by simp), if_pos (h.isSealed.mp hc), List.append_nil, h.find?]
    | false =>
      have hopen : .close ∉ sinceClear steps := by
        rw [← h.isSealed, hc]
        exact Bool.false_ne_true
      rw [step_put_of_open hc]
      refine ⟨isSealed_keep c _ ▸ h.isSealed.trans close_mem_sinceClear_put.symm, fun k => ?_⟩
      -- The listing comes last among those that were taken for its key.
      rw [find?_keep, accepted_concat k steps (by simp), if_neg hopen, List.foldl_append, ← h.find?]
      by_cases hk : key = k <;> simp [offered, hk]
  | close =>
    refine ⟨iff_of_true rfl ?_, fun key => ?_⟩
    · rw [sinceClear_concat steps (by simp)]
      exact List.mem_append_right _ List.mem_cons_self
    · rw [accepted_concat key steps (by simp), show (offered key .close).toList = [] from rfl,
        ite_self, List.append_nil]
      exact h.find? key
  | clear =>
    refine ⟨iff_of_false Bool.false_ne_true ?_, fun key => ?_⟩
    · rw [sinceClear_clear]
      exact List.not_mem_nil
    · rw [accepted, sinceClear_clear]
      rfl

/-- So a cache is what the steps say after any number of them. -/
theorem reflects_after (steps : List Step) : Reflects steps (after steps) := by
  induction steps using List.reverseRecOn with
  | nil => exact ⟨by simp [empty, sinceClear], fun key => rfl⟩
  | append_singleton steps s ih =>
    rw [after_concat]
    exact reflects_step ih s

/-! ### Listings in another order -/

/-- The step that offers a listing for a key. -/
def offer (entry : String × Excerpt) : Step := .put entry.1 entry.2

/-- A closed cache takes none of several listings, and an open one takes those for the key. -/
theorem accepted_append_offers (key : String) (steps : List Step)
    (entries : List (String × Excerpt)) :
    accepted key (steps ++ entries.map offer) = accepted key steps ++
      if .close ∈ sinceClear steps then [] else (entries.filter (·.1 = key)).map (·.2) := by
  induction entries generalizing steps with
  | nil => simp
  | cons entry rest ih =>
    rw [List.map_cons, List.append_cons, ih, offer, accepted_concat key steps (by simp)]
    by_cases hclosed : Step.close ∈ sinceClear steps
    · simp [hclosed]
    · by_cases hkey : entry.1 = key <;> simp [hclosed, hkey, offered]

/-- The listing for a key is the first one with the smallest origin of those that were taken. -/
theorem get?_after_cases (steps : List Step) (key : String) :
    (accepted key steps = [] ∧ (after steps).get? key = none) ∨
      ∃ best, FirstSmallest Excerpt.origin (accepted key steps) best ∧
        (after steps).get? key = some best.code := by
  rw [get?, (reflects_after steps).find?]
  by_cases hnone : accepted key steps = []
  · rw [hnone]
    exact .inl ⟨rfl, rfl⟩
  · obtain ⟨best, hbest, hfirst⟩ := exists_firstSmallest id hnone
    exact .inr ⟨best, hfirst, congrArg (Option.map (·.code)) hbest⟩

/-- Caches that took the same listings of each origin, in the same order, have the same listing. -/
theorem get?_after_congr {steps others : List Step} {key : String}
    (h : ∀ origin, (accepted key steps).filter (·.origin = origin)
      = (accepted key others).filter (·.origin = origin)) :
    (after steps).get? key = (after others).get? key := by
  have hmem := mem_iff_of_filter_eq h
  rcases get?_after_cases steps key with ⟨hnone, hget⟩ | ⟨best, hbest, hget⟩
  · rcases get?_after_cases others key with ⟨-, hget'⟩ | ⟨best', hbest', -⟩
    · rw [hget, hget']
    · exact absurd ((hmem _).mpr hbest'.mem) (hnone ▸ List.not_mem_nil)
  · rcases get?_after_cases others key with ⟨hnone', -⟩ | ⟨best', hbest', hget'⟩
    · exact absurd ((hmem _).mp hbest.mem) (hnone' ▸ List.not_mem_nil)
    · rw [hget, hget', hbest.eq_of_filter_eq hbest' h]

/-- After any steps, the cache has the first one with the smallest origin of the listings that were
taken for a key since it was cleared last, and none if nothing was taken. Once it is closed it
refuses a listing and stays as it is, and before that it takes it. Listings that are offered in
another order, those for the key and of one origin in the same order, lead to the same listing. -/
theorem get?_after (steps : List Step) (key : String) :
    ((accepted key steps = [] ∧ (after steps).get? key = none) ∨
      ∃ best, FirstSmallest Excerpt.origin (accepted key steps) best ∧
        (after steps).get? key = some best.code) ∧
    (∀ sample,
      (.close ∈ sinceClear steps →
        (after steps).put key sample
          = .error (.build "sample pass" "sample cache is read-only after the sample pass") ∧
        after (steps ++ [.put key sample]) = after steps) ∧
      (.close ∉ sinceClear steps →
        (after steps).put key sample = .ok (after (steps ++ [.put key sample])))) ∧
    ∀ entries others : List (String × Excerpt),
      (∀ origin, entries.filter (fun e => e.1 = key ∧ e.2.origin = origin)
        = others.filter fun e => e.1 = key ∧ e.2.origin = origin) →
      (after (steps ++ entries.map offer)).get? key
        = (after (steps ++ others.map offer)).get? key := by
  have hreflects := reflects_after steps
  refine ⟨get?_after_cases steps key, fun sample => ⟨fun hclosed => ?_, fun hopen => ?_⟩,
    fun entries others h => get?_after_congr fun origin => ?_⟩
  · have hsealed := hreflects.isSealed.mpr hclosed
    refine ⟨if_pos hsealed, ?_⟩
    rw [after_concat, step_put_of_sealed hsealed]
  · have hnot : (after steps).isSealed = false := by
      rwa [← hreflects.isSealed, Bool.not_eq_true] at hopen
    rw [after_concat, step_put_of_open hnot, put_of_open hnot]
  · have hkept : ∀ es : List (String × Excerpt),
        ((es.filter (·.1 = key)).map (·.2)).filter (·.origin = origin)
          = (es.filter fun e => e.1 = key ∧ e.2.origin = origin).map (·.2) := by
      intro es
      rw [List.filter_map, List.filter_filter]
      simp [Bool.and_comm]
    rw [accepted_append_offers, accepted_append_offers, List.filter_append, List.filter_append]
    split
    · rfl
    · rw [hkept, hkept, h]

/-- A listing from the first line of a file. -/
def firstLineOf (file : String) : Excerpt := ⟨⟨file, 1⟩, file⟩

/-- A closed cache keeps the listing that it has, though a smaller one is offered, and an open one
has the smaller one in whichever order they come. -/
theorem get?_after_firstLineOf :
    Step.close ∈ sinceClear [.clear, .put "K" (firstLineOf "B"), .close] ∧
      (after [.clear, .put "K" (firstLineOf "B"), .close]).put "K" (firstLineOf "A")
        = .error (.build "sample pass" "sample cache is read-only after the sample pass") ∧
      (after [.clear, .put "K" (firstLineOf "B"), .close]).get? "K" = some "B" ∧
      (∀ origin, [("K", firstLineOf "A"), ("K", firstLineOf "B")].filter
          (fun e => e.1 = "K" ∧ e.2.origin = origin)
        = [("K", firstLineOf "B"), ("K", firstLineOf "A")].filter
            fun e => e.1 = "K" ∧ e.2.origin = origin) ∧
      (after [.put "K" (firstLineOf "A"), .put "K" (firstLineOf "B")]).get? "K"
        = (after [.put "K" (firstLineOf "B"), .put "K" (firstLineOf "A")]).get? "K" := by
  have hclosed : Step.close ∈ sinceClear [.clear, .put "K" (firstLineOf "B"), .close] := by decide
  have hsame : ∀ origin, [("K", firstLineOf "A"), ("K", firstLineOf "B")].filter
        (fun e => e.1 = "K" ∧ e.2.origin = origin)
      = [("K", firstLineOf "B"), ("K", firstLineOf "A")].filter
          fun e => e.1 = "K" ∧ e.2.origin = origin := by
    intro origin
    by_cases hA : (⟨"A", 1⟩ : Origin) = origin
    · subst hA
      decide
    · simp [firstLineOf, List.filter_cons, hA]
  have hafter := get?_after [.clear, .put "K" (firstLineOf "B"), .close] "K"
  refine ⟨hclosed, ((hafter.2.1 _).1 hclosed).1, ?_, hsame, (get?_after [] "K").2.2 _ _ hsame⟩
  have haccepted : accepted "K" [.clear, .put "K" (firstLineOf "B"), .close]
      = [firstLineOf "B"] := by decide
  rcases hafter.1 with ⟨hnone, -⟩ | ⟨best, hbest, hget⟩
  · rw [haccepted] at hnone
    cases hnone
  · rw [haccepted] at hbest
    rw [hget, List.mem_singleton.mp hbest.mem]
    rfl

end Cache

end Apidoc.Sample
