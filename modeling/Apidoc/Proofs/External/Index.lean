import Apidoc.External.Index
import Mathlib.Data.List.Induction
import Mathlib.Data.List.Nodup

/-!
# `Apidoc.Proofs.External.Index`: what an attempt does to the index

A site that answers with a page adds its names behind those of the sites before it
(`lookup_answered`), and that is all that names ever change by. An attempt that fails is
followed by another one while attempts are left (`again_answered`). No attempt changes
what is registered or how hard sites are tried. A site that is registered again is not
new (`mem_unregistered`).
-/

set_option autoImplicit false

namespace Apidoc.External

/-- The names on the page that an attempt came back with. -/
def Network.Outcome.listed : Network.Outcome → Option (List String)
  | .page body => Overview.read? Overview.listClass body
  | _ => none

/-- The attempt failed, so that another one may follow. -/
def Network.Outcome.fails : Network.Outcome → Bool
  | .failed _ => true
  | .badStatus _ => true
  | _ => false

/-- An attempt that fails lists nothing. -/
theorem Network.Outcome.listed_of_fails {o : Network.Outcome} (h : o.fails = true) :
    o.listed = none := by
  cases o with
  | page body => simp [fails] at h
  | unanswered => simp [fails] at h
  | failed reason => rfl
  | badStatus status => rfl

namespace Index

/-- New names come behind the known ones. -/
theorem find?_addNames (base : String) (known : List (String × String)) (names : List String)
    (name : String) :
    ((addNames base known names).find? fun e => e.1 = name).map (·.2) =
      ((known.find? fun e => e.1 = name).map (·.2) <|>
        if name ∈ names then some base else none) := by
  induction names generalizing known with
  | nil => simp [addNames]
  | cons n names ih =>
    have hstep : addNames base known (n :: names) =
        addNames base (if known.any (·.1 = n) then known else known ++ [(n, base)]) names := rfl
    rw [hstep, ih]
    by_cases hname : name = n
    · subst hname
      by_cases hany : known.any (·.1 = name) = true
      · -- The name is known, so the names of this site do not matter.
        obtain ⟨e, he⟩ : ∃ e, known.find? (fun e => e.1 = name) = some e := by
          rw [← Option.isSome_iff_exists, List.find?_isSome]
          simpa using hany
        simp [hany, he]
      · have hnone : known.find? (fun e => e.1 = name) = none := by
          rw [List.find?_eq_none]
          exact fun e he hname => hany (List.any_eq_true.mpr ⟨e, he, hname⟩)
        simp [hany, hnone]
    · have hsame : (known ++ [(n, base)]).find? (fun e => e.1 = name) =
          known.find? fun e => e.1 = name := by
        simp [List.find?_append, Ne.symm hname]
      have hmem : (name ∈ n :: names) = (name ∈ names) := by simp [hname]
      split
      · simp only [hmem]
      · simp only [hmem, hsame]

/-- A site that lists a name gets it unless another site has it. -/
theorem lookup_insert (i : Index) (names : List String) (base name : String) :
    (i.insert names base).lookup name =
      (i.lookup name <|> if name ∈ names then some base else none) :=
  find?_addNames base i.names names name

/-- An attempt adds the names of the page that it came back with. -/
theorem lookup_answered (i : Index) (j : Job) (o : Network.Outcome) (name : String) :
    (i.answered j o).1.lookup name =
      (i.lookup name <|>
        if name ∈ o.listed.getD [] then some j.base else none) := by
  cases o with
  | page body =>
    cases hread : Overview.read? Overview.listClass body with
    | none => simp [answered, Network.Outcome.listed, hread, lookup]
    | some names => simp [answered, Network.Outcome.listed, hread, lookup_insert]
  | unanswered => simp [answered, Network.Outcome.listed, lookup]
  | failed reason =>
    simp only [answered, failed, Network.Outcome.listed]
    split <;> simp [lookup, report]
  | badStatus status =>
    simp only [answered, failed, Network.Outcome.listed]
    split <;> simp [lookup, report]

/-- Another attempt follows one that failed, while attempts are left. -/
theorem again_answered (i : Index) (j : Job) (o : Network.Outcome) :
    (i.answered j o).2 = (o.fails && decide (2 ≤ j.left)) := by
  cases o with
  | page body =>
    simp only [answered, Network.Outcome.fails, Bool.false_and]
    split <;> rfl
  | unanswered => rfl
  | failed reason =>
    simp only [answered, failed, Network.Outcome.fails, Bool.true_and]
    split <;> simp [*]
  | badStatus status =>
    simp only [answered, failed, Network.Outcome.fails, Bool.true_and]
    split <;> simp [*]

/-- An attempt registers nothing. -/
@[simp] theorem registered_answered (i : Index) (j : Job) (o : Network.Outcome) :
    (i.answered j o).1.registered = i.registered := by
  cases o <;> simp only [answered, failed] <;> (try split) <;> rfl

/-- An attempt does not change how hard sites are tried. -/
@[simp] theorem policy_answered (i : Index) (j : Job) (o : Network.Outcome) :
    (i.answered j o).1.policy = i.policy := by
  cases o <;> simp only [answered, failed] <;> (try split) <;> rfl

/-- What an attempt does has nothing to do with the network. -/
theorem answered_network (i : Index) (j : Job) (o : Network.Outcome) (n : Network) :
    ({ i with network := n } : Index).answered j o =
      ({ (i.answered j o).1 with network := n }, (i.answered j o).2) := by
  cases o <;> simp only [answered, failed] <;> (try split) <;> rfl

/-- The job after one more attempt. -/
def Job.next (j : Job) : Job := ⟨j.base, j.made + 1, j.left - 1⟩

/-- The first job makes its attempt, and then it joins the end of the queue or is done. -/
theorem work_cons_of_load {i : Index} {j : Job} {o : Network.Outcome} {network : Network}
    (h : i.network.load (j.base ++ overviewPage) (Network.redirectLimit + 1) = (o, network))
    (jobs : List Job) :
    i.work (j :: jobs) = ({ (i.answered j o).1 with network } : Index).work
      (jobs ++ if (i.answered j o).2 then [j.next] else []) := by
  have hattempt : i.attempt j = ({ (i.answered j o).1 with network }, (i.answered j o).2) := by
    rw [attempt, h]
    exact answered_network i j o network
  rw [work, hattempt]
  have hagain := again_answered i j o
  by_cases hgoes : (i.answered j o).2 = true
  · have hleft : decide (2 ≤ j.left) = true := by
      rw [hagain, Bool.and_eq_true] at hgoes
      exact hgoes.2
    simp only [hgoes, hleft, Bool.and_self, if_true]
    rfl
  · have hstops : (i.answered j o).2 = false := by simpa using hgoes
    simp only [hstops, Bool.false_and, Bool.false_eq_true, if_false, List.append_nil]

/-- So it does, whatever comes of the attempt. -/
theorem work_cons (i : Index) (j : Job) (jobs : List Job) :
    ∃ (o : Network.Outcome) (network : Network), i.work (j :: jobs) =
      ({ (i.answered j o).1 with network } : Index).work
        (jobs ++ if (i.answered j o).2 then [j.next] else []) :=
  ⟨_, _, work_cons_of_load rfl jobs⟩

/-- Each attempt leaves fewer attempts. -/
theorem attemptsLeft_after_lt (i : Index) (j : Job) (jobs : List Job) (o : Network.Outcome) :
    attemptsLeft (jobs ++ if (i.answered j o).2 then [j.next] else []) <
      attemptsLeft (j :: jobs) := by
  rw [attemptsLeft_append, again_answered]
  by_cases hleft : o.fails = true ∧ 2 ≤ j.left
  · have hnext : j.next.left = j.left - 1 := rfl
    simp only [hleft.1, hleft.2, decide_true, Bool.and_self, if_true, attemptsLeft, hnext]
    omega
  · have hstops : (o.fails && decide (2 ≤ j.left)) = false := by simpa using hleft
    simp only [hstops, Bool.false_eq_true, if_false, attemptsLeft]
    omega

/-! ### Registration -/

/-- One more element is new if it is not among those before. -/
theorem eraseDups_append_singleton (xs : List String) (x : String) :
    (xs ++ [x]).eraseDups = xs.eraseDups ++ if x ∈ xs then [] else [x] := by
  rw [List.eraseDups_append]
  by_cases hmem : x ∈ xs <;> simp [List.removeAll, hmem, List.eraseDups_cons]

/-- One more site is new if it is not among those before and not registered. -/
theorem unregistered_append_singleton (i : Index) (bases : List String) (base : String) :
    i.unregistered (bases ++ [base]) =
      i.unregistered bases ++ if base ∈ bases ∨ base ∈ i.registered then [] else [base] := by
  simp only [unregistered, eraseDups_append_singleton, List.filter_append]
  by_cases hbase : base ∈ bases
  · simp [hbase]
  · by_cases hknown : base ∈ i.registered <;> simp [hbase, hknown]

/-- A new site is one of those asked for that is not registered. -/
theorem mem_unregistered (i : Index) (bases : List String) (base : String) :
    base ∈ i.unregistered bases ↔ base ∈ bases ∧ base ∉ i.registered := by
  simp [unregistered, List.mem_filter, List.mem_eraseDups]

/-- No site is new twice. -/
theorem nodup_unregistered (i : Index) (bases : List String) : (i.unregistered bases).Nodup := by
  induction bases using List.reverseRecOn with
  | nil => exact List.nodup_nil
  | append_singleton bases base ih =>
    rw [unregistered_append_singleton]
    split
    · simpa using ih
    · rename_i hnew
      rw [← List.concat_eq_append]
      refine List.Nodup.concat ?_ ih
      exact fun hmem => hnew (Or.inl ((mem_unregistered i bases base).mp hmem).1)

/-- Asking sites registers nothing. The induction is on the attempts that are left. -/
theorem registered_work (n : Nat) : ∀ (i : Index) (jobs : List Job), attemptsLeft jobs = n →
    (i.work jobs).registered = i.registered := by
  induction n using Nat.strongRecOn with
  | ind n ih =>
    intro i jobs hn
    cases jobs with
    | nil => rw [work]
    | cons j jobs =>
      obtain ⟨o, network, hwork⟩ := work_cons i j jobs
      have hless := attemptsLeft_after_lt i j jobs o
      rw [hwork, ih _ (hn ▸ hless) _ _ rfl]
      exact registered_answered i j o

/-- The sites that are registered afterwards are those that were, and the new ones. -/
theorem registered_register (i : Index) (bases : List String) :
    (i.register bases).registered = i.registered ++ i.unregistered bases := by
  unfold register
  rw [registered_work _ _ _ rfl]

/-- To register sites that are registered already does nothing. -/
theorem register_of_registered {i : Index} {bases : List String}
    (h : ∀ base ∈ bases, base ∈ i.registered) : i.register bases = i := by
  have hnone : i.unregistered bases = [] := by
    rw [List.eq_nil_iff_forall_not_mem]
    intro base hbase
    obtain ⟨hmem, hnew⟩ := (mem_unregistered i bases base).mp hbase
    exact hnew (h base hmem)
  unfold register
  rw [hnone]
  show ({ i with registered := i.registered ++ [] } : Index).work [] = i
  rw [work, List.append_nil]

/-- Sites that were registered stay so. -/
theorem mem_registered_register (i : Index) {bases : List String} {base : String}
    (h : base ∈ bases) : base ∈ (i.register bases).registered := by
  rw [registered_register, List.mem_append]
  by_cases hold : base ∈ i.registered
  · exact Or.inl hold
  · exact Or.inr ((mem_unregistered i bases base).mpr ⟨h, hold⟩)

end Index

end Apidoc.External
