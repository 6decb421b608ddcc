import Apidoc.Proofs.External.Index
import Apidoc.Proofs.Model.Reference

/-!
# `Apidoc.Proofs.External.Fetching`: sites that are asked at the same time

Each registered site is asked by a job of its own, and the jobs run side by side. What
they do to the index is one event after another: a site is registered, or the attempt
under way of some job comes back (`Event`). The state in between is a `Fetching`, and a
reader may look at any of them (`moment`).

What comes of each attempt is a script, a function of the site and of the number of the
attempt. An attempt that is given up from outside is one that is unanswered. The script
leaves the order of the events open, and the theorems are about every order.

`Sound` is the invariant of a run: a site has one job at most, all attempts before the one
under way have failed, a site that is done was read if it could be, and a name belongs to
the first site that was read and lists it. `names_of_events` draws from it what readers
see. The rounds of `Index.register` are one such run (`exists_run_register`).
-/

set_option autoImplicit false

namespace Apidoc.External

open Apidoc.External.Network (Outcome)

/-- What comes of the attempts at each site, counted from 0. -/
abbrev Script := String → Nat → Outcome

/-- The attempt `made` is the first at `base` that does not fail, there are `count`
attempts, and it comes back with a page that lists `names`. -/
def Script.Lists (script : Script) (count : Nat) (base : String) (names : List String) : Prop :=
  ∃ made < count, (script base made).listed = some names ∧
    ∀ m < made, (script base m).fails = true

/-- What may happen to an index. -/
inductive Event where
  /-- The site is registered. -/
  | register (base : String)
  /-- The attempt under way at the site comes back. -/
  | answer (base : String)
  deriving DecidableEq, Repr

/-- An index with the jobs under way. -/
structure Fetching where
  index : Index
  /-- The jobs that are not done. -/
  jobs : List Index.Job
  /-- The sites of all jobs so far, in the order in which the jobs were started. -/
  started : List String
  /-- The sites that were read with the names that they list, in the order of reading. -/
  read : List (String × List String)

namespace Fetching

/-- Before any site is registered. -/
def start (policy : Policy) (network : Network) : Fetching :=
  ⟨.initial policy network, [], [], []⟩

/-- Registers a site and starts its job. Sites that are registered are left alone. -/
def register (s : Fetching) (base : String) : Fetching :=
  if base ∈ s.index.registered then s
  else
    { s with
      index := { s.index with registered := s.index.registered ++ [base] }
      jobs := s.jobs ++ [s.index.job base]
      started := s.started ++ [base] }

/-- The attempt of a job comes back. `others` are the jobs besides it. -/
def answer (s : Fetching) (j : Index.Job) (others : List Index.Job) (o : Outcome) : Fetching :=
  { s with
    index := (s.index.answered j o).1
    jobs := others ++ if (s.index.answered j o).2 then [j.next] else []
    read := s.read ++ (o.listed.map fun names => (j.base, names)).toList }

/-- One event. A site without a job under way has no attempt that could come back. -/
def step (script : Script) (s : Fetching) : Event → Fetching
  | .register base => s.register base
  | .answer base =>
    match s.jobs.find? (·.base = base) with
    | none => s
    | some j => s.answer j (s.jobs.eraseP (·.base = base)) (script base j.made)

/-- A number of events, one after another. -/
def run (script : Script) (s : Fetching) (events : List Event) : Fetching :=
  events.foldl (step script) s

/-- After the first `k` of the events, from the start. -/
def moment (script : Script) (policy : Policy) (network : Network) (events : List Event)
    (k : Nat) : Fetching :=
  run script (start policy network) (events.take k)

/-! ### One event -/

/-- An event does nothing, registers a site that is new, or lets the attempt of a job come
back. -/
theorem step_cases (script : Script) (s : Fetching) (e : Event) :
    step script s e = s ∨
    (∃ base, e = .register base ∧ base ∉ s.index.registered ∧
      step script s e = s.register base) ∨
    (∃ j others, e = .answer j.base ∧ s.jobs.Perm (j :: others) ∧
      step script s e = s.answer j others (script j.base j.made)) := by
  cases e with
  | register base =>
    by_cases hmem : base ∈ s.index.registered
    · exact Or.inl (by simp [step, register, hmem])
    · exact Or.inr (Or.inl ⟨base, rfl, hmem, rfl⟩)
  | answer base =>
    cases hfind : s.jobs.find? (·.base = base) with
    | none => exact Or.inl (by simp [step, hfind])
    | some j =>
      obtain ⟨hbase, before, after, hjobs, hbefore⟩ := List.find?_eq_some_iff_append.mp hfind
      have hbase : j.base = base := by simpa using hbase
      have herase : s.jobs.eraseP (·.base = base) = before ++ after := by
        rw [hjobs, List.eraseP_append_right _ (by simpa using hbefore)]
        simp [hbase]
      subst hbase
      refine Or.inr (Or.inr ⟨j, before ++ after, rfl, ?_, ?_⟩)
      · rw [hjobs]
        exact List.perm_middle
      · simp only [step, hfind, herase]

/-! ### The invariant -/

/-- A job is within the attempts that its site gets, and those before all failed. -/
structure InTime (script : Script) (count : Nat) (j : Index.Job) : Prop where
  left : 1 ≤ j.left
  total : j.made + j.left = count
  failed : ∀ m < j.made, (script j.base m).fails = true

/-- What holds at every moment. -/
structure Sound (script : Script) (policy : Policy) (s : Fetching) : Prop where
  tried : s.index.policy = policy
  /-- The jobs so far are those of the registered sites. -/
  started : s.started = s.index.registered
  /-- No site gets a second job. -/
  once : s.started.Nodup
  /-- No site has two jobs under way. -/
  single : (s.jobs.map (·.base)).Nodup
  /-- A job under way was started. -/
  underWay : ∀ j ∈ s.jobs, j.base ∈ s.started
  inTime : ∀ j ∈ s.jobs, InTime script policy.count j
  /-- Only what a registered site lists was read. -/
  read : ∀ site ∈ s.read, site.1 ∈ s.started ∧ script.Lists policy.count site.1 site.2
  /-- A site that was read is done, -/
  finished : ∀ site ∈ s.read, site.1 ∉ s.jobs.map (·.base)
  /-- and so it is read once at most. -/
  readOnce : (s.read.map (·.1)).Nodup
  /-- A site that is done was read if it lists anything. -/
  done : ∀ base ∈ s.started, base ∉ s.jobs.map (·.base) →
    ∀ names, script.Lists policy.count base names → (base, names) ∈ s.read
  /-- A name belongs to the first site that was read and lists it. -/
  names : ∀ name, s.index.lookup name = (s.read.find? fun site => name ∈ site.2).map (·.1)

/-- What a job in time can still read is on the page of its attempt under way, or the
attempt fails and another one follows. -/
theorem InTime.lists {script : Script} {count : Nat} {j : Index.Job} {names : List String}
    (h : InTime script count j) (hlists : script.Lists count j.base names) :
    (script j.base j.made).listed = some names ∨
      ((script j.base j.made).fails = true ∧ 2 ≤ j.left) := by
  obtain ⟨made, hlt, hlisted, hfailed⟩ := hlists
  have htotal := h.total
  rcases Nat.lt_trichotomy made j.made with hless | heq | hmore
  · -- An attempt that failed lists nothing.
    have hnone := Outcome.listed_of_fails (h.failed made hless)
    rw [hnone] at hlisted
    cases hlisted
  · subst heq
    exact Or.inl hlisted
  · exact Or.inr ⟨hfailed j.made hmore, by omega⟩

/-- A job is in time at its first attempt. -/
theorem inTime_job (script : Script) (i : Index) (base : String) :
    InTime script i.policy.count (i.job base) where
  left := Nat.le_max_left 1 _
  total := by simp [Index.job]
  failed := by simp [Index.job]

/-- A job stays in time if its attempt fails and there is another one. -/
theorem InTime.next {script : Script} {count : Nat} {j : Index.Job}
    (h : InTime script count j) (hfails : (script j.base j.made).fails = true)
    (hleft : 2 ≤ j.left) : InTime script count j.next where
  left := by
    show 1 ≤ j.left - 1
    omega
  total := by
    have htotal := h.total
    show j.made + 1 + (j.left - 1) = count
    omega
  failed := by
    intro m hm
    have hm : m < j.made + 1 := hm
    rcases Nat.lt_succ_iff_lt_or_eq.mp hm with hless | heq
    · exact h.failed m hless
    · rw [heq]
      exact hfails

/-- The start is sound. -/
theorem sound_start (script : Script) (policy : Policy) (network : Network) :
    Sound script policy (start policy network) where
  tried := rfl
  started := rfl
  once := List.nodup_nil
  single := List.nodup_nil
  underWay := by simp [start]
  inTime := by simp [start]
  read := by simp [start]
  finished := by simp [start]
  readOnce := List.nodup_nil
  done := by simp [start]
  names := fun _ => rfl

/-- Registering a new site keeps a state sound. -/
theorem Sound.register {script : Script} {policy : Policy} {s : Fetching} {base : String}
    (h : Sound script policy s) (hnew : base ∉ s.index.registered) :
    Sound script policy (s.register base) := by
  have hunstarted : base ∉ s.started := by
    rw [h.started]
    exact hnew
  have hidle : base ∉ s.jobs.map (·.base) := by
    intro hmem
    obtain ⟨j, hj, rfl⟩ := List.mem_map.mp hmem
    exact hunstarted (h.underWay j hj)
  have hbases : (s.jobs ++ [s.index.job base]).map (·.base) = s.jobs.map (·.base) ++ [base] := by
    rw [List.map_append]
    rfl
  simp only [Fetching.register, if_neg hnew]
  exact {
    tried := h.tried
    started := by rw [h.started]
    once := by
      show (s.started ++ [base]).Nodup
      rw [← List.concat_eq_append]
      exact List.Nodup.concat hunstarted h.once
    single := by
      rw [hbases, ← List.concat_eq_append]
      exact List.Nodup.concat hidle h.single
    underWay := by
      intro j hj
      rcases List.mem_append.mp hj with hold | hown
      · exact List.mem_append_left _ (h.underWay j hold)
      · rw [List.mem_singleton.mp hown]
        exact List.mem_append_right _ (List.mem_singleton_self _)
    inTime := by
      intro j hj
      rcases List.mem_append.mp hj with hold | hown
      · exact h.inTime j hold
      · rw [List.mem_singleton.mp hown, ← h.tried]
        exact inTime_job script s.index base
    read := by
      intro site hsite
      have hread := h.read site hsite
      exact ⟨List.mem_append_left _ hread.1, hread.2⟩
    finished := by
      intro site hsite
      rw [hbases, List.mem_append, List.mem_singleton, not_or]
      refine ⟨h.finished site hsite, ?_⟩
      rintro rfl
      exact hunstarted (h.read site hsite).1
    readOnce := h.readOnce
    done := by
      intro b hb hdone names hlists
      rw [hbases, List.mem_append, List.mem_singleton, not_or] at hdone
      rcases List.mem_append.mp hb with hold | hown
      · exact h.done b hold hdone.1 names hlists
      · -- The new site has its job under way.
        exact absurd (List.mem_singleton.mp hown) hdone.2
    names := h.names }

/-- The jobs after an attempt are the others and, if it goes on, the same job. -/
theorem mem_jobs_answer (s : Fetching) (j k : Index.Job) (others : List Index.Job)
    (o : Outcome) : k ∈ (s.answer j others o).jobs ↔
      k ∈ others ∨ (k = j.next ∧ o.fails = true ∧ 2 ≤ j.left) := by
  simp only [answer, Index.again_answered, List.mem_append]
  by_cases hgoes : o.fails = true ∧ 2 ≤ j.left
  · simp [hgoes.1, hgoes.2]
  · have hstops : (o.fails && decide (2 ≤ j.left)) = false := by simpa using hgoes
    simp [hstops, hgoes]

/-- The sites read after an attempt are those before and, if it lists names, its own. -/
theorem mem_read_answer (s : Fetching) (j : Index.Job) (others : List Index.Job) (o : Outcome)
    (site : String × List String) : site ∈ (s.answer j others o).read ↔
      site ∈ s.read ∨ (site.1 = j.base ∧ o.listed = some site.2) := by
  obtain ⟨base, names⟩ := site
  cases hlisted : o.listed with
  | none => simp [answer, hlisted]
  | some own =>
    have hnames : some own = some names ↔ names = own := by rw [Option.some_inj, eq_comm]
    simp [answer, hlisted, hnames]

/-- A name that is new after an attempt belongs to the site that was read. -/
theorem lookup_answer {s : Fetching} (j : Index.Job) (others : List Index.Job) (o : Outcome)
    {name : String}
    (h : s.index.lookup name = (s.read.find? fun site => name ∈ site.2).map (·.1)) :
    (s.answer j others o).index.lookup name =
      ((s.answer j others o).read.find? fun site => name ∈ site.2).map (·.1) := by
  simp only [answer]
  rw [Index.lookup_answered, h, List.find?_append]
  cases hlisted : o.listed with
  | none => simp
  | some names =>
    by_cases hname : name ∈ names <;>
      cases s.read.find? (fun site => decide (name ∈ site.2)) <;> simp [hname]

/-- A site with a job under way was not read yet. -/
theorem Sound.unread {script : Script} {policy : Policy} {s : Fetching} {j : Index.Job}
    (h : Sound script policy s) (hj : j ∈ s.jobs) : j.base ∉ s.read.map (·.1) := by
  intro hmem
  obtain ⟨site, hsite, hbase⟩ := List.mem_map.mp hmem
  exact h.finished site hsite (List.mem_map.mpr ⟨j, hj, hbase.symm⟩)

/-- No other job is one of the same site. -/
theorem Sound.others {script : Script} {policy : Policy} {s : Fetching} {j : Index.Job}
    {others : List Index.Job} (h : Sound script policy s) (hjobs : s.jobs.Perm (j :: others)) :
    j.base ∉ others.map (·.base) ∧ (others.map (·.base)).Nodup :=
  List.nodup_cons.mp ((hjobs.map Index.Job.base).nodup_iff.mp h.single)

/-- If no two jobs are of the same site, this is so after an attempt of one of them. -/
theorem nodup_again {j : Index.Job} {others : List Index.Job} (hown : j.base ∉ others.map (·.base))
    (hothers : (others.map (·.base)).Nodup) (again : Bool) :
    ((others ++ if again then [j.next] else []).map (·.base)).Nodup := by
  rw [List.map_append]
  cases again with
  | true =>
    show (others.map (·.base) ++ [j.base]).Nodup
    rw [← List.concat_eq_append]
    exact List.Nodup.concat hown hothers
  | false => simpa using hothers

/-- A site is done after an attempt if it was read, before it or by it. -/
theorem Sound.finished_answer {script : Script} {policy : Policy} {s : Fetching} {j : Index.Job}
    {others : List Index.Job} (h : Sound script policy s) (hjobs : s.jobs.Perm (j :: others))
    {site : String × List String}
    (hsite : site ∈ (s.answer j others (script j.base j.made)).read) :
    site.1 ∉ (s.answer j others (script j.base j.made)).jobs.map (·.base) := by
  intro hjob
  obtain ⟨k, hk, hbase⟩ := List.mem_map.mp hjob
  rcases (mem_read_answer ..).mp hsite, (mem_jobs_answer ..).mp hk with
    ⟨hold | ⟨hsame, hlisted⟩, hother | ⟨rfl, hfails, -⟩⟩
  · have hk : k ∈ s.jobs := hjobs.mem_iff.mpr (List.mem_cons_of_mem _ hother)
    exact h.finished site hold (List.mem_map.mpr ⟨k, hk, hbase⟩)
  · have hj : j ∈ s.jobs := hjobs.mem_iff.mpr List.mem_cons_self
    exact h.finished site hold (List.mem_map.mpr ⟨j, hj, hbase⟩)
  · exact (h.others hjobs).1 (List.mem_map.mpr ⟨k, hother, hbase.trans hsame⟩)
  -- An attempt that fails lists nothing, so no job goes on for a site that was read by it.
  · rw [Outcome.listed_of_fails hfails] at hlisted
    cases hlisted

/-- A site that is done after an attempt was read, before it or by it, if it lists anything. -/
theorem Sound.done_answer {script : Script} {policy : Policy} {s : Fetching} {j : Index.Job}
    {others : List Index.Job} (h : Sound script policy s) (hjobs : s.jobs.Perm (j :: others))
    {base : String} (hbase : base ∈ s.started)
    (hdone : base ∉ (s.answer j others (script j.base j.made)).jobs.map (·.base))
    {names : List String} (hlists : script.Lists policy.count base names) :
    (base, names) ∈ (s.answer j others (script j.base j.made)).read := by
  rw [mem_read_answer]
  by_cases hsame : base = j.base
  · subst hsame
    have htime : InTime script policy.count j :=
      h.inTime j (hjobs.mem_iff.mpr List.mem_cons_self)
    rcases htime.lists hlists with hlisted | ⟨hfails, hleft⟩
    · exact Or.inr ⟨rfl, hlisted⟩
    · -- Another attempt follows, so the job is not done.
      have hnext : j.next ∈ (s.answer j others (script j.base j.made)).jobs :=
        (mem_jobs_answer ..).mpr (Or.inr ⟨rfl, hfails, hleft⟩)
      exact absurd (List.mem_map.mpr ⟨j.next, hnext, rfl⟩) hdone
  · refine Or.inl (h.done base hbase ?_ names hlists)
    intro hjob
    obtain ⟨k, hk, rfl⟩ := List.mem_map.mp hjob
    rcases List.mem_cons.mp (hjobs.mem_iff.mp hk) with rfl | hother
    · exact hsame rfl
    · exact hdone (List.mem_map.mpr ⟨k, (mem_jobs_answer ..).mpr (Or.inl hother), rfl⟩)

/-- An attempt that comes back keeps a state sound. -/
theorem Sound.answer {script : Script} {policy : Policy} {s : Fetching} {j : Index.Job}
    {others : List Index.Job} (h : Sound script policy s) (hjobs : s.jobs.Perm (j :: others)) :
    Sound script policy (s.answer j others (script j.base j.made)) := by
  have hj : j ∈ s.jobs := hjobs.mem_iff.mpr List.mem_cons_self
  have hothers : ∀ k ∈ others, k ∈ s.jobs := fun k hk =>
    hjobs.mem_iff.mpr (List.mem_cons_of_mem _ hk)
  have htime : InTime script policy.count j := h.inTime j hj
  exact {
    tried := (Index.policy_answered ..).trans h.tried
    started := h.started.trans (Index.registered_answered ..).symm
    once := h.once
    single := nodup_again (h.others hjobs).1 (h.others hjobs).2 _
    underWay := by
      intro k hk
      rcases (mem_jobs_answer ..).mp hk with hother | ⟨rfl, -⟩
      · exact h.underWay k (hothers k hother)
      · exact h.underWay j hj
    inTime := by
      intro k hk
      rcases (mem_jobs_answer ..).mp hk with hother | ⟨rfl, hfails, hleft⟩
      · exact h.inTime k (hothers k hother)
      · exact htime.next hfails hleft
    read := by
      intro site hsite
      rcases (mem_read_answer ..).mp hsite with hold | ⟨hbase, hlisted⟩
      · exact h.read site hold
      · have htotal := htime.total
        have hleft := htime.left
        rw [hbase]
        exact ⟨h.underWay j hj, j.made, by omega, hlisted, htime.failed⟩
    finished := fun _ hsite => h.finished_answer hjobs hsite
    readOnce := by
      simp only [Fetching.answer, List.map_append]
      cases hlisted : (script j.base j.made).listed with
      | none => simpa using h.readOnce
      | some names =>
        show (s.read.map (·.1) ++ [j.base]).Nodup
        rw [← List.concat_eq_append]
        exact List.Nodup.concat (h.unread hj) h.readOnce
    done := fun _ hbase hdone _ hlists => h.done_answer hjobs hbase hdone hlists
    names := fun name => lookup_answer j others _ (h.names name) }

/-- Every event keeps a state sound. -/
theorem Sound.step {script : Script} {policy : Policy} {s : Fetching}
    (h : Sound script policy s) (e : Event) : Sound script policy (step script s e) := by
  rcases step_cases script s e with hsame | ⟨base, -, hnew, hstep⟩ | ⟨j, others, -, hjobs, hstep⟩
  · rw [hsame]
    exact h
  · rw [hstep]
    exact h.register hnew
  · rw [hstep]
    exact h.answer hjobs

/-- Every number of events keeps a state sound. -/
theorem Sound.run {script : Script} {policy : Policy} {s : Fetching} (events : List Event)
    (h : Sound script policy s) : Sound script policy (run script s events) := by
  induction events generalizing s with
  | nil => exact h
  | cons e events ih => exact ih (h.step e)

/-- Every moment is sound. -/
theorem sound_moment (script : Script) (policy : Policy) (network : Network)
    (events : List Event) (k : Nat) :
    Sound script policy (moment script policy network events k) :=
  (sound_start script policy network).run (events.take k)

/-! ### What readers see -/

/-- The sites that were read stay read, in the same order. -/
theorem read_prefix_step (script : Script) (s : Fetching) (e : Event) :
    s.read <+: (step script s e).read := by
  rcases step_cases script s e with hsame | ⟨base, -, hnew, hstep⟩ | ⟨j, others, -, -, hstep⟩
  · have hread : (step script s e).read = s.read := by rw [hsame]
    exact hread ▸ List.prefix_rfl
  · have hread : (step script s e).read = s.read := by rw [hstep, register, if_neg hnew]
    exact hread ▸ List.prefix_rfl
  · rw [hstep]
    exact List.prefix_append ..

/-- The sites that were read stay read during any number of events. -/
theorem read_prefix_run (script : Script) (s : Fetching) (events : List Event) :
    s.read <+: (run script s events).read := by
  induction events generalizing s with
  | nil => exact List.prefix_rfl
  | cons e events ih => exact (read_prefix_step script s e).trans (ih (step script s e))

/-- Only an event that registers a site changes what is registered. -/
theorem mem_registered_step (script : Script) (s : Fetching) (e : Event) (base : String) :
    base ∈ (step script s e).index.registered ↔
      base ∈ s.index.registered ∨ e = .register base := by
  cases e with
  | register new =>
    by_cases hmem : new ∈ s.index.registered
    · simp only [step, register, if_pos hmem, Event.register.injEq]
      constructor
      · exact Or.inl
      · rintro (hbase | rfl)
        · exact hbase
        · exact hmem
    · simp [step, register, hmem, eq_comm]
  | answer other =>
    simp only [step]
    cases s.jobs.find? (·.base = other) with
    | none => simp
    | some j => simp [answer]

/-- The registered sites are those of the events. -/
theorem mem_registered_run (script : Script) (s : Fetching) (events : List Event)
    (base : String) : base ∈ (run script s events).index.registered ↔
      base ∈ s.index.registered ∨ .register base ∈ events := by
  induction events generalizing s with
  | nil => simp [run]
  | cons e events ih =>
    have hrun : run script s (e :: events) = run script (step script s e) events := rfl
    rw [hrun, ih, mem_registered_step, List.mem_cons, or_assoc, eq_comm (a := e)]

variable {script : Script} {policy : Policy} {network : Network} {events : List Event}

/-- The sites that were registered are those of the events so far. -/
theorem mem_registered_moment (k : Nat) (base : String) :
    base ∈ (moment script policy network events k).index.registered ↔
      .register base ∈ events.take k := by
  rw [moment, mem_registered_run]
  simp [start, Index.initial]

/-- A name that is known at one moment belongs to the same site at every later one. -/
theorem lookup_moment_of_le {k l : Nat} (h : k ≤ l) {name base : String}
    (hlookup : (moment script policy network events k).index.lookup name = some base) :
    (moment script policy network events l).index.lookup name = some base := by
  obtain ⟨between, hbetween⟩ : events.take k <+: events.take l := by
    rw [← Nat.min_eq_left h, ← List.take_take]
    exact List.take_prefix ..
  have hlater : moment script policy network events l =
      run script (moment script policy network events k) between := by
    rw [moment, ← hbetween, run, List.foldl_append]
    rfl
  have hprefix : (moment script policy network events k).read <+:
      (moment script policy network events l).read := by
    rw [hlater]
    exact read_prefix_run ..
  obtain ⟨more, hmore⟩ := hprefix
  rw [(sound_moment script policy network events k).names name, Option.map_eq_some_iff] at hlookup
  obtain ⟨site, hfind, rfl⟩ := hlookup
  rw [(sound_moment script policy network events l).names name, ← hmore, List.find?_append, hfind]
  rfl

/-- What is known when no job is under way. -/
structure Settled (script : Script) (policy : Policy) (s : Fetching) : Prop where
  /-- The sites that were read are the registered ones that list anything. -/
  read : ∀ base names, (base, names) ∈ s.read ↔
    base ∈ s.index.registered ∧ script.Lists policy.count base names
  /-- The known names are all that these sites list. -/
  known : ∀ name, (s.index.lookup name).isSome ↔ ∃ base ∈ s.index.registered, ∃ names,
    script.Lists policy.count base names ∧ name ∈ names
  /-- A name that a single site lists belongs to this site. -/
  sole : ∀ name base, (∃ names, script.Lists policy.count base names ∧ name ∈ names) →
    base ∈ s.index.registered →
    (∀ other ∈ s.index.registered, ∀ names, script.Lists policy.count other names →
      name ∈ names → other = base) →
    s.index.lookup name = some base

/-- A sound state without jobs is settled. -/
theorem Sound.settled {s : Fetching} (h : Sound script policy s) (hjobs : s.jobs = []) :
    Settled script policy s := by
  have hread : ∀ base names, (base, names) ∈ s.read ↔
      base ∈ s.index.registered ∧ script.Lists policy.count base names := by
    intro base names
    rw [← h.started]
    constructor
    · exact fun hmem => h.read (base, names) hmem
    · rintro ⟨hstarted, hlists⟩
      exact h.done base hstarted (by simp [hjobs]) names hlists
  have hknown : ∀ name, (s.index.lookup name).isSome ↔ ∃ base ∈ s.index.registered, ∃ names,
      script.Lists policy.count base names ∧ name ∈ names := by
    intro name
    rw [h.names, Option.isSome_map, List.find?_isSome]
    constructor
    · rintro ⟨⟨base, names⟩, hmem, hname⟩
      obtain ⟨hbase, hlists⟩ := (hread base names).mp hmem
      exact ⟨base, hbase, names, hlists, of_decide_eq_true hname⟩
    · rintro ⟨base, hbase, names, hlists, hname⟩
      exact ⟨(base, names), (hread base names).mpr ⟨hbase, hlists⟩, decide_eq_true hname⟩
  refine ⟨hread, hknown, fun name base hlists hbase hsole => ?_⟩
  obtain ⟨names, hlists, hname⟩ := hlists
  obtain ⟨found, hfound⟩ := Option.isSome_iff_exists.mp
    ((hknown name).mpr ⟨base, hbase, names, hlists, hname⟩)
  -- The name belongs to a site that lists it, and there is only one.
  rw [hfound]
  rw [h.names, Option.map_eq_some_iff] at hfound
  obtain ⟨⟨other, listed⟩, hfind, rfl⟩ := hfound
  have hmem := (hread other listed).mp (List.mem_of_find?_eq_some hfind)
  have hlisted : name ∈ listed := by simpa using List.find?_some hfind
  rw [hsole other hmem.1 listed hmem.2 hlisted]

/-- Readers who see every event in between agree on what they see.

At every moment each site has one job at most, and only registered sites have one. A name
that is known keeps its site. It belongs to the first site that was read and lists it. When
no job is under way, the known names are all that the registered sites list, whatever the
order of the events was (`Settled`). A reader who classifies a type looks up its package
and its simple name at two moments `k` and `k'`. Another one who does so no earlier, at `l`
and `l'`, gets the same qualified name. The kind stays the same or turns from unresolved to
external. -/
theorem names_of_events (script : Script) (policy : Policy) (network : Network)
    (events : List Event) :
    let now := moment script policy network events
    (∀ k, (now k).started.Nodup ∧ ((now k).jobs.map (·.base)).Nodup ∧
      (∀ j ∈ (now k).jobs, j.base ∈ (now k).started) ∧ ((now k).read.map (·.1)).Nodup ∧
      ∀ base, base ∈ (now k).started ↔ .register base ∈ events.take k) ∧
    (∀ k l, k ≤ l → ∀ name base, (now k).index.lookup name = some base →
      (now l).index.lookup name = some base) ∧
    (∀ k name, (now k).index.lookup name =
      ((now k).read.find? fun site => name ∈ site.2).map (·.1)) ∧
    (∀ k, (now k).jobs = [] → Settled script policy (now k)) ∧
    ∀ (r : Model.Resolver) (written : String) (scope : Option Model.Scope) (k k' l l' : Nat),
      k ≤ l → k' ≤ l' →
      let earlier := r.classifyAmid (now k).index.lookup (now k').index.lookup written scope
      let later := r.classifyAmid (now l).index.lookup (now l').index.lookup written scope
      later.name = earlier.name ∧ (later.target = .internal ↔ earlier.target = .internal) ∧
        ∀ base, earlier.target = .external base → ∃ base', later.target = .external base' := by
  intro now
  have hsound : ∀ k, Sound script policy (now k) := sound_moment script policy network events
  have hlater : ∀ k l, k ≤ l → ∀ name base, (now k).index.lookup name = some base →
      (now l).index.lookup name = some base :=
    fun k l h name base hlookup => lookup_moment_of_le h hlookup
  refine ⟨fun k => ?_, hlater, fun k name => (hsound k).names name,
    fun k hjobs => (hsound k).settled hjobs, ?_⟩
  · refine ⟨(hsound k).once, (hsound k).single, (hsound k).underWay, (hsound k).readOnce, ?_⟩
    intro base
    rw [(hsound k).started]
    exact mem_registered_moment k base
  · intro r written scope k k' l l' hk hk' earlier later
    have hknown : ∀ k l, k ≤ l → ∀ name, ((now k).index.lookup name).isSome →
        ((now l).index.lookup name).isSome := by
      intro k l h name hsome
      obtain ⟨base, hbase⟩ := Option.isSome_iff_exists.mp hsome
      exact Option.isSome_iff_exists.mpr ⟨base, hlater k l h name base hbase⟩
    refine ⟨rfl, r.internal_locateAmid_iff _, fun base hbase => ?_⟩
    exact r.external_locateAmid (hknown k l hk) (hknown k' l' hk') hbase

/-- Two sites list a type `Widget`. The first one answers at its second attempt only. -/
def twoSites : Script
  | "https://a/", 1 => .page "<p class=horizontal><a>acme</a><a>Widget</a></p>"
  | "https://b/", 0 => .page "<p class=horizontal><a>Widget</a></p>"
  | _, _ => .failed "refused"

/-- Both sites are registered, one of them twice, and the second one is read first. -/
def secondFirst : List Event :=
  [.register "https://a/", .register "https://b/", .register "https://a/", .answer "https://a/",
    .answer "https://b/", .answer "https://a/"]

/-- The name that both sites list stays with the one that was read first, and a type of the package
that only the other one lists turns from unresolved to external in the end. -/
theorem names_of_events_twoSites :
    let policy : Policy := ⟨2, "1"⟩
    let now := moment twoSites policy .unreachable secondFirst
    let r : Model.Resolver := ⟨.empty, [], fun _ => none, none⟩
    (now 6).started.Nodup ∧ (now 6).started = ["https://a/", "https://b/"] ∧
    (now 5).index.lookup "Widget" = some "https://b/" ∧
    (now 6).index.lookup "Widget" = some "https://b/" ∧
    ((now 6).index.lookup "acme").isSome ∧ Settled twoSites policy (now 6) ∧
    (r.classifyAmid (now 5).index.lookup (now 5).index.lookup "acme.Gear" none).target =
      .unresolved ∧
    (r.classifyAmid (now 6).index.lookup (now 6).index.lookup "acme.Gear" none).target =
      .external "https://a/" := by
  intro policy now r
  obtain ⟨honce, hlater, -, hsettled, -⟩ :=
    names_of_events twoSites policy .unreachable secondFirst
  have hfirst : (now 5).index.lookup "Widget" = some "https://b/" := by decide +kernel
  have hjobs : ((now 6).jobs.map (·.base)) = [] := by decide +kernel
  refine ⟨(honce 6).1, by decide +kernel, hfirst, hlater 5 6 (by decide) _ _ hfirst,
    by decide +kernel, hsettled 6 (List.map_eq_nil_iff.mp hjobs), by decide +kernel,
    by decide +kernel⟩

/-! ### Rounds -/

/-- What a run does with the jobs under way depends only on the attempts that they have
left. -/
theorem run_congr {script script' : Script} (s : Fetching) (bases : List String)
    (h : ∀ j ∈ s.jobs, ∀ m, j.made ≤ m → script j.base m = script' j.base m) :
    run script s (bases.map .answer) = run script' s (bases.map .answer) := by
  induction bases generalizing s with
  | nil => rfl
  | cons base bases ih =>
    have hstep : step script s (.answer base) = step script' s (.answer base) := by
      simp only [step]
      cases hfind : s.jobs.find? (·.base = base) with
      | none => rfl
      | some j =>
        have hbase : j.base = base := by simpa using List.find?_some hfind
        have hsame := h j (List.mem_of_find?_eq_some hfind) j.made (Nat.le_refl _)
        rw [hbase] at hsame
        simp only [hsame]
    show run script (step script s (.answer base)) (bases.map .answer) =
      run script' (step script' s (.answer base)) (bases.map .answer)
    rw [← hstep]
    refine ih _ fun j hj m hm => ?_
    rcases step_cases script s (.answer base) with
      hsame | ⟨new, hevent, -⟩ | ⟨k, others, -, hjobs, hsame⟩
    · rw [hsame] at hj
      exact h j hj m hm
    · cases hevent
    · rw [hsame] at hj
      rcases (mem_jobs_answer ..).mp hj with hother | ⟨rfl, -⟩
      · exact h j (hjobs.mem_iff.mpr (List.mem_cons_of_mem _ hother)) m hm
      · have hm : k.made + 1 ≤ m := hm
        exact h k (hjobs.mem_iff.mpr List.mem_cons_self) m (by omega)

/-- After a number of sites was registered, those that are new have their jobs. -/
theorem run_register (script : Script) (s : Fetching) (bases : List String) :
    run script s (bases.map .register) =
      { s with
        index := { s.index with
          registered := s.index.registered ++ s.index.unregistered bases }
        jobs := s.jobs ++ (s.index.unregistered bases).map s.index.job
        started := s.started ++ s.index.unregistered bases } := by
  induction bases using List.reverseRecOn with
  | nil => simp [run, Index.unregistered]
  | append_singleton bases base ih =>
    have hlast : run script s ((bases ++ [base]).map .register) =
        (run script s (bases.map .register)).register base := by
      rw [List.map_append, run, List.foldl_append]
      rfl
    rw [hlast, ih, Index.unregistered_append_singleton]
    have hknown : base ∈ s.index.registered ++ s.index.unregistered bases ↔
        base ∈ bases ∨ base ∈ s.index.registered := by
      rw [List.mem_append, Index.mem_unregistered]
      tauto
    by_cases hnew : base ∈ bases ∨ base ∈ s.index.registered
    · simp only [register, hknown, if_pos hnew, List.append_nil]
    · simp only [register, hknown, if_neg hnew, List.map_append, List.append_assoc]
      rfl

/-- An attempt that comes back with some outcome, and then a run, is a run of one script, because no
attempt of its number is made at its site again. -/
theorem exists_run_cons {s : Fetching} {j : Index.Job} {others : List Index.Job}
    (hjobs : s.jobs = j :: others) (hown : j.base ∉ others.map (·.base)) (o : Outcome)
    (script : Script) (bases : List String) :
    ∃ first, run first s ((j.base :: bases).map .answer) =
      run script (s.answer j others o) (bases.map .answer) := by
  let first : Script := fun base made =>
    if base = j.base ∧ made = j.made then o else script base made
  have houtcome : first j.base j.made = o := if_pos ⟨rfl, rfl⟩
  have hstep : step first s (.answer j.base) = s.answer j others o := by
    simp only [step, hjobs, List.find?_cons, List.eraseP_cons, decide_true, cond_true, houtcome]
  have hlater : ∀ k ∈ (s.answer j others o).jobs, ∀ m, k.made ≤ m →
      first k.base m = script k.base m := by
    intro k hk m hm
    refine if_neg ?_
    rintro ⟨hbase, rfl⟩
    rcases (mem_jobs_answer ..).mp hk with hother | ⟨rfl, -⟩
    · exact hown (List.mem_map.mpr ⟨k, hother, hbase⟩)
    · have hm : j.made + 1 ≤ j.made := hm
      omega
  refine ⟨first, ?_⟩
  rw [← run_congr _ bases hlater, ← hstep]
  rfl

/-- Jobs that are worked off in rounds come back one after another, as some script says. The
network is no part of a run: each script stands for what some network does. -/
theorem exists_run_work (n : Nat) : ∀ (i : Index) (jobs : List Index.Job),
    Index.attemptsLeft jobs = n → (jobs.map (·.base)).Nodup →
    ∀ (network : Network) (started : List String) (read : List (String × List String)),
    ∃ (script : Script) (bases : List String),
      let s := run script ⟨{ i with network }, jobs, started, read⟩ (bases.map .answer)
      s.jobs = [] ∧ { s.index with network := (i.work jobs).network } = i.work jobs := by
  induction n using Nat.strongRecOn with
  | _ n ih =>
    intro i jobs hn single network started read
    cases jobs with
    | nil =>
      refine ⟨fun _ _ => .unanswered, [], rfl, ?_⟩
      rw [Index.work]
      rfl
    | cons j jobs =>
      obtain ⟨o, network', hwork⟩ := i.work_cons j jobs
      obtain ⟨hown, hothers⟩ := List.nodup_cons.mp single
      have hless := i.attemptsLeft_after_lt j jobs o
      rw [hn] at hless
      -- The first attempt is made here, and the others are a run by induction.
      let s : Fetching := ⟨{ i with network }, j :: jobs, started, read⟩
      let after := s.answer j jobs o
      have hafter : after = ⟨{ (i.answered j o).1 with network },
          jobs ++ if (i.answered j o).2 then [j.next] else [], started, after.read⟩ := by
        simp only [after, s, answer, Index.answered_network]
      obtain ⟨script, bases, hjobs, hindex⟩ := ih _ hless
        { (i.answered j o).1 with network := network' } _ rfl (nodup_again hown hothers _)
        network started after.read
      obtain ⟨first, hrun⟩ := exists_run_cons (s := s) rfl hown o script bases
      refine ⟨first, j.base :: bases, ?_⟩
      dsimp only
      rw [hrun, show s.answer j jobs o = _ from hafter, hwork]
      exact ⟨hjobs, hindex⟩

/-- To register sites with an index is a run of the events that register them, and of attempts
that come back until no job is left. -/
theorem exists_run_register (i : Index) (bases : List String) (started : List String)
    (read : List (String × List String)) :
    ∃ (script : Script) (answers : List String),
      let s := run script ⟨i, [], started, read⟩ (bases.map .register ++ answers.map .answer)
      s.jobs = [] ∧ { s.index with network := (i.register bases).network } = i.register bases := by
  have hbases : ((i.unregistered bases).map i.job).map (·.base) = i.unregistered bases := by
    rw [List.map_map]
    exact List.map_id _
  obtain ⟨script, answers, hjobs, hindex⟩ := exists_run_work _
    { i with registered := i.registered ++ i.unregistered bases } ((i.unregistered bases).map i.job)
    rfl (by rw [hbases]; exact i.nodup_unregistered bases) i.network
    (started ++ i.unregistered bases) read
  have hrun : run script ⟨i, [], started, read⟩ (bases.map .register ++ answers.map .answer) =
      run script ⟨{ i with registered := i.registered ++ i.unregistered bases },
        (i.unregistered bases).map i.job, started ++ i.unregistered bases, read⟩
        (answers.map .answer) := by
    rw [run, List.foldl_append, ← run, ← run, run_register]
    rfl
  refine ⟨script, answers, ?_⟩
  rw [hrun]
  exact ⟨hjobs, hindex⟩

end Fetching

end Apidoc.External
