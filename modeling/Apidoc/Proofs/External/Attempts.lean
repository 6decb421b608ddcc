import Apidoc.Proofs.External.Index
import Mathlib.Data.Nat.Find

/-!
# `Apidoc.Proofs.External.Attempts`: how often a site is asked

Asking a site is a loop over attempts. Attempts that fail leave the names alone, however many they
are (`exists_work_of_fails`). The loop ends with the first attempt that does not fail or with the last
one that is allowed (`work_last`), and what the call answers and adds is decided by that attempt alone
(`fetch_of_answered`).

An attempt is one request wherever no answer says to ask elsewhere (`Network.requests_attempted`), and
the answers of a site may be any (`Network.reply_of_script`).

Only a page that cannot be read makes the call fail. It comes back with status 200, so it is no
failed attempt, and no further one is made.
-/

set_option autoImplicit false

namespace Apidoc.External

/-! ### Attempts -/

/-- The answer does not say to ask elsewhere. -/
def Answer.IsDirect : Answer → Prop
  | .response status _ location => Network.isRedirect status = true → location = none
  | .failure _ => True
  | .silence => True

instance : DecidablePred Answer.IsDirect
  | .response status _ location =>
    inferInstanceAs (Decidable (Network.isRedirect status = true → location = none))
  | .failure _ => isTrue trivial
  | .silence => isTrue trivial

/-- What comes of an attempt that gets the answer. -/
def Answer.outcome : Answer → Network.Outcome
  | .response status body _ => if status = 200 then .page body else .badStatus status
  | .failure reason => .failed reason
  | .silence => .unanswered

namespace Network

variable {n : Network} {address : String}

/-- The network after a number of attempts at an address. -/
def attempted (n : Network) (address : String) : Nat → Network
  | 0 => n
  | k + 1 => (n.load address (redirectLimit + 1)).2.attempted address k

/-- The attempts so far may be made first. -/
theorem attempted_succ (n : Network) (address : String) (k : Nat) :
    n.attempted address (k + 1) =
      ((n.attempted address k).load address (redirectLimit + 1)).2 := by
  induction k generalizing n with
  | zero => rfl
  | succ k ih => exact ih _

/-- What comes of the next attempt after `k` others. -/
def outcome (n : Network) (address : String) (k : Nat) : Outcome :=
  ((n.attempted address k).load address (redirectLimit + 1)).1

/-- The first answer in the next attempt after `k` others. -/
def reply (n : Network) (address : String) (k : Nat) : Answer :=
  ((n.attempted address k).request address).1

/-- The attempt after `k` others is the first that does not fail, and it brings a page. -/
def FirstPage (n : Network) (address : String) (k : Nat) (body : String) : Prop :=
  n.outcome address k = .page body ∧ ∀ m < k, (n.outcome address m).fails = true

/-- If all attempts are answered, one of them brings the first page, or all of them fail. -/
theorem exists_firstPage_or_fails {count : Nat}
    (h : ∀ k < count, n.outcome address k ≠ .unanswered) :
    (∃ k < count, ∃ body, n.FirstPage address k body) ∨
      ∀ k < count, (n.outcome address k).fails = true := by
  by_cases hall : ∀ k < count, (n.outcome address k).fails = true
  · exact .inr hall
  · push Not at hall
    obtain ⟨hk, hstops⟩ := Nat.find_spec hall
    have hfails : ∀ m < Nat.find hall, (n.outcome address m).fails = true := by
      intro m hm
      by_contra hnot
      exact Nat.find_min hall hm ⟨by omega, hnot⟩
    refine .inl ⟨Nat.find hall, hk, ?_⟩
    -- An answered attempt that does not fail brings a page.
    cases houtcome : n.outcome address (Nat.find hall) with
    | page body => exact ⟨body, houtcome, hfails⟩
    | unanswered => exact absurd houtcome (h _ hk)
    | failed reason => exact absurd (congrArg Outcome.fails houtcome) hstops
    | badStatus status => exact absurd (congrArg Outcome.fails houtcome) hstops

/-- Without a redirect an attempt is one request. -/
theorem load_of_isDirect (h : (n.request address).1.IsDirect) (limit : Nat) :
    n.load address (limit + 1) = ((n.request address).1.outcome, (n.request address).2) := by
  rw [load]
  cases hrequest : n.request address with
  | mk answer n' =>
    rw [hrequest] at h
    cases answer with
    | failure reason => rfl
    | silence => rfl
    | response status body location =>
      have hstay : (if isRedirect status = true then location else none) = none := by
        split
        · exact h ‹_›
        · rfl
      simp only [hstay]
      rfl

/-- So a number of attempts are as many requests. -/
theorem requests_attempted (n : Network) (k : Nat) (h : ∀ m < k, (n.reply address m).IsDirect) :
    (n.attempted address k).requests = n.requests ++ List.replicate k address := by
  induction k generalizing n with
  | zero => simp [attempted]
  | succ k ih =>
    have hload : n.load address (redirectLimit + 1) =
        ((n.request address).1.outcome, (n.request address).2) :=
      load_of_isDirect (h 0 k.succ_pos) redirectLimit
    have hlater : ∀ m < k,
        ((n.load address (redirectLimit + 1)).2.reply address m).IsDirect :=
      fun m hm => h (m + 1) (Nat.succ_lt_succ hm)
    rw [attempted, ih _ hlater, hload, List.replicate_succ]
    simp [request]

/-- Without a redirect the first answer decides about an attempt. -/
theorem outcome_of_isDirect {k : Nat} (h : (n.reply address k).IsDirect) :
    n.outcome address k = (n.reply address k).outcome := by
  rw [outcome, load_of_isDirect h]
  rfl

/-- A site gives the answers of its script one after another, so any answers may be given. -/
theorem reply_of_script (base : String) (sites : List (String × List Answer)) (k : Nat) :
    ∀ (answers : List Answer) (requests : List String) (hk : k < answers.length),
      (∀ answer ∈ answers, answer.IsDirect) →
      reply ⟨(base, answers) :: sites, requests⟩ (base ++ overviewPage) k = answers[k] := by
  induction k with
  | zero =>
    intro answers requests hk _
    obtain ⟨answer, rest, rfl⟩ := List.exists_cons_of_length_pos hk
    simp [reply, attempted, request, take]
  | succ k ih =>
    intro answers requests hk hdirect
    match answers, hk with
    | answer :: next :: rest, hk =>
      obtain ⟨hfirst, hlater⟩ := List.forall_mem_cons.mp hdirect
      have hrequest : request ⟨(base, answer :: next :: rest) :: sites, requests⟩
          (base ++ overviewPage) = (answer, ⟨(base, next :: rest) :: sites,
            requests ++ [base ++ overviewPage]⟩) := by
        simp [request, take, remaining]
      have hload : load ⟨(base, answer :: next :: rest) :: sites, requests⟩
          (base ++ overviewPage) (redirectLimit + 1) = _ :=
        load_of_isDirect (by rw [hrequest]; exact hfirst) redirectLimit
      have hreply := ih (next :: rest) (requests ++ [base ++ overviewPage])
        (Nat.lt_of_succ_lt_succ hk) hlater
      rw [reply, attempted, hload, hrequest]
      exact hreply

end Network

namespace Index

open Apidoc.External.Network (Outcome)

/-! ### The names of a page -/

/-- The names that are added are those that are not known, each once. -/
theorem addNames_eq (base : String) (known : List (String × String)) (names : List String) :
    addNames base known names =
      known ++ (names.eraseDups.filter fun name => !known.any (·.1 = name)).map (·, base) := by
  induction names using List.reverseRecOn with
  | nil => simp [addNames]
  | append_singleton names name ih =>
    have hstep : addNames base known (names ++ [name]) =
        if (addNames base known names).any (·.1 = name) then addNames base known names
        else addNames base known names ++ [(name, base)] := by
      rw [addNames, List.foldl_append]
      rfl
    let new (name : String) : Bool := !known.any (·.1 = name)
    have hany : (known ++ (names.eraseDups.filter new).map (·, base)).any (·.1 = name) =
        (!new name || decide (name ∈ names)) := by
      have hadded : ((names.eraseDups.filter new).map (·, base)).any (·.1 = name) =
          (new name && decide (name ∈ names)) := by
        rw [Bool.eq_iff_iff, List.any_map, List.any_filter]
        simp [and_comm]
      rw [List.any_append, hadded]
      show _ = (!!known.any (·.1 = name) || _)
      show (_ || (!known.any (·.1 = name)) && _) = _
      cases known.any (·.1 = name) <;> rfl
    rw [hstep, ih, hany, eraseDups_append_singleton, List.filter_append, List.map_append]
    cases hnew : new name <;> by_cases hmem : name ∈ names <;> simp [new, hnew, hmem]

/-! ### The loop -/

/-- An attempt that fails adds no names, and it reads no page. -/
theorem answered_of_fails (i : Index) (j : Job) {o : Outcome} (h : o.fails = true) :
    (i.answered j o).1.names = i.names ∧ (i.answered j o).1.broken = i.broken := by
  cases o with
  | page body => cases h
  | unanswered => cases h
  | failed reason => simp only [answered, failed]; split <;> exact ⟨rfl, rfl⟩
  | badStatus status => simp only [answered, failed]; split <;> exact ⟨rfl, rfl⟩

/-- After attempts that fail, the names are as before, and as many attempts are used up. -/
theorem exists_work_of_fails (k : Nat) : ∀ (i : Index) (j : Job), k < j.left →
    (∀ m < k, (i.network.outcome (j.base ++ overviewPage) m).fails = true) →
    ∃ i' : Index, i'.names = i.names ∧ i'.broken = i.broken ∧
      i'.network = i.network.attempted (j.base ++ overviewPage) k ∧
      i.work [j] = i'.work [⟨j.base, j.made + k, j.left - k⟩] := by
  induction k with
  | zero => exact fun i j _ _ => ⟨i, rfl, rfl, rfl, rfl⟩
  | succ k ih =>
    intro i j hk hfails
    obtain ⟨o, network, hload⟩ : ∃ o network,
        i.network.load (j.base ++ overviewPage) (Network.redirectLimit + 1) = (o, network) :=
      ⟨_, _, rfl⟩
    have hfirst : o.fails = true := by
      have := hfails 0 k.succ_pos
      rwa [Network.outcome, Network.attempted, hload] at this
    -- The first attempt is not the last one, so the job goes on with the next one.
    have hagain : (i.answered j o).2 = true := by
      rw [again_answered, hfirst, Bool.true_and, decide_eq_true_eq]
      omega
    have hstep := work_cons_of_load hload []
    rw [hagain] at hstep
    obtain ⟨hnames, hbroken⟩ := answered_of_fails i j hfirst
    have hk' : k < j.next.left := by
      show k < j.left - 1
      omega
    obtain ⟨i', hnames', hbroken', hnetwork, hwork⟩ :=
      ih { (i.answered j o).1 with network } j.next hk' fun m hm => by
        have := hfails (m + 1) (Nat.succ_lt_succ hm)
        rwa [Network.outcome, Network.attempted, hload] at this
    have hlater : network.attempted (j.base ++ overviewPage) k =
        i.network.attempted (j.base ++ overviewPage) (k + 1) := by
      rw [Network.attempted, hload]
    refine ⟨i', hnames'.trans hnames, hbroken'.trans hbroken, hnetwork.trans hlater, ?_⟩
    have hmade : j.made + (k + 1) = j.next.made + k := by
      show j.made + (k + 1) = j.made + 1 + k
      omega
    have hleft : j.left - (k + 1) = j.next.left - k := by
      show j.left - (k + 1) = j.left - 1 - k
      omega
    rw [hmade, hleft]
    exact hstep.trans hwork

/-- The last attempt settles the site. -/
theorem work_last (i : Index) (j : Job)
    (h : (i.network.outcome (j.base ++ overviewPage) 0).fails = true → j.left ≤ 1) :
    i.work [j] = { (i.answered j (i.network.outcome (j.base ++ overviewPage) 0)).1 with
      network := i.network.attempted (j.base ++ overviewPage) 1 } := by
  have hstops : (i.answered j (i.network.outcome (j.base ++ overviewPage) 0)).2 = false := by
    rw [again_answered, Bool.and_eq_false_imp]
    intro hfails
    have := h hfails
    simp
    omega
  rw [work_cons_of_load (o := i.network.outcome (j.base ++ overviewPage) 0) rfl, hstops,
    List.nil_append, if_neg Bool.false_ne_true, work]
  rfl

/-- The attempt after `k` others settles the site if those fail, and so does this one only if it is
the last. -/
theorem exists_work_settled {i : Index} {j : Job} {k : Nat} (hk : k < j.left)
    (hfails : ∀ m < k, (i.network.outcome (j.base ++ overviewPage) m).fails = true)
    (hlast : (i.network.outcome (j.base ++ overviewPage) k).fails = true → j.left = k + 1) :
    ∃ (i' : Index) (made left : Nat), i'.names = i.names ∧ i'.broken = i.broken ∧
      i.work [j] =
        { (i'.answered ⟨j.base, made, left⟩ (i.network.outcome (j.base ++ overviewPage) k)).1 with
          network := i.network.attempted (j.base ++ overviewPage) (k + 1) } := by
  obtain ⟨i', hnames, hbroken, hnetwork, hwork⟩ := exists_work_of_fails k i j hk hfails
  refine ⟨i', j.made + k, j.left - k, hnames, hbroken, ?_⟩
  have houtcome : i'.network.outcome (j.base ++ overviewPage) 0 =
      i.network.outcome (j.base ++ overviewPage) k := by
    rw [hnetwork]
    rfl
  have hlater : i'.network.attempted (j.base ++ overviewPage) 1 =
      i.network.attempted (j.base ++ overviewPage) (k + 1) := by
    rw [hnetwork]
    exact (Network.attempted_succ ..).symm
  have hdone := work_last i' ⟨j.base, j.made + k, j.left - k⟩ fun h => by
    have := hlast (houtcome ▸ h)
    show j.left - k ≤ 1
    omega
  rw [hwork, hdone, houtcome, hlater]

/-! ### The call -/

/-- What a call answers and leaves as names if it gets a page. -/
structure Adds (i : Index) (base body : String) (answer : Except Failure Nat)
    (names : List (String × String)) : Prop where
  readable : ∀ listed, Overview.read? Overview.listClass body = some listed →
    let new := listed.eraseDups.filter fun name => i.lookup name = none
    answer = .ok new.length ∧ names = i.names ++ new.map (·, base)
  unreadable : Overview.read? Overview.listClass body = none →
    answer = .error .markup ∧ names = i.names

/-- What a call answers if the work leaves an index. -/
def answerOf (i after : Index) : Except Failure Nat :=
  if i.broken.length < after.broken.length then .error .markup else .ok (after.size - i.size)

theorem adds_answered {i i' : Index} (hnames : i'.names = i.names) (hbroken : i'.broken = i.broken)
    (j : Job) (body : String) :
    Adds i j.base body (answerOf i (i'.answered j (.page body)).1)
      (i'.answered j (.page body)).1.names where
  readable := by
    intro listed hread new
    have hnew : (listed.eraseDups.filter fun name => !i.names.any (·.1 = name)) = new := by
      refine List.filter_congr fun name _ => ?_
      rw [Bool.eq_iff_iff, decide_eq_true_eq]
      simp [lookup, List.find?_eq_none]
    have hafter : (i'.answered j (.page body)).1 = i'.insert listed j.base := by
      simp only [answered, hread]
    have hinsert : (i'.insert listed j.base).names = i.names ++ new.map (·, j.base) := by
      rw [← hnew, ← addNames_eq, ← hnames]
      rfl
    rw [hafter]
    refine ⟨?_, hinsert⟩
    have hsame : (i'.insert listed j.base).broken = i.broken := hbroken
    rw [answerOf, hsame, if_neg (Nat.lt_irrefl _), size, size, hinsert]
    simp
  unreadable := by
    intro hread
    simp [answerOf, answered, hread, hnames, hbroken]

/-- If all attempts fail, all are made, and no names are added. -/
theorem fetch_of_fails {i : Index} {base : String}
    (h : ∀ k < i.policy.count, (i.network.outcome (base ++ overviewPage) k).fails = true) :
    (i.fetch base).2.network = i.network.attempted (base ++ overviewPage) i.policy.count ∧
    (i.fetch base).1 = .ok 0 ∧ (i.fetch base).2.names = i.names := by
  have hcount : 0 < i.policy.count := Nat.lt_of_lt_of_le Nat.one_pos (Nat.le_max_left ..)
  obtain ⟨last, hlast⟩ : ∃ last, i.policy.count = last + 1 := ⟨_, (Nat.sub_add_cancel hcount).symm⟩
  rw [hlast] at h ⊢
  obtain ⟨i', made, left, hnames, hbroken, hwork⟩ :=
    exists_work_settled (i := i) (j := i.job base) (k := last) (by
      show last < i.policy.count
      omega) (fun m hm => h m (by omega)) (fun _ => hlast)
  obtain ⟨hnames', hbroken'⟩ := answered_of_fails i' ⟨base, made, left⟩ (h last (by omega))
  have hsame : (i.work [i.job base]).names = i.names := by
    rw [hwork]
    exact hnames'.trans hnames
  have hread : (i.work [i.job base]).broken = i.broken := by
    rw [hwork]
    exact hbroken'.trans hbroken
  refine ⟨?_, ?_, hsame⟩
  · rw [fetch, hwork]
    rfl
  · simp [fetch, size, hsame, hread]

/-- The attempt that brings the first page is the last one, and the page is all that counts. -/
theorem fetch_of_firstPage {i : Index} {base body : String} {k : Nat} (hk : k < i.policy.count)
    (h : i.network.FirstPage (base ++ overviewPage) k body) :
    (i.fetch base).2.network = i.network.attempted (base ++ overviewPage) (k + 1) ∧
    Adds i base body (i.fetch base).1 (i.fetch base).2.names := by
  obtain ⟨hpage, hfails⟩ := h
  obtain ⟨i', made, left, hnames, hbroken, hwork⟩ :=
    exists_work_settled (i := i) (j := i.job base) hk hfails fun hfailed =>
      absurd ((congrArg Outcome.fails hpage).symm.trans hfailed) Bool.false_ne_true
  have hsettled : i.network.outcome ((i.job base).base ++ overviewPage) k = .page body := hpage
  rw [hsettled] at hwork
  rw [fetch, hwork]
  exact ⟨rfl, adds_answered hnames hbroken ⟨base, made, left⟩ body⟩

/-- A call makes attempts up to the first one that brings a page, or all of them.

`fetch` asks a site at least once and at most as often as the policy says. If an attempt brings a page
it is the last one, and the index gets the names on the page that it did not have, each once and for
this site; the answer is their number. If no attempt does, all are made, no names are added and the
answer is 0. A page that cannot be read is an error, whatever attempts are left, and adds no names. As
long as no answer says to ask elsewhere, each attempt is one request for the overview page, and brings
what the answer says. -/
theorem fetch_of_answered (i : Index) (base : String)
    (h : ∀ k < i.policy.count, i.network.outcome (base ++ overviewPage) k ≠ .unanswered) :
    let address := base ++ overviewPage
    let site := i.network
    let count := max 1 i.policy.attempts.toNat
    let (answer, after) := i.fetch base
    ((∃ k < count, ∃ body, site.FirstPage address k body ∧
        after.network = site.attempted address (k + 1) ∧ Adds i base body answer after.names) ∨
      ((∀ k < count, (site.outcome address k).fails = true) ∧
        after.network = site.attempted address count ∧ answer = .ok 0 ∧ after.names = i.names)) ∧
    ∀ k, (∀ m < k, (site.reply address m).IsDirect) →
      (site.attempted address k).requests = site.requests ++ List.replicate k address ∧
      ∀ m < k, site.outcome address m = (site.reply address m).outcome := by
  intro address site count
  constructor
  · rcases Network.exists_firstPage_or_fails h with ⟨k, hk, body, hfirst⟩ | hall
    · exact .inl ⟨k, hk, body, hfirst, fetch_of_firstPage hk hfirst⟩
    · exact .inr ⟨hall, fetch_of_fails hall⟩
  · intro k hdirect
    exact ⟨site.requests_attempted k hdirect, fun m hm => Network.outcome_of_isDirect (hdirect m hm)⟩

/-- The site answers at the second attempt. One of its two names is known, the other one stands on the
page twice. -/
theorem fetch_of_answered_secondAttempt :
    let page := "<p class=horizontal><a>acme</a><a>Widget</a><a>Widget</a></p>"
    let site : Network :=
      ⟨[("https://a/", [.response 404 "" none, .response 200 page none])], []⟩
    let i : Index := { initial ⟨3, "1"⟩ site with names := [("acme", "https://b/")] }
    (∀ k < i.policy.count, i.network.outcome "https://a/overview-tree.html" k ≠ .unanswered) ∧
    (i.fetch "https://a/").1 = .ok 1 ∧
    (i.fetch "https://a/").2.names = [("acme", "https://b/"), ("Widget", "https://a/")] ∧
    (i.fetch "https://a/").2.network.requests =
      ["https://a/overview-tree.html", "https://a/overview-tree.html"] := by
  intro page site i
  have hanswered : ∀ k < i.policy.count,
      i.network.outcome "https://a/overview-tree.html" k ≠ .unanswered := by decide +kernel
  have hread : Overview.read? Overview.listClass page = some ["acme", "Widget", "Widget"] := by
    decide +kernel
  have hnew : (["acme", "Widget", "Widget"].eraseDups.filter fun name => i.lookup name = none) =
      ["Widget"] := by decide +kernel
  obtain ⟨⟨k, hk, body, ⟨hpage, hfails⟩, hnetwork, hadds⟩ | ⟨hall, -⟩, hrequests⟩ :=
    fetch_of_answered i "https://a/" hanswered
  · have hk : k < 3 := hk
    have hfirst : k ≠ 0 := by
      rintro rfl
      have hmissing : site.outcome "https://a/overview-tree.html" 0 = .badStatus 404 := by
        decide +kernel
      exact nomatch hmissing.symm.trans hpage
    have hlast : k ≠ 2 := by
      rintro rfl
      exact absurd (hfails 1 (by decide)) (by decide +kernel)
    obtain rfl : k = 1 := by omega
    have hbody : site.outcome "https://a/overview-tree.html" 1 = .page page := by decide +kernel
    obtain rfl : page = body := by simpa using hbody.symm.trans hpage
    obtain ⟨hanswer, hnames⟩ := hadds.readable _ hread
    rw [hnew] at hanswer hnames
    exact ⟨hanswered, hanswer, hnames,
      (congrArg Network.requests hnetwork).trans (hrequests 2 (by decide +kernel)).1⟩
  · exact absurd (hall 1 (by decide)) (by decide +kernel)

/-- A page that cannot be read is an error although attempts are left. -/
theorem fetch_unreadable :
    let site : Network := ⟨[("https://a/", [.response 200 "<![x]>" none])], []⟩
    site.FirstPage "https://a/overview-tree.html" 0 "<![x]>" ∧
    ((initial ⟨3, "1"⟩ site).fetch "https://a/").1 = .error .markup := by
  refine ⟨⟨?_, nofun⟩, ?_⟩ <;> decide +kernel

end Index

end Apidoc.External
