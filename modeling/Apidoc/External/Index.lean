import Apidoc.External.Network
import Apidoc.External.Overview
import Apidoc.Failure
import Apidoc.Log

/-!
# `Apidoc.External.Index`: names that other sites document

Each registered site is asked once for its overview page, with a fixed number of attempts. The names
on the page are mapped to the site, and the first site that lists a name keeps it. A site that never
answers stays pending until someone has waited for it.
-/

set_option autoImplicit false

namespace Apidoc.External

/-- How hard a site is tried. -/
structure Policy where
  /-- The number of attempts asked for. At least one is made. -/
  attempts : Int
  /-- The text of the pause between attempts. -/
  delay : String
  deriving Repr

namespace Policy

/-- The number of attempts that are made. -/
def count (p : Policy) : Nat := max 1 p.attempts.toNat

end Policy

/-- The names of other sites, and how far the sites have been asked. -/
structure Index where
  policy : Policy
  network : Network
  /-- The names with the base addresses of their sites, each name once. -/
  names : List (String × String)
  /-- The base addresses that were registered. -/
  registered : List String
  /-- Those that have not answered. -/
  pending : List String
  /-- Those whose page could not be read. -/
  broken : List String
  log : List Log.Entry
  deriving Repr

namespace Index

/-- The index before any site is registered. -/
def initial (policy : Policy) (network : Network) : Index :=
  ⟨policy, network, [], [], [], [], []⟩

/-- The base address of the site that lists a name. -/
def lookup (i : Index) (name : String) : Option String :=
  (i.names.find? fun e => e.1 = name).map (·.2)

/-- The number of names. -/
def size (i : Index) : Nat := i.names.length

/-- Adds names of a site, as far as they are new. -/
def addNames (base : String) (known : List (String × String)) (names : List String) :
    List (String × String) :=
  names.foldl
    (fun known name => if known.any (·.1 = name) then known else known ++ [(name, base)]) known

/-- Adds an entry to the log. -/
def report (i : Index) (e : Log.Entry) : Index := { i with log := i.log ++ [e] }

/-- Adds the names that a site lists. -/
def insert (i : Index) (names : List String) (base : String) : Index :=
  let known := addNames base i.names names
  { i with names := known }.report
    (.info s!"Indexed {known.length - i.names.length} names from {base}")

/-! ### Fetching -/

/-- A site that is being asked. -/
structure Job where
  base : String
  /-- The attempts made so far. -/
  made : Nat
  /-- The attempts that are left. -/
  left : Nat
  deriving Repr

/-- A job before its first attempt. -/
def job (i : Index) (base : String) : Job := ⟨base, 0, i.policy.count⟩

/-- Deals with an attempt that failed. It answers whether another one follows. -/
def failed (i : Index) (j : Job) (reason : String) : Index × Bool :=
  let address := j.base ++ overviewPage
  if 2 ≤ j.left then
    (i.report (.warning (s!"Fetching {address} failed (attempt {j.made + 1}), " ++
      s!"retrying in {i.policy.delay}s: {reason}")), true)
  else
    (i.report (.warning s!"Giving up on {address} after {j.made + 1} attempts: {reason}"), false)

/-- Deals with what came of an attempt. It answers whether another one follows. -/
def answered (i : Index) (j : Job) : Network.Outcome → Index × Bool
  | .page body =>
    match Overview.read? Overview.listClass body with
    | some names => (i.insert names j.base, false)
    | none => ({ i with broken := i.broken ++ [j.base] }, false)
  | .unanswered => ({ i with pending := i.pending ++ [j.base] }, false)
  | .failed reason => i.failed j reason
  | .badStatus status =>
    i.failed j (Failure.fetch (j.base ++ overviewPage) s!"HTTP {status}").message

/-- Makes one attempt. It answers whether another one follows. -/
def attempt (i : Index) (j : Job) : Index × Bool :=
  let (outcome, network) := i.network.load (j.base ++ overviewPage) (Network.redirectLimit + 1)
  { i with network }.answered j outcome

/-- The attempts that are left for jobs, and one for the end of each. -/
def attemptsLeft : List Job → Nat
  | [] => 0
  | j :: jobs => j.left + 1 + attemptsLeft jobs

theorem attemptsLeft_append (xs ys : List Job) :
    attemptsLeft (xs ++ ys) = attemptsLeft xs + attemptsLeft ys := by
  induction xs with
  | nil => simp only [List.nil_append, attemptsLeft, Nat.zero_add]
  | cons j jobs ih => simp only [List.cons_append, attemptsLeft, ih, Nat.add_assoc]

/-- Makes attempts in turn, one per job and round, until no job is left. -/
def work (i : Index) : List Job → Index
  | [] => i
  | j :: jobs =>
    let (i', again) := i.attempt j
    if again && 2 ≤ j.left then i'.work (jobs ++ [⟨j.base, j.made + 1, j.left - 1⟩])
    else i'.work jobs
termination_by jobs => attemptsLeft jobs
decreasing_by
  · rename_i again
    have : 2 ≤ j.left := by
      simp only [Bool.and_eq_true, decide_eq_true_eq] at again
      exact again.2
    simp only [attemptsLeft_append, attemptsLeft]
    omega
  · simp only [attemptsLeft]
    omega

/-- Asks one site, registered or not, until it is settled. The answer is the number of names that the
site adds, unless its page cannot be read. -/
def fetch (i : Index) (base : String) : Except Failure Nat × Index :=
  let i' := i.work [i.job base]
  (if i.broken.length < i'.broken.length then .error .markup else .ok (i'.size - i.size), i')

/-- The base addresses that are not registered yet, each once. -/
def unregistered (i : Index) (bases : List String) : List String :=
  bases.eraseDups.filter fun base => base ∉ i.registered

/-- Registers sites and asks those that are new. -/
def register (i : Index) (bases : List String) : Index :=
  let new := i.unregistered bases
  { i with registered := i.registered ++ new }.work (new.map i.job)

/-- Waits for all sites, for as long as `timeout` says. A site that does not answer is given up. The
answer is whether all were settled. -/
def wait (i : Index) (timeout : String) : Index × Bool :=
  if i.pending = [] then (i, true)
  else
    ({ i with pending := [] }.report
      (.warning (s!"{i.pending.length} external documentation fetches did not finish " ++
        s!"within {timeout}s; their names stay unresolved")), false)

/-- Gives up all sites that have not answered. -/
def close (i : Index) : Index := { i with pending := [] }

end Index

end Apidoc.External
