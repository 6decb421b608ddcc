import Apidoc.Comment.Inline
import Mathlib.Data.List.Infix

/-!
# `Apidoc.Proofs.Comment.Brace`: the brace that closes an open one

The braces of a text are counted by their balance. What stands between an open brace and the one
that closes it is balanced: no brace is closed too early, and none is left open
(`closeBrace_eq_some_iff`). So the brace that closes an open one depends on the text between
the two and on nothing behind it.
-/

set_option autoImplicit false

namespace Apidoc.Comment

/-- One more for a brace that opens, and one less for a brace that closes. -/
def braceStep (c : Char) : Int := if c = '\x7b' then 1 else if c = '\x7d' then -1 else 0

/-- The number of braces that a text opens, less those that it closes. -/
def balance (cs : List Char) : Int := cs.count '\x7b' - cs.count '\x7d'

theorem braceStep_open : braceStep '\x7b' = 1 := rfl

theorem braceStep_close : braceStep '\x7d' = -1 := rfl

theorem braceStep_of_ne {c : Char} (hopen : c ≠ '\x7b') (hclose : c ≠ '\x7d') :
    braceStep c = 0 := by
  rw [braceStep, if_neg hopen, if_neg hclose]

@[simp] theorem balance_nil : balance [] = 0 := rfl

@[simp] theorem balance_cons (c : Char) (cs : List Char) :
    balance (c :: cs) = braceStep c + balance cs := by
  rw [balance, balance, List.count_cons, List.count_cons]
  by_cases hopen : c = '\x7b'
  · subst hopen
    simp [braceStep]
    omega
  · by_cases hclose : c = '\x7d'
    · subst hclose
      simp [braceStep]
      omega
    · simp [braceStep, hopen, hclose]

@[simp] theorem balance_append (front back : List Char) :
    balance (front ++ back) = balance front + balance back := by
  rw [balance, balance, balance, List.count_append, List.count_append]
  omega

namespace Inline

/-- A text inside of `depth` open braces that closes these and its own, and at no place one more. -/
def Inside (depth : Nat) (cs : List Char) : Prop :=
  balance cs = -depth ∧ ∀ front ∈ cs.inits, -(depth : Int) ≤ balance front

/-- Every brace of the text has its partner in the text. -/
def IsBalanced (cs : List Char) : Prop := Inside 0 cs

instance (depth : Nat) (cs : List Char) : Decidable (Inside depth cs) :=
  inferInstanceAs (Decidable (_ ∧ _))

instance (cs : List Char) : Decidable (IsBalanced cs) := inferInstanceAs (Decidable (Inside 0 cs))

variable {depth : Nat} {cs body after : List Char}

theorem inside_nil_iff : Inside depth [] ↔ depth = 0 := by
  constructor
  · rintro ⟨hbalance, -⟩
    rw [balance_nil] at hbalance
    omega
  · rintro rfl
    decide

/-- The first character opens or closes a brace for the rest. It cannot close one if none is open. -/
theorem inside_cons_iff {c : Char} :
    Inside depth (c :: cs) ↔ ∃ inner : Nat, (inner : Int) = depth + braceStep c ∧ Inside inner cs := by
  constructor
  · rintro ⟨hbalance, hfronts⟩
    have hfirst := hfronts [c] (by simp [List.mem_inits])
    rw [balance_cons, balance_nil] at hfirst
    obtain ⟨inner, hinner⟩ := Int.eq_ofNat_of_zero_le (by omega : 0 ≤ (depth : Int) + braceStep c)
    refine ⟨inner, hinner.symm, ?_, fun front hfront => ?_⟩
    · rw [balance_cons] at hbalance
      omega
    · have hmore := hfronts (c :: front)
        ((List.mem_inits _ _).mpr
        ((List.prefix_cons_inj c).mpr ((List.mem_inits _ _).mp hfront)))
      rw [balance_cons] at hmore
      omega
  · rintro ⟨inner, hinner, hbalance, hfronts⟩
    refine ⟨by rw [balance_cons]; omega, fun front hfront => ?_⟩
    cases front with
    | nil =>
      rw [balance_nil]
      omega
    | cons d front =>
      obtain ⟨rfl, hprefix⟩ := List.cons_prefix_cons.mp ((List.mem_inits _ _).mp hfront)
      have hmore := hfronts front ((List.mem_inits _ _).mpr hprefix)
      rw [balance_cons]
      omega

/-- Texts one after the other close the braces of both. -/
theorem Inside.append {inner : Nat} {more : List Char} (hcs : Inside depth cs)
    (hmore : Inside inner more) : Inside (depth + inner) (cs ++ more) := by
  induction cs generalizing depth with
  | nil =>
    rw [inside_nil_iff.mp hcs, Nat.zero_add]
    exact hmore
  | cons c rest ih =>
    obtain ⟨n, hn, hrest⟩ := inside_cons_iff.mp hcs
    exact inside_cons_iff.mpr ⟨n + inner, by omega, ih hrest⟩

/-- A text without braces is balanced. -/
theorem isBalanced_of_not_brace (h : ∀ c ∈ cs, c ≠ '\x7b' ∧ c ≠ '\x7d') : IsBalanced cs := by
  induction cs with
  | nil => exact inside_nil_iff.mpr rfl
  | cons c rest ih =>
    obtain ⟨hopen, hclose⟩ := h c List.mem_cons_self
    refine inside_cons_iff.mpr ⟨0, ?_, ih fun d hd => h d (List.mem_cons_of_mem c hd)⟩
    rw [braceStep_of_ne hopen hclose]
    rfl

/-- A character that does not close the last open brace is passed, and the search goes on with as many
open braces as there are behind it. -/
theorem closeBrace_cons {inner : Nat} {c : Char} (h : (inner : Int) = depth + braceStep c) :
    closeBrace depth (c :: cs) =
      (closeBrace inner cs).map fun (body, after) => (c :: body, after) := by
  rw [closeBrace.eq_def]
  dsimp only
  by_cases hopen : c = '\x7b'
  · subst hopen
    rw [braceStep_open] at h
    obtain rfl : inner = depth + 1 := by omega
    rw [if_pos rfl]
  rw [if_neg hopen]
  by_cases hclose : c = '\x7d'
  · subst hclose
    rw [braceStep_close] at h
    obtain rfl : depth = inner + 1 := by omega
    rw [if_pos rfl]
  · rw [braceStep_of_ne hopen hclose] at h
    obtain rfl : inner = depth := by omega
    rw [if_neg hclose]

/-- A character closes the last open brace, or leaves some number of braces open. -/
theorem closes_or_step (depth : Nat) (c : Char) :
    (depth = 0 ∧ c = '\x7d') ∨ ∃ inner : Nat, (inner : Int) = depth + braceStep c := by
  by_cases hlast : depth = 0 ∧ c = '\x7d'
  · exact .inl hlast
  · refine .inr (Int.eq_ofNat_of_zero_le ?_ |>.imp fun _ => Eq.symm)
    unfold braceStep
    split
    · omega
    split
    · rename_i hclose
      have hopen : depth ≠ 0 := fun hzero => hlast ⟨hzero, hclose⟩
      omega
    · omega

/-- The brace that closes an open one is the first one in front of which the text is balanced. -/
theorem closeBrace_eq_some_iff : closeBrace depth cs = some (body, after) ↔
    cs = body ++ '\x7d' :: after ∧ Inside depth body := by
  constructor
  · intro h
    induction cs generalizing depth body with
    | nil => cases h
    | cons c rest ih =>
      rcases closes_or_step depth c with ⟨rfl, rfl⟩ | ⟨inner, hinner⟩
      · cases h
        exact ⟨rfl, inside_nil_iff.mpr rfl⟩
      · rw [closeBrace_cons hinner] at h
        obtain ⟨⟨more, back⟩, hmore, heq⟩ := Option.map_eq_some_iff.mp h
        cases heq
        obtain ⟨rfl, hinside⟩ := ih hmore
        exact ⟨rfl, inside_cons_iff.mpr ⟨inner, hinner, hinside⟩⟩
  · rintro ⟨rfl, hinside⟩
    induction body generalizing depth with
    | nil =>
      rw [inside_nil_iff.mp hinside]
      rfl
    | cons c rest ih =>
      obtain ⟨inner, hinner, hrest⟩ := inside_cons_iff.mp hinside
      rw [List.cons_append, closeBrace_cons hinner, ih hrest]
      rfl

/-- Nothing closes an open brace: there is no brace in front of which the text is balanced. -/
theorem closeBrace_eq_none_iff : closeBrace depth cs = none ↔
    ∀ body after, cs = body ++ '\x7d' :: after → ¬ Inside depth body := by
  rw [Option.eq_none_iff_forall_ne_some]
  constructor
  · intro h body after hcs hinside
    exact h (body, after) (closeBrace_eq_some_iff.mpr ⟨hcs, hinside⟩)
  · rintro h ⟨body, after⟩ hclose
    obtain ⟨hcs, hinside⟩ := closeBrace_eq_some_iff.mp hclose
    exact h body after hcs hinside

end Inline

end Apidoc.Comment
