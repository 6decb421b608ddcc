import Apidoc.Failure
import Mathlib.Data.List.Forall2

/-!
# `Apidoc.Proofs.Run`: operations that may fail, step by step

Passes, file actions and builds are all operations on a state that may fail, and keep
what they changed before they failed. `exec` gives the result together with the state
that is left. `exec_bind` is the equation that takes such an operation apart, and
`exec_bind_ok` and `exec_bind_inv` are its two directions for a run that succeeds.
`bind_inv` does the same for results without a state.
-/

set_option autoImplicit false

namespace Apidoc.Proofs

variable {σ α β γ : Type}

/-- The result of an operation and the state that it leaves. -/
def exec (x : ExceptT Failure (StateM σ) α) (s : σ) : Except Failure α × σ := x.run.run s

/-- An operation goes on only after a first part that succeeds. -/
theorem exec_bind (x : ExceptT Failure (StateM σ) α) (f : α → ExceptT Failure (StateM σ) β)
    (s : σ) : exec (x >>= f) s
      = match exec x s with
        | (.ok a, s') => exec (f a) s'
        | (.error failure, s') => (.error failure, s') := by
  show (ExceptT.bindCont f (x.run.run s).1).run (x.run.run s).2 = _
  unfold exec
  split
  · rename_i hx
    rw [hx]
    rfl
  · rename_i hx
    rw [hx]
    rfl

/-- After a first part that succeeds, the rest runs on the state that is left. -/
theorem exec_bind_ok {x : ExceptT Failure (StateM σ) α} {f : α → ExceptT Failure (StateM σ) β}
    {s s' : σ} {a : α} (h : exec x s = (.ok a, s')) : exec (x >>= f) s = exec (f a) s' := by
  rw [exec_bind, h]

/-- An operation that succeeds has two parts that succeed. -/
theorem exec_bind_inv {x : ExceptT Failure (StateM σ) α} {f : α → ExceptT Failure (StateM σ) β}
    {s s'' : σ} {b : β} (h : exec (x >>= f) s = (.ok b, s'')) :
    ∃ a s', exec x s = (.ok a, s') ∧ exec (f a) s' = (.ok b, s'') := by
  rw [exec_bind] at h
  split at h
  · rename_i a s' hx
    exact ⟨a, s', hx, h⟩
  · cases h

@[simp] theorem exec_pure (a : α) (s : σ) :
    exec (pure a : ExceptT Failure (StateM σ) α) s = (.ok a, s) := rfl

/-- Reading the state. -/
theorem exec_get (s : σ) : exec (get : ExceptT Failure (StateM σ) σ) s = (.ok s, s) := rfl

/-- An operation that takes the step `step` at each element of a list, as long as `Inv` holds, which
the steps keep. -/
theorem exec_forM_of_step (Inv : σ → Prop) (step : σ → α → σ)
    {x : α → ExceptT Failure (StateM σ) Unit} (as : List α)
    (hstep : ∀ a ∈ as, ∀ s, Inv s → exec (x a) s = (.ok (), step s a) ∧ Inv (step s a)) :
    ∀ s, Inv s → exec (as.forM x) s = (.ok (), as.foldl step s) := by
  induction as with
  | nil => exact fun s _ => rfl
  | cons a rest ih =>
    intro s hs
    obtain ⟨ha, hinv⟩ := hstep a List.mem_cons_self s hs
    show exec (x a >>= fun _ => rest.forM x) s = _
    rw [exec_bind_ok ha]
    exact ih (fun b hb => hstep b (List.mem_cons_of_mem _ hb)) _ hinv

/-- Operations on the elements of a list that all succeed. Each gives the answer `answer` of its
element and brings about `Done` of it, and what the operations before it brought about stays. -/
theorem exec_mapM_inv {x : α → ExceptT Failure (StateM σ) β} (Done : β → σ → Prop) (answer : α → β)
    (hstep : ∀ a s b s', exec (x a) s = (.ok b, s') →
      b = answer a ∧ Done b s' ∧ ∀ c, Done c s → Done c s') :
    ∀ (as : List α) (s : σ) (bs : List β) (s' : σ), exec (as.mapM x) s = (.ok bs, s') →
      bs = as.map answer ∧ (∀ b ∈ bs, Done b s') ∧ ∀ c, Done c s → Done c s' := by
  intro as
  induction as with
  | nil =>
    intro s bs s' h
    rw [List.mapM_nil, exec_pure] at h
    cases h
    exact ⟨rfl, nofun, fun _ => id⟩
  | cons a rest ih =>
    intro s bs s' h
    rw [List.mapM_cons] at h
    obtain ⟨b, s₁, hfirst, h⟩ := exec_bind_inv h
    obtain ⟨cs, s₂, hrest, h⟩ := exec_bind_inv h
    rw [exec_pure] at h
    cases h
    obtain ⟨hb, hdone, hkeep⟩ := hstep a s b s₁ hfirst
    obtain ⟨hcs, hdones, hkeeps⟩ := ih s₁ cs s' hrest
    -- What the first operation brought about is kept by all the others.
    refine ⟨by rw [List.map_cons, hb, hcs], ?_, fun c hc => hkeeps c (hkeep c hc)⟩
    intro c hc
    rcases List.mem_cons.mp hc with rfl | hc
    · exact hkeeps c hdone
    · exact hdones c hc

/-- A last part runs in either case. If it succeeds, the result is that of the first part. -/
theorem exec_tryFinally {x : ExceptT Failure (StateM σ) α} {y : ExceptT Failure (StateM σ) β}
    {s s' : σ} {b : β} (h : exec y (exec x s).2 = (.ok b, s')) :
    exec (tryFinally x y) s = ((exec x s).1, s') := by
  rcases hx : exec x s with ⟨result, t⟩
  rw [hx] at h
  change x s = _ at hx
  change y t = _ at h
  cases result <;>
    simp only [exec, tryFinally, tryFinally', ExceptT.mk, ExceptT.run, ExceptT.map, StateT.run,
      StateT.bind, Functor.map, bind, hx, h] <;>
    rfl

/-! ### What an operation leaves alone -/

/-- The operation leaves `f` of the state as it is, whether or not it fails. -/
def Keeps (f : σ → γ) (x : ExceptT Failure (StateM σ) α) : Prop := ∀ s, f (exec x s).2 = f s

/-- What both parts of an operation keep is kept. -/
theorem Keeps.bind {f : σ → γ} {x : ExceptT Failure (StateM σ) α}
    {g : α → ExceptT Failure (StateM σ) β} (hx : Keeps f x) (hg : ∀ a, Keeps f (g a)) :
    Keeps f (x >>= g) := by
  intro s
  have hfirst := hx s
  rw [exec_bind]
  split
  · rename_i a s' h
    rw [h] at hfirst
    exact (hg a s').trans hfirst
  · rename_i failure s' h
    rw [h] at hfirst
    exact hfirst

/-- What holds before the operation holds after it too, whether or not it fails. -/
def Preserves (P : σ → Prop) (x : ExceptT Failure (StateM σ) α) : Prop :=
  ∀ s, P s → P (exec x s).2

/-- What both parts of an operation preserve is preserved. -/
theorem Preserves.bind {P : σ → Prop} {x : ExceptT Failure (StateM σ) α}
    {g : α → ExceptT Failure (StateM σ) β} (hx : Preserves P x) (hg : ∀ a, Preserves P (g a)) :
    Preserves P (x >>= g) := by
  intro s hs
  have hfirst := hx s hs
  rw [exec_bind]
  split
  · rename_i a s' h
    rw [h] at hfirst
    exact hg a s' hfirst
  · rename_i failure s' h
    rw [h] at hfirst
    exact hfirst

/-- What the operations on the elements of a list preserve is preserved by all of them in turn. -/
theorem Preserves.mapM {P : σ → Prop} {x : α → ExceptT Failure (StateM σ) β} {as : List α}
    (h : ∀ a ∈ as, Preserves P (x a)) : Preserves P (as.mapM x) := by
  induction as with
  | nil =>
    intro s hs
    rw [List.mapM_nil, exec_pure]
    exact hs
  | cons a rest ih =>
    rw [List.mapM_cons]
    refine Preserves.bind (h a List.mem_cons_self) fun b => ?_
    exact Preserves.bind (ih fun c hc => h c (List.mem_cons_of_mem _ hc)) fun bs s hs => hs

/-- What the operations at the elements of a list preserve is preserved by taking them in turn. -/
theorem Preserves.forM {P : σ → Prop} {x : α → ExceptT Failure (StateM σ) Unit} {as : List α}
    (h : ∀ a ∈ as, Preserves P (x a)) : Preserves P (as.forM x) := by
  induction as with
  | nil => exact fun s hs => hs
  | cons a rest ih =>
    exact Preserves.bind (h a List.mem_cons_self) fun _ =>
      ih fun b hb => h b (List.mem_cons_of_mem _ hb)

/-- The states that steps in turn pass through: the first one, and the one after each step that is
taken. A step that fails is the last one. -/
def trail : List (ExceptT Failure (StateM σ) Unit) → σ → List σ
  | [], s => [s]
  | x :: rest, s => s :: match exec x s with
      | (.ok (), s') => trail rest s'
      | (.error _, s') => [s']

/-- What all steps keep is the same all along. -/
theorem eq_of_mem_trail {f : σ → γ} {xs : List (ExceptT Failure (StateM σ) Unit)}
    (h : ∀ x ∈ xs, Keeps f x) {s : σ} : ∀ t ∈ trail xs s, f t = f s := by
  induction xs generalizing s with
  | nil => exact fun t ht => congrArg f (List.mem_singleton.mp ht)
  | cons x rest ih =>
    have hfirst := h x List.mem_cons_self s
    intro t ht
    rcases List.mem_cons.mp ht with rfl | ht
    · rfl
    split at ht
    · rename_i s' hx
      rw [hx] at hfirst
      exact (ih (fun y hy => h y (List.mem_cons_of_mem _ hy)) t ht).trans hfirst
    · rename_i failure s' hx
      rw [hx] at hfirst
      rw [List.mem_singleton.mp ht]
      exact hfirst

/-- Steps in turn leave the last state that they pass through. -/
theorem getLast?_trail (xs : List (ExceptT Failure (StateM σ) Unit)) (s : σ) :
    (trail xs s).getLast? = some (exec (xs.forM id) s).2 := by
  induction xs generalizing s with
  | nil => rfl
  | cons x rest ih =>
    have hrun : exec ((x :: rest).forM id) s = exec (x >>= fun _ => rest.forM id) s := rfl
    rw [hrun, exec_bind, trail]
    rcases exec x s with ⟨failure | _, s'⟩
    · rfl
    · simp only [List.getLast?_cons, ih, Option.getD_some]

/-- What all steps keep is kept by a run of them. -/
theorem keeps_forM {f : σ → γ} {xs : List (ExceptT Failure (StateM σ) Unit)}
    (h : ∀ x ∈ xs, Keeps f x) : Keeps f (xs.forM id) := fun s =>
  eq_of_mem_trail h _ (List.mem_of_getLast? (getLast?_trail xs s))

/-! ### Results without a state -/

/-- A result that is there has two parts that are there. -/
theorem bind_inv {ε : Type} {x : Except ε α} {f : α → Except ε β} {b : β}
    (h : (x >>= f) = .ok b) : ∃ a, x = .ok a ∧ f a = .ok b := by
  cases x with
  | error failure => cases h
  | ok a => exact ⟨a, rfl, h⟩

/-- If both parts give a result, so does the whole. -/
theorem bind_ok {x : Except Failure α} {f : α → Except Failure β} (hx : ∃ a, x = .ok a)
    (hf : ∀ a, ∃ b, f a = .ok b) : ∃ b, (x >>= f) = .ok b := by
  obtain ⟨a, rfl⟩ := hx
  exact hf a

/-- If both branches give a result, so does a choice between them. -/
theorem ite_ok {p : Prop} [Decidable p] {x y : Except Failure α} (hx : ∃ a, x = .ok a)
    (hy : ∃ a, y = .ok a) : ∃ a, (if p then x else y) = .ok a := by
  split
  · exact hx
  · exact hy

/-- If there is a result for each element of a list, there is one for the list. -/
theorem mapM_ok {f : α → Except Failure β} {as : List α} (h : ∀ a ∈ as, ∃ b, f a = .ok b) :
    ∃ bs, as.mapM f = .ok bs := by
  induction as with
  | nil => exact ⟨[], rfl⟩
  | cons a rest ih =>
    rw [List.mapM_cons]
    exact bind_ok (h a List.mem_cons_self) fun b =>
      bind_ok (ih fun a ha => h a (List.mem_cons_of_mem _ ha)) fun bs => ⟨b :: bs, rfl⟩

/-- Operations that are the same at each element of a list are the same on the list. -/
theorem mapM_congr {m : Type → Type} [Monad m] [LawfulMonad m] {f g : α → m β} {as : List α}
    (h : ∀ a ∈ as, f a = g a) : as.mapM f = as.mapM g := by
  induction as with
  | nil => rfl
  | cons a rest ih =>
    rw [List.mapM_cons, List.mapM_cons, h a List.mem_cons_self,
      ih fun b hb => h b (List.mem_cons_of_mem _ hb)]

/-- Steps that are the same at each element of a list are the same on the list. -/
theorem forM_congr {m : Type → Type} [Monad m] {f g : α → m PUnit} {as : List α}
    (h : ∀ a ∈ as, f a = g a) : as.forM f = as.forM g := by
  induction as with
  | nil => rfl
  | cons a rest ih =>
    show (f a >>= fun _ => rest.forM f) = (g a >>= fun _ => rest.forM g)
    rw [h a List.mem_cons_self, ih fun b hb => h b (List.mem_cons_of_mem _ hb)]

/-- Questions that have the same answer at each element of a list keep the same elements. -/
theorem filterM_congr {ε : Type} {f g : α → Except ε Bool} {as : List α}
    (h : ∀ a ∈ as, f a = g a) : as.filterM f = as.filterM g := by
  -- The elements that are kept so far are an argument of the recursion.
  have hkept : ∀ kept, List.filterAuxM f as kept = List.filterAuxM g as kept := by
    induction as with
    | nil => exact fun kept => rfl
    | cons a rest ih =>
      intro kept
      rw [List.filterAuxM, List.filterAuxM, h a List.mem_cons_self]
      exact congrArg _ (funext fun answer => ih (fun b hb => h b (List.mem_cons_of_mem _ hb)) _)
  rw [List.filterM, List.filterM, hkept]

/-- What a question keeps of a list is in the list. -/
theorem mem_of_mem_filterM {ε : Type} {f : α → Except ε Bool} {as bs : List α}
    (h : as.filterM f = .ok bs) : ∀ b ∈ bs, b ∈ as := by
  have hkept : ∀ kept cs, List.filterAuxM f as kept = .ok cs → ∀ c ∈ cs, c ∈ as ∨ c ∈ kept := by
    clear h
    induction as with
    | nil =>
      intro kept cs hcs c hc
      cases hcs
      exact Or.inr hc
    | cons a rest ih =>
      intro kept cs hcs c hc
      rw [List.filterAuxM] at hcs
      obtain ⟨answer, -, hcs⟩ := bind_inv hcs
      rcases ih _ cs hcs c hc with hrest | hfirst
      · exact Or.inl (List.mem_cons_of_mem _ hrest)
      · cases answer with
        | false => exact Or.inr hfirst
        | true =>
          rcases List.mem_cons.mp hfirst with rfl | hfirst
          · exact Or.inl List.mem_cons_self
          · exact Or.inr hfirst
  intro b hb
  rw [List.filterM] at h
  obtain ⟨cs, hcs, h⟩ := bind_inv h
  cases h
  exact (hkept [] cs hcs b (List.mem_reverse.mp hb)).resolve_right List.not_mem_nil

/-- Results for all elements of a list are one for each of them, in their order. -/
theorem mapM_inv {ε : Type} {f : α → Except ε β} {as : List α} {bs : List β}
    (h : as.mapM f = .ok bs) : List.Forall₂ (fun a b => f a = .ok b) as bs := by
  induction as generalizing bs with
  | nil =>
    cases h
    exact .nil
  | cons a rest ih =>
    rw [List.mapM_cons] at h
    obtain ⟨b, hb, h⟩ := bind_inv h
    obtain ⟨cs, hcs, h⟩ := bind_inv h
    cases h
    exact .cons hb (ih hcs)

/-- An element of a list has its partner between the partners of the others. -/
theorem forall₂_split {R : α → β → Prop} {as : List α} {bs : List β} (h : List.Forall₂ R as bs)
    {a : α} (ha : a ∈ as) : ∃ before b after, bs = before ++ b :: after ∧ R a b := by
  induction h with
  | nil => exact absurd ha List.not_mem_nil
  | @cons first b rest bs hfirst _ ih =>
    rcases List.mem_cons.mp ha with rfl | ha
    · exact ⟨[], b, bs, rfl, hfirst⟩
    · obtain ⟨before, partner, after, hbs, hpartner⟩ := ih ha
      exact ⟨b :: before, partner, after, by rw [hbs, List.cons_append], hpartner⟩

/-- Results for all elements of a list are the same if they are at each element. -/
theorem eq_of_mapM {ε : Type} {f g : α → Except ε β} {as : List α} {bs cs : List β}
    (h : ∀ a ∈ as, ∀ b c, f a = .ok b → g a = .ok c → c = b) (hf : as.mapM f = .ok bs)
    (hg : as.mapM g = .ok cs) : cs = bs := by
  induction as generalizing bs cs with
  | nil =>
    cases hf
    cases hg
    rfl
  | cons a rest ih =>
    rw [List.mapM_cons] at hf hg
    obtain ⟨b, hb, hf⟩ := bind_inv hf
    obtain ⟨c, hc, hg⟩ := bind_inv hg
    obtain ⟨bs', hbs, hf⟩ := bind_inv hf
    obtain ⟨cs', hcs, hg⟩ := bind_inv hg
    cases hf
    cases hg
    rw [h a List.mem_cons_self b c hb hc,
      ih (fun x hx => h x (List.mem_cons_of_mem _ hx)) hbs hcs]

/-- Each of the results for the elements of a list is that of some element. -/
theorem exists_of_mem_mapM {ε : Type} {f : α → Except ε β} {as : List α} {bs : List β}
    (h : as.mapM f = .ok bs) {b : β} (hb : b ∈ bs) : ∃ a ∈ as, f a = .ok b := by
  obtain ⟨before, a, after, has, ha⟩ := forall₂_split (mapM_inv h).flip hb
  refine ⟨a, ?_, ha⟩
  rw [has]
  exact List.mem_append_right _ List.mem_cons_self

end Apidoc.Proofs
