import Apidoc.Proofs.Model.Ancestors
import Apidoc.Proofs.Model.QualifiedName
import Apidoc.Proofs.Model.Span

/-!
# `Apidoc.Proofs.Model.Superclass`: the classes above a type, nearest first

The search for ancestors goes through classes and interfaces at once, with one set of names
that were met. What it lists as classes is the chain of superclasses all the same
(`ancestors_eq_superclasses`), for two reasons:

* The superclass comes first among the supertypes of a type. So the search has gone up the
  whole chain before it comes to an interface (`Walk.meetsChain_of_cons`).
* There are only interfaces above an interface (`Walk.classes_eq`).

`superclassAt` is the chain without any search. It may go round in a circle. Where the
search leaves it is said by `IsCut`.
-/

set_option autoImplicit false

namespace Apidoc.Model

variable {index : Index} {own : String}

/-! ### The chain of superclasses -/

/-- The superclass that enums and records have by the language. -/
def impliedSuperclass : ElementKind → Option String
  | .type .enumType => some "java.lang.Enum"
  | .type .recordType => some "java.lang.Record"
  | _ => none

/-- The superclass that a type declares, or else has by the language. -/
def declaredSuperclass (index : Index) (scope : Scope) : Option String :=
  match scope.declaration.superclass with
  | some name =>
    if name = "" then impliedSuperclass scope.declaration.kind
    else some (index.qualify name (some scope))
  | none => impliedSuperclass scope.declaration.kind

/-- The superclass of an indexed type. Nothing is known above any other name. -/
def superclassOf (index : Index) (name : String) : Option String :=
  (index.get? name).bind fun l => declaredSuperclass index l.scope

/-- The name that so many steps to a superclass lead to. -/
def superclassAt (index : Index) (own : String) : Nat → Option String
  | 0 => some own
  | steps + 1 => (superclassAt index own steps).bind (superclassOf index)

/-- The chain is cut in front of the root of all types, and in front of a name that it has had. -/
def IsCut (index : Index) (own : String) (steps : Nat) : Prop :=
  superclassAt index own steps = some rootType ∨
    ∃ earlier < steps, superclassAt index own earlier = superclassAt index own steps

instance (index : Index) (own : String) (steps : Nat) : Decidable (IsCut index own steps) :=
  inferInstanceAs (Decidable (_ ∨ _))

/-- Above a name without a superclass there is nothing. -/
theorem superclassAt_eq_none {steps : Nat} (h : superclassAt index own steps = none) (more : Nat) :
    superclassAt index own (steps + more) = none := by
  induction more with
  | zero => exact h
  | succ more ih =>
    show (superclassAt index own (steps + more)).bind _ = none
    rw [ih, Option.bind_none]

/-- The supertypes are the superclass, if there is one, and then the interfaces. -/
theorem directSupertypes_eq (index : Index) (scope : Scope) :
    directSupertypes index scope = (declaredSuperclass index scope).toList.map (⟨·, false⟩) ++
      scope.declaration.interfaces.map fun name => ⟨index.qualify name (some scope), true⟩ := by
  unfold directSupertypes declaredSuperclass
  dsimp only
  congr 1
  have himplied : (match scope.declaration.kind with
      | .type .enumType => [⟨"java.lang.Enum", false⟩]
      | .type .recordType => [⟨"java.lang.Record", false⟩]
      | _ => ([] : List Supertype))
      = (impliedSuperclass scope.declaration.kind).toList.map (⟨·, false⟩) := by
    unfold impliedSuperclass
    split <;> rfl
  cases scope.declaration.superclass with
  | none => exact himplied
  | some name =>
    by_cases hname : name = ""
    · simp only [if_pos hname]
      exact himplied
    · simp only [if_neg hname]
      rfl

/-- The names are the chain behind so many steps, up to where it is cut. -/
def IsChain (index : Index) (own : String) (steps : Nat) (names : List String) : Prop :=
  ∀ i name, names[i]? = some name ↔ superclassAt index own (steps + i + 1) = some name ∧
    ∀ j ≤ i, ¬ IsCut index own (steps + j + 1)

/-- Where there is no superclass, the chain ends. -/
theorem isChain_nil_of_none {steps : Nat} (h : superclassAt index own (steps + 1) = none) :
    IsChain index own steps [] := by
  intro i name
  refine iff_of_false nofun fun hname => ?_
  have hnone := superclassAt_eq_none h i
  rw [Nat.add_right_comm, hname.1] at hnone
  cases hnone

/-- Where the chain is cut, it ends. -/
theorem isChain_nil_of_isCut {steps : Nat} (h : IsCut index own (steps + 1)) :
    IsChain index own steps [] :=
  fun i _ => iff_of_false nofun fun hname => hname.2 0 (Nat.zero_le i) h

/-- Where it is not cut, the chain goes on. -/
theorem IsChain.cons {steps : Nat} {name : String} {names : List String}
    (h : IsChain index own (steps + 1) names)
    (hname : superclassAt index own (steps + 1) = some name)
    (hcut : ¬ IsCut index own (steps + 1)) : IsChain index own steps (name :: names) := by
  intro i other
  cases i with
  | zero =>
    rw [List.getElem?_cons_zero, Nat.add_zero, hname]
    refine ⟨fun hsame => ⟨hsame, fun j hj => ?_⟩, And.left⟩
    rw [Nat.le_zero.mp hj]
    exact hcut
  | succ i =>
    -- The chain from the next step on is cut where this one is, one step later.
    rw [List.getElem?_cons_succ, h i other, Nat.add_right_comm steps 1 i, ← Nat.add_assoc]
    refine and_congr_right fun _ => ⟨fun hcuts j hj => ?_, fun hcuts j hj => ?_⟩
    · cases j with
      | zero => exact hcut
      | succ j =>
        have hj' := hcuts j (Nat.le_of_succ_le_succ hj)
        rwa [Nat.add_right_comm steps 1 j] at hj'
    · have hj' := hcuts (j + 1) (Nat.succ_le_succ hj)
      rwa [Nat.add_right_comm steps 1 j]

namespace Ancestry

/-! ### The search -/

/-- On the way up from a type, a superclass is no interface if it is indexed, and what stands among
interfaces is one. -/
def KindsAgree (index : Index) (own : String) : Prop :=
  ∀ name l, Relation.ReflTransGen (DirectlyAbove index) own name → index.get? name = some l →
    ∀ s ∈ directSupertypes index l.scope, s.name ≠ rootType →
      ∀ m, index.get? s.name = some m → m.declaration.kind.isInterface = s.asInterface

/-- A supertype is what it is named as, if it is indexed, and so is all above it. -/
def Fits (index : Index) (s : Supertype) : Prop :=
  s.name ≠ rootType →
    (∀ m, index.get? s.name = some m → m.declaration.kind.isInterface = s.asInterface) ∧
      KindsAgree index s.name

/-- The supertypes of an indexed type are what they are named as, if that holds on the way up from
it. -/
theorem KindsAgree.fits {l : Located} (h : KindsAgree index own) (held : index.get? own = some l) :
    ∀ s ∈ directSupertypes index l.scope, Fits index s := fun s hs hroot =>
  ⟨h own l .refl held s hs hroot, fun name m hreach =>
    h name m (.head ⟨l, held, ⟨s, hs, rfl⟩, hroot⟩ hreach)⟩

/-- What is declared among interfaces stands there. -/
theorem asInterface_of_mem {scope : Scope} {s : Supertype}
    (hs : s ∈ scope.declaration.interfaces.map fun name =>
      (⟨index.qualify name (some scope), true⟩ : Supertype)) : s.asInterface = true := by
  obtain ⟨written, -, rfl⟩ := List.mem_map.mp hs
  rfl

/-- What has been met is what lies on the chain, up to so many steps. -/
def HasMet (index : Index) (own : String) (steps : Nat) (a : Ancestry) : Prop :=
  ∀ name, name ∈ a.visited ↔ ∃ k ≤ steps, superclassAt index own k = some name

/-- The chain is cut where the search passes the superclass over. -/
theorem HasMet.isCut_iff {steps : Nat} {name : String} {a : Ancestry}
    (h : HasMet index own steps a) (hname : superclassAt index own (steps + 1) = some name)
    (asInterface : Bool) : IsCut index own (steps + 1) ↔ a.Passes ⟨name, asInterface⟩ := by
  rw [IsCut, hname, Passes, h]
  simp only [Option.some.injEq, Nat.lt_succ_iff]

/-- Meeting the superclass is a step on the chain. -/
theorem HasMet.meet {steps : Nat} {name : String} {a : Ancestry} (h : HasMet index own steps a)
    (hname : superclassAt index own (steps + 1) = some name) (isInterface : Bool) :
    HasMet index own (steps + 1) (a.meet name isInterface) := by
  intro other
  rw [visited_meet, List.mem_append, h, List.mem_singleton]
  constructor
  · rintro (⟨k, hk, hother⟩ | rfl)
    · exact ⟨k, Nat.le_succ_of_le hk, hother⟩
    · exact ⟨steps + 1, Nat.le_refl _, hname⟩
  · rintro ⟨k, hk, hother⟩
    rcases Nat.le_succ_iff.mp hk with hk | rfl
    · exact .inl ⟨k, hk, hother⟩
    · exact .inr (Option.some.inj (hother.symm.trans hname))

section
variable (hplain : ∀ t ∈ index.types, t.declaration.kind.isInterface = true →
  t.declaration.superclass = none)
include hplain

/-- An indexed interface has only interfaces for supertypes. -/
theorem asInterface_of_isInterface {name : String} {l : Located} (hget : index.get? name = some l)
    (hinterface : l.declaration.kind.isInterface = true) :
    ∀ s ∈ directSupertypes index l.scope, s.asInterface = true := by
  have himplied : impliedSuperclass l.declaration.kind = none := by
    unfold impliedSuperclass
    split <;> simp_all [ElementKind.isInterface]
  have hnone : declaredSuperclass index l.scope = none := by
    unfold declaredSuperclass
    rw [show l.scope.declaration = l.declaration from rfl,
      hplain l (Index.mem_types_of_get? hget) hinterface]
    exact himplied
  intro s hs
  rw [directSupertypes_eq, hnone] at hs
  exact asInterface_of_mem hs

/-- Above interfaces no class is met. -/
theorem Walk.classes_eq {pending : List Supertype} {a b : Ancestry} (h : Walk index pending a b)
    (hinterface : ∀ s ∈ pending, s.asInterface = true) (hfits : ∀ s ∈ pending, Fits index s) :
    b.classes = a.classes := by
  induction h with
  | done => rfl
  | pass _ _ ih =>
    exact ih (List.forall_mem_of_forall_mem_cons hinterface)
      (List.forall_mem_of_forall_mem_cons hfits)
  | @outside s rest a b _ _ _ ih =>
    rw [List.forall_mem_cons] at hinterface hfits
    rw [ih hinterface.2 hfits.2, hinterface.1]
    rfl
  | @inside s rest a b c l hnew hget _ _ ihabove ihrest =>
    rw [List.forall_mem_cons] at hinterface hfits
    obtain ⟨hkind, habove⟩ := hfits.1 fun hroot => hnew (.inl hroot)
    have hl : l.declaration.kind.isInterface = true := (hkind l hget).trans hinterface.1
    rw [ihrest hinterface.2 hfits.2,
      ihabove (asInterface_of_isInterface hplain hget hl) (habove.fits hget), hl]
    rfl

/-- A search meets the chain of superclasses from a step on, and among the classes nothing else. -/
def MeetsChain (index : Index) (own : String) (steps : Nat) (a b : Ancestry) : Prop :=
  ∃ names, IsChain index own steps names ∧ b.classes = a.classes ++ names

/-- The search above a type meets the chain if it does so whenever there is a superclass, as there
are only interfaces otherwise. -/
theorem Walk.meetsChain_of_superclass {scope : Scope} {steps : Nat} {a b : Ancestry}
    (h : Walk index (directSupertypes index scope) a b)
    (hat : superclassAt index own (steps + 1) = declaredSuperclass index scope)
    (hfits : ∀ s ∈ directSupertypes index scope, Fits index s)
    (hsuperclass : ∀ name rest, directSupertypes index scope = ⟨name, false⟩ :: rest →
      superclassAt index own (steps + 1) = some name → (∀ s ∈ rest, s.asInterface = true) →
      MeetsChain index own steps a b) :
    MeetsChain index own steps a b := by
  have hdirect := directSupertypes_eq index scope
  cases hnext : declaredSuperclass index scope with
  | none =>
    rw [hnext] at hat hdirect
    refine ⟨[], isChain_nil_of_none hat, ?_⟩
    rw [h.classes_eq hplain (fun s hs => asInterface_of_mem (hdirect ▸ hs)) hfits, List.append_nil]
  | some name =>
    rw [hnext] at hat hdirect
    exact hsuperclass name _ hdirect hat fun s hs => asInterface_of_mem hs

/-- A search that begins with the superclass meets the chain from there. -/
theorem Walk.meetsChain_of_cons {pending : List Supertype} {a b : Ancestry}
    (h : Walk index pending a b) {steps : Nat} {name : String} {rest : List Supertype}
    (hpending : pending = ⟨name, false⟩ :: rest)
    (hname : superclassAt index own (steps + 1) = some name)
    (hrest : ∀ s ∈ rest, s.asInterface = true) (hfits : ∀ s ∈ pending, Fits index s)
    (hmet : HasMet index own steps a) : MeetsChain index own steps a b := by
  have hnext : superclassAt index own (steps + 2) = superclassOf index name := by
    rw [superclassAt, hname, Option.bind_some]
  induction h generalizing steps name rest with
  | done => cases hpending
  | pass hpass hwalk =>
    -- The superclass is passed over where the chain is cut.
    cases hpending
    rw [List.forall_mem_cons] at hfits
    refine ⟨[], isChain_nil_of_isCut ((hmet.isCut_iff hname _).mpr hpass), ?_⟩
    rw [hwalk.classes_eq hplain hrest hfits.2, List.append_nil]
  | outside hnew hget hwalk =>
    cases hpending
    rw [List.forall_mem_cons] at hfits
    -- Nothing is known of the superclass, so that it is the last one.
    rw [superclassOf, hget, Option.bind_none] at hnext
    refine ⟨[name], (isChain_nil_of_none hnext).cons hname
      fun hcut => hnew ((hmet.isCut_iff hname _).mp hcut), ?_⟩
    rw [hwalk.classes_eq hplain hrest hfits.2]
    rfl
  | @inside s rest' a b c l hnew hget habove hwalk ihabove =>
    cases hpending
    rw [List.forall_mem_cons] at hfits
    obtain ⟨hkind, hagree⟩ := hfits.1 fun hroot => hnew (.inl hroot)
    rw [superclassOf, hget, Option.bind_some] at hnext
    -- The chain goes on in the search above the superclass, and the rest are interfaces.
    obtain ⟨names, hchain, hclasses⟩ := habove.meetsChain_of_superclass hplain hnext
      (hagree.fits hget) fun next rest hdirect hat hinterfaces =>
        ihabove hdirect hat hinterfaces (hagree.fits hget) (hmet.meet hname _)
          (by rw [superclassAt, hat, Option.bind_some])
    refine ⟨name :: names, hchain.cons hname
      fun hcut => hnew ((hmet.isCut_iff hname _).mp hcut), ?_⟩
    rw [hwalk.classes_eq hplain hrest hfits.2, hclasses, hkind l hget]
    exact List.append_assoc _ [name] names

/-- The search above an indexed type meets the chain of its superclasses. -/
theorem isChain_found {l : Located} (held : index.get? l.declaration.qualifiedName = some l)
    (hkinds : KindsAgree index l.declaration.qualifiedName) :
    IsChain index l.declaration.qualifiedName 0 (found index l.scope).classes := by
  have hwalk := walk_found index l.scope
  have hat : superclassAt index l.declaration.qualifiedName 1
      = declaredSuperclass index l.scope := by
    show superclassOf index l.declaration.qualifiedName = _
    rw [superclassOf, held, Option.bind_some]
  have hmet : HasMet index l.declaration.qualifiedName 0 (start l.declaration.qualifiedName) := by
    intro name
    simp [start, superclassAt, eq_comm]
  obtain ⟨names, hchain, hclasses⟩ := hwalk.meetsChain_of_superclass hplain hat (hkinds.fits held)
    fun name rest hdirect hname hrest =>
      hwalk.meetsChain_of_cons hplain hdirect hname hrest (hkinds.fits held) hmet
  rw [hclasses]
  exact hchain

end

end Ancestry

open Apidoc.Model.Ancestry
open Apidoc.Model.QualifiedName (lastSegment)

/-! ### The ancestors -/

/-- Every type of the index was read from a source. -/
def Index.IsRead (index : Index) : Prop :=
  ∀ t ∈ index.types, ∃ path content, t ∈ (CompilationUnit.read path content).flatten

/-- An index that is filled from units holds types that were read from them. -/
theorem Index.isRead_addAll {ls : List Located}
    (h : ∀ l ∈ ls, ∃ path content, l ∈ (CompilationUnit.read path content).located) :
    (empty.addAll ls).IsRead := by
  intro t ht
  rw [addAll_eq_foldl_insert] at ht
  obtain ⟨l, hl, ht⟩ :=
    List.mem_flatMap.mp ((mem_types_foldl_insert ht).resolve_left List.not_mem_nil)
  rw [typesOf] at ht
  split at ht
  · obtain ⟨path, content, hl⟩ := h l hl
    exact ⟨path, content, CompilationUnit.mem_flatten_of_located hl (List.mem_filter.mp ht).1⟩
  · cases ht

/-- The classes above an indexed type are its superclass, the superclass of that one, and so on, up
to where the chain is cut. The interfaces are sorted by their last segments, and those with the same
last segment stand in the order in which a search from depth to depth meets them. -/
theorem ancestors_eq_superclasses {index : Index} (hread : index.IsRead) {l : Located}
    (held : index.get? l.declaration.qualifiedName = some l)
    (hkinds : KindsAgree index l.declaration.qualifiedName) :
    (∀ i name, (ancestors index l.scope).1[i]? = some name ↔
      superclassAt index l.declaration.qualifiedName (i + 1) = some name ∧
        ∀ j ≤ i, ¬ IsCut index l.declaration.qualifiedName (j + 1)) ∧
    ∃ met, Walk index (directSupertypes index l.scope) (start l.declaration.qualifiedName) met ∧
      (ancestors index l.scope).2.Pairwise (fun x y => lastSegment x ≤ lastSegment y) ∧
      ∀ segment, (ancestors index l.scope).2.filter (lastSegment · = segment)
        = met.interfaces.filter (lastSegment · = segment) := by
  have hplain : ∀ t ∈ index.types, t.declaration.kind.isInterface = true →
      t.declaration.superclass = none := by
    intro t ht
    obtain ⟨path, content, hmem⟩ := hread t ht
    exact (CompilationUnit.stands_of_mem_flatten hmem).superclass
  have hinterfaces : (ancestors index l.scope).2
      = Proofs.sortBy lastSegment (found index l.scope).interfaces := by
    rw [ancestors_eq_found]
    exact congrArg (fun key => Proofs.sortBy key (found index l.scope).interfaces)
      (funext QualifiedName.lastSegment_simple)
  refine ⟨fun i name => ?_, found index l.scope, walk_found index l.scope, ?_, fun segment => ?_⟩
  · have hchain := isChain_found hplain held hkinds i name
    simp only [Nat.zero_add] at hchain
    exact hchain
  · rw [hinterfaces]
    exact Proofs.pairwise_sortBy _ _
  · rw [hinterfaces]
    exact Proofs.filter_sortBy _ _ _

/-- Two classes that extend each other, and interfaces with the same last segment. -/
def kennel : Index :=
  Index.empty.addAll (CompilationUnit.read (Files.Path.ofString "Dog.java") (Text.encode
    "class Dog extends Animal implements Pet {}
    class Animal extends Dog implements b.Runs {}
    interface Pet extends a.Runs, a.Barks {}")).located

/-- The chain is left where it comes back to its start, and `b.Runs`, which is met first, stays in
front of `a.Runs`. -/
theorem ancestors_eq_superclasses_kennel :
    ∃ dog, kennel.IsRead ∧ kennel.get? dog.declaration.qualifiedName = some dog ∧
      KindsAgree kennel dog.declaration.qualifiedName ∧
      (ancestors kennel dog.scope).1 = ["Animal"] ∧
      (ancestors kennel dog.scope).2.filter (lastSegment · = "Runs") = ["b.Runs", "a.Runs"] := by
  have hread : kennel.IsRead := Index.isRead_addAll fun l hl => ⟨_, _, hl⟩
  have hkinds : ∀ l ∈ kennel.types, ∀ s ∈ directSupertypes kennel l.scope, ∀ m ∈ kennel.types,
      m.declaration.qualifiedName = s.name → m.declaration.kind.isInterface = s.asInterface := by
    decide +kernel
  have hagree : ∀ own, KindsAgree kennel own := fun own name l _ hget s hs _ m hm =>
    hkinds l (Index.mem_types_of_get? hget) s hs m (Index.mem_types_of_get? hm)
      (Index.qualifiedName_of_get? hm)
  have hruns : (kennel.get? "Dog").map (fun dog =>
      (found kennel dog.scope).interfaces.filter (lastSegment · = "Runs"))
      = some ["b.Runs", "a.Runs"] := by
    decide +kernel
  obtain ⟨dog, hdog, hmet⟩ := Option.map_eq_some_iff.mp hruns
  have hname : dog.declaration.qualifiedName = "Dog" := Index.qualifiedName_of_get? hdog
  have held : kennel.get? dog.declaration.qualifiedName = some dog := by rw [hname, hdog]
  obtain ⟨hclasses, met, hwalk, -, hinterfaces⟩ := ancestors_eq_superclasses hread held (hagree _)
  refine ⟨dog, hread, held, hagree _, ?_, ?_⟩
  · obtain ⟨hfirst, hkept, hcut⟩ : superclassAt kennel "Dog" 1 = some "Animal" ∧
        ¬ IsCut kennel "Dog" 1 ∧ IsCut kennel "Dog" 2 := by decide +kernel
    rw [hname] at hclasses
    refine List.ext_getElem? fun i => Option.ext fun name => (hclasses i name).trans ?_
    cases i with
    | zero =>
      rw [hfirst]
      exact and_iff_left fun j hj => Nat.le_zero.mp hj ▸ hkept
    | succ i => exact iff_of_false (fun hat => hat.2 1 (Nat.le_add_left 1 i) hcut) nofun
  · rw [hinterfaces "Runs", ← found_eq_of_walk hwalk]
    exact hmet

end Apidoc.Model
