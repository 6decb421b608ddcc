import Apidoc.Proofs.Java.Reading
import Apidoc.Proofs.Java.Tree
import Apidoc.Sample.Clean

/-!
# `Apidoc.Proofs.Sample.Noise`: where the annotations of methods and constructors stand

Every annotation that is read in front of a method or a constructor, however deep its class is
nested, is an annotation among the trees of the source (`allStand_items`): it begins where a list of
siblings goes on with its sign, and reaches as far as it is measured there.
-/

set_option autoImplicit false

namespace Apidoc.Sample.Clean

open Apidoc.Java Apidoc.Java.Reader Apidoc.Java.Measure
open Apidoc.Java.Tree (Tail annotationSpan)

variable {forest ts : List Tree}

/-! ### Where annotations are read -/

/-- A run is measured at some place of the list. -/
theorem of_mem_many {measure : List Tree → Nat} {run : List Tree} (h : run ∈ many measure ts) :
    ∃ n, 0 < measure (ts.drop n) ∧ run = (ts.drop n).take (measure (ts.drop n)) := by
  induction ts using many.induct measure with
  | case1 ts n hn ih =>
    rw [many, if_pos hn] at h
    rcases List.mem_cons.mp h with rfl | h
    · exact ⟨0, hn.1, rfl⟩
    · obtain ⟨m, hm⟩ := ih h
      rw [List.drop_drop] at hm
      exact ⟨_, hm⟩
  | case2 ts n hn =>
    rw [many, if_neg hn] at h
    cases h

/-- The annotation is one that the trees hold at some depth. -/
def StandsAmong (forest : List Tree) (a : Annotation) : Prop :=
  ∃ us, Tail us forest ∧ annotationRun us ≠ 0 ∧ a.span = annotationSpan us

/-- The annotations in front of a declaration stand in its list of trees. -/
theorem standsAmong_modifiers (hts : Tail ts forest) :
    ∀ a ∈ (modifiers (many modifier ts)).annotations, StandsAmong forest a := by
  intro a ha
  obtain ⟨run, hrun, hsome⟩ := List.mem_filterMap.mp ha
  obtain ⟨n, hn, rfl⟩ := of_mem_many hrun
  split at hsome
  · rename_i t rest heq
    split at hsome
    · rename_i hsign
      have hhead : (ts.drop n).head? = some t := by
        have hhead := List.head?_take (l := ts.drop n) (i := modifier (ts.drop n))
        rw [if_neg hn.ne', heq] at hhead
        exact hhead.symm
      -- The sign of an annotation is no keyword.
      have hkeyword : (Modifier.all.any fun m => (ts.drop n).head?.any (·.is m.text)) = false := by
        obtain ⟨sign, rfl, hsign⟩ := exists_token_of_is hsign
        rw [hhead, List.any_eq_false]
        intro m hm hkeyword
        have hdiffers : ∀ m ∈ Modifier.all, Text.encode "@" ≠ Text.encode m.text := by decide
        have hsame : sign.piece.text = Text.encode m.text := of_decide_eq_true hkeyword
        have hsign : sign.piece.text = Text.encode "@" := of_decide_eq_true hsign
        exact hdiffers m hm (hsign.symm.trans hsame)
      have hannotation : annotationRun (ts.drop n) ≠ 0 := by
        intro hzero
        rw [modifier, hzero, hkeyword] at hn
        exact absurd hn (lt_irrefl 0)
      have hlength : modifier (ts.drop n) = annotationRun (ts.drop n) := by
        rw [modifier]
        exact if_pos hannotation
      cases hsome
      refine ⟨ts.drop n, (Tail.drop ts n).trans hts, hannotation, ?_⟩
      rw [annotationSpan, ← hlength, heq]
    · cases hsome
  · cases hsome

/-- All annotations in front of methods and constructors among the items stand in the trees. -/
def AllStand (forest : List Tree) (items : List Item) : Prop :=
  ∀ ms ∈ allMemberModifiers items, ∀ a ∈ ms.annotations, StandsAmong forest a

/-- The trees in which a member may declare classes are among its trees, or inside one of them. -/
def Holds (front : List (List Tree)) (ts : List Tree) : MemberShape → Prop
  | .block body _ => ∃ t ∈ ts, body = t.items
  | .constructor head code _ =>
    head.modifiers = modifiers front ∧ (code ⊆ ts ∨ ∃ t ∈ ts, code = t.items)
  | .method head code _ => head.modifiers = modifiers front ∧ code ⊆ ts
  | .field _ code _ => code ⊆ ts
  | .unknown _ => True

theorem holds_memberShape (kind : Body) (front : List (List Tree)) (ts : List Tree) :
    Holds front ts (memberShape kind front ts) := by
  -- Behind the modifiers and the type there are only trees of the member.
  unfold memberShape
  extract_lets read r n r₁ r₂ m r₃ whole upTo
  have hr : ∀ t ∈ r, t ∈ ts := fun t ht => List.mem_of_mem_drop ht
  have hr₁ : ∀ t ∈ r₁, t ∈ ts := fun t ht => hr t (List.mem_of_mem_drop ht)
  have hr₃ : ∀ t ∈ r₃, t ∈ ts := fun t ht =>
    hr₁ t (List.mem_of_mem_drop (List.mem_of_mem_drop ht))
  clear_value r₃ m r₂ r₁ n r
  split
  · trivial
  · rename_i t rest first second tail
    split
    · exact ⟨t, hr t List.mem_cons_self, rfl⟩
    split
    · exact ⟨rfl, .inl fun u hu => hr₁ u
        (List.mem_cons_of_mem _ (List.mem_cons_of_mem _ (List.mem_of_mem_take hu)))⟩
    split
    · exact ⟨rfl, .inr ⟨second, hr₁ second (List.mem_cons_of_mem _ List.mem_cons_self), rfl⟩⟩
    split
    · split
      · split
        · exact ⟨rfl, fun u hu => hr₃ u
            (List.mem_cons_of_mem _ (List.mem_cons_of_mem _ (List.mem_of_mem_take hu)))⟩
        split
        · exact fun u hu => hr₃ u (List.mem_of_mem_take hu)
        · trivial
      · trivial
    · trivial
  · rename_i t rest _
    split
    · exact ⟨t, hr t List.mem_cons_self, rfl⟩
    · trivial

/-- The arguments and the body of a constant are what its trees hold. -/
theorem holds_constantShape (ts : List Tree) :
    (∀ u ∈ (constantShape ts).2.1, ∃ t ∈ ts, u ∈ t.items) ∧
      ((constantShape ts).2.2.1 = [] ∨ ∃ t ∈ ts, (constantShape ts).2.2.1 = t.items) := by
  unfold constantShape
  extract_lets front read r arguments r' hasBody length
  have hr : ∀ t ∈ r, t ∈ ts := fun t ht => List.mem_of_mem_drop ht
  have hr' : ∀ t ∈ r', t ∈ ts := by
    intro t ht
    show t ∈ ts
    unfold r' at ht
    split at ht
    · exact hr t (List.mem_of_mem_drop ht)
    · exact hr t ht
  clear_value hasBody r' arguments r
  constructor
  · dsimp only
    split
    · intro u hu
      obtain ⟨t, ht, hu⟩ := List.mem_flatMap.mp hu
      exact ⟨t, hr t (List.mem_of_mem_take ht), hu⟩
    · exact nofun
  · dsimp only
    split
    · cases r' with
      | nil => exact .inl rfl
      | cons t rest =>
        exact .inr ⟨t, hr' t List.mem_cons_self, by simp⟩
    · exact .inl rfl

section

variable {members inner : List Item} {s : Span}

/-- The annotations in front of methods and constructors in an item stand in the trees. -/
def Stand (forest : List Tree) (item : Item) : Prop :=
  ∀ ms ∈ memberModifiers item, ∀ a ∈ ms.annotations, StandsAmong forest a

theorem stand_type {head : TypeSyntax} :
    Stand forest (.type head members) ↔ AllStand forest members := by
  rw [Stand, memberModifiers]; rfl

theorem stand_rest : Stand forest (.rest s members) ↔ AllStand forest members := by
  rw [Stand, memberModifiers]; rfl

theorem stand_field {head : FieldSyntax} :
    Stand forest (.field head inner) ↔ AllStand forest inner := by
  rw [Stand, memberModifiers]; rfl

theorem stand_constant {head : ConstantSyntax} :
    Stand forest (.constant head inner) ↔ AllStand forest inner := by
  rw [Stand, memberModifiers]; rfl

theorem stand_code : Stand forest (.code s inner) ↔ AllStand forest inner := by
  rw [Stand, memberModifiers]; rfl

theorem stand_method {head : MethodSyntax}
    (hhead : ∀ a ∈ head.modifiers.annotations, StandsAmong forest a) (h : AllStand forest inner) :
    Stand forest (.method head inner) := by
  intro ms hms
  rw [memberModifiers] at hms
  rcases List.mem_append.mp hms with hms | hms
  · split at hms
    · cases hms
    · rw [List.mem_singleton.mp hms]
      exact hhead
  · exact h ms hms

theorem stand_constructor {head : ConstructorSyntax}
    (hhead : ∀ a ∈ head.modifiers.annotations, StandsAmong forest a) (h : AllStand forest inner) :
    Stand forest (.constructor head inner) := by
  intro ms hms
  rw [memberModifiers] at hms
  rcases List.mem_append.mp hms with hms | hms
  · split at hms
    · rw [List.mem_singleton.mp hms]
      exact hhead
    · cases hms
  · exact h ms hms

end

theorem allStand_nil : AllStand forest [] := by
  rw [AllStand, allMemberModifiers]
  exact nofun

theorem allStand_cons {item : Item} {items : List Item} :
    AllStand forest (item :: items) ↔ Stand forest item ∧ AllStand forest items := by
  simp only [AllStand, Stand, allMemberModifiers, List.mem_append, or_imp, forall_and]

theorem allMemberModifiers_append (items others : List Item) :
    allMemberModifiers (items ++ others) =
      allMemberModifiers items ++ allMemberModifiers others := by
  induction items with
  | nil => rw [allMemberModifiers]; rfl
  | cons item items ih =>
    rw [List.cons_append, allMemberModifiers, allMemberModifiers, ih, List.append_assoc]

theorem allStand_append {items others : List Item} :
    AllStand forest (items ++ others) ↔ AllStand forest items ∧ AllStand forest others := by
  simp only [AllStand, allMemberModifiers_append, List.mem_append, or_imp, forall_and]

theorem allStand_commentItems (t : Tree) : AllStand forest (commentItems t) := by
  rw [commentItems]
  induction t.comments with
  | nil => exact allStand_nil
  | cons p ps ih =>
    refine allStand_cons.mpr ⟨?_, ih⟩
    rw [Stand, memberModifiers]
    exact nofun

/-- The annotations that the readers of bodies and of code find stand in the trees. -/
structure ReadersStand (forest : List Tree) (fuel : Nat) : Prop where
  body : ∀ kind ts, Tail ts forest → AllStand forest (bodyItems fuel kind ts)
  code : ∀ ts, (∀ t ∈ ts, Tail t.items forest) → AllStand forest (codeItems fuel ts)

section

variable {fuel : Nat} {t u : Tree} {rest code : List Tree}

theorem ReadersStand.bodyInside (h : ReadersStand forest fuel) (hts : Tail ts forest) (hu : u ∈ ts)
    (kind : Body) : AllStand forest (bodyItems fuel kind u.items) :=
  h.body kind _ ((Tail.items hu).trans hts)

theorem ReadersStand.codeAmong (h : ReadersStand forest fuel) (hts : Tail ts forest)
    (hcode : code ⊆ ts) : AllStand forest (codeItems fuel code) :=
  h.code code fun _ hu => (Tail.items (hcode hu)).trans hts

theorem ReadersStand.codeInside (h : ReadersStand forest fuel) (hts : Tail ts forest)
    (hu : u ∈ ts) : AllStand forest (codeItems fuel u.items) :=
  h.codeAmong ((Tail.items hu).trans hts) (List.Subset.refl _)

/-- The readers of the next constant find its arguments and its body. -/
theorem ReadersStand.constant (h : ReadersStand forest fuel) (hts : Tail ts forest)
    (head : ConstantSyntax) :
    Stand forest (.constant head (codeItems fuel (constantShape ts).2.1 ++
      bodyItems fuel .members (constantShape ts).2.2.1)) := by
  obtain ⟨harguments, hbody⟩ := holds_constantShape ts
  refine stand_constant.mpr (allStand_append.mpr ⟨h.code _ fun u hu => ?_, ?_⟩)
  · obtain ⟨v, hv, hu⟩ := harguments u hu
    exact (Tail.items hu).trans ((Tail.items hv).trans hts)
  · rcases hbody with hnil | ⟨u, hu, hbody⟩
    · rw [hnil]
      refine h.body _ _ ?_
      have hend := (Tail.drop ts ts.length).trans hts
      rwa [List.drop_length] at hend
    · rw [hbody]
      exact h.bodyInside hts hu _

/-- The reader of bodies goes on from one declaration to the next. -/
theorem ReadersStand.body_cons (h : ReadersStand forest fuel) (hts : Tail (t :: rest) forest)
    (kind : Body) : AllStand forest (bodyItems (fuel + 1) kind (t :: rest)) := by
  have hcomments : AllStand forest (commentItems t) := allStand_commentItems t
  have hitem : ∀ item n, Stand forest item →
      AllStand forest (commentItems t ++ item :: bodyItems fuel kind (rest.drop n)) :=
    fun item n hitem =>
      allStand_append.mpr ⟨hcomments, allStand_cons.mpr ⟨hitem, h.body _ _ (hts.drop_rest n)⟩⟩
  have hfront := standsAmong_modifiers hts
  have hshape := holds_memberShape kind (many modifier (t :: rest)) (t :: rest)
  have hstep := bodyStep fuel kind t rest
  generalize bodyItems (fuel + 1) kind (t :: rest) = items at hstep ⊢
  cases hstep with
  | skip => exact allStand_append.mpr ⟨hcomments, h.body _ _ (hts.drop_rest 0)⟩
  | rest =>
    exact allStand_append.mpr ⟨hcomments,
      allStand_cons.mpr ⟨stand_rest.mpr (h.body _ _ (hts.drop_rest 0)), allStand_nil⟩⟩
  | constant hkind hconstant =>
    have hstand := h.constant hts
    rw [hconstant] at hstand
    exact hitem _ _ (hstand _)
  | type hkind hhead =>
    obtain ⟨u, hu, rfl⟩ := body_of_typeHead? hhead
    exact hitem _ _ (stand_type.mpr (h.bodyInside hts (List.mem_of_mem_drop hu) _))
  | block hkind hmember =>
    rw [hmember] at hshape
    obtain ⟨u, hu, rfl⟩ := hshape
    exact hitem _ _ (stand_code.mpr (h.codeInside hts hu))
  | constructor hkind hmember =>
    rw [hmember] at hshape
    obtain ⟨hhead, hcode | ⟨u, hu, rfl⟩⟩ := hshape
    · exact hitem _ _ (stand_constructor (hhead ▸ hfront) (h.codeAmong hts hcode))
    · exact hitem _ _ (stand_constructor (hhead ▸ hfront) (h.codeInside hts hu))
  | method hkind hmember =>
    rw [hmember] at hshape
    exact hitem _ _ (stand_method (hshape.1 ▸ hfront) (h.codeAmong hts hshape.2))
  | field hkind hmember =>
    rw [hmember] at hshape
    exact hitem _ _ (stand_field.mpr (h.codeAmong hts hshape))
  | unknown => exact hitem _ _ (stand_code.mpr allStand_nil)

/-- The reader of code goes on from one tree to the next. -/
theorem ReadersStand.code_cons (h : ReadersStand forest fuel)
    (hts : ∀ u ∈ t :: rest, Tail u.items forest) :
    AllStand forest (codeItems (fuel + 1) (t :: rest)) := by
  have hrest : ∀ n, ∀ u ∈ rest.drop n, Tail u.items forest := fun n u hu =>
    hts u (List.mem_cons_of_mem t (List.mem_of_mem_drop hu))
  rw [codeItems]
  split
  · -- The keyword of a class literal declares nothing.
    exact h.code _ (hrest 1)
  split
  · -- A class without a name behind `new` and its arguments.
    extract_lets r
    have hr : ∀ u ∈ r.drop (type r), Tail u.items forest := fun u hu =>
      hrest _ u (List.mem_of_mem_drop hu)
    generalize r.drop (type r) = us at hr ⊢
    split
    · rename_i arguments body after
      split
      · have harguments := hr arguments (by simp)
        refine allStand_append.mpr ⟨h.code _ fun u hu => (Tail.items hu).trans harguments, ?_⟩
        refine allStand_cons.mpr ⟨stand_code.mpr (h.body _ _ (hr body (by simp))), ?_⟩
        exact h.code _ fun u hu => hr u (by simp [hu])
      · exact h.code _ (hrest 0)
    · exact h.code _ (hrest 0)
  · split
    · rename_i head body n hhead
      obtain ⟨u, hu, rfl⟩ := body_of_typeHead? hhead
      exact allStand_cons.mpr ⟨stand_type.mpr (h.body _ _ (hts u hu)), h.code _ (hrest _)⟩
    · refine allStand_append.mpr ⟨h.code _ fun u hu => ?_, h.code _ (hrest 0)⟩
      exact (Tail.items hu).trans (hts t List.mem_cons_self)

/-- The two readers call each other, so the induction is on the fuel that they share. -/
theorem readersStand (forest : List Tree) (fuel : Nat) : ReadersStand forest fuel := by
  induction fuel with
  | zero =>
    constructor
    · intro kind ts _
      rw [bodyItems_zero]
      exact allStand_nil
    · intro ts _
      rw [codeItems_zero]
      exact allStand_nil
  | succ fuel ih =>
    constructor
    · intro kind ts hts
      cases ts with
      | nil =>
        rw [bodyItems_nil]
        exact allStand_nil
      | cons t rest => exact ih.body_cons hts kind
    · intro ts hts
      cases ts with
      | nil =>
        rw [codeItems_nil]
        exact allStand_nil
      | cons t rest => exact ih.code_cons hts

end

/-- The annotations in the first item of a unit stand in the trees. -/
theorem stand_unitItem {t : Tree} {rest : List Tree} (hts : Tail (t :: rest) forest) :
    Stand forest (unitItem t rest).1 := by
  have hreaders := readersStand forest (Tree.sizeAll (t :: rest))
  have hstep := unitStep t rest
  generalize unitItem t rest = item at hstep ⊢
  cases hstep with
  | package | imported | module =>
    rw [Stand, memberModifiers]
    exact nofun
  | type hhead =>
    obtain ⟨u, hu, rfl⟩ := body_of_typeHead? hhead
    exact stand_type.mpr (hreaders.bodyInside hts (List.mem_of_mem_drop hu) _)
  | method hmember =>
    have hshape := holds_memberShape .members (many modifier (t :: rest)) (t :: rest)
    rw [hmember] at hshape
    exact stand_method (hshape.1 ▸ standsAmong_modifiers hts) (hreaders.codeAmong hts hshape.2)
  | code n => exact stand_code.mpr (hreaders.codeAmong hts (List.take_subset n _))

theorem allStand_unitItems (fuel : Nat) (ts : List Tree) :
    Tail ts forest → AllStand forest (unitItems fuel ts) := by
  refine unitItems_induction (P := fun ts items => Tail ts forest → AllStand forest items)
    ?_ ?_ ?_ fuel ts
  · exact fun _ _ => allStand_nil
  · intro t rest items ih hts
    exact allStand_append.mpr ⟨allStand_commentItems t, ih (hts.drop_rest 0)⟩
  · intro t rest items ih hts
    exact allStand_append.mpr
      ⟨allStand_commentItems t, allStand_cons.mpr ⟨stand_unitItem hts, ih (hts.drop_rest _)⟩⟩

/-- The annotations in front of the methods and constructors of a source are annotations of its
trees. -/
theorem allStand_items (source : Text.Bytes) :
    AllStand (Tree.ofSource source) (items source) :=
  allStand_unitItems _ _ .here

end Apidoc.Sample.Clean
