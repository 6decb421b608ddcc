import Apidoc.Java.Reader

/-!
# `Apidoc.Proofs.Java.Reading`: what the reader does in one step

The readers of units and of bodies take one item after another from the front of a list of
trees. What the first item of a unit can be is said here once (`UnitStep`), and so is what a
body goes on with at its first tree (`BodyStep`). A property of all items of a source is then
shown for each of these cases, and `unitItems_induction` takes it from the first item of a
unit to all of them. `Item.Everywhere` says that it holds inside of types too.
-/

set_option autoImplicit false

namespace Apidoc.Java

namespace Item

mutual

/-- The property holds of the item and of all members of types in it. -/
def Everywhere (P : Item → Prop) : Item → Prop
  | .type head members => P (.type head members) ∧ EverywhereAll P members
  | .rest _ members => EverywhereAll P members
  | item => P item

/-- Companion for several items. -/
def EverywhereAll (P : Item → Prop) : List Item → Prop
  | [] => True
  | item :: items => Everywhere P item ∧ EverywhereAll P items

end

theorem everywhereAll_append {P : Item → Prop} {items others : List Item} :
    EverywhereAll P (items ++ others) ↔ EverywhereAll P items ∧ EverywhereAll P others := by
  induction items with
  | nil => exact (true_and _).symm.to_iff
  | cons item items ih => rw [List.cons_append, EverywhereAll, EverywhereAll, ih, and_assoc]

mutual

/-- What holds of every item holds everywhere. -/
theorem everywhere_of_forall {P : Item → Prop} (h : ∀ item, P item) :
    (item : Item) → Everywhere P item
  | .type _ members => ⟨h _, everywhereAll_of_forall h members⟩
  | .rest _ members => everywhereAll_of_forall h members
  | .method .. | .constructor .. | .field .. | .constant .. => h _
  | .comment _ | .package .. | .imported .. | .module .. | .code .. => h _

/-- Companion for several items. -/
theorem everywhereAll_of_forall {P : Item → Prop} (h : ∀ item, P item) :
    (items : List Item) → EverywhereAll P items
  | [] => trivial
  | item :: items => ⟨everywhere_of_forall h item, everywhereAll_of_forall h items⟩

end

end Item

namespace Reader

open Apidoc.Java.Measure

/-! ### Units -/

/-- The first item of a unit that begins with `t`, and the number of trees in it. -/
inductive UnitStep (t : Tree) (rest : List Tree) : Item × Nat → Prop where
  /-- The name of a package is the dotted name at some place behind its annotations. -/
  | package (s : Span) (m n : Nat) :
      UnitStep t rest
        (.package s (Tree.text (((t :: rest).drop m).take (dotted ((t :: rest).drop m)))), n)
  | imported (s : Span) (path : String) (isStatic : Bool) (n : Nat) :
      UnitStep t rest (.imported s path isStatic, n)
  | module (s : Span) (name : String) (n : Nat) : UnitStep t rest (.module s name, n)
  | type {head : TypeSyntax} {body : List Tree} {n : Nat}
      (h : typeHead? t.start (many modifier (t :: rest))
        ((t :: rest).drop (many modifier (t :: rest)).flatten.length) = some (head, body, n)) :
      UnitStep t rest
        (.type head (bodyItems (Tree.sizeAll (t :: rest)) (Body.ofKind head.kind) body),
          (many modifier (t :: rest)).flatten.length + n)
  /-- A method that stands in no type. -/
  | method {head : MethodSyntax} {code : List Tree} {n : Nat}
      (h : memberShape .members (many modifier (t :: rest)) (t :: rest) = .method head code n) :
      UnitStep t rest (.method head (codeItems (Tree.sizeAll (t :: rest)) code), n)
  /-- A statement. -/
  | code (n : Nat) :
      UnitStep t rest
        (.code (span ((t :: rest).take n))
          (codeItems (Tree.sizeAll (t :: rest)) ((t :: rest).take n)), n)

/-- The first item of a unit is one of these. -/
theorem unitStep (t : Tree) (rest : List Tree) : UnitStep t rest (unitItem t rest) := by
  unfold unitItem
  extract_lets ts size r isOpen named name front
  -- Whether a module is open decides where its name stands, not which item is read.
  generalize r.drop (if isOpen then 1 else 0) = opened
  split
  · have hnamed : named = ts.drop (annotations ts + if isOpen then 2 else 1) := List.drop_drop
    have hstep : UnitStep t rest (.package _ (Tree.text ((ts.drop _).take (dotted (ts.drop _)))), _) :=
      .package (span (ts.take (through (·.is ";") ts)))
        (annotations ts + if isOpen then 2 else 1) (through (·.is ";") ts)
    rw [← hnamed] at hstep
    exact hstep
  split
  · exact .imported ..
  split
  · exact .module ..
  split
  · rename_i head body n hhead
    exact .type hhead
  split
  · exact .code _
  split
  · rename_i head code n hmethod
    exact .method hmethod
  · exact .code _

/-- What holds of no items, and still holds when a separator or the first item is put in front, holds of
all items of a unit. -/
theorem unitItems_induction {P : List Tree → List Item → Prop} (hend : ∀ ts, P ts [])
    (hskip : ∀ t rest items, P rest items → P (t :: rest) (commentItems t ++ items))
    (hitem : ∀ t rest items, P (rest.drop ((unitItem t rest).2 - 1)) items →
      P (t :: rest) (commentItems t ++ (unitItem t rest).1 :: items))
    (fuel : Nat) (ts : List Tree) : P ts (unitItems fuel ts) := by
  induction fuel generalizing ts with
  | zero =>
    rw [unitItems]
    exact hend ts
  | succ fuel ih =>
    cases ts with
    | nil =>
      rw [unitItems]
      exact hend []
    | cons t rest =>
      rw [unitItems]
      split
      · exact hskip t rest _ (ih rest)
      · exact hitem t rest _ (ih _)

/-! ### Bodies -/

@[simp] theorem bodyItems_zero (kind : Body) (ts : List Tree) : bodyItems 0 kind ts = [] := by
  rw [bodyItems]

@[simp] theorem bodyItems_nil (fuel : Nat) (kind : Body) : bodyItems fuel kind [] = [] := by
  cases fuel <;> rw [bodyItems]

@[simp] theorem codeItems_zero (ts : List Tree) : codeItems 0 ts = [] := by
  rw [codeItems]

@[simp] theorem codeItems_nil (fuel : Nat) : codeItems fuel [] = [] := by
  cases fuel <;> rw [codeItems]

/-- What is read from a body that begins with `t`: the comments in front of it, an item or none, and the
items of what is left of the body. -/
inductive BodyStep (fuel : Nat) (kind : Body) (t : Tree) (rest : List Tree) : List Item → Prop where
  /-- A separator is passed. -/
  | skip (h : t.is ";" = true ∨ t.is "," = true) :
      BodyStep fuel kind t rest (commentItems t ++ bodyItems fuel kind rest)
  /-- A semicolon ends the constants of an enum. -/
  | rest (hkind : kind = .constants) (h : t.is ";" = true) :
      BodyStep fuel kind t rest
        (commentItems t ++ [.rest (span (t :: rest)) (bodyItems fuel .members rest)])
  | constant {head : ConstantSyntax} {arguments body : List Tree} {n : Nat}
      (hkind : kind = .constants) (h : constantShape (t :: rest) = (head, arguments, body, n)) :
      BodyStep fuel kind t rest
        (commentItems t ++
          .constant head (codeItems fuel arguments ++ bodyItems fuel .members body) ::
            bodyItems fuel kind (rest.drop (n - 1)))
  | type {head : TypeSyntax} {body : List Tree} {n : Nat} (hkind : kind ≠ .constants)
      (h : typeHead? t.start (many modifier (t :: rest))
        ((t :: rest).drop (many modifier (t :: rest)).flatten.length) = some (head, body, n)) :
      BodyStep fuel kind t rest
        (commentItems t ++ .type head (bodyItems fuel (Body.ofKind head.kind) body) ::
          bodyItems fuel kind (rest.drop ((many modifier (t :: rest)).flatten.length + n - 1)))
  | block {body : List Tree} {n : Nat} (hkind : kind ≠ .constants)
      (h : memberShape kind (many modifier (t :: rest)) (t :: rest) = .block body n) :
      BodyStep fuel kind t rest
        (commentItems t ++ .code (span ((t :: rest).take n)) (codeItems fuel body) ::
          bodyItems fuel kind (rest.drop (n - 1)))
  | constructor {head : ConstructorSyntax} {code : List Tree} {n : Nat} (hkind : kind ≠ .constants)
      (h : memberShape kind (many modifier (t :: rest)) (t :: rest) = .constructor head code n) :
      BodyStep fuel kind t rest
        (commentItems t ++ .constructor head (codeItems fuel code) ::
          bodyItems fuel kind (rest.drop (n - 1)))
  | method {head : MethodSyntax} {code : List Tree} {n : Nat} (hkind : kind ≠ .constants)
      (h : memberShape kind (many modifier (t :: rest)) (t :: rest) = .method head code n) :
      BodyStep fuel kind t rest
        (commentItems t ++ .method head (codeItems fuel code) ::
          bodyItems fuel kind (rest.drop (n - 1)))
  | field {head : FieldSyntax} {code : List Tree} {n : Nat} (hkind : kind ≠ .constants)
      (h : memberShape kind (many modifier (t :: rest)) (t :: rest) = .field head code n) :
      BodyStep fuel kind t rest
        (commentItems t ++ .field head (codeItems fuel code) ::
          bodyItems fuel kind (rest.drop (n - 1)))
  /-- Trees that are no member are left as code. -/
  | unknown {n : Nat} (hkind : kind ≠ .constants)
      (h : memberShape kind (many modifier (t :: rest)) (t :: rest) = .unknown n) :
      BodyStep fuel kind t rest
        (commentItems t ++ .code (span ((t :: rest).take n)) [] ::
          bodyItems fuel kind (rest.drop (n - 1)))

/-- A body is read in such steps. -/
theorem bodyStep (fuel : Nat) (kind : Body) (t : Tree) (rest : List Tree) :
    BodyStep fuel kind t rest (bodyItems (fuel + 1) kind (t :: rest)) := by
  rw [bodyItems]
  split
  · rename_i hsemicolon
    split
    · rename_i hkind
      exact .rest hkind hsemicolon
    · exact .skip (.inl hsemicolon)
  split
  · rename_i hkind
    split
    · rename_i hcomma
      exact .skip (.inr hcomma)
    · exact .constant hkind rfl
  · rename_i hkind
    extract_lets front
    split
    · rename_i head body n hhead
      exact .type hkind hhead
    · cases hshape : memberShape kind front (t :: rest) with
      | block body n => exact .block hkind hshape
      | constructor head code n => exact .constructor hkind hshape
      | method head code n => exact .method hkind hshape
      | field head code n => exact .field hkind hshape
      | unknown n => exact .unknown hkind hshape

end Reader

end Apidoc.Java
