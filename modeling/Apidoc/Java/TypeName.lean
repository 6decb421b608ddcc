import Apidoc.Text.Blank
import Apidoc.Text.Letter

/-!
# `Apidoc.Java.TypeName`: erasing type texts and member descriptors

The erased text of a type has no type arguments, no annotations and no blanks. A descriptor such as
`foo(List<String>, int)` names a member by its erased parameter types. Both work on texts, so that
what a comment refers to and what a source declares are compared in one form.
-/

set_option autoImplicit false

namespace Apidoc.Java

open Apidoc.Text

namespace TypeName

/-- A character of an annotation's name. -/
def isAnnotationName (c : Char) : Bool := isWord c || c = '.'

/-- The rest of a text that starts with an annotation's arguments, which end at the first closing
parenthesis. A text that does not start so is left alone. -/
def dropArguments : List Char → List Char
  | '(' :: rest => ((cutAt ')' rest).2).getD ('(' :: rest)
  | cs => cs

/-- What follows the annotation whose `@` stands in front of the text, blanks after it left out. -/
def afterAnnotationSign (cs : List Char) : List Char :=
  trimStart (dropArguments (cs.dropWhile isAnnotationName))

theorem length_dropArguments_le (cs : List Char) : (dropArguments cs).length ≤ cs.length := by
  unfold dropArguments
  split
  · rename_i rest
    have h := (List.dropWhile_suffix (p := fun x => decide (x ≠ ')')) (l := rest)).length_le
    unfold cutAt
    cases hd : rest.dropWhile fun x => decide (x ≠ ')') with
    | nil => simp
    | cons c after =>
      rw [hd] at h
      simp only [Option.getD_some, List.length_cons] at h ⊢
      omega
  · exact Nat.le_refl _

theorem length_afterAnnotationSign_le (cs : List Char) : (afterAnnotationSign cs).length ≤ cs.length := by
  unfold afterAnnotationSign trimStart dropLeading
  exact Nat.le_trans (List.dropWhile_suffix _).length_le
    (Nat.le_trans (length_dropArguments_le _) (List.dropWhile_suffix _).length_le)

/-- The text without annotations. -/
def dropAnnotations : List Char → List Char
  | [] => []
  | c :: rest =>
    if c = '@' && rest.head?.any isAnnotationName then dropAnnotations (afterAnnotationSign rest)
    else c :: dropAnnotations rest
termination_by cs => cs.length
decreasing_by
  · have := length_afterAnnotationSign_le rest
    simp; omega
  · simp

/-- The characters outside angle brackets, `depth` of which are open. A closing bracket without a
partner is dropped. -/
def outsideAngles (depth : Nat) : List Char → List Char
  | [] => []
  | c :: rest =>
    if c = '<' then outsideAngles (depth + 1) rest
    else if c = '>' then outsideAngles (depth - 1) rest
    else if depth = 0 then c :: outsideAngles depth rest
    else outsideAngles depth rest

/-- The erased form of a type text. -/
def erase (cs : List Char) : List Char := squeeze (outsideAngles 0 (dropAnnotations cs))

/-- The erased form of a type text, as a string. -/
def erased (s : String) : String := onString erase s

end TypeName

namespace Descriptor

/-- The texts between the commas of a parameter list. A comma between angle brackets does not
separate, and neither does one after more closing than opening brackets. An empty text after the
last comma is no part. -/
def parameters (depth : Int) (current : List Char) : List Char → List (List Char)
  | [] => if current = [] then [] else [current]
  | c :: rest =>
    let inner := if c = '<' then depth + 1 else if c = '>' then depth - 1 else depth
    if c = ',' && inner = 0 then current :: parameters inner [] rest
    else parameters inner (current ++ [c]) rest

/-- The text before the last `c`, or the whole text. -/
def beforeLast (c : Char) (cs : List Char) : List Char :=
  if c ∈ cs then ((cs.reverse.dropWhile (· ≠ c)).drop 1).reverse else cs

/-- The canonical form of a member descriptor: the name, and the erased parameter types between
parentheses if there is a parameter list. -/
def normalize (descriptor : List Char) : List Char :=
  let body := (trim descriptor).dropWhile (· = '#')
  match cutAt '(' body with
  | (_, none) => squeeze body
  | (name, some rest) =>
    let types := (parameters 0 [] (beforeLast ')' rest)).map TypeName.erase
    trim name ++ '(' :: join [','] (types.filter (· ≠ [])) ++ [')']

/-- The canonical form of a member descriptor, as a string. -/
def normalized (s : String) : String := onString normalize s

end Descriptor

end Apidoc.Java
