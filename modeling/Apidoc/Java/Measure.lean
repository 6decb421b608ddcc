import Apidoc.Java.Syntax
import Apidoc.Java.Tree

/-!
# `Apidoc.Java.Measure`: how far names, types and modifiers reach

Each measure says how many trees at the front of a list belong to one construct, and zero if the
list does not start with it. A measure never builds anything, so that a construct can be measured,
taken and then read.
-/

set_option autoImplicit false

namespace Apidoc.Java.Measure

/-- The runs that a measure takes from the front, one after the other, until it takes nothing. -/
def many (measure : List Tree → Nat) (ts : List Tree) : List (List Tree) :=
  let n := measure ts
  if 0 < n ∧ n ≤ ts.length then ts.take n :: many measure (ts.drop n) else []
termination_by ts.length
decreasing_by simp only [List.length_drop]; omega

/-- The number of trees in all the runs that a measure takes from the front. -/
def manyLength (measure : List Tree → Nat) (ts : List Tree) : Nat :=
  (many measure ts).flatten.length

/-- The further segments of a dotted name. -/
def dottedTail : List Tree → Nat
  | dot :: w :: rest => if dot.is "." && w.isWord then 2 + dottedTail rest else 0
  | _ => 0

/-- A dotted name. -/
def dotted : List Tree → Nat
  | [] => 0
  | w :: rest => if w.isWord then 1 + dottedTail rest else 0

/-- An annotation with its arguments. -/
def annotationRun : List Tree → Nat
  | [] => 0
  | t :: rest =>
    let n := dotted rest
    if t.is "@" && n ≠ 0 then
      if (rest.drop n).head?.any (·.isGroup "(") then n + 2 else n + 1
    else 0

/-- Any number of annotations. -/
def annotations (ts : List Tree) : Nat := manyLength annotationRun ts

/-- An annotation or a modifier keyword. -/
def modifier (ts : List Tree) : Nat :=
  let n := annotationRun ts
  if n ≠ 0 then n
  else if Modifier.all.any fun m => ts.head?.any (·.is m.text) then 1
  else 0

/-- The trees up to the angle bracket that closes the outermost of `depth` open ones. -/
def closeAngle (depth : Nat) : List Tree → Nat
  | [] => 0
  | t :: rest =>
    if t.is "<" then 1 + closeAngle (depth + 1) rest
    else if t.is ">" then if depth ≤ 1 then 1 else 1 + closeAngle (depth - 1) rest
    else 1 + closeAngle depth rest

/-- Type parameters or arguments between angle brackets. -/
def angles (ts : List Tree) : Nat := if ts.head?.any (·.is "<") then closeAngle 0 ts else 0

/-- One pair of empty brackets, with its annotations. -/
def dimension (ts : List Tree) : Nat :=
  let n := annotations ts
  match ts.drop n with
  | [] => 0
  | t :: _ => if t.isGroup "[" && t.items.isEmpty then n + 1 else 0

/-- What may follow the first name of a type: a further segment, type arguments, or brackets. -/
def typeTail : List Tree → Nat
  | [] => 0
  | t :: rest =>
    if t.is "." then
      let n := annotations rest
      if (rest.drop n).head?.any Tree.isWord then n + 2 else 0
    else if t.is "<" then angles (t :: rest)
    else dimension (t :: rest)

/-- A type with its annotations. -/
def type (ts : List Tree) : Nat :=
  let n := annotations ts
  match ts.drop n with
  | [] => 0
  | w :: rest => if w.isWord then n + 1 + manyLength typeTail rest else 0

/-- What type arguments are made of. Angle brackets count apart. -/
def isTypePart (t : Tree) : Bool :=
  t.isWord || t.is "." || t.is "," || t.is "?" || t.is "&" || t.is "@" || t.isGroup "[" ||
    t.isGroup "("

/-- Type arguments in an expression, where an angle bracket may also compare. A comparison is never
followed by type parts alone up to a balancing bracket. -/
def typeArguments? (depth : Nat) : List Tree → Option Nat
  | [] => none
  | t :: rest =>
    if t.is "<" then (typeArguments? (depth + 1) rest).map (1 + ·)
    else if t.is ">" then
      if depth ≤ 1 then some 1 else (typeArguments? (depth - 1) rest).map (1 + ·)
    else if isTypePart t then (typeArguments? depth rest).map (1 + ·)
    else none

/-- A variable with its initializer, up to and including the comma that ends it. -/
def declarator : List Tree → Nat
  | [] => 0
  | t :: rest =>
    if t.is "," then 1
    else
      let inner := if t.is "<" then (typeArguments? 0 (t :: rest)).getD 1 - 1 else 0
      1 + min inner rest.length + declarator (rest.drop inner)
termination_by ts => ts.length
decreasing_by simp only [List.length_cons, List.length_drop]; omega

/-- Everything up to and including the first tree with the given property, or all of it. -/
def through (p : Tree → Bool) (ts : List Tree) : Nat :=
  min ts.length ((ts.takeWhile fun t => !p t).length + 1)

/-- A statement at the top level of a unit. The fuel bounds the nesting of statements without
braces. -/
def statement : Nat → List Tree → Nat
  | 0, _ => 0
  | _, [] => 0
  | fuel + 1, t :: rest =>
    let simple := through (·.is ";") (t :: rest)
    if t.isGroup "\x7b" then 1
    else if t.is "if" then
      let n := 2 + statement fuel (rest.drop 1)
      let after := (t :: rest).drop n
      if after.head?.any (·.is "else") then n + 1 + statement fuel (after.drop 1) else n
    else if t.is "while" || t.is "for" then 2 + statement fuel (rest.drop 1)
    else if t.is "do" then
      let n := 1 + statement fuel rest
      n + through (·.is ";") ((t :: rest).drop n)
    else if t.is "try" then
      let n := through (·.isGroup "\x7b") (t :: rest)
      let handler (ts : List Tree) : Nat :=
        if ts.head?.any fun u => u.is "catch" || u.is "finally" then through (·.isGroup "\x7b") ts
        else 0
      n + manyLength handler ((t :: rest).drop n)
    else if t.is "switch" || t.is "synchronized" then through (·.isGroup "\x7b") (t :: rest)
    else if t.isWord && rest.head?.any (·.is ":") then 2 + statement fuel (rest.drop 1)
    else simple

end Apidoc.Java.Measure
