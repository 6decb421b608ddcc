import Apidoc.Decimal.Text
import Apidoc.Files.Path
import Apidoc.Settings.Problem

/-!
# `Apidoc.Settings.Check`: reading settings from values

A check turns a value into a setting or says what is wrong with it. Checks are lenient about form: a
number may be written as a text, and a switch as a number or as one of a few words. The fields of a
group are checked independently, and the problems of all of them are kept in order.
-/

set_option autoImplicit false

namespace Apidoc.Settings

open Apidoc.Files (Path)

/-- The outcome of checks: a setting, or all problems. -/
inductive Checked (α : Type) where
  | ok (setting : α)
  | faulty (problems : List Problem)

/-- How the value at a location is read. -/
abbrev Check (α : Type) := List String → Json → Checked α

/-- The values that are given for the fields of a group. -/
abbrev Values := List (String × Json)

namespace Checked

/-- A function of a setting. -/
def map {α β : Type} (f : α → β) : Checked α → Checked β
  | ok x => ok (f x)
  | faulty problems => faulty problems

/-- A function of two settings that are checked independently. The problems of both are kept. -/
def both {α β : Type} : Checked (α → β) → Checked α → Checked β
  | ok f, x => x.map f
  | faulty problems, ok _ => faulty problems
  | faulty first, faulty second => faulty (first ++ second)

instance : Applicative Checked where
  pure := ok
  seq f x := both f (x ())

/-- The setting, or a failure with all problems. -/
def toExcept {α ε : Type} (failure : List Problem → ε) : Checked α → Except ε α
  | ok x => .ok x
  | faulty problems => .error (failure problems)

end Checked

namespace Check

/-- A fault of a value as the outcome of its check. -/
def outcome {α : Type} (location : List String) (value : Json) : Except Fault α → Checked α
  | .ok x => .ok x
  | .error fault => .faulty [.ofValue location value fault]

/-- A check that looks at the value alone. -/
def ofValue {α : Type} (read : Json → Except Fault α) : Check α := fun location value =>
  outcome location value (read value)

/-- A check of what another check has read. -/
def refine {α β : Type} (c : Check α) (next : α → Except Fault β) : Check β :=
  fun location value =>
    match c location value with
    | .ok x => outcome location value (next x)
    | .faulty problems => .faulty problems

/-- A value, or null for none. -/
def optional {α : Type} (c : Check α) : Check (Option α)
  | _, .null => .ok none
  | location, value => some <$> c location value

/-- The items of a list from an index on. The problems of all items are kept. -/
def items {α : Type} (c : Check α) (location : List String) : Nat → List Json → Checked (List α)
  | _, [] => .ok []
  | n, value :: values =>
    List.cons <$> c (location ++ [toString n]) value <*> items c location (n + 1) values

/-- A list. -/
def list {α : Type} (c : Check α) : Check (List α)
  | location, .array values => items c location 0 values
  | location, value => .faulty [.ofValue location value .notList]

/-! ### Texts and paths -/

/-- A text. -/
def text : Check String := ofValue fun
  | .string s => .ok s
  | _ => .error .notText

/-- A path. -/
def path : Check Path := ofValue fun
  | .string s => .ok (.ofString s)
  | _ => .error .notPath

/-! ### Switches -/

/-- The words for off. -/
def offWords : List String := ["0", "off", "f", "false", "n", "no"]

/-- The words for on. -/
def onWords : List String := ["1", "on", "t", "true", "y", "yes"]

/-- The integers below this one, and down to its negative, fit into a machine word. -/
def wordLimit : Nat := 0x8000000000000000

/-- The switch that a number stands for. -/
def switchOfInteger (n : Int) : Except Fault Bool :=
  if n = 0 then .ok false
  else if n = 1 then .ok true
  else if -Int.ofNat wordLimit ≤ n ∧ n < Int.ofNat wordLimit then .error .unknownSwitch
  else .error .notSwitch

/-- The integer that a floating-point number is, if it has no fraction. The number is
`bits · 2 ^ exponent`. -/
def integerOfFloat? (x : Float) : Option Int :=
  let b := Decimal.Binary.ofFloat x
  let magnitude :=
    if 0 ≤ b.exponent then some (b.bits * Nat.pow 2 b.exponent.toNat)
    else
      let unit := Nat.pow 2 (-b.exponent).toNat
      if b.bits % unit = 0 then some (b.bits / unit) else none
  magnitude.map fun m => if x < 0.0 then -Int.ofNat m else Int.ofNat m

/-- An integer from a floating-point number. -/
def integerOfFloat (x : Float) : Except Fault Int :=
  if x.isNaN || x.isInf then .error .notFinite
  else
    match integerOfFloat? x with
    | none => .error .fraction
    | some n => if n.natAbs < wordLimit then .ok n else .error .integerTooLong

/-- A switch: true or false, a number, or a word in any case. -/
def switch : Check Bool := ofValue fun
  | .bool b => .ok b
  | .integer n => switchOfInteger n
  | .float x =>
    match integerOfFloat x with
    | .ok n => switchOfInteger n
    | .error _ => .error .notSwitch
  | .string s =>
    let word := s.map Char.toLower
    if word ∈ offWords then .ok false
    else if word ∈ onWords then .ok true
    else .error .unknownSwitch
  | _ => .error .notSwitch

/-! ### Numbers -/

/-- Whether what follows the digits of an integer is nothing but a point and zeros. -/
def isZeroFraction : List Char → Bool
  | [] => true
  | '.' :: zeros => zeros.all (· = '0')
  | _ => false

/-- The integer that a text denotes. A fraction of zeros may follow it. -/
def integerOfText? (cs : List Char) : Option Int :=
  let (isNegative, unsigned) := Decimal.sign (Text.trim cs)
  match Decimal.digitRun false unsigned with
  | ([], _) => none
  | (digits, rest) =>
    if isZeroFraction rest then
      let n := Int.ofNat (Decimal.digitsValue digits)
      some (if isNegative then -n else n)
    else none

/-- The longest text of an integer. -/
def longestInteger : Nat := 4300

/-- An integer. -/
def integer : Check Int := ofValue fun
  | .integer n => .ok n
  | .bool b => .ok (if b then 1 else 0)
  | .float x => integerOfFloat x
  | .string s =>
    if longestInteger < (Text.trim s.toList).length then .error .integerTooLong
    else
      match integerOfText? s.toList with
      | some n => .ok n
      | none => .error .notIntegerText
  | _ => .error .notInteger

/-- A number. An integer that is too large for one is none. -/
def number : Check Float := ofValue fun
  | .integer n =>
    let x := Decimal.round (n < 0) n.natAbs 0
    if x.isInf then .error .notNumber else .ok x
  | .bool b => .ok (if b then 1.0 else 0.0)
  | .float x => .ok x
  | .string s =>
    match Decimal.float? s.toList with
    | some x => .ok x
    | none => .error .notNumberText
  | _ => .error .notNumber

/-- A bound that an integer must reach. -/
def atLeast (bound : Nat) (n : Int) : Except Fault Int :=
  if Int.ofNat bound ≤ n then .ok n else .error (.below bound)

/-- A bound that a number must reach. What is no number reaches none. -/
def numberAtLeast (bound : Nat) (x : Float) : Except Fault Float :=
  if Float.ofNat bound ≤ x then .ok x else .error (.below bound)

/-- A bound that a number must exceed. What is no number exceeds none. -/
def numberAbove (bound : Nat) (x : Float) : Except Fault Float :=
  if Float.ofNat bound < x then .ok x else .error (.notAbove bound)

/-! ### Fields -/

/-- The field of a group, at a location, with the setting that holds if no value is given. -/
def field {α : Type} (location : List String) (values : Values) (name : String) (default : α)
    (c : Check α) : Checked α :=
  match values.find? (·.1 = name) with
  | some (_, value) => c (location ++ [name]) value
  | none => .ok default

end Check

end Apidoc.Settings
