/-!
# `Apidoc.Decimal.Shortest`: the fewest digits that read back

The decimal form of a floating-point number has as few digits as tell it apart from its neighbours,
and among those it is the closest to the number. All arithmetic is on natural numbers, so nothing is
rounded on the way.
-/

set_option autoImplicit false

namespace Apidoc.Decimal

/-- A finite positive number `bits · 2 ^ exponent` and whether the number below it is nearer than
the one above. -/
structure Binary where
  bits : Nat
  exponent : Int
  isNarrowBelow : Bool

/-- The leading bit of a number that is not close to zero. It is not stored. -/
def hiddenBit : Nat := 0x10000000000000

/-- The magnitude of a finite number. -/
def Binary.ofFloat (x : Float) : Binary :=
  let word := x.toBits.toNat
  let stored := word / hiddenBit % 2048
  let fraction := word % hiddenBit
  if stored = 0 then ⟨fraction, -1074, false⟩
  else ⟨hiddenBit + fraction, Int.ofNat stored - 1075, fraction = 0 ∧ 1 < stored⟩

/-- A decimal `digits · 10 ^ exponent`. -/
structure Digits where
  digits : Nat
  exponent : Int
  deriving DecidableEq, Repr

/-- `n · base ^ e` as a fraction. -/
def scaled (n base : Nat) (e : Int) : Nat × Nat :=
  if 0 ≤ e then (n * base.pow e.toNat, 1) else (n, base.pow (-e).toNat)

/-- The order of two fractions with positive denominators. -/
def compareFractions (x y : Nat × Nat) : Ordering := compare (x.1 * y.2) (y.1 * x.2)

/-- The largest `e` with `10 ^ e ≤ n / d`, for positive `n` and `d`. -/
def leadingExponent (x : Nat × Nat) : Int :=
  if x.2 ≤ x.1 then Int.ofNat ((Nat.toDigits 10 (x.1 / x.2)).length - 1)
  else -Int.ofNat (Nat.toDigits 10 ((x.2 + x.1 - 1) / x.1 - 1)).length

/-- The points of the grid `10 ^ step` next to the number that lie in the interval of what rounds to
the number; the ends belong to it if the number's bits are even. -/
def hits (b : Binary) (step : Int) : List Digits :=
  let quarter := b.exponent - 2
  let value := scaled (4 * b.bits) 2 quarter
  let low := scaled (4 * b.bits - if b.isNarrowBelow then 1 else 2) 2 quarter
  let high := scaled (4 * b.bits + 2) 2 quarter
  let unit := scaled 1 10 step
  let below := value.1 * unit.2 / (value.2 * unit.1)
  let inside (d : Nat) : Bool :=
    let point := scaled d 10 step
    let fromLow := compareFractions low point
    let toHigh := compareFractions point high
    if b.bits % 2 = 0 then fromLow ≠ .gt && toHigh ≠ .gt else fromLow = .lt && toHigh = .lt
  ([below, below + 1].filter inside).map fun d => ⟨d, step⟩

/-- Of two neighbouring grid points, the nearer to the number, and the even one if both are equally
near. -/
def nearer (b : Binary) (x y : Digits) : Digits :=
  let value := scaled (4 * b.bits) 2 (b.exponent - 2)
  let unit := scaled 1 10 x.exponent
  -- the middle between the two points, in halves of a grid step
  let middle := ((2 * x.digits + 1) * unit.1, 2 * unit.2)
  match compareFractions value middle with
  | .lt => x
  | .gt => y
  | .eq => if x.digits % 2 = 0 then x else y

/-- Tries grids from `digits` digits on, at most `fuel` of them. -/
def search (b : Binary) (leading : Int) : Nat → Nat → Digits
  | 0, _ => ⟨b.bits, 0⟩
  | fuel + 1, digits =>
    match hits b (leading - Int.ofNat digits + 1) with
    | [] => search b leading fuel (digits + 1)
    | [x] => x
    | x :: y :: _ => nearer b x y

/-- The shortest decimal that reads back as the number. Seventeen digits always do. -/
def shortest (b : Binary) : Digits :=
  if b.bits = 0 then ⟨0, 0⟩
  else search b (leadingExponent (scaled (4 * b.bits) 2 (b.exponent - 2))) 17 1

end Apidoc.Decimal
