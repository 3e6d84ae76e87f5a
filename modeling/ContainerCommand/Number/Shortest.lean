import ContainerCommand.Number.Binary64

/-! The shortest decimal that reads back.

The reals that round to a number form an interval around it, whose ends belong to
it when the mantissa is even. `shortest` looks for the coarsest grid of multiples of
a power of ten with a point in that interval, and takes the point nearest to the
number. If a grid has a point in the interval, one of the number's two neighbours on
the grid lies in it, so only these are tried. -/
namespace ContainerCommand.Number

/-- A multiple of a power of ten. -/
structure Decimal where
  coefficient : Nat
  exponent : Int
deriving DecidableEq

/-- Where an exact tie between two candidates goes. -/
inductive Tie where
  | up
  | toEven
deriving DecidableEq

/-- The interval of the reals that round to a number, over one denominator. -/
structure Rounding where
  /-- The number itself, its lower and its upper end. -/
  centre : Nat
  low : Nat
  high : Nat
  den : Nat
  /-- Whether the ends round to the number too. -/
  closed : Bool

namespace Rounding

/-- The interval around a finite number that is not zero. Below a power of two the next
number is only half as far away. -/
def around (mantissa : Nat) (exponent : Int) : Rounding :=
  let (unit, den) := Binary64.shift 1 1 (exponent - 2)
  let gap := if mantissa = Binary64.hidden && Binary64.leastExponent < exponent then 1 else 2
  { centre := 4 * mantissa * unit
    low := (4 * mantissa - gap) * unit
    high := (4 * mantissa + 2) * unit
    den
    closed := mantissa % 2 == 0 }

/-- Whether the multiple `c` of `num / den'` rounds to the number. -/
def holds (r : Rounding) (c num den' : Nat) : Bool :=
  let point := c * num * r.den
  let low := r.low * den'
  let high := r.high * den'
  if r.closed then low ≤ point && point ≤ high else low < point && point < high

/-- The point of the grid `10 ^ e` that reads back and is nearest to the number. -/
def onGrid? (r : Rounding) (tie : Tie) (e : Int) : Option Nat :=
  let (num, den') := if 0 ≤ e then (powerOfTen e.toNat, 1) else (1, powerOfTen (-e).toNat)
  let below := r.centre * den' / (num * r.den)
  let above := below + 1
  match r.holds below num den', r.holds above num den' with
  | false, false => none
  | true, false => some below
  | false, true => some above
  | true, true =>
    let twice := 2 * r.centre * den'
    let sum := (below + above) * num * r.den
    if twice < sum then some below
    else if sum < twice then some above
    else match tie with
      | .up => some above
      | .toEven => some (if below % 2 = 0 then below else above)

/-- The first grid with a point that reads back, from `10 ^ e` on to finer ones. -/
def search (r : Rounding) (tie : Tie) : Nat → Int → Decimal
  | 0, e => ⟨r.centre * powerOfTen (-e).toNat / r.den, e⟩
  | steps + 1, e =>
    match r.onGrid? tie e with
    | some 0 => r.search tie steps (e - 1)
    | some c => ⟨c, e⟩
    | none => r.search tie steps (e - 1)

end Rounding

/-- A power of ten above a quotient, and at most a thousandfold of it. -/
def decimalBound (num den : Nat) : Int :=
  ((num.log2 : Int) - den.log2 + 1) * 30103 / 100000 + 1

/-- The decimal with the fewest digits that reads back as a finite number, and of those the
one nearest to it. -/
def shortest (tie : Tie) (mantissa : Nat) (exponent : Int) : Decimal :=
  if mantissa = 0 then ⟨0, 0⟩
  else
    let (num, den) := Binary64.ratio mantissa exponent
    (Rounding.around mantissa exponent).search tie 24 (decimalBound num den)

end ContainerCommand.Number
