import ContainerCommand.Number.Numeral
import ContainerCommand.Number.Rounding

/-! Binary floating-point numbers of sixty-four bits.

A `Binary64` is its word; `datum` reads the word as what it stands for, a signed
multiple of a power of two, an infinity or no number. Numbers come into the type
through `nearest` alone, which rounds an exact quotient of natural numbers once, so
every operation here is exact arithmetic followed by one rounding. -/
namespace ContainerCommand.Number

/-- A floating-point number in the binary interchange format of sixty-four bits. -/
structure Binary64 where
  bits : UInt64
deriving DecidableEq

namespace Binary64

/-- What a word stands for. -/
inductive Datum where
  | notANumber
  | infinite (negative : Bool)
  /-- The number `mantissa * 2 ^ exponent`, with its sign. -/
  | finite (negative : Bool) (mantissa : Nat) (exponent : Int)
deriving DecidableEq

/-- The least power of two that the format has. -/
def leastExponent : Int := -1074

/-- The words between a power of two and the next. -/
def hidden : Nat := wordCount 52

/-- The word of the sign alone. -/
def signWord : Nat := wordCount 63

/-- The word of positive infinity. -/
def infiniteWord : Nat := 2047 * hidden

/-- What the word of a number stands for. -/
def datum (x : Binary64) : Datum :=
  let word := x.bits.toNat
  let negative := decide (signWord ≤ word)
  let field := word / hidden % 2048
  let fraction := word % hidden
  if field = 2047 then if fraction = 0 then .infinite negative else .notANumber
  else if field = 0 then .finite negative fraction leastExponent
  else .finite negative (hidden + fraction) (field - 1075)

/-- The number with a sign and the word of its magnitude. -/
def ofMagnitude (negative : Bool) (word : Nat) : Binary64 :=
  ⟨UInt64.ofNat (if negative then signWord + word else word)⟩

def infinity (negative : Bool) : Binary64 := ofMagnitude negative infiniteWord

def zero (negative : Bool) : Binary64 := ofMagnitude negative 0

/-- The number that is no number. -/
def nan : Binary64 := ⟨0x7FF8000000000000⟩

/-- A quotient times a power of two, as a quotient. -/
def shift (num den : Nat) (e : Int) : Nat × Nat :=
  if 0 ≤ e then (num * wordCount e.toNat, den) else (num, den * wordCount (-e).toNat)

/-- The exponent at which a quotient has a mantissa of fifty-three bits, or the least one. -/
def exponentOf (num den : Nat) : Int :=
  let e : Int := (num.log2 : Int) - den.log2 - 52
  let (n, d) := shift num den (-e)
  max leastExponent (if hidden ≤ n / d then e else e - 1)

/-- The word of a mantissa at an exponent, infinity if it is too large. -/
def wordOf (mantissa : Nat) (exponent : Int) : Nat :=
  if mantissa < hidden then mantissa
  else min infiniteWord ((exponent + 1075).toNat * hidden + (mantissa - hidden))

/-- The number nearest to a quotient, the even one of two. -/
def nearest (negative : Bool) (num den : Nat) : Binary64 :=
  let e := exponentOf num den
  let (n, d) := shift num den (-e)
  ofMagnitude negative (wordOf (roundDiv n d) e)

/-- The number nearest to an integer. -/
def ofInt (n : Int) : Binary64 :=
  nearest (decide (n < 0)) n.natAbs 1

/-- The number nearest to `coefficient * 10 ^ scale`. Beyond the range of the format the
answer is known from the number of digits alone. -/
def ofScaled (negative : Bool) (coefficient : Nat) (scale : Int) : Binary64 :=
  let magnitude : Int := (Nat.repr coefficient).length + scale
  if coefficient = 0 || magnitude < -330 then zero negative
  else if 310 < magnitude then infinity negative
  else if 0 ≤ scale then nearest negative (coefficient * powerOfTen scale.toNat) 1
  else nearest negative coefficient (powerOfTen (-scale).toNat)

/-- The number nearest to what a numeral writes. -/
def ofNumeral (n : Numeral) : Binary64 :=
  ofScaled n.negative n.coefficient n.scale

def isNegative (x : Binary64) : Bool :=
  decide (signWord ≤ x.bits.toNat)

def isFinite (x : Binary64) : Bool :=
  match x.datum with
  | .finite .. => true
  | _ => false

/-- Whether the number is one of the two zeros. -/
def isZero (x : Binary64) : Bool :=
  match x.datum with
  | .finite _ mantissa _ => mantissa == 0
  | _ => false

/-- The magnitude of a finite number as a quotient. -/
def ratio (mantissa : Nat) (exponent : Int) : Nat × Nat :=
  shift mantissa 1 exponent

/-- The whole magnitude of a finite number, if it has no fraction. -/
def wholeMagnitude? (mantissa : Nat) (exponent : Int) : Option Nat :=
  let (n, d) := ratio mantissa exponent
  if n % d = 0 then some (n / d) else none

/-- The number without its fraction as a signed word, the nearest one if it is out of range,
and zero for no number. -/
def truncate (x : Binary64) : Int :=
  match x.datum with
  | .notANumber => 0
  | .infinite negative =>
    clampSigned 64 (if negative then -(wordCount 64 : Int) else (wordCount 64 : Int))
  | .finite negative mantissa exponent =>
    let (n, d) := ratio mantissa exponent
    let whole : Int := (n / d : Nat)
    clampSigned 64 (if negative then -whole else whole)

/-- The quotient of two finite numbers of which the second is positive, rounded once. -/
def divide (x y : Binary64) : Binary64 :=
  match x.datum, y.datum with
  | .finite negative m e, .finite _ m' e' =>
    let (n, d) := ratio m e
    let (n', d') := ratio m' e'
    nearest negative (n * d') (d * n')
  | _, _ => x

/-- The product of two finite numbers of which the second is positive, rounded once. -/
def multiply (x y : Binary64) : Binary64 :=
  match x.datum, y.datum with
  | .finite negative m e, .finite _ m' e' =>
    let (n, d) := ratio m e
    let (n', d') := ratio m' e'
    nearest negative (n * n') (d * d')
  | _, _ => x

/-- The name of an infinity or of no number in any case of letters. -/
def readWord? (cs : List Char) : Option Binary64 :=
  let (negative, rest) := splitSign cs
  let name := rest.map Char.toLower
  if name == ['i', 'n', 'f'] || name == ['i', 'n', 'f', 'i', 'n', 'i', 't', 'y'] then
    some (infinity negative)
  else if name == ['n', 'a', 'n'] then some nan
  else none

/-- The number that a text writes in full: a numeral, an infinity or no number. -/
def read? (cs : List Char) : Option Binary64 :=
  match readNumeral? cs with
  | some n => some (ofNumeral n)
  | none => readWord? cs

end Binary64

end ContainerCommand.Number
