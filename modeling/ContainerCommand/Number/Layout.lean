import ContainerCommand.Number.Shortest

/-! Texts of numbers.

Two ways to write a number are used: with a set number of places, exactly rounded
(`fixed`), and with the shortest digits that read back (`Layout.write`), where a
`Layout` says which numbers are written positionally, whether a whole one keeps its
`.0`, and where ties between digits go. Both make a `Numeral`, which knows its text. -/
namespace ContainerCommand.Number

/-- Digits cut in front of the last `places` of them, with at least one in front. -/
def splitPlaces (digits : List Nat) (places : Nat) : List Nat × List Nat :=
  let padded := List.replicate (places + 1 - digits.length) 0 ++ digits
  padded.splitAt (padded.length - places)

/-- The text of an infinity. -/
def infiniteText (negative : Bool) : String :=
  if negative then "-inf" else "inf"

/-- A finite number rounded to a set number of places, a half to the even digit. -/
def fixedNumeral (places : Nat) (negative : Bool) (mantissa : Nat) (exponent : Int) : Numeral :=
  let (num, den) := Binary64.ratio mantissa exponent
  let (whole, fraction) := splitPlaces (digitsOf (roundDiv (num * powerOfTen places) den)) places
  { negative, whole, fraction := if places = 0 then none else some fraction, power := none }

/-- The text of a number with a set number of places. -/
def fixed (places : Nat) (x : Binary64) : String :=
  match x.datum with
  | .notANumber => "NaN"
  | .infinite negative => infiniteText negative
  | .finite negative mantissa exponent => (fixedNumeral places negative mantissa exponent).text

/-- The power of ten of the first digit of a quotient that is not zero. -/
def leadingPower (num den : Nat) : Int :=
  if den ≤ num then ((digitsOf (num / den)).length : Int) - 1
  else
    let count := (digitsOf (den / num)).length
    if num * powerOfTen (count - 1) = den then 1 - (count : Int) else -(count : Int)

/-- A finite number rounded to one digit in front of the point and some behind it, a half to the
even digit: the digits, and the power of ten of the first one. -/
def leadingDigits (places : Nat) (mantissa : Nat) (exponent : Int) : List Nat × Int :=
  if mantissa = 0 then (List.replicate (places + 1) 0, 0)
  else
    let (num, den) := Binary64.ratio mantissa exponent
    let power := leadingPower num den
    let scale := (places : Int) - power
    let digits := digitsOf <|
      if 0 ≤ scale then roundDiv (num * powerOfTen scale.toNat) den
      else roundDiv num (den * powerOfTen (-scale).toNat)
    (digits.take (places + 1), if places + 1 < digits.length then power + 1 else power)

/-- How numbers are written with their shortest digits. -/
structure Layout where
  /-- Whether a number whose first digit counts `10 ^ e` is written without an exponent. -/
  isPositional : Int → Bool
  /-- Whether a whole number without an exponent ends in `.0`. -/
  pointZero : Bool
  tie : Tie

namespace Layout

/-- A decimal without an exponent. -/
def positional (layout : Layout) (negative : Bool) (d : Decimal) : Numeral :=
  let digits := digitsOf d.coefficient
  if 0 ≤ d.exponent then
    { negative, whole := digits ++ List.replicate d.exponent.toNat 0
      fraction := if layout.pointZero then some [0] else none, power := none }
  else
    let (whole, fraction) := splitPlaces digits (-d.exponent).toNat
    { negative, whole, fraction := some fraction, power := none }

/-- A decimal with one digit in front of the point and an exponent. -/
def scientific (negative : Bool) (d : Decimal) : Numeral :=
  let (whole, rest) := (digitsOf d.coefficient).splitAt 1
  { negative, whole, fraction := if rest.isEmpty then none else some rest
    power := some (d.exponent + rest.length) }

/-- The numeral of a decimal. -/
def ofDecimal (layout : Layout) (negative : Bool) (d : Decimal) : Numeral :=
  if layout.isPositional (d.exponent + (digitsOf d.coefficient).length - 1) then
    layout.positional negative d
  else scientific negative d

/-- The numeral of a finite number. -/
def numeral? (layout : Layout) (x : Binary64) : Option Numeral :=
  match x.datum with
  | .finite negative mantissa exponent =>
    some (layout.ofDecimal negative (shortest layout.tie mantissa exponent))
  | _ => none

/-- The text of a number with its shortest digits. -/
def write (layout : Layout) (x : Binary64) : String :=
  match x.datum with
  | .notANumber => "NaN"
  | .infinite negative => infiniteText negative
  | .finite negative mantissa exponent =>
    (layout.ofDecimal negative (shortest layout.tie mantissa exponent)).text

end Layout

end ContainerCommand.Number
