import ContainerCommand.Number.Word

/-! Decimal numerals as they are written.

A document's reader decides which spellings it admits and hands on a `Numeral`:
the sign, the digits on both sides of the point, and the power of ten. What number
that is, exactly or rounded, is asked of the numeral afterwards, so that each
format's grammar and each kind of number are stated once. -/
namespace ContainerCommand.Number

def powerOfTen (n : Nat) : Nat := Nat.pow 10 n

/-- The number that a list of decimal digits writes, most significant first. -/
def ofDigits (digits : List Nat) : Nat :=
  digits.foldl (fun value digit => 10 * value + digit) 0

/-- The value of a decimal digit. -/
def digitValue (c : Char) : Nat :=
  c.toNat - '0'.toNat

/-- The decimal digits of a number, most significant first. -/
def digitsOf (n : Nat) : List Nat :=
  (Nat.toDigits 10 n).map digitValue

/-- The digits at the front of a text, and what follows them. -/
def spanDigits (cs : List Char) : List Nat × List Char :=
  ((cs.takeWhile Char.isDigit).map digitValue, cs.dropWhile Char.isDigit)

/-- The value of a digit of a radix up to sixteen. -/
def radixValue? (radix : Nat) (c : Char) : Option Nat :=
  let value? :=
    if c.isDigit then some (c.toNat - '0'.toNat)
    else if 'a' ≤ c && c ≤ 'f' then some (c.toNat - 'a'.toNat + 10)
    else if 'A' ≤ c && c ≤ 'F' then some (c.toNat - 'A'.toNat + 10)
    else none
  value?.filter (· < radix)

/-- The number that the digits of a radix write. -/
def ofRadix? (radix : Nat) (cs : List Char) : Option Nat :=
  cs.foldlM (fun value c => (radixValue? radix c).map (radix * value + ·)) 0

/-- A decimal numeral as it is written. -/
structure Numeral where
  negative : Bool
  /-- The digits in front of the point. -/
  whole : List Nat
  /-- The digits after the point, if there is one. -/
  fraction : Option (List Nat)
  /-- The power of ten behind the exponent mark, if there is one. -/
  power : Option Int
deriving DecidableEq

namespace Numeral

/-- Whether the numeral has neither point nor exponent. -/
def isWhole (n : Numeral) : Bool :=
  n.fraction.isNone && n.power.isNone

/-- The number that all digits write when the point is left out. -/
def coefficient (n : Numeral) : Nat :=
  ofDigits (n.whole ++ n.fraction.getD [])

/-- The power of ten that the coefficient is to be multiplied with. -/
def scale (n : Numeral) : Int :=
  n.power.getD 0 - (n.fraction.getD []).length

/-- A whole number as a numeral. -/
def ofInt (n : Int) : Numeral :=
  { negative := decide (n < 0), whole := digitsOf n.natAbs, fraction := none, power := none }

/-- The characters of some digits. -/
def digitText (digits : List Nat) : List Char :=
  digits.map Nat.digitChar

/-- The exponent part of a numeral: a mark, a sign and the digits. -/
def powerText (power : Int) : List Char :=
  'e' :: (if power < 0 then '-' else '+') :: digitText (digitsOf power.natAbs)

/-- The text of a numeral. -/
def text (n : Numeral) : String :=
  String.ofList <|
    (if n.negative then ['-'] else []) ++ digitText n.whole ++
    (match n.fraction with
      | some digits => '.' :: digitText digits
      | none => []) ++
    (match n.power with
      | some power => powerText power
      | none => [])

/-- The whole number that the digits in front of the point write. -/
def toInt (n : Numeral) : Int :=
  if n.negative then -(ofDigits n.whole : Int) else ofDigits n.whole

end Numeral

/-- A number that a signed word of sixty-four bits holds. -/
def fitsWord (n : Int) : Bool := fitsSigned 64 n

/-- Splits a leading sign off: whether it is a minus, and what follows. -/
def splitSign : List Char → Bool × List Char
  | '-' :: rest => (true, rest)
  | '+' :: rest => (false, rest)
  | cs => (false, cs)

/-- The integer that a text writes: an optional sign and one or more digits, within the
range of a signed word. -/
def readInteger? (cs : List Char) : Option Int :=
  let (negative, digits) := splitSign cs
  if digits.isEmpty || !digits.all Char.isDigit then none
  else
    let magnitude : Int := ofDigits (digits.map digitValue)
    let n := if negative then -magnitude else magnitude
    if fitsWord n then some n else none

/-- The exponent at the front of a text, `0` where there is none; nothing if the mark stands
without digits. -/
def readPower? (cs : List Char) : Option (Option Int × List Char) :=
  match cs with
  | c :: rest =>
    if c == 'e' || c == 'E' then
      let (negative, rest) := splitSign rest
      let (digits, rest) := spanDigits rest
      if digits.isEmpty then none
      else
        let magnitude : Int := ofDigits digits
        some (some (if negative then -magnitude else magnitude), rest)
    else some (none, cs)
  | [] => some (none, [])

/-- The numeral that a text writes in full: digits on at least one side of an optional
point, and an optional exponent. -/
def readNumeral? (cs : List Char) : Option Numeral := do
  let (negative, rest) := splitSign cs
  let (whole, rest) := spanDigits rest
  let (fraction, rest) := match rest with
    | '.' :: rest => let (digits, rest) := spanDigits rest; (some digits, rest)
    | rest => (none, rest)
  if whole.isEmpty && (fraction.getD []).isEmpty then none
  else
    let (power, rest) ← readPower? rest
    if rest.isEmpty then some { negative, whole, fraction, power } else none

end ContainerCommand.Number
