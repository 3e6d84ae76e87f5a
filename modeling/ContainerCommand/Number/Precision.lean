import ContainerCommand.Number.Binary64

/-! Binary formats of floating-point numbers that differ in size.

A `Precision` tells how many bits a mantissa has and where the exponents end. A quotient
is rounded to a precision once (`nearest`), and what comes out says whether the quotient
was within the range of the format. -/
namespace ContainerCommand.Number

structure Precision where
  /-- How many bits a mantissa has. -/
  bits : Nat
  /-- The least power of two that a mantissa is multiplied with. -/
  least : Int
  /-- The power of two that every finite number stays below. -/
  limit : Int

namespace Precision

/-- The format of sixty-four bits. -/
def double : Precision := ⟨53, Binary64.leastExponent, 1024⟩

/-- The format of eighty bits, which has no hidden one in its mantissa. -/
def extended : Precision := ⟨64, -16445, 16384⟩

/-- The least mantissa that has all its bits. -/
def full (p : Precision) : Nat := wordCount (p.bits - 1)

/-- The exponent at which a quotient has a full mantissa, or the least one. -/
def exponentOf (p : Precision) (num den : Nat) : Int :=
  let e : Int := (num.log2 : Int) - den.log2 - (p.bits - 1 : Nat)
  let (n, d) := Binary64.shift num den (-e)
  max p.least (if p.full ≤ n / d then e else e - 1)

/-- The number nearest to a quotient, the even one of two, and whether the quotient lies within
the range: it is not too large, and it is not too small for a full mantissa unless it is met
exactly. -/
def nearest (p : Precision) (negative : Bool) (num den : Nat) : Binary64.Datum × Bool :=
  if num = 0 then (.finite negative 0 p.least, true)
  else
    let e := p.exponentOf num den
    let (n, d) := Binary64.shift num den (-e)
    let mantissa := roundDiv n d
    if p.limit ≤ mantissa.log2 + e then (.infinite negative, false)
    else (.finite negative mantissa e, p.full ≤ mantissa || n % d = 0)

end Precision

end ContainerCommand.Number
