/-! Decimal numbers that arguments write.

A number has digits, at most one sign in front of them, and blanks around it. It fits a signed
word of 64 bits. -/
namespace ContainerCommand.Shell

/-- Whether a character is blank around a number. -/
def isSpacing (c : Char) : Bool := c == ' ' || ('\t' ≤ c && c ≤ '\r')

/-- The number that a text writes. -/
def integer? (text : String) : Option Int :=
  let cs := ((text.toList.dropWhile isSpacing).reverse.dropWhile isSpacing).reverse
  let (isNegative, digits) := match cs with
    | '-' :: cs => (true, cs)
    | '+' :: cs => (false, cs)
    | cs => (false, cs)
  if digits.isEmpty || !digits.all Char.isDigit then none
  else
    let n : Int := digits.foldl (fun n c => 10 * n + (c.toNat - '0'.toNat)) 0
    let n := if isNegative then -n else n
    if -9223372036854775808 ≤ n && n ≤ 9223372036854775807 then some n else none

/-- The number that a text writes, which is not negative and fits half a word. -/
def natural? (text : String) : Option Nat := do
  let n ← integer? text
  if 0 ≤ n && n ≤ 2147483647 then some n.toNat else none

/-- The number that a text writes with digits alone. -/
def digits? (text : String) : Option Nat :=
  if !text.isEmpty && text.toList.all Char.isDigit then natural? text else none

end ContainerCommand.Shell
