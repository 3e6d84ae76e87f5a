/-! Words: the numbers that so many bits hold. -/
namespace ContainerCommand.Number

/-- How many words of so many bits there are. -/
def wordCount (bits : Nat) : Nat := Nat.pow 2 bits

/-- Whether a signed word of so many bits holds a number. -/
def fitsSigned (bits : Nat) (n : Int) : Bool :=
  decide (-(wordCount (bits - 1) : Int) ≤ n) && decide (n < (wordCount (bits - 1) : Int))

/-- Whether an unsigned word of so many bits holds a number. -/
def fitsUnsigned (bits : Nat) (n : Int) : Bool :=
  decide (0 ≤ n) && decide (n < (wordCount bits : Int))

/-- A number moved to the nearest one that a signed word of so many bits holds. -/
def clampSigned (bits : Nat) (n : Int) : Int :=
  max (-(wordCount (bits - 1) : Int)) (min ((wordCount (bits - 1) : Int) - 1) n)

/-- The number that a signed word of so many bits keeps of another one. -/
def wrapSigned (bits : Nat) (n : Int) : Int :=
  n.bmod (wordCount bits)

end ContainerCommand.Number
