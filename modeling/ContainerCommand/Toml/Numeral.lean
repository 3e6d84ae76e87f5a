import ContainerCommand.Document

/-! Numbers in TOML.

Integers are decimal with an optional sign, or hexadecimal, octal or binary without one.
Single underscores may stand between two digits. Numbers with a point or an exponent
are read as the nearest floating-point number, and one that is too large is refused. -/
namespace ContainerCommand.Toml
open Number

/-- The digits of a text in which single underscores may stand between digits. -/
def grouped? (radix : Nat) : List Char → Option (List Nat)
  | [] => none
  | [c] => (radixValue? radix c).map ([·])
  | c :: '_' :: rest => do return (← radixValue? radix c) :: (← grouped? radix rest)
  | c :: d :: rest => do return (← radixValue? radix c) :: (← grouped? radix (d :: rest))

/-- The digits at the front of a text with the underscores between them, and what follows. -/
def spanGrouped (cs : List Char) : List Char × List Char :=
  cs.span fun c => c.isDigit || c == '_'

/-- The numeral that a text writes in full: no zero in front of other digits, and digits on both
sides of a point and behind an exponent mark. -/
def numeral? (cs : List Char) : Option Numeral := do
  let (negative, rest) := splitSign cs
  let (whole, rest) := spanGrouped rest
  let whole ← grouped? 10 whole
  let (fraction, rest) ← match rest with
    | '.' :: rest =>
      let (fraction, rest) := spanGrouped rest
      (grouped? 10 fraction).map fun digits => (some digits, rest)
    | rest => some (none, rest)
  let power ← match rest with
    | [] => some none
    | c :: rest =>
      let (down, digits) := splitSign rest
      if c == 'e' || c == 'E' then
        (grouped? 10 digits).map fun digits =>
          let magnitude : Int := ofDigits digits
          some (if down then -magnitude else magnitude)
      else none
  if whole.head? == some 0 && 1 < whole.length then none
  else some { negative, whole, fraction, power }

/-- An integer that is not decimal. -/
def radixInteger? : List Char → Option Nat
  | '0' :: 'x' :: digits => (grouped? 16 digits).map (ofDigitsIn 16)
  | '0' :: 'o' :: digits => (grouped? 8 digits).map (ofDigitsIn 8)
  | '0' :: 'b' :: digits => (grouped? 2 digits).map (ofDigitsIn 2)
  | _ => none
where
  ofDigitsIn (radix : Nat) (digits : List Nat) : Nat :=
    digits.foldl (fun value digit => radix * value + digit) 0

/-- An integer of up to sixteen bytes. -/
def boundedInteger? (n : Int) : Option Document :=
  if fitsSigned 128 n || fitsUnsigned 128 n then some (.int n) else none

/-- An infinity or no number. -/
def special? (cs : List Char) : Option Binary64 :=
  let (negative, name) := splitSign cs
  if name == ['i', 'n', 'f'] then some (Binary64.infinity negative)
  else if name == ['n', 'a', 'n'] then some Binary64.nan
  else none

/-- The number that a text writes in full. -/
def number? (cs : List Char) : Option Document :=
  match radixInteger? cs, special? cs with
  | some n, _ => boundedInteger? n
  | none, some x => some (.float x)
  | none, none => do
    let n ← numeral? cs
    if n.isWhole then boundedInteger? n.toInt
    else
      let x := Binary64.ofNumeral n
      if x.isFinite then some (.float x) else none

end ContainerCommand.Toml
