import ContainerCommand.Number.Layout
import ContainerCommand.Number.Precision
import ContainerCommand.Shell.Decimal
import ContainerCommand.Shell.Escape
import ContainerCommand.Shell.Quote

/-! How `printf` reads an argument and writes it in a field.

An argument that is to be a number is read from its front: what follows is complained
about, and so is a number out of range. The shell's own `printf` and the program differ in
their words and in the floating-point numbers that they know (`Dialect`). -/
namespace ContainerCommand.Shell
open Number

inductive Dialect where
  | builtin
  /-- A program, and how it has been called. -/
  | program (name : String)
deriving DecidableEq

namespace Dialect

def isProgram : Dialect → Bool
  | .builtin => false
  | .program _ => true

def escapes : Dialect → Escapes
  | .builtin => .shell
  | .program _ => .printf

def precision : Dialect → Precision
  | .builtin => .double
  | .program _ => .extended

end Dialect

/-- What has been written, what has been complained about, and the status that this leaves. -/
structure Written where
  bytes : List UInt8 := []
  complaints : List String := []
  status : Nat := 0

/-- What has been written before and what after; the greater status stays. -/
def Written.append (first second : Written) : Written :=
  ⟨first.bytes ++ second.bytes, first.complaints ++ second.complaints,
    max first.status second.status⟩

/-! ### Arguments that are numbers -/

/-- What is wrong with an argument that is to be a number. -/
inductive Doubt where
  | notNumeric
  | trailing
  | outOfRange
deriving DecidableEq

def Doubt.message (dialect : Dialect) (arg : String) (doubt : Doubt) : String :=
  match dialect, doubt with
  | .builtin, .notNumeric => arg ++ ": expected numeric value"
  | .builtin, .trailing => arg ++ ": not completely converted"
  | .builtin, .outOfRange => arg ++ ": Numerical result out of range"
  | .program name, .notNumeric => name ++ ": " ++ shownText arg ++ ": expected a numeric value"
  | .program name, .trailing =>
    name ++ ": " ++ shownText arg ++ ": value not completely converted"
  | .program name, .outOfRange =>
    name ++ ": " ++ shownText arg ++ ": Numerical result out of range"

/-- The doubt about an argument of which something is left, or that is out of range. The program
speaks of the range first. -/
def doubt? (dialect : Dialect) (arg rest : List Char) (isInRange : Bool) : Option Doubt :=
  let left? :=
    if rest.isEmpty then none else if rest = arg then some .notNumeric else some Doubt.trailing
  let range? := if isInRange then none else some Doubt.outOfRange
  if dialect.isProgram then range? <|> left? else left? <|> range?

/-- The complaint about an argument. -/
def complaint (dialect : Dialect) (arg : String) (rest : List Char) (isInRange : Bool) :
    Written :=
  match doubt? dialect arg.toList rest isInRange with
  | some doubt => { complaints := [doubt.message dialect arg], status := 1 }
  | none => {}

/-- The integer at the front of a text, and what follows: decimal, octal behind a zero, or
hexadecimal behind `0x`. -/
def leadingInteger (cs : List Char) : Int × List Char :=
  let (negative, rest) := splitSign (cs.dropWhile isSpacing)
  let (radix, digits) := match rest with
    | '0' :: x :: more =>
      if (x == 'x' || x == 'X') && more.head?.any isHexadecimal then (16, more) else (8, rest)
    | '0' :: _ => (8, rest)
    | _ => (10, rest)
  let own := digits.takeWhile fun c => (radixValue? radix c).isSome
  let magnitude : Int := (ofRadix? radix own).getD 0
  if own.isEmpty then (0, cs)
  else (if negative then -magnitude else magnitude, digits.drop own.length)

/-- The character behind a quote by its number, and what is said of more behind it. -/
def characterCode? (dialect : Dialect) (arg : String) : Option (Nat × Written) :=
  match dialect, arg.toList with
  | .builtin, c :: rest =>
    if c == '\'' || c == '"' then
      some (rest.head?.elim 0 Char.toNat, {})
    else none
  | .program name, c :: d :: rest =>
    if c == '\'' || c == '"' then
      some (d.toNat, { complaints :=
        if rest.isEmpty then []
        else [name ++ ": warning: " ++ String.ofList rest ++
          ": character(s) following character constant have been ignored"] })
    else none
  | _, _ => none

/-- An argument as a number that a signed word holds. -/
def signedArgument (dialect : Dialect) (arg : String) : Int × Written :=
  match characterCode? dialect arg with
  | some (code, remarks) => (code, remarks)
  | none =>
    let (n, rest) := leadingInteger arg.toList
    (clampSigned 64 n, complaint dialect arg rest (fitsWord n))

/-- An argument as a number that a word without a sign holds; a negative one counts from the end of
the words. -/
def unsignedArgument (dialect : Dialect) (arg : String) : Nat × Written :=
  match characterCode? dialect arg with
  | some (code, remarks) => (code, remarks)
  | none =>
    let (n, rest) := leadingInteger arg.toList
    let isInRange := n.natAbs < wordCount 64
    (if isInRange then (n % (wordCount 64 : Int)).toNat else wordCount 64 - 1,
      complaint dialect arg rest isInRange)

/-! ### Arguments that are floating-point numbers -/

/-- The magnitude of a number that an argument writes. -/
inductive Magnitude where
  | notANumber
  | infinite
  | quotient (num den : Nat)

/-- A whole number times a power of ten. Powers beyond every format are cut. -/
def scaledByTen (coefficient : Nat) (power : Int) : Magnitude :=
  let digits : Int := (digitsOf coefficient).length
  let power := max (-digits - 6000) (min (6000 - digits) power)
  if 0 ≤ power then .quotient (coefficient * powerOfTen power.toNat) 1
  else .quotient coefficient (powerOfTen (-power).toNat)

/-- A whole number times a power of two. Powers beyond every format are cut. -/
def scaledByTwo (coefficient : Nat) (power : Int) : Magnitude :=
  let digits : Int := coefficient.log2
  let power := max (-digits - 20000) (min (20000 - digits) power)
  if 0 ≤ power then .quotient (coefficient * wordCount power.toNat) 1
  else .quotient coefficient (wordCount (-power).toNat)

/-- The power behind one of two letters, and what follows; without digits there is none. -/
def leadingPower? (small large : Char) : List Char → Int × List Char
  | [] => (0, [])
  | c :: rest =>
    let (negative, digits) := splitSign rest
    let (own, last) := spanDigits digits
    if (c == small || c == large) && !own.isEmpty then
      let n : Int := ofDigits own
      (if negative then -n else n, last)
    else (0, c :: rest)

/-- The digits of a radix on both sides of a point, and what follows; nothing if there are no
digits. -/
def leadingPlaces? (radix : Nat) (cs : List Char) : Option (List Char × List Char × List Char) :=
  let isDigit (c : Char) := (radixValue? radix c).isSome
  let whole := cs.takeWhile isDigit
  let (fraction, rest) := match cs.drop whole.length with
    | '.' :: rest => (rest.takeWhile isDigit, rest.dropWhile isDigit)
    | rest => ([], rest)
  if whole.isEmpty && fraction.isEmpty then none else some (whole, fraction, rest)

/-- What follows one of some names at the front of a text, in any case of letters. -/
def afterName? (name : String) (cs : List Char) : Option (List Char) :=
  let count := name.length
  if (cs.take count).map Char.toLower = name.toList then some (cs.drop count) else none

/-- What follows a remark in brackets behind the name of no number. -/
def afterRemark (cs : List Char) : List Char :=
  match cs with
  | '(' :: rest =>
    match rest.dropWhile fun c => c.isAlphanum || c == '_' with
    | ')' :: last => last
    | _ => cs
  | _ => cs

/-- The magnitude of the number at the front of a text, and what follows. -/
def leadingMagnitude? (cs : List Char) : Option (Magnitude × List Char) :=
  let decimal? : Option (Magnitude × List Char) := do
    let (whole, fraction, rest) ← leadingPlaces? 10 cs
    let (power, rest) := leadingPower? 'e' 'E' rest
    return (scaledByTen ((ofRadix? 10 (whole ++ fraction)).getD 0) (power - fraction.length), rest)
  let hexadecimal? : Option (Magnitude × List Char) :=
    match cs with
    | '0' :: x :: more => do
      if x != 'x' && x != 'X' then none
      let (whole, fraction, rest) ← leadingPlaces? 16 more
      let (power, rest) := leadingPower? 'p' 'P' rest
      return (scaledByTwo ((ofRadix? 16 (whole ++ fraction)).getD 0)
        (power - 4 * fraction.length), rest)
    | _ => none
  let infinite? := (afterName? "infinity" cs <|> afterName? "inf" cs).map (Magnitude.infinite, ·)
  let notANumber? := (afterName? "nan" cs).map fun rest => (Magnitude.notANumber, afterRemark rest)
  hexadecimal? <|> decimal? <|> infinite? <|> notANumber?

/-- An argument as a floating-point number, with its sign. -/
def realArgument (dialect : Dialect) (arg : String) : (Bool × Binary64.Datum) × Written :=
  match characterCode? dialect arg with
  | some (code, remarks) => ((false, (dialect.precision.nearest false code 1).1), remarks)
  | none =>
    let cs := arg.toList
    let (negative, digits) := splitSign (cs.dropWhile isSpacing)
    match leadingMagnitude? digits with
    | none => ((false, .finite false 0 0), complaint dialect arg cs true)
    | some (.notANumber, rest) => ((negative, .notANumber), complaint dialect arg rest true)
    | some (.infinite, rest) => ((negative, .infinite negative), complaint dialect arg rest true)
    | some (.quotient num den, rest) =>
      let (x, isInRange) := dialect.precision.nearest negative num den
      ((negative, x), complaint dialect arg rest isInRange)

/-! ### Fields -/

/-- How a conversion lays out what it writes. -/
structure Shape where
  flags : List Char
  width : Nat
  places : Option Nat

namespace Shape

def has (shape : Shape) (flag : Char) : Bool := shape.flags.contains flag

/-- Bytes in a field, blanks in front of them or behind them, or zeros behind what leads. -/
def field (shape : Shape) (takesZeros : Bool) (lead body : List UInt8) : List UInt8 :=
  let gap := shape.width - (lead.length + body.length)
  if shape.has '-' then lead ++ body ++ List.replicate gap 32
  else if takesZeros && shape.has '0' then lead ++ List.replicate gap 48 ++ body
  else List.replicate gap 32 ++ lead ++ body

/-- Characters in a field. -/
def textField (shape : Shape) (takesZeros : Bool) (lead body : List Char) : List UInt8 :=
  shape.field takesZeros (Text.bytesOfChars lead) (Text.bytesOfChars body)

/-- Bytes in a field, as many as there are places for. -/
def cut (shape : Shape) (bytes : List UInt8) : List UInt8 :=
  shape.field false [] ((shape.places.map bytes.take).getD bytes)

/-- What shows the sign of a number. -/
def sign (shape : Shape) (negative : Bool) : List Char :=
  if negative then ['-'] else if shape.has '+' then ['+'] else if shape.has ' ' then [' '] else []

/-- The digits of a whole number, with zeros in front for the places. Zero in no place has none. -/
def wholeDigits (shape : Shape) (radix n : Nat) : List Char :=
  let digits := if n = 0 && shape.places = some 0 then [] else Nat.toDigits radix n
  List.replicate (shape.places.getD 0 - digits.length) '0' ++ digits

/-- A whole number with a sign. -/
def signed (shape : Shape) (n : Int) : List UInt8 :=
  shape.textField shape.places.isNone (shape.sign (n < 0)) (shape.wholeDigits 10 n.natAbs)

/-- A whole number without a sign, in the radix of a letter. -/
def unsigned (shape : Shape) (letter : Char) (n : Nat) : List UInt8 :=
  let radix := if letter == 'o' then 8 else if letter == 'u' then 10 else 16
  let digits := (shape.wholeDigits radix n).map fun c => if letter == 'X' then c.toUpper else c
  let digits := if shape.has '#' && letter == 'o' && digits.head? ≠ some '0' then '0' :: digits
    else digits
  let lead := if shape.has '#' && radix = 16 && n ≠ 0 then ['0', letter] else []
  shape.textField shape.places.isNone lead digits

/-- Digits on both sides of a point. The point stands without digits behind it if it is asked
for. -/
def pointed (shape : Shape) (whole fraction : List Char) : List Char :=
  whole ++ if fraction.isEmpty && !shape.has '#' then [] else '.' :: fraction

/-- Digits without the zeros at their end. -/
def trimZeros (digits : List Nat) : List Nat :=
  (digits.reverse.dropWhile (· = 0)).reverse

/-- A power behind a letter, with a sign and at least so many digits. -/
def powerText (letter : Char) (count : Nat) (power : Int) : List Char :=
  let digits := Numeral.digitText (digitsOf power.natAbs)
  letter :: (if power < 0 then '-' else '+') ::
    (List.replicate (count - digits.length) '0' ++ digits)

/-- A finite number with some places behind the point. -/
def fixedText (shape : Shape) (trims : Bool) (places mantissa : Nat) (exponent : Int) :
    List Char :=
  let n := fixedNumeral places false mantissa exponent
  let fraction := n.fraction.getD []
  shape.pointed (Numeral.digitText n.whole)
    (Numeral.digitText (if trims then trimZeros fraction else fraction))

/-- Digits with the point behind the first one, and a power of ten. -/
def scientificText (shape : Shape) (trims : Bool) (digits : List Nat) (power : Int) : List Char :=
  let fraction := digits.drop 1
  shape.pointed (Numeral.digitText (digits.take 1))
    (Numeral.digitText (if trims then trimZeros fraction else fraction)) ++ powerText 'e' 2 power

/-- A finite number with so many digits in all, by the way of writing that suits its size. -/
def generalText (shape : Shape) (mantissa : Nat) (exponent : Int) : List Char :=
  let count := max 1 (shape.places.getD 6)
  let (digits, power) := leadingDigits (count - 1) mantissa exponent
  let trims := !shape.has '#'
  if -4 ≤ power ∧ power < count then
    shape.fixedText trims ((count : Int) - 1 - power).toNat mantissa exponent
  else shape.scientificText trims digits power

/-- A finite number by its hexadecimal digits. In front of the point stand the bits of a full
mantissa that make no digit of four. -/
def hexadecimalText (shape : Shape) (p : Precision) (mantissa : Nat) (exponent : Int) :
    List Char :=
  let all := (p.bits - 1) / 4
  let missing := if mantissa = 0 then 0 else p.bits - 1 - mantissa.log2
  let whole := mantissa * wordCount missing
  let places := shape.places.getD all
  let rounded := if places < all then roundDiv whole (wordCount (4 * (all - places)))
    else whole * wordCount (4 * (places - all))
  let lead := rounded / wordCount (4 * places)
  let power := exponent - missing + 4 * all
  let (lead, power) := if 16 ≤ lead then (lead / 16, power + 4) else (lead, power)
  let digits := Nat.toDigits 16 (rounded % wordCount (4 * places))
  let digits := List.replicate (places - digits.length) '0' ++ digits.take places
  let digits := if shape.places.isSome then digits
    else (digits.reverse.dropWhile (· == '0')).reverse
  shape.pointed (Nat.toDigits 16 lead) digits ++
    powerText 'p' 1 (if mantissa = 0 then 0 else power)

/-- A floating-point number in the way of writing of a letter. -/
def real (shape : Shape) (p : Precision) (letter : Char) (negative : Bool) (x : Binary64.Datum) :
    List UInt8 :=
  let cased (cs : List Char) := if letter.isUpper then cs.map Char.toUpper else cs
  let sign := shape.sign negative
  match x with
  | .notANumber => shape.textField false sign (cased ['n', 'a', 'n'])
  | .infinite _ => shape.textField false sign (cased ['i', 'n', 'f'])
  | .finite _ mantissa exponent =>
    match letter.toLower with
    | 'f' =>
      shape.textField true sign (shape.fixedText false (shape.places.getD 6) mantissa exponent)
    | 'e' =>
      let (digits, power) := leadingDigits (shape.places.getD 6) mantissa exponent
      shape.textField true sign (cased (shape.scientificText false digits power))
    | 'g' => shape.textField true sign (cased (shape.generalText mantissa exponent))
    | _ =>
      shape.textField true (sign ++ cased ['0', 'x'])
        (cased (shape.hexadecimalText p mantissa exponent))

end Shape

end ContainerCommand.Shell
