import ContainerCommand.Number.Numeral
import ContainerCommand.Text.Narrow

/-! Escapes behind a backslash, and what `echo` writes.

The shell's own commands, the program `echo` and the program `printf` know different
escapes (`Escapes`). An escape writes bytes, ends all output or is refused. -/
namespace ContainerCommand.Shell
open Number

/-- Whose escapes are meant. -/
inductive Escapes where
  | shell
  | echo
  | printf
deriving DecidableEq

/-- How output goes on behind a part of it. -/
inductive Ending where
  | goesOn
  | stops
  | fails (text : String)
deriving DecidableEq

/-- The byte that a character stands for. -/
def byteOf (c : Char) : UInt8 := UInt8.ofNat c.toNat

def isOctal (c : Char) : Bool := '0' ≤ c && c ≤ '7'

def isHexadecimal (c : Char) : Bool := (radixValue? 16 c).isSome

/-- The byte that up to `limit` octal digits at the front write, and what follows. -/
def octal (limit : Nat) (cs : List Char) : UInt8 × List Char :=
  let digits := (cs.take limit).takeWhile isOctal
  (UInt8.ofNat (digits.foldl (fun n c => 8 * n + digitValue c) 0), cs.drop digits.length)

/-- The byte that a letter behind a backslash stands for. -/
def letterByte? : Char → Option UInt8
  | 'a' => some 7
  | 'b' => some 8
  | 't' => some 9
  | 'n' => some 10
  | 'v' => some 11
  | 'f' => some 12
  | 'r' => some 13
  | 'e' => some 27
  | '\\' => some 92
  | _ => none

/-- Digits of a number in sixteens, filled up with zeros. -/
def hexDigits (width : Nat) (n : Nat) : String :=
  let digits := (Nat.toDigits 16 n).map Char.toUpper
  String.ofList (List.replicate (width - digits.length) '0' ++ digits)

def missingDigits : Ending := .fails "missing hexadecimal number in escape"

/-- A character that is written by its number. Those beyond the plain ones are shown by their
numbers. -/
def numbered (letter : Char) (cs : List Char) : List UInt8 × Ending :=
  let n := (ofRadix? 16 cs).getD 0
  if 0xD800 ≤ n && n ≤ 0xDFFF then
    ([], .fails ("invalid universal character name \\" ++ letter.toString ++
      (hexDigits cs.length n).map Char.toLower))
  else if n < 0x80 then ([UInt8.ofNat n], .goesOn)
  else
    let text := if n < 0x10000 then "\\u" ++ hexDigits 4 n else "\\U" ++ hexDigits 8 n
    (Text.toBytes text, .goesOn)

/-- What stands behind a backslash, and what follows; `inText` if it stands in a text and not in a
format. -/
def escape (escapes : Escapes) (inText : Bool) :
    List Char → (List UInt8 × Ending) × List Char
  | [] => (([92], .goesOn), [])
  | c :: rest =>
    let byte (b : UInt8) (last : List Char) : (List UInt8 × Ending) × List Char :=
      (([b], .goesOn), last)
    let isProgram := escapes ≠ .shell
    if c = 'c' && (inText || escapes = .printf) then (([], .stops), [])
    else if c = '0' && inText then byte (octal 3 rest).1 (octal 3 rest).2
    else if isOctal c then byte (octal 3 (c :: rest)).1 (octal 3 (c :: rest)).2
    else if c = '"' && escapes = .printf then byte 34 rest
    else if c = 'x' && isProgram && (escapes = .printf || rest.head?.any isHexadecimal) then
      let digits := (rest.take 2).takeWhile isHexadecimal
      if digits.isEmpty then (([], missingDigits), [])
      else byte (UInt8.ofNat ((ofRadix? 16 digits).getD 0)) (rest.drop digits.length)
    else if (c = 'u' || c = 'U') && escapes = .printf then
      let digits := rest.take (if c = 'u' then 4 else 8)
      if digits.length = (if c = 'u' then 4 else 8) && digits.all isHexadecimal then
        (numbered c digits, rest.drop digits.length)
      else (([], missingDigits), [])
    else match letterByte? c with
      | some b => byte b rest
      | none =>
        if isProgram then (([92, byteOf c], .goesOn), rest)
        else byte 92 (c :: rest)

/-- The bytes of a text with escapes, and how they end. -/
def escapedBytes (escapes : Escapes) : Nat → List Char → List UInt8 × Ending
  | 0, _ | _, [] => ([], .goesOn)
  | fuel + 1, '\\' :: rest =>
    match escape escapes true rest with
    | ((bs, .goesOn), last) =>
      let (bytes, ending) := escapedBytes escapes fuel last
      (bs ++ bytes, ending)
    | (own, _) => own
  | fuel + 1, c :: rest =>
    let (bytes, ending) := escapedBytes escapes fuel rest
    (byteOf c :: bytes, ending)

/-! ### Lines of arguments -/

/-- Arguments with blanks between them. -/
def joinArguments (args : List String) : List Char :=
  (" ".intercalate args).toList

/-- Bytes with the end of a line, if nothing keeps it off. -/
def endLine (noEnd : Bool) : List UInt8 × Ending → List UInt8
  | (bytes, ending) => if noEnd || ending ≠ .goesOn then bytes else bytes ++ [10]

/-- What the shell's own `echo` writes: escapes always count. -/
def echoBuiltin (args : List String) : List UInt8 :=
  let (noEnd, args) := match args with
    | "-n" :: rest => (true, rest)
    | args => (false, args)
  let cs := joinArguments args
  endLine noEnd (escapedBytes .shell (cs.length + 1) cs)

/-- Whether an argument of `echo` holds options. -/
def isEchoOption (arg : String) : Bool :=
  match arg.toList with
  | '-' :: c :: rest => (c :: rest).all fun d => d == 'n' || d == 'e' || d == 'E'
  | _ => false

/-- What the program `echo` writes: escapes count if they are asked for. -/
def echoProgram (args : List String) : List UInt8 :=
  let letters := (args.takeWhile isEchoOption).flatMap (·.toList.drop 1)
  let cs := joinArguments (args.dropWhile isEchoOption)
  endLine (letters.contains 'n') <|
    if (letters.filter (· != 'n')).getLast? == some 'e' then
      escapedBytes .echo (cs.length + 1) cs
    else (Text.bytesOfChars cs, .goesOn)

end ContainerCommand.Shell
