import ContainerCommand.Shell.Conversion

/-! Formatted output: what `printf` writes.

A format is a list of directives: bytes, and conversions that each take an argument. It
is used again while arguments are left, and arguments that are missing count as empty. -/
namespace ContainerCommand.Shell
open Number

/-- Where a width or a number of places comes from. -/
inductive Extent where
  | given (n : Nat)
  | argument

/-- How a conversion is asked for. -/
structure Spec where
  flags : List Char
  width : Extent
  places : Option Extent
  letter : Char
  /-- How the conversion itself is written. -/
  raw : List Char

inductive Directive where
  | bytes (bs : List UInt8)
  | conversion (spec : Spec)
  /-- A conversion that breaks off. -/
  | broken (cs : List Char)
  /-- An escape that ends all output. -/
  | ending (ending : Ending)

/-- An extent at the front of a text, and what follows. -/
def leadingExtent : List Char → Extent × List Char
  | '*' :: rest => (.argument, rest)
  | cs => let (digits, rest) := spanDigits cs; (.given (ofDigits digits), rest)

/-- What stands behind a percent sign, and what follows. The program knows more flags, and skips
the letters that speak of sizes. -/
def spec? (dialect : Dialect) (cs : List Char) : Option (Spec × List Char) :=
  let isFlag (c : Char) := "-0+ #".toList.contains c ||
    (dialect.isProgram && (c == '\'' || c == 'I'))
  let flags := cs.takeWhile isFlag
  let (width, rest) := leadingExtent (cs.dropWhile isFlag)
  let (places, rest) := match rest with
    | '.' :: rest => let (extent, rest) := leadingExtent rest; (some extent, rest)
    | rest => (none, rest)
  let rest := if dialect.isProgram then rest.dropWhile "hlLjtz".toList.contains else rest
  match rest with
  | [] => none
  | letter :: rest =>
    some (⟨flags, width, places, letter, cs.take (cs.length - rest.length)⟩, rest)

/-- Whether there is a conversion with a letter and its flags. The shell leaves flags that mean
nothing to a letter alone; the program does not, and reads texts with escapes and words for a
shell only without any. -/
def Spec.isValid (dialect : Dialect) (spec : Spec) : Bool :=
  let has (flag : Char) := spec.flags.contains flag
  let isAmong (letters : String) := letters.toList.contains spec.letter
  match dialect with
  | .builtin => isAmong "bcsdiouxXaAeEfFgG"
  | .program _ =>
    (isAmong "csdiouxXaAeEfFgG" || (isAmong "bq" && spec.raw.length = 1)) &&
      !((has '\'' || has 'I') && isAmong "aAceEosxX") &&
      !(has '#' && isAmong "cdisu") && !(has '0' && isAmong "cs") &&
      !(spec.places.isSome && isAmong "c")

/-- The parts of a format. -/
def directives (dialect : Dialect) : Nat → List Char → List Directive
  | 0, _ | _, [] => []
  | fuel + 1, '\\' :: rest =>
    match escape dialect.escapes false rest with
    | ((bs, .goesOn), last) => .bytes bs :: directives dialect fuel last
    | ((_, ending), _) => [.ending ending]
  | fuel + 1, '%' :: '%' :: rest => .bytes [37] :: directives dialect fuel rest
  | fuel + 1, '%' :: rest =>
    match spec? dialect rest with
    | some (spec, last) => .conversion spec :: directives dialect fuel last
    | none => [.broken rest]
  | fuel + 1, c :: rest => .bytes [byteOf c] :: directives dialect fuel rest

/-! ### Writing -/

/-- How far a format has come. -/
structure Printing where
  written : Written := {}
  /-- The arguments that are left. -/
  args : List String
  isOver : Bool := false

namespace Printing

def put (p : Printing) (written : Written) : Printing :=
  { p with written := p.written.append written }

/-- Ends all output. -/
def stop (p : Printing) : Printing := { p with isOver := true }

/-- Gives up with a complaint. -/
def give (p : Printing) (dialect : Dialect) (text : String) : Printing :=
  match dialect with
  | .builtin => (p.put ⟨[], [text], 2⟩).stop
  | .program name => (p.put ⟨[], [name ++ ": " ++ text], 1⟩).stop

/-- Goes on, or ends as an escape says. The program is content then, whatever was before. -/
def finish (p : Printing) (dialect : Dialect) : Ending → Printing
  | .goesOn => p
  | .stops =>
    if dialect.isProgram then { p with written := { p.written with status := 0 } }.stop else p.stop
  | .fails text => p.give dialect text

/-- The next argument, empty if there is none, and the rest of the printing. -/
def next (p : Printing) : String × Printing :=
  (p.args.headD "", { p with args := p.args.drop 1 })

/-- The number of an extent, which is a width or a number of places. -/
def extent (p : Printing) (dialect : Dialect) (isWidth : Bool) : Extent → Int × Printing
  | .given n => (n, p)
  | .argument =>
    let (arg, p) := p.next
    let (n, remarks) := signedArgument dialect arg
    let p := p.put remarks
    let isTooLarge := (wordCount 31 : Int) ≤ n ||
      (isWidth && n < -(wordCount 31 : Int))
    if dialect.isProgram && isTooLarge then
      let what := if isWidth then "field width" else "precision"
      (0, p.give dialect ("invalid " ++ what ++ ": " ++ shownText arg))
    else (n, p)

/-- The layout of a conversion. A negative width asks for blanks behind, and a negative number of
places counts as none. -/
def shape (p : Printing) (dialect : Dialect) (spec : Spec) : Shape × Printing :=
  let (width, p) := p.extent dialect true spec.width
  let flags := if width < 0 then '-' :: spec.flags else spec.flags
  match spec.places with
  | none => (⟨flags, width.natAbs, none⟩, p)
  | some extent =>
    if p.isOver then (⟨flags, 0, none⟩, p)
    else
      let (places, p) := p.extent dialect false extent
      (⟨flags, width.natAbs, if places < 0 then none else some places.toNat⟩, p)

/-- Writes an argument as a conversion says. -/
def convert (p : Printing) (dialect : Dialect) (spec : Spec) : Printing :=
  let (shape, p) := p.shape dialect spec
  if p.isOver then p
  else if !spec.isValid dialect then
    p.give dialect ("%" ++ String.ofList spec.raw ++
      if dialect.isProgram then ": invalid conversion specification" else ": invalid directive")
  else
    let isMissing := p.args.isEmpty
    let (arg, p) := p.next
    let put (bytes : List UInt8) (remarks : Written) := p.put { remarks with bytes }
    match spec.letter with
    | 's' => put (shape.cut (Text.toBytes arg)) {}
    | 'c' => put (shape.field false [] [(Text.toBytes arg).headD 0]) {}
    | 'b' =>
      let (bytes, ending) := escapedBytes dialect.escapes (arg.length + 1) arg.toList
      (put (shape.cut bytes) {}).finish dialect ending
    | 'q' => if isMissing then p else put (Text.toBytes (shellWord [] arg)) {}
    | 'd' | 'i' => let (n, remarks) := signedArgument dialect arg; put (shape.signed n) remarks
    | 'o' | 'u' | 'x' | 'X' =>
      let (n, remarks) := unsignedArgument dialect arg
      put (shape.unsigned spec.letter n) remarks
    | letter =>
      let ((negative, x), remarks) := realArgument dialect arg
      put (shape.real dialect.precision letter negative x) remarks

/-- Writes the parts of a format. -/
def pass (dialect : Dialect) : List Directive → Printing → Printing
  | [], p => p
  | d :: rest, p =>
    let p := match d with
      | .bytes bs => p.put { bytes := bs }
      | .conversion spec => p.convert dialect spec
      | .broken cs =>
        p.give dialect (if dialect.isProgram then
          "%" ++ String.ofList cs ++ ": invalid conversion specification"
          else "missing format character")
      | .ending ending => p.finish dialect ending
    if p.isOver then p else pass dialect rest p

end Printing

/-- What a program says of arguments that no conversion takes. -/
def excess (dialect : Dialect) (args : List String) : Written :=
  match dialect, args with
  | .program name, arg :: _ => { complaints :=
      [name ++ ": warning: ignoring excess arguments, starting with " ++ shownText arg] }
  | _, _ => {}

/-- What a format writes when it is used again while arguments are left. -/
def writeAll (dialect : Dialect) (ds : List Directive) : Nat → Printing → Written
  | 0, p => p.written
  | fuel + 1, p =>
    let last := Printing.pass dialect ds p
    if last.isOver || last.args.isEmpty then last.written
    else if last.args.length = p.args.length then last.written.append (excess dialect last.args)
    else writeAll dialect ds fuel last

/-- What `printf` writes with a format and arguments. -/
def printf (dialect : Dialect) (args : List String) : Written :=
  match args with
  | [] | ["--"] =>
    match dialect with
    | .builtin => ⟨[], ["usage: printf format [arg ...]"], 2⟩
    | .program name =>
      ⟨[], [name ++ ": missing operand",
        "Try '" ++ name ++ " --help' for more information."], 1⟩
  | "--" :: format :: args | format :: args =>
    let ds := directives dialect (format.length + 1) format.toList
    writeAll dialect ds (args.length + 1) { args }

end ContainerCommand.Shell
